import Mathlib.Data.List.Nodup
import Mathlib.Data.List.Count

/-!
# Rows found by a key

A table is a list of rows, and a row is fetched by a column no two rows share.

* `find?_eq_of_unique`   the one row a test accepts is the row found;
* `find?_key_iff`   what is fetched by a key;
* `find?_filter_of_found`  what is found is found again among fewer rows;
* `lookup_map_snd`   a dictionary whose values are mapped;
* `lookup_of_put`   a dictionary after an assignment;
* `Scan`   the order of a query that names none;
* `modify key k f`   `UPDATE … SET … WHERE key = k`;
* `find?_modify`   what is fetched by its key afterwards;
* `mem_modify`, `forall_modify`   the rows afterwards;
* `countP_modify_le`   a change after which no more rows are counted;
* `countP_modify_le_succ`   a change of the one row counts one more at most.

An index is kept beside a table: the rows `ρ` are told apart by `ident`, a row stands under at most
one key, `key r`, and the index lists the keys that are stood under.

* `Stands key rows k`   some row stands under the key;
* `Beside ident key rows i k` a row other than `i` stands under it;
* `InStep key rows index`   the index lists the keys that are stood under, and no others;
* `clear key rows index k`   the key leaves the index, unless a row stands under it;
* `update ident rows i f`   the row `i` is rewritten;
* `InStep.clear`, `InStep.insert`   what the two writes of an index make good.
-/

namespace Base

variable {ρ κ : Type*}

theorem find?_eq_of_unique {p : ρ → Bool} {rows : List ρ} {r : ρ} (hr : r ∈ rows) (hp : p r)
    (hone : ∀ r' ∈ rows, p r' → r' = r) : rows.find? p = some r := by
  cases hf : rows.find? p with
  | none => exact absurd hp (List.find?_eq_none.mp hf r hr)
  | some r' => rw [hone r' (List.mem_of_find?_eq_some hf) (List.find?_some hf)]

theorem find?_key_iff [DecidableEq κ] {key : ρ → κ} {rows : List ρ} (hkeys : (rows.map key).Nodup)
    {k : κ} {r : ρ} : rows.find? (fun r' => key r' = k) = some r ↔ r ∈ rows ∧ key r = k := by
  constructor
  · intro h
    have hkey := List.find?_some h
    exact ⟨List.mem_of_find?_eq_some h, of_decide_eq_true hkey⟩
  · intro hx
    obtain ⟨hr, rfl⟩ := hx
    refine find?_eq_of_unique hr (decide_eq_true rfl) fun r' hr' he => ?_
    exact List.inj_on_of_nodup_map hkeys hr' hr (of_decide_eq_true he)

theorem find?_key_eq_none [DecidableEq κ] {key : ρ → κ} {rows : List ρ} {k : κ} :
    rows.find? (fun r => key r = k) = none ↔ ∀ r ∈ rows, key r ≠ k := by
  rw [List.find?_eq_none]
  exact forall₂_congr fun r _ => by simp

theorem mem_of_lookup [BEq κ] [LawfulBEq κ] {items : List (κ × ρ)} {k : κ} {v : ρ}
    (h : items.lookup k = some v) : (k, v) ∈ items := by
  obtain ⟨l₁, l₂, hl, -⟩ := List.lookup_eq_some_iff.mp h
  rw [hl]
  exact List.mem_append_right _ List.mem_cons_self

theorem lookup_of_mem_nodup [BEq κ] [LawfulBEq κ] {items : List (κ × ρ)}
    (hkeys : (items.map Prod.fst).Nodup) {i : κ × ρ} (hi : i ∈ items) :
    items.lookup i.1 = some i.2 := by
  induction items with
  | nil => cases hi
  | cons j items ih =>
    obtain ⟨hj, hkeys⟩ := List.nodup_cons.mp hkeys
    rcases List.mem_cons.mp hi with rfl | hi
    · exact List.lookup_cons_self
    · have hne : (i.1 == j.1) = false := by
        refine beq_false_of_ne fun h => hj ?_
        rw [← h]
        exact List.mem_map_of_mem hi
      rw [List.lookup_cons, hne]
      exact ih hkeys hi

theorem lookup_map_snd {τ : Type*} [BEq κ] (f : ρ → τ) (k : κ) (items : List (κ × ρ)) :
    (items.map fun i => (i.1, f i.2)).lookup k = (items.lookup k).map f := by
  induction items with
  | nil => rfl
  | cons i items ih =>
    rw [List.map_cons, List.lookup_cons, List.lookup_cons, ih]
    cases k == i.1 <;> rfl

theorem lookup_of_put [DecidableEq κ] (put : List (κ × ρ) → List (κ × ρ)) {k : κ} {v : ρ}
    (hnil : put [] = [(k, v)])
    (hcons : ∀ l w items,
      put ((l, w) :: items) = if l = k then (k, v) :: items else (l, w) :: put items)
    (m : κ) (items : List (κ × ρ)) :
    (put items).lookup m = if m = k then some v else items.lookup m := by
  induction items with
  | nil =>
    rw [hnil, List.lookup_cons, List.lookup_nil]
    by_cases h : m = k
    · simp [h]
    · simp [h, beq_false_of_ne h]
  | cons item items ih =>
    obtain ⟨l, w⟩ := item
    rw [hcons]
    by_cases hl : l = k
    · rw [if_pos hl, List.lookup_cons, List.lookup_cons, hl]
      by_cases h : m = k
      · simp [h]
      · simp [h, beq_false_of_ne h]
    · rw [if_neg hl, List.lookup_cons, List.lookup_cons, ih]
      by_cases h : m = l
      · simp [h, hl]
      · simp [beq_false_of_ne h]

theorem find?_filter_of_found {p q : ρ → Bool} {rows : List ρ} {r : ρ} (h : rows.find? q = some r)
    (hr : p r = true) : (rows.filter p).find? q = some r := by
  induction rows with
  | nil => cases h
  | cons a rows ih =>
    rw [List.find?_cons] at h
    cases hq : q a with
    | true =>
      rw [hq] at h
      cases h
      rw [List.filter_cons_of_pos hr, List.find?_cons, hq]
    | false =>
      rw [hq] at h
      have htail := ih h
      rw [List.filter_cons]
      split
      · rw [List.find?_cons, hq]
        exact htail
      · exact htail

/-- the order in which the database returns the rows of a query that names none -/
structure Scan (ρ : Type*) where
  order : List ρ → List ρ
  perm : ∀ rows, (order rows).Perm rows

/-- the rows that are left stand in the order they had -/
def Scan.Stable (s : Scan ρ) : Prop := ∀ (p : ρ → Bool) (rows : List ρ),
  s.order (rows.filter p) = (s.order rows).filter p

end Base

namespace Base

variable {ρ κ : Type*} [DecidableEq κ]

def modify (key : ρ → κ) (k : κ) (f : ρ → ρ) (rows : List ρ) : List ρ :=
  rows.map fun r => if key r = k then f r else r

variable {key : ρ → κ} {k : κ} {f : ρ → ρ} {rows : List ρ}

theorem map_key_modify (hkey : ∀ r, key (f r) = key r) :
    (modify key k f rows).map key = rows.map key := by
  rw [modify, List.map_map]
  apply List.map_congr_left
  intro r _
  show key (if key r = k then f r else r) = key r
  split
  · exact hkey r
  · rfl

theorem mem_modify {x : ρ} (h : x ∈ modify key k f rows) :
    (∃ r ∈ rows, key r = k ∧ x = f r) ∨ x ∈ rows := by
  obtain ⟨r, hr, rfl⟩ := List.mem_map.1 h
  split
  · exact Or.inl ⟨r, hr, ‹_›, rfl⟩
  · exact Or.inr hr

theorem forall_modify {p : ρ → Prop} (h : ∀ r ∈ rows, p r)
    (hf : ∀ r ∈ rows, key r = k → p r → p (f r)) : ∀ r ∈ modify key k f rows, p r := by
  intro x hx
  rcases mem_modify hx with ⟨r, hr, hk, rfl⟩ | hx
  · exact hf r hr hk (h r hr)
  · exact h x hx

theorem find?_modify (hkey : ∀ r, key (f r) = key r) (l : κ) :
    (modify key k f rows).find? (fun r => key r = l) =
      (rows.find? fun r => key r = l).map fun r => if key r = k then f r else r := by
  rw [modify, List.find?_map]
  have hsame : ((fun r => decide (key r = l)) ∘ fun r => if key r = k then f r else r) =
      fun r => decide (key r = l) := by
    funext r
    show decide (key (if key r = k then f r else r) = l) = decide (key r = l)
    split
    · rw [hkey]
    · rfl
  rw [hsame]

variable {p : ρ → Bool}

theorem countP_modify_le (h : ∀ r ∈ rows, key r = k → p (f r) = true → p r = true) :
    (modify key k f rows).countP p ≤ rows.countP p := by
  rw [modify, List.countP_map]
  apply List.countP_mono_left
  intro r hr hp
  change p (if key r = k then f r else r) = true at hp
  split at hp
  · exact h r hr ‹_› hp
  · exact hp

theorem countP_modify_le_succ (hnodup : (rows.map key).Nodup) :
    (modify key k f rows).countP p ≤ rows.countP (fun r => p r && key r ≠ k) + 1 := by
  induction rows with
  | nil => exact Nat.zero_le _
  | cons r rows ih =>
    obtain ⟨hnot, hrest⟩ := List.nodup_cons.1 hnodup
    show (((if key r = k then f r else r) :: modify key k f rows)).countP p ≤ _
    by_cases hk : key r = k
    · -- the key stands in no later row
      have hlater : ∀ x ∈ rows, key x ≠ k := by
        intro x hx hxk
        exact hnot (List.mem_map.2 ⟨x, hx, hxk.trans hk.symm⟩)
      have hsame : modify key k f rows = rows := by
        rw [modify]
        exact (List.map_congr_left fun x hx => if_neg (hlater x hx)).trans (List.map_id rows)
      have hcount : rows.countP (fun r => p r && key r ≠ k) = rows.countP p := by
        apply List.countP_congr
        intro x hx
        simp [hlater x hx]
      rw [if_pos hk, hsame, List.countP_cons, List.countP_cons, hcount]
      simp only [hk]
      split <;> simp
    · rw [if_neg hk, List.countP_cons, List.countP_cons]
      have htail := ih hrest
      have hcounted : (p r && decide (key r ≠ k)) = p r := by simp [hk]
      rw [hcounted]
      omega

end Base

namespace Base

variable {ρ ι κ : Type*} (ident : ρ → ι) (key : ρ → Option κ)

def Stands (rows : List ρ) (k : κ) : Prop := ∃ r ∈ rows, key r = some k

def Beside (rows : List ρ) (i : ι) (k : κ) : Prop := ∃ r ∈ rows, ident r ≠ i ∧ key r = some k

def InStep (rows : List ρ) (index : List κ) : Prop := ∀ k, k ∈ index ↔ Stands key rows k

instance [DecidableEq κ] (rows : List ρ) (k : κ) : Decidable (Stands key rows k) :=
  inferInstanceAs (Decidable (∃ r ∈ rows, key r = some k))

instance [DecidableEq ι] [DecidableEq κ] (rows : List ρ) (i : ι) (k : κ) :
    Decidable (Beside ident key rows i k) :=
  inferInstanceAs (Decidable (∃ r ∈ rows, ident r ≠ i ∧ key r = some k))

def clear [DecidableEq κ] (rows : List ρ) (index : List κ) (k : κ) : List κ :=
  if Stands key rows k then index else index.filter (· ≠ k)

def update [DecidableEq ι] (rows : List ρ) (i : ι) (f : ρ → ρ) : List ρ :=
  rows.map fun r => if ident r = i then f r else r

/-! ## what one row changes -/

variable {ident key} {rows rows' : List ρ} {index : List κ} {r : ρ} {f : ρ → ρ} {i : ι} {k : κ}

theorem map_ident_update [DecidableEq ι] (hf : ∀ r, ident (f r) = ident r) :
    (update ident rows i f).map ident = rows.map ident := by
  rw [update, List.map_map]
  apply List.map_congr_left
  intro r _
  show ident (if ident r = i then f r else r) = ident r
  split
  · exact hf r
  · rfl

theorem stands_append {more : List ρ} :
    Stands key (rows ++ more) k ↔ Stands key rows k ∨ Stands key more k := by
  simp only [Stands, List.mem_append, or_and_right, exists_or]

theorem stands_singleton : Stands key [r] k ↔ key r = some k := by
  simp only [Stands, List.mem_singleton, exists_eq_left]

theorem stands_iff_beside (hkeys : (rows.map ident).Nodup) (hr : r ∈ rows) :
    Stands key rows k ↔ key r = some k ∨ Beside ident key rows (ident r) k := by
  constructor
  · intro h
    obtain ⟨r', hr', hk⟩ := h
    by_cases hi : ident r' = ident r
    · rw [List.inj_on_of_nodup_map hkeys hr' hr hi] at hk
      exact .inl hk
    · exact .inr ⟨r', hr', hi, hk⟩
  · intro h
    cases h with
    | inl hk => exact ⟨r, hr, hk⟩
    | inr h =>
      obtain ⟨r', hr', -, hk⟩ := h
      exact ⟨r', hr', hk⟩

theorem stands_update [DecidableEq ι] (hkeys : (rows.map ident).Nodup) (hr : r ∈ rows) :
    Stands key (update ident rows (ident r) f) k ↔
      key (f r) = some k ∨ Beside ident key rows (ident r) k := by
  constructor
  · intro h
    obtain ⟨r', hr', hk⟩ := h
    obtain ⟨r₀, hr₀, rfl⟩ := List.mem_map.mp hr'
    by_cases hi : ident r₀ = ident r
    · rw [if_pos hi, List.inj_on_of_nodup_map hkeys hr₀ hr hi] at hk
      exact .inl hk
    · rw [if_neg hi] at hk
      exact .inr ⟨r₀, hr₀, hi, hk⟩
  · intro h
    cases h with
    | inl hk => exact ⟨_, List.mem_map_of_mem hr, by rw [if_pos rfl]; exact hk⟩
    | inr h =>
      obtain ⟨r', hr', hi, hk⟩ := h
      exact ⟨_, List.mem_map_of_mem hr', by rw [if_neg hi]; exact hk⟩

theorem stands_remove [DecidableEq ι] :
    Stands key (rows.filter fun r => ident r ≠ i) k ↔ Beside ident key rows i k := by
  simp only [Stands, Beside, List.mem_filter, decide_eq_true_eq, and_assoc]

/-! ## writes of the index -/

theorem mem_clear [DecidableEq κ] {k' : κ} :
    k' ∈ clear key rows index k ↔ k' ∈ index ∧ (k' = k → Stands key rows k) := by
  rw [clear]
  split
  · next h => exact (and_iff_left fun _ => h).symm
  · next h =>
    rw [List.mem_filter, decide_eq_true_eq]
    exact and_congr_right fun _ => ⟨fun hne he => absurd he hne, fun hst he => h (hst he)⟩

/-- rows that stood under `k` stand under no key, and `k` is cleared -/
theorem InStep.clear [DecidableEq κ] (h : InStep key rows index)
    (hfewer : ∀ k', Stands key rows' k' → Stands key rows k')
    (hkept : ∀ k', k' ≠ k → Stands key rows k' → Stands key rows' k') :
    InStep key rows' (clear key rows' index k) := by
  intro k'
  rw [mem_clear, h k']
  constructor
  · intro hk
    obtain ⟨hst, hcl⟩ := hk
    by_cases hkk : k' = k
    · rw [hkk]
      exact hcl hkk
    · exact hkept k' hkk hst
  · intro hst
    exact ⟨hfewer k' hst, fun hkk => hkk ▸ hst⟩

theorem InStep.insert [BEq κ] [LawfulBEq κ] (h : InStep key rows index)
    (hone : ∀ k', Stands key rows' k' ↔ k' = k ∨ Stands key rows k') :
    InStep key rows' (index.insert k) := by
  intro k'
  rw [List.mem_insert_iff, h k', hone k']

theorem InStep.iff_of_index (h : InStep key rows index) :
    InStep key rows' index ↔ ∀ k, Stands key rows' k ↔ Stands key rows k :=
  forall_congr' fun k => by rw [h k]; exact iff_comm

end Base
