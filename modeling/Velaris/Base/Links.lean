import Mathlib.Data.List.Basic

/-!
# Chains of links

A link has a number, the hash of the link before it, and a hash of its own.

* `Linked`   the links are numbered in a row, each on the hash of the one before it;
* `linkAll`   the links a loop makes of a list of entries, each on the last;
* `linked_append`, `linkAll_linked`   what a chain grows by;
* `Linked.exists_sequence`, `Linked.prevHash_eq`   the numbers leave no gap, and the link before.
-/

namespace Base

section
variable {α δ : Type*} (sequence : α → Nat) (prevHash contentHash : α → δ)

/-- the links are numbered from `k`, and each carries the hash of the one before it -/
def Linked : Nat → δ → List α → Prop
  | _, _, [] => True
  | k, prev, b :: bs => sequence b = k ∧ prevHash b = prev ∧ Linked (k + 1) (contentHash b) bs

def lastSequence (bs : List α) : Nat := (bs.getLast?.map sequence).getD 0

def lastHash (prev : δ) (bs : List α) : δ := (bs.getLast?.map contentHash).getD prev

variable {sequence prevHash contentHash}

theorem lastHash_cons {prev : δ} {a : α} {bs : List α} :
    lastHash contentHash prev (a :: bs) = lastHash contentHash (contentHash a) bs := by
  cases bs with
  | nil => rfl
  | cons b bs =>
    unfold lastHash
    rw [List.getLast?_cons_cons, List.getLast?_eq_some_getLast (List.cons_ne_nil b bs)]
    rfl

theorem linked_append {k : Nat} {prev : δ} {as bs : List α} :
    Linked sequence prevHash contentHash k prev (as ++ bs) ↔
      Linked sequence prevHash contentHash k prev as ∧
        Linked sequence prevHash contentHash (k + as.length) (lastHash contentHash prev as) bs := by
  induction as generalizing k prev with
  | nil => simp [Linked, lastHash]
  | cons a as ih =>
    have hlen : k + 1 + as.length = k + (a :: as).length := by
      rw [List.length_cons]
      omega
    rw [List.cons_append, Linked, Linked, ih, hlen, lastHash_cons, and_assoc, and_assoc]

theorem linked_concat {k : Nat} {prev : δ} {bs : List α} {b : α} :
    Linked sequence prevHash contentHash k prev (bs ++ [b]) ↔
      Linked sequence prevHash contentHash k prev bs ∧ sequence b = k + bs.length ∧
        prevHash b = lastHash contentHash prev bs := by
  rw [linked_append, Linked, Linked, and_true]

theorem Linked.sequence_bounds {k : Nat} {prev : δ} {bs : List α}
    (h : Linked sequence prevHash contentHash k prev bs) {b : α} (hb : b ∈ bs) :
    k ≤ sequence b ∧ sequence b < k + bs.length := by
  induction bs generalizing k prev with
  | nil => cases hb
  | cons a bs ih =>
    rw [List.length_cons]
    rcases List.mem_cons.mp hb with rfl | hb
    · have hs := h.1
      omega
    · have hs := ih h.2.2 hb
      omega

theorem Linked.eq_of_sequence {k : Nat} {prev : δ} {bs : List α}
    (h : Linked sequence prevHash contentHash k prev bs) {b c : α} (hb : b ∈ bs) (hc : c ∈ bs)
    (he : sequence b = sequence c) : b = c := by
  induction bs generalizing k prev with
  | nil => cases hb
  | cons a bs ih =>
    have ha := h.1
    rcases List.mem_cons.mp hb with hba | hb' <;> rcases List.mem_cons.mp hc with hca | hc'
    · rw [hba, hca]
    · have hcs := (h.2.2.sequence_bounds hc').1
      rw [hba] at he
      omega
    · have hbs := (h.2.2.sequence_bounds hb').1
      rw [hca] at he
      omega
    · exact ih h.2.2 hb' hc'

theorem Linked.exists_sequence {k : Nat} {prev : δ} {bs : List α}
    (h : Linked sequence prevHash contentHash k prev bs) {n : Nat} (hk : k ≤ n)
    (hn : n < k + bs.length) : ∃ b ∈ bs, sequence b = n := by
  induction bs generalizing k prev with
  | nil =>
    rw [List.length_nil] at hn
    omega
  | cons a bs ih =>
    rw [List.length_cons] at hn
    by_cases ha : n = k
    · exact ⟨a, List.mem_cons_self, h.1.trans ha.symm⟩
    · obtain ⟨b, hb, hs⟩ := ih h.2.2 (by omega) (by omega)
      exact ⟨b, List.mem_cons_of_mem a hb, hs⟩

theorem Linked.prevHash_eq {k : Nat} {prev : δ} {bs : List α}
    (h : Linked sequence prevHash contentHash k prev bs) {b : α} (hb : b ∈ bs) :
    (sequence b = k → prevHash b = prev) ∧
      ∀ a ∈ bs, sequence b = sequence a + 1 → prevHash b = contentHash a := by
  induction bs generalizing k prev with
  | nil => cases hb
  | cons c bs ih =>
    have hlater : ∀ x ∈ bs, k + 1 ≤ sequence x := fun x hx => (h.2.2.sequence_bounds hx).1
    have hc := h.1
    rcases List.mem_cons.mp hb with rfl | hb'
    · refine ⟨fun _ => h.2.1, ?_⟩
      intro a ha hs
      rcases List.mem_cons.mp ha with rfl | ha'
      · omega
      · have hbound := hlater a ha'
        omega
    · obtain ⟨hfirst, hnext⟩ := ih h.2.2 hb'
      have hbound := hlater b hb'
      refine ⟨fun hs => by omega, ?_⟩
      intro a ha hs
      rcases List.mem_cons.mp ha with rfl | ha'
      · exact hfirst (by omega)
      · exact hnext a ha' hs

theorem Linked.lastSequence_eq {prev : δ} {bs : List α}
    (h : Linked sequence prevHash contentHash 1 prev bs) :
    lastSequence sequence bs = bs.length := by
  rcases List.eq_nil_or_concat bs with rfl | ⟨init, b, rfl⟩
  · rfl
  · rw [List.concat_eq_append] at h ⊢
    have hs := (linked_concat.mp h).2.1
    simp [lastSequence, hs, Nat.add_comm]

theorem Linked.map {k : Nat} {prev : δ} {bs : List α}
    (h : Linked sequence prevHash contentHash k prev bs) {f : α → α}
    (hf : ∀ b, sequence (f b) = sequence b ∧ prevHash (f b) = prevHash b ∧
      contentHash (f b) = contentHash b) :
    Linked sequence prevHash contentHash k prev (bs.map f) := by
  induction bs generalizing k prev with
  | nil => trivial
  | cons a bs ih =>
    obtain ⟨h1, h2, h3⟩ := hf a
    refine ⟨h1.trans h.1, h2.trans h.2.1, ?_⟩
    rw [h3]
    exact ih h.2.2

end

/-! ## linking entries -/

section
variable {ε α δ : Type*} (contentHash : α → δ) (make : Nat → δ → ε → α)

/-- a link for every entry, numbered from `k`, each on the hash of the one before it -/
def linkAll : Nat → δ → List ε → List α
  | _, _, [] => []
  | k, prev, e :: es =>
    let link := make k prev e
    link :: linkAll (k + 1) (contentHash link) es

variable {contentHash make}

theorem mem_linkAll {k : Nat} {prev : δ} {es : List ε} {a : α}
    (h : a ∈ linkAll contentHash make k prev es) :
    ∃ e ∈ es, ∃ n h, k ≤ n ∧ a = make n h e := by
  induction es generalizing k prev with
  | nil => cases h
  | cons e es ih =>
    rcases List.mem_cons.mp h with rfl | h
    · exact ⟨e, List.mem_cons_self, k, prev, Nat.le_refl k, rfl⟩
    · obtain ⟨e', he', n, h', hle, rfl⟩ := ih h
      exact ⟨e', List.mem_cons_of_mem _ he', n, h', by omega, rfl⟩

theorem exists_mem_linkAll {k : Nat} {prev : δ} {es : List ε} {e : ε} (h : e ∈ es) :
    ∃ n h, k ≤ n ∧ make n h e ∈ linkAll contentHash make k prev es := by
  induction es generalizing k prev with
  | nil => cases h
  | cons a es ih =>
    rcases List.mem_cons.mp h with rfl | h
    · exact ⟨k, prev, Nat.le_refl k, List.mem_cons_self⟩
    · obtain ⟨n, h', hle, hmem⟩ := @ih (k + 1) (contentHash (make k prev a)) h
      exact ⟨n, h', by omega, List.mem_cons_of_mem _ hmem⟩

theorem map_linkAll {β : Type*} (f : α → β) (g : ε → β) (hfg : ∀ k prev e, f (make k prev e) = g e)
    (k : Nat) (prev : δ) (es : List ε) :
    (linkAll contentHash make k prev es).map f = es.map g := by
  induction es generalizing k prev with
  | nil => rfl
  | cons e es ih => rw [linkAll, List.map_cons, List.map_cons, hfg, ih]

theorem linkAll_linked {sequence : α → Nat} {prevHash : α → δ}
    (hs : ∀ k prev e, sequence (make k prev e) = k)
    (hp : ∀ k prev e, prevHash (make k prev e) = prev) (k : Nat) (prev : δ) (es : List ε) :
    Linked sequence prevHash contentHash k prev (linkAll contentHash make k prev es) := by
  induction es generalizing k prev with
  | nil => trivial
  | cons e es ih => exact ⟨hs k prev e, hp k prev e, ih _ _⟩

end

end Base
