import Velaris.Dmn.Import
import Velaris.Dmn.Kept
import Velaris.Feel.Test
import Velaris.Base.Table
import Velaris.Base.Traverse

/-!
# What an imported table is made of

* `Parsed`   the columns and the rows of a table that is accepted;
* `tried`   the numbers of the rows in the order they are tried;
* `conditions_eq`   the conditions of a row are those of its cells, in the order of the columns;
* `rowMatches_kept`   a row matches where every one of its conditions does;
* `find_evaluateRows` the row that is evaluated is the first, in the order tried, that matches.
-/

namespace Dmn
open Py Feel

variable {L : Library}

/-! ## the parts of an accepted table -/

def columnIds (table : Xml) : List String :=
  ((childrenOf table "input").zipIdx.map fun p =>
      orText (p.1.get "id") ("in" ++ toString (p.2 + 1))) ++
    (childrenOf table "output").zipIdx.map fun p =>
      orText (p.1.get "id") ("out" ++ toString (p.2 + 1))

structure ParsedRow (L : Library) (hit_policy : String) (inputs outputs : List Column)
    (ranking : List String) (rule : Xml) (row : Row) : Prop where
  length : (childrenOf rule "inputEntry").length = inputs.length
  conditions : parseConditions L ((childrenOf rule "inputEntry").zip inputs) = .ok row.conditions
  priority : if hit_policy = "PRIORITY" then
      rank ranking (L.str (Dict.get row.outcomes ((outputs.head?.map (·.id)).getD ""))) =
        some row.priority
    else row.priority = 0

structure Parsed (L : Library) (table : Xml) (D : Definition) (hit_policy : String)
    (ins outs : List Column) (ranking : List String) : Prop where
  columns : D.table_columns = ins ++ outs
  ids : D.table_columns.map Column.id = columnIds table
  policy : D.hit_policy = some hit_policy
  inputs : List.Forall₂ (fun el (col : Column) => col.is_condition = true ∧
    col.field_path = some (String.ofList (textOf el "inputExpression")))
    (childrenOf table "input") ins
  outputs : ∀ col ∈ outs, col.is_condition = false
  ranked : hit_policy = "PRIORITY" → priorityRanking L (childrenOf table "output") = .ok ranking
  rows : List.Forall₂ (ParsedRow L hit_policy ins outs ranking) (childrenOf table "rule")
    D.table_rows

theorem parsedRow_of_parseRow {name hit_policy : String} {inputs outputs : List Column}
    {ranking : List String} {n : Nat} {rule : Xml} {row : Row}
    (h : parseRow L name hit_policy inputs outputs ranking n rule = .ok row) :
    ParsedRow L hit_policy inputs outputs ranking rule row := by
  unfold parseRow at h
  simp only at h
  split at h
  · exact nomatch h
  rename_i hlen
  obtain ⟨conditions, hc, h⟩ := Base.exists_of_bind_ok h
  obtain ⟨outcomes, ho, h⟩ := Base.exists_of_bind_ok h
  obtain ⟨priority, hp, h⟩ := Base.exists_of_bind_ok h
  obtain rfl := Except.ok.inj h
  refine ⟨by tauto, hc, ?_⟩
  unfold rowPriority at hp
  split
  · rename_i hpol
    rw [if_pos hpol] at hp
    simp only at hp
    split at hp
    · rename_i n hn
      rw [hn, ← Except.ok.inj hp]
    · exact nomatch hp
  · rename_i hpol
    rw [if_neg hpol] at hp
    exact (Except.ok.inj hp).symm

theorem inputColumn_ok {name : String} {n : Nat} {el : Xml} {col : Column}
    (h : inputColumn L name n el = .ok col) : col.is_condition = true ∧
      col.field_path = some (String.ofList (textOf el "inputExpression")) ∧
      col.id = orText (el.get "id") ("in" ++ toString (n + 1)) := by
  unfold inputColumn at h
  simp only at h
  split at h
  · exact nomatch h
  split at h
  · exact nomatch h
  obtain rfl := Except.ok.inj h
  exact ⟨rfl, rfl, rfl⟩

theorem outputColumn_ok {name : String} {decision : Xml} {n : Nat} {el : Xml} {col : Column}
    (h : outputColumn name decision n el = .ok col) : col.is_condition = false ∧
      col.id = orText (el.get "id") ("out" ++ toString (n + 1)) := by
  unfold outputColumn at h
  simp only at h
  split at h
  · exact nomatch h
  obtain rfl := Except.ok.inj h
  exact ⟨rfl, rfl⟩

theorem forall₂_of_zipIdx {α β : Type} {f : α × Nat → Except Raised β} {R : α → β → Prop}
    {xs : List α} {ys : List β} (hf : ∀ x n y, f (x, n) = .ok y → R x y) {n : Nat}
    (h : (xs.zipIdx n).mapM f = .ok ys) : List.Forall₂ R xs ys := by
  replace h := Base.forall₂_of_mapM_ok h
  induction xs generalizing n ys with
  | nil =>
    cases h
    exact .nil
  | cons x xs ih =>
    cases h with
    | cons hx hrest => exact .cons (hf x n _ hx) (ih hrest)

theorem exists_parsed {decision table : Xml} {D : ImportedDecision}
    (h : parseTable L decision table = .ok D) : ∃ hit_policy ins outs ranking,
      Parsed L table D.definition_json hit_policy ins outs ranking := by
  unfold parseTable at h
  simp only at h
  obtain ⟨hit_policy, hp, h⟩ := Base.exists_of_bind_ok h
  obtain ⟨ins, hins, h⟩ := Base.exists_of_bind_ok h
  obtain ⟨outs, houts, h⟩ := Base.exists_of_bind_ok h
  split at h
  · exact nomatch h
  obtain ⟨ranking, hr, h⟩ := Base.exists_of_bind_ok h
  obtain ⟨rows, hrows, h⟩ := Base.exists_of_bind_ok h
  obtain rfl := Except.ok.inj h
  refine ⟨hit_policy, ins, outs, ranking, rfl, ?_, rfl, ?_, ?_, ?_, ?_⟩
  · show (ins ++ outs).map Column.id = columnIds table
    rw [List.map_append, Base.map_of_mapM_ok (fun _ _ hcol => (inputColumn_ok hcol).2.2) hins,
      Base.map_of_mapM_ok (fun _ _ hcol => (outputColumn_ok hcol).2) houts]
    rfl
  · refine forall₂_of_zipIdx (fun el n col hcol => ?_) hins
    obtain ⟨hcond, hpath, -⟩ := inputColumn_ok hcol
    exact ⟨hcond, hpath⟩
  · intro col hcol
    obtain ⟨el, -, he⟩ := Base.mem_left_of_forall₂ (Base.forall₂_of_mapM_ok houts) hcol
    exact (outputColumn_ok he).1
  · intro hpol
    rw [rankingFor, if_pos hpol] at hr
    exact hr
  · exact forall₂_of_zipIdx (fun _ _ _ => parsedRow_of_parseRow) hrows

theorem parseTable_of_parseDmn {fromstring : String → Except String Xml} {xml : String}
    {results : List ImportedDecision} (h : parseDmn L fromstring xml = .ok results) {root : Xml}
    (hroot : fromstring xml = .ok root) :
    List.Forall₂ (fun p D => parseTable L p.1 p.2 = .ok D) (tablesOf root) results := by
  unfold parseDmn at h
  rw [hroot] at h
  simp only at h
  split at h
  · exact nomatch h
  obtain ⟨results', hresults, h⟩ := Base.exists_of_bind_ok h
  split at h
  · exact nomatch h
  obtain rfl := Except.ok.inj h
  exact Base.forall₂_of_mapM_ok hresults

/-! ## the conditions of a row -/

theorem dict_set_fresh {k : String} (v : Value) {d : Dict} (h : k ∉ d.map Prod.fst) :
    Dict.set k v d = d ++ [(k, v)] := by
  induction d with
  | nil => rfl
  | cons p d ih =>
    have hne : p.1 ≠ k := fun he => h (by simp [← he])
    have hd : k ∉ d.map Prod.fst := fun hm => h (by simp [hm])
    rw [Dict.set, if_neg hne, ih hd]
    rfl

def kept (cols : List (Column × Value)) : Dict :=
  cols.filterMap fun p => (stored p.2).map fun v => (p.1.id, v)

theorem kept_keys (cols : List (Column × Value)) :
    ∀ k ∈ (kept cols).map Prod.fst, k ∈ cols.map fun p => p.1.id := by
  intro k hk
  obtain ⟨q, hq, rfl⟩ := List.mem_map.mp hk
  obtain ⟨p, hp, he⟩ := List.mem_filterMap.mp hq
  obtain ⟨v, -, rfl⟩ := Option.map_eq_some_iff.mp he
  exact List.mem_map.mpr ⟨p, hp, rfl⟩

theorem conditions_eq {cells : List Xml} {cols : List Column} {start conditions : Dict}
    (hlen : cells.length = cols.length)
    (hfresh : ∀ k ∈ start.map Prod.fst, k ∉ cols.map Column.id)
    (hids : (cols.map Column.id).Nodup)
    (h : (cells.zip cols).foldlM (storeCondition L) start = .ok conditions) :
    ∃ parsed, List.Forall₂ (fun cell v => parseUnaryTest L (cellText cell) = .ok v) cells parsed ∧
      conditions = start ++ kept (cols.zip parsed) := by
  induction cells generalizing cols start with
  | nil =>
    obtain rfl : cols = [] := List.eq_nil_of_length_eq_zero hlen.symm
    exact ⟨[], .nil, by simpa [kept] using (Except.ok.inj h).symm⟩
  | cons cell cells ih =>
    cases cols with
    | nil => exact nomatch hlen
    | cons col cols =>
      rw [List.zip_cons_cons, List.foldlM_cons] at h
      obtain ⟨start', hs, h⟩ := Base.exists_of_bind_ok h
      obtain ⟨v, hv, hs⟩ := Base.exists_of_bind_ok hs
      have hcol : col.id ∉ start.map Prod.fst := fun hm => hfresh _ hm (by simp)
      have hstart : start' = start ++ kept [(col, v)] := by
        rw [← Except.ok.inj hs]
        by_cases hn : v = Value.none
        · simp [kept, stored, hn]
        · rw [if_neg hn, dict_set_fresh v hcol]
          simp [kept, stored, hn]
      obtain ⟨hhead, htail⟩ := List.nodup_cons.mp hids
      have hfresh' : ∀ k ∈ start'.map Prod.fst, k ∉ cols.map Column.id := by
        intro k hk hmem
        rw [hstart, List.map_append] at hk
        obtain hk | hk := List.mem_append.mp hk
        · exact hfresh k hk (List.mem_cons_of_mem _ hmem)
        · have := kept_keys _ k hk
          obtain rfl : k = col.id := by simpa using this
          exact hhead hmem
      obtain ⟨parsed, hp, he⟩ := ih (Nat.succ.inj hlen) hfresh' htail h
      refine ⟨v :: parsed, .cons hv hp, ?_⟩
      rw [he, hstart, List.append_assoc, List.zip_cons_cons]
      refine congrArg (start ++ ·) ?_
      simp only [kept, List.filterMap_cons, List.filterMap_nil]
      cases stored v <;> rfl

theorem ParsedRow.parsed {hit_policy : String} {ins outs : List Column} {ranking : List String}
    {rule : Xml} {row : Row} (h : ParsedRow L hit_policy ins outs ranking rule row)
    (hids : (ins.map Column.id).Nodup) : ∃ parsed,
      List.Forall₂ (fun cell v => parseUnaryTest L (cellText cell) = .ok v)
        (childrenOf rule "inputEntry") parsed ∧ row.conditions = kept (ins.zip parsed) := by
  have hfresh : ∀ k ∈ ([] : Dict).map Prod.fst, k ∉ ins.map Column.id :=
    fun k hk => absurd hk List.not_mem_nil
  obtain ⟨parsed, hp, he⟩ := conditions_eq h.length hfresh hids h.conditions
  exact ⟨parsed, hp, by simpa using he⟩

theorem lookup_kept {cols : List (Column × Value)} (hids : (cols.map (·.1.id)).Nodup)
    {p : Column × Value} (hp : p ∈ cols) : (kept cols).lookup p.1.id = stored p.2 := by
  induction cols with
  | nil => exact absurd hp List.not_mem_nil
  | cons q cols ih =>
    obtain ⟨hhead, htail⟩ := List.nodup_cons.mp hids
    have hcons : kept (q :: cols) = ((stored q.2).map fun v => (q.1.id, v)).toList ++ kept cols := by
      simp only [kept, List.filterMap_cons]
      cases stored q.2 <;> rfl
    rw [hcons]
    obtain rfl | hp := List.mem_cons.mp hp
    · cases hs : stored p.2 with
      | some v => simp
      | none =>
        -- no later column has its id
        have : p.1.id ∉ (kept cols).map Prod.fst := fun hm => hhead (kept_keys cols _ hm)
        have hnone : (kept cols).lookup p.1.id = none := List.lookup_eq_none_iff.mpr fun q hq =>
          bne_iff_ne.mpr fun he => this (List.mem_map.mpr ⟨q, hq, he.symm⟩)
        simpa using hnone
    · have hne : (p.1.id == q.1.id) = false :=
        beq_eq_false_iff_ne.mpr fun he => hhead (List.mem_map.mpr ⟨p, hp, he⟩)
      rw [← ih htail hp]
      cases stored q.2 with
      | none => rfl
      | some v => simp [List.lookup_cons, hne]

/-! ## a row that matches -/

theorem columnOf_mem {columns : List Column} (hids : (columns.map Column.id).Nodup) {col : Column}
    (h : col ∈ columns) : columnOf columns col.id = some col := by
  refine Base.find?_eq_of_unique (List.mem_reverse.mpr h) (by simp) fun col' h' he => ?_
  exact List.inj_on_of_nodup_map hids (List.mem_reverse.mp h') h (of_decide_eq_true he)

theorem rowMatches_kept {columns : List Column} {context : Dict} {cols : List (Column × Value)}
    {answers : List Bool}
    (hcol : ∀ p ∈ cols, columnOf columns p.1.id = some p.1 ∧ p.1.is_condition = true)
    (h : List.Forall₂ (fun p answer => asks L (stored p.2)
      (resolvePath context (p.1.field_path.getD "")) = .ok answer) cols answers) :
    rowMatches L columns context (kept cols) = .ok (answers.all id) := by
  induction h with
  | nil => rfl
  | @cons p answer cols answers hp _ ih =>
    have ih := ih fun q hq => hcol q (List.mem_cons_of_mem p hq)
    obtain ⟨hc, hcond⟩ := hcol p List.mem_cons_self
    cases hs : stored p.2 with
    | none =>
      have hkept : kept (p :: cols) = kept cols := by simp [kept, hs]
      rw [hs] at hp
      rw [hkept, ih, List.all_cons, ← Except.ok.inj hp]
      rfl
    | some v =>
      have hkept : kept (p :: cols) = (p.1.id, v) :: kept cols := by simp [kept, hs]
      have hcheck : check L (resolvePath context (p.1.field_path.getD "")) v = .ok answer := by
        rw [hs] at hp
        exact hp
      rw [hkept, rowMatches, hc, Option.filter_some, if_pos hcond]
      simp only [hcheck, ih, List.all_cons]
      cases answer <;> rfl

/-! ## the order of the rows -/

/-- the rows with their numbers, in the order they are tried -/
def numbered (rows : List Row) : List (Row × Nat) :=
  rows.zipIdx.insertionSort fun a b => b.1.priority ≤ a.1.priority

def tried (rows : List Row) : List Nat := (numbered rows).map Prod.snd

theorem map_numbered (rows : List Row) : (numbered rows).map Prod.fst = byPriority rows := by
  unfold numbered byPriority
  rw [List.map_insertionSort (fun a b : Row × Nat => b.1.priority ≤ a.1.priority)
    (fun a b : Row => b.priority ≤ a.priority) Prod.fst _ fun a _ b _ => Iff.rfl,
    List.zipIdx_map_fst]

theorem mem_numbered {rows : List Row} {p : Row × Nat} :
    p ∈ numbered rows ↔ rows[p.2]? = some p.1 := by
  unfold numbered
  rw [List.mem_insertionSort, List.mem_zipIdx_iff_getElem?]

theorem mem_tried {rows : List Row} {i : Nat} : i ∈ tried rows ↔ i < rows.length := by
  unfold tried
  constructor
  · intro hi
    obtain ⟨p, hp, rfl⟩ := List.mem_map.mp hi
    exact (List.getElem?_eq_some_iff.mp (mem_numbered.mp hp)).1
  · intro hi
    exact List.mem_map.mpr ⟨(rows[i], i), mem_numbered.mpr (List.getElem?_eq_getElem hi), rfl⟩

theorem tried_of_equal {rows : List Row} {n : Int} (h : ∀ row ∈ rows, row.priority = n) :
    tried rows = List.range rows.length := by
  have hp : ∀ p ∈ rows.zipIdx, p.1.priority = n := fun p hp =>
    h _ (List.mem_of_getElem? (List.mem_zipIdx_iff_getElem?.mp hp))
  have hsorted : rows.zipIdx.Pairwise fun a b => b.1.priority ≤ a.1.priority :=
    List.pairwise_of_forall_mem_list fun a ha b hb => by rw [hp a ha, hp b hb]
  rw [tried, numbered, hsorted.insertionSort_eq, List.zipIdx_map_snd, List.range_eq_range']

theorem priority_le_of_find {rows : List Row} {hit : Nat → Bool} {i : Nat}
    (h : (tried rows).find? hit = some i) {j : Nat} (hj : j < rows.length) (hhit : hit j = true) :
    ∀ row ∈ rows[i]?, rows[j].priority ≤ row.priority := by
  intro row hrow
  rw [tried, List.find?_map] at h
  obtain ⟨p, hp, rfl⟩ := Option.map_eq_some_iff.mp h
  have hp' := mem_numbered.mp (List.mem_of_find?_eq_some hp)
  obtain rfl : p.1 = row := Option.some.inj (hp'.symm.trans hrow)
  have htotal : (numbered rows).Pairwise fun a b => b.1.priority ≤ a.1.priority :=
    haveI : Std.Total fun a b : Row × Nat => b.1.priority ≤ a.1.priority :=
      ⟨fun a b => le_total b.1.priority a.1.priority⟩
    haveI : IsTrans (Row × Nat) fun a b => b.1.priority ≤ a.1.priority :=
      ⟨fun _ _ _ hab hbc => hbc.trans hab⟩
    List.pairwise_insertionSort _ _
  exact le_of_find (fun a => le_refl a.1.priority) htotal hp (rows[j], j)
    (mem_numbered.mpr (List.getElem?_eq_getElem hj)) hhit

theorem find_evaluateRows {rule : Definition} {context : Dict} {rows : List (Row × Nat)}
    {hit : Nat → Bool} (h : ∀ p ∈ rows,
      rowMatches L rule.table_columns context p.1.conditions = .ok (hit p.2)) (n : Nat) :
    match rows.find? fun p => hit p.2 with
    | none => evaluateRows L rule context n (rows.map Prod.fst) = .ok ⟨false, rule.id, [], none⟩
    | some p => ∃ i, (rows.map Prod.snd)[i]? = some p.2 ∧
        evaluateRows L rule context n (rows.map Prod.fst) =
          .ok ⟨true, rule.id, outcomesOf rule.table_columns p.1.outcomes, some (n + i)⟩ := by
  induction rows generalizing n with
  | nil => rfl
  | cons p rows ih =>
    have hp := h p List.mem_cons_self
    have ih := ih (fun q hq => h q (List.mem_cons_of_mem p hq)) (n + 1)
    rw [List.find?_cons, List.map_cons, evaluateRows]
    simp only [hp]
    cases hhit : hit p.2 with
    | true => exact ⟨0, rfl, rfl⟩
    | false =>
      simp only
      split
      · rename_i hf
        rw [hf] at ih
        exact ih
      · rename_i q hf
        rw [hf] at ih
        obtain ⟨i, hi, he⟩ := ih
        refine ⟨i + 1, by simpa using hi, ?_⟩
        have hn : n + 1 + i = n + (i + 1) := by omega
        rw [← hn]
        exact he

end Dmn
