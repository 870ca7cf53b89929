import Velaris.TenantTransfer.Accept
import Velaris.Py.Paths

/-!
# Who travels with a case

* `mem_moved_rows`   the rows that go with a case, as they arrive;
* `NoneTravels`   no row that arrives shows one of the source's staff;
* `Covered`   the staff is where the scrubbing looks;
* `names_scrubDetails_iff` it looks at the keys of one dictionary;
* `none_travels_iff`   so no one travels exactly where all are covered, and the history is kept
    but for its actors and details.

`staff` is any set of texts.
-/

namespace TenantTransfer
open Py

/-! ## values -/

/-- what `_scrub_details` leaves of the value shows no one -/
def DetailsCovered (staff : String → Prop) : Value → Prop
  | .dict items => ∀ entry ∈ items, ¬ staff entry.1 ∧
      if isPersonKey entry.1 then ¬ staff "[redacted]" else ¬ Names staff entry.2
  | v => ¬ Names staff v

section
variable {staff : String → Prop}

/-- **The scrubbing looks at the keys of one dictionary**, and passes over what is below them. -/
theorem names_scrubDetails_iff (details : Value) :
    ¬ Names staff (scrubDetails details) ↔ DetailsCovered staff details := by
  cases details with
  | dict items =>
    show ¬ Names staff (.dict (items.map scrubItem)) ↔ _
    rw [names_dict_iff]
    constructor
    · intro h entry hmem
      have hno : ¬ (staff entry.1 ∨ Names staff (scrubItem entry).2) :=
        fun hn => h ⟨scrubItem entry, List.mem_map_of_mem hmem, hn⟩
      obtain ⟨hkey, hvalue⟩ := not_or.mp hno
      refine ⟨hkey, ?_⟩
      unfold scrubItem at hvalue
      split
      · rename_i hperson
        rw [if_pos hperson, redacted, names_str_iff] at hvalue
        exact hvalue
      · rename_i hperson
        rw [if_neg hperson] at hvalue
        exact hvalue
    · intro h hx
      obtain ⟨entry', hmem', hn⟩ := hx
      obtain ⟨entry, hmem, rfl⟩ := List.mem_map.mp hmem'
      obtain ⟨hkey, hvalue⟩ := h entry hmem
      rcases hn with hn | hn
      · exact hkey hn
      · unfold scrubItem at hn
        by_cases hperson : isPersonKey entry.1 = true
        · rw [if_pos hperson] at hvalue hn
          exact hvalue (names_str_iff.mp hn)
        · rw [if_neg hperson] at hvalue hn
          exact hvalue hn
  | none | bool b | int n | float q | str text | list vs => exact Iff.rfl

end

/-! ## rows -/

section
variable {hexdigest : String → String} {source destination : Tenant} {caseId : Uuid} {r : Row}

@[simp] theorem retagRow_table : (retagRow source destination caseId r).table = r.table := by
  unfold retagRow
  split <;> rfl

@[simp] theorem retagRow_caseId : (retagRow source destination caseId r).caseId = r.caseId := by
  unfold retagRow
  split <;> rfl

@[simp] theorem retagRow_id : (retagRow source destination caseId r).id = r.id := by
  unfold retagRow
  split <;> rfl

@[simp] theorem scrubRow_table : (scrubRow hexdigest source caseId r).table = r.table := by
  unfold scrubRow
  split <;> rfl

@[simp] theorem scrubRow_caseId : (scrubRow hexdigest source caseId r).caseId = r.caseId := by
  unfold scrubRow
  split <;> rfl

@[simp] theorem scrubRow_id : (scrubRow hexdigest source caseId r).id = r.id := by
  unfold scrubRow
  split <;> rfl

@[simp] theorem closeRow_table : (closeRow caseId r).table = r.table := by
  unfold closeRow
  split <;> rfl

@[simp] theorem closeRow_caseId : (closeRow caseId r).caseId = r.caseId := by
  unfold closeRow
  split <;> rfl

@[simp] theorem detachRow_table : (detachRow caseId r).table = r.table := by
  unfold detachRow
  split <;> rfl

@[simp] theorem clearConnector_table : (clearConnector caseId r).table = r.table := by
  unfold clearConnector
  split <;> rfl

@[simp] theorem clearConnector_caseId : (clearConnector caseId r).caseId = r.caseId := by
  unfold clearConnector
  split <;> rfl

@[simp] theorem clearConnector_id : (clearConnector caseId r).id = r.id := by
  unfold clearConnector
  split <;> rfl

theorem of_iff {tables : List String} :
    r.of tables caseId = true ↔ r.table ∈ tables ∧ r.caseId = some caseId := by
  unfold Row.of
  rw [Bool.and_eq_true, decide_eq_true_eq, decide_eq_true_eq]

theorem moves_congr {r' : Row} (htable : r'.table = r.table) (hcase : r'.caseId = r.caseId) :
    r'.moves caseId = r.moves caseId := by
  unfold Row.moves Row.of
  rw [htable, hcase]

def leftBehind : List String :=
  ["case_assignments", "case_sla_instances", "case_relationships", "customer_links",
    "hxguard_tuples"] ++ severTables ++ rehome

theorem not_leftBehind (h : r.moves caseId = true) : r.table ∉ leftBehind := by
  have hdisjoint : ∀ table ∈ moveRetag ++ moveWithCase, table ∉ leftBehind := by decide
  exact hdisjoint r.table (of_iff.mp h).1

theorem closeRow_of_moves (h : r.moves caseId = true) : closeRow caseId r = r := by
  apply if_neg
  intro hcloses
  unfold closes at hcloses
  rw [Bool.or_eq_true, Bool.and_eq_true, Bool.and_eq_true, of_iff, of_iff] at hcloses
  have hsub : ∀ table ∈ ["case_assignments", "case_sla_instances"], table ∈ leftBehind := by decide
  rcases hcloses with ⟨⟨hmem, -⟩, -⟩ | ⟨⟨hmem, -⟩, -⟩
  · exact not_leftBehind h (hsub _ (List.mem_cons.mpr (Or.inl (List.mem_singleton.mp hmem))))
  · exact not_leftBehind h (hsub _ (List.mem_cons_of_mem _ hmem))

theorem severs_of_moves (h : r.moves caseId = true) : severs caseId r = false := by
  have hne := not_leftBehind h
  have hsever : ∀ table ∈ severTables, table ∈ leftBehind := by decide
  have hnot : r.of severTables caseId = false :=
    Bool.eq_false_of_not_eq_true fun hof => hne (hsever _ (of_iff.mp hof).1)
  have hnames : ∀ name ∈ ["case_relationships", "customer_links", "hxguard_tuples"],
      decide (r.table = name) = false := by
    intro name hname
    have hsub : ∀ table ∈ ["case_relationships", "customer_links", "hxguard_tuples"],
        table ∈ leftBehind := by decide
    apply decide_eq_false
    intro heq
    exact hne (heq ▸ hsub name hname)
  unfold severs
  rw [hnot, hnames _ (by decide), hnames _ (by decide), hnames _ (by decide)]
  rfl

theorem detachRow_of_moves (h : r.moves caseId = true) : detachRow caseId r = r := by
  have hsub : ∀ table ∈ rehome, table ∈ leftBehind := by decide
  exact if_neg fun hof => not_leftBehind h (hsub _ (of_iff.mp hof).1)

def arrived (hexdigest : String → String) (source destination : Tenant) (caseId : Uuid) (r : Row) :
    Row :=
  clearConnector caseId (scrubRow hexdigest source caseId (retagRow source destination caseId r))

theorem moves_of_detached {r' : Row} (h : (detachRow caseId r').moves caseId = true) :
    r'.moves caseId = true ∧ detachRow caseId r' = r' := by
  have hsame : detachRow caseId r' = r' := by
    apply if_neg
    intro hof
    have hcase := (of_iff.mp h).2
    unfold detachRow at hcase
    rw [if_pos hof] at hcase
    cases hcase
  rw [hsame] at h
  exact ⟨h, hsame⟩

theorem moves_scrubbed : (scrubRow hexdigest source caseId
    (retagRow source destination caseId r)).moves caseId = r.moves caseId :=
  moves_congr (by simp) (by simp)

theorem mem_moveRows {rows : List Row} {x : Row} :
    (x ∈ moveRows hexdigest source destination caseId rows ∧ x.moves caseId = true) ↔
      ∃ r ∈ rows, r.moves caseId = true ∧
        x = scrubRow hexdigest source caseId (retagRow source destination caseId r) := by
  constructor
  · intro hx
    obtain ⟨hmem, hmoves⟩ := hx
    obtain ⟨y, hy, rfl⟩ := List.mem_map.mp hmem
    obtain ⟨hmoves', hsame⟩ := moves_of_detached hmoves
    obtain ⟨hy, -⟩ := List.mem_filter.mp hy
    obtain ⟨z, hz, rfl⟩ := List.mem_map.mp hy
    obtain ⟨r', hr', rfl⟩ := List.mem_map.mp hz
    obtain ⟨r, hr, rfl⟩ := List.mem_map.mp hr'
    have hz' : (scrubRow hexdigest source caseId
        (retagRow source destination caseId r)).moves caseId = true := by
      rw [← moves_congr closeRow_table closeRow_caseId]
      exact hmoves'
    refine ⟨r, hr, ?_, ?_⟩
    · rw [moves_scrubbed] at hz'
      exact hz'
    · rw [hsame, closeRow_of_moves hz']
  · intro hx
    obtain ⟨r, hr, hmoves, rfl⟩ := hx
    have hz' : (scrubRow hexdigest source caseId
        (retagRow source destination caseId r)).moves caseId = true := by
      rw [moves_scrubbed]
      exact hmoves
    refine ⟨?_, hz'⟩
    apply List.mem_map.mpr
    refine ⟨_, List.mem_filter.mpr ⟨List.mem_map.mpr
      ⟨_, List.mem_map.mpr ⟨_, List.mem_map_of_mem hr, rfl⟩, closeRow_of_moves hz'⟩, ?_⟩,
      detachRow_of_moves hz'⟩
    rw [severs_of_moves hz']
    rfl

/-! ## cells -/

def retagCell (source destination : Tenant) (table : String) (item : String × Value) :
    String × Value :=
  if table ∈ moveRetag ∧ item.1 = "tenant_id" then (item.1, retag source destination item.2)
  else item

def clearCell (table : String) (item : String × Value) : String × Value :=
  if table = "sms_messages" ∧ item.1 = "connector_id" then (item.1, .none) else item

def arrivedCell (hexdigest : String → String) (source destination : Tenant) (table : String)
    (item : String × Value) : String × Value :=
  clearCell table (scrubCell hexdigest source table (retagCell source destination table item))

theorem retagRow_columns (hcase : r.caseId = some caseId) :
    (retagRow source destination caseId r).columns =
      r.columns.map (retagCell source destination r.table) := by
  by_cases htable : r.table ∈ moveRetag
  · unfold retagRow
    rw [if_pos (of_iff.mpr ⟨htable, hcase⟩)]
    apply List.map_congr_left
    intro item _
    unfold retagCell
    by_cases hname : item.1 = "tenant_id"
    · rw [if_pos hname, if_pos ⟨htable, hname⟩]
    · rw [if_neg hname, if_neg fun h => hname h.2]
  · unfold retagRow
    rw [if_neg fun hof => htable (of_iff.mp hof).1]
    have hsame : r.columns.map (retagCell source destination r.table) =
        r.columns.map fun item => item :=
      List.map_congr_left fun item _ => if_neg fun h => htable h.1
    rw [hsame, List.map_id']

theorem clearConnector_columns (hcase : r.caseId = some caseId) :
    (clearConnector caseId r).columns = r.columns.map (clearCell r.table) := by
  by_cases htable : r.table = "sms_messages"
  · unfold clearConnector
    rw [if_pos (of_iff.mpr ⟨List.mem_singleton.mpr htable, hcase⟩)]
    apply List.map_congr_left
    intro item _
    unfold clearCell
    by_cases hname : item.1 = "connector_id"
    · rw [if_pos hname, if_pos ⟨htable, hname⟩]
    · rw [if_neg hname, if_neg fun h => hname h.2]
  · unfold clearConnector
    rw [if_neg fun hof => htable (List.mem_singleton.mp (of_iff.mp hof).1)]
    have hsame : r.columns.map (clearCell r.table) = r.columns.map fun item => item :=
      List.map_congr_left fun item _ => if_neg fun h => htable h.1
    rw [hsame, List.map_id']

theorem arrived_columns (hmoves : r.moves caseId = true) :
    (arrived hexdigest source destination caseId r).columns =
      r.columns.map (arrivedCell hexdigest source destination r.table) := by
  have hcase := (of_iff.mp hmoves).2
  have hcase' : (retagRow source destination caseId r).caseId = some caseId :=
    retagRow_caseId.trans hcase
  have hcase'' : (scrubRow hexdigest source caseId
      (retagRow source destination caseId r)).caseId = some caseId :=
    scrubRow_caseId.trans hcase'
  have hscrub : (scrubRow hexdigest source caseId (retagRow source destination caseId r)).columns =
      (retagRow source destination caseId r).columns.map (scrubCell hexdigest source r.table) := by
    unfold scrubRow
    rw [if_pos hcase', retagRow_table]
  unfold arrived
  rw [clearConnector_columns hcase'', hscrub, retagRow_columns hcase, List.map_map, List.map_map,
    scrubRow_table, retagRow_table]
  rfl

theorem personColumns_fixed (table : String) :
    "tenant_id" ∉ personColumns table ∧ "connector_id" ∉ personColumns table := by
  unfold personColumns
  split <;> decide

theorem personJsonColumns_fixed (table : String) :
    "tenant_id" ∉ personJsonColumns table ∧ "connector_id" ∉ personJsonColumns table := by
  unfold personJsonColumns
  split <;> decide

/-- a cell shows no one where a stand-in, a redaction or a new tag is written, or where it is kept
and showed no one -/
def CellCovered (hexdigest : String → String) (source destination : Tenant) (staff : String → Prop)
    (table : String) (item : String × Value) : Prop :=
  if item.1 ∈ personColumns table then ¬ Names staff (pseudonymCell hexdigest source item.2)
  else if item.1 ∈ personJsonColumns table then DetailsCovered staff item.2
  else if table ∈ moveRetag ∧ item.1 = "tenant_id" then
    ¬ Names staff (retag source destination item.2)
  else if table = "sms_messages" ∧ item.1 = "connector_id" then True
  else ¬ Names staff item.2

theorem cellCovered_iff {staff : String → Prop} {table : String} (item : String × Value) :
    ¬ Names staff (arrivedCell hexdigest source destination table item).2 ↔
      CellCovered hexdigest source destination staff table item := by
  obtain ⟨name, v⟩ := item
  unfold CellCovered arrivedCell
  by_cases hperson : name ∈ personColumns table
  · have htag : name ≠ "tenant_id" := fun he => (personColumns_fixed table).1 (he ▸ hperson)
    have hconn : name ≠ "connector_id" := fun he => (personColumns_fixed table).2 (he ▸ hperson)
    rw [if_pos hperson, retagCell, if_neg fun h => htag h.2, scrubCell, if_pos hperson, clearCell,
      if_neg fun h => hconn h.2]
  · rw [if_neg hperson]
    by_cases hjson : name ∈ personJsonColumns table
    · have htag : name ≠ "tenant_id" := fun he => (personJsonColumns_fixed table).1 (he ▸ hjson)
      have hconn : name ≠ "connector_id" :=
        fun he => (personJsonColumns_fixed table).2 (he ▸ hjson)
      rw [if_pos hjson, retagCell, if_neg fun h => htag h.2, scrubCell, if_neg hperson,
        if_pos hjson, clearCell, if_neg fun h => hconn h.2]
      exact names_scrubDetails_iff v
    · rw [if_neg hjson]
      by_cases htag : table ∈ moveRetag ∧ name = "tenant_id"
      · have hconn : name ≠ "connector_id" := by
          rw [htag.2]
          decide
        rw [if_pos htag, retagCell, if_pos htag, scrubCell, if_neg hperson, if_neg hjson, clearCell,
          if_neg fun h => hconn h.2]
      · rw [if_neg htag, retagCell, if_neg htag, scrubCell, if_neg hperson, if_neg hjson, clearCell]
        split
        · exact iff_of_true not_names_none trivial
        · exact Iff.rfl

/-! ## what arrives -/

def RowNames (staff : String → Prop) (r : Row) : Prop := ∃ item ∈ r.columns, Names staff item.2

/-- no row that goes with the case shows one of the staff, and the row of the case shows none -/
structure NoneTravels (staff : String → Prop) (caseId : Uuid) (s : Db) : Prop where
  rows : ∀ r ∈ s.rows, r.moves caseId = true → ¬ RowNames staff r
  caseRow : ∀ c ∈ s.cases, c.id = caseId →
    (∀ person, c.createdBy = some person → ¬ staff person) ∧
      ∀ item ∈ c.columns, ¬ Names staff item.2

/-- before the transfer, the staff is where the scrubbing looks -/
structure Covered (R : Runtime) (hexdigest : String → String) (strftime : Int → String)
    (source destination : Tenant) (staff : String → Prop) (s : Db) (t : Transfer) (case : Case)
    (call : Call) : Prop where
  rows : ∀ r ∈ s.rows, r.moves t.caseId = true → ∀ item ∈ r.columns,
    CellCovered hexdigest source destination staff r.table item
  caseRow : ∀ c ∈ s.cases, c.id = t.caseId →
    (∀ person, pseudonym hexdigest source.id c.createdBy = some person → ¬ staff person) ∧
      ∀ item ∈ c.columns, ¬ Names staff item.2
  note : ∀ r ∈ transcript R hexdigest strftime source t.caseId t.id call.noteId s.rows,
    ¬ RowNames staff r
  entry : ¬ RowNames staff
    (entry hexdigest source t call.actor (manifestOf t.caseId s case) call.entryId call.now)

variable {R : Runtime} {strftime : Int → String} {s s' : Db} {t : Transfer} {case : Case}
  {call : Call} {staff : String → Prop}

theorem not_names_arrived_iff (hmoves : r.moves caseId = true) :
    ¬ RowNames staff (arrived hexdigest source destination caseId r) ↔
      ∀ item ∈ r.columns, CellCovered hexdigest source destination staff r.table item := by
  unfold RowNames
  rw [arrived_columns hmoves]
  constructor
  · intro h item hitem
    exact (cellCovered_iff item).mp fun hn => h ⟨_, List.mem_map_of_mem hitem, hn⟩
  · intro h hx
    obtain ⟨item', hitem', hn⟩ := hx
    obtain ⟨item, hitem, rfl⟩ := List.mem_map.mp hitem'
    exact (cellCovered_iff item).mpr (h item hitem) hn

theorem mem_transcript {noteId transferId : Uuid} {rows : List Row}
    (h : r ∈ transcript R hexdigest strftime source caseId transferId noteId rows) :
    r.table = "case_messages" ∧ r.caseId = some caseId := by
  unfold transcript at h
  dsimp only at h
  split at h
  · cases h
  · rw [List.mem_singleton.mp h]
    exact ⟨rfl, rfl⟩

theorem clearConnector_of_ne (h : r.table ≠ "sms_messages") : clearConnector caseId r = r :=
  if_neg fun hof => h (List.mem_singleton.mp (of_iff.mp hof).1)

theorem moves_of_table (htable : r.table ∈ moveRetag ++ moveWithCase)
    (hcase : r.caseId = some caseId) : r.moves caseId = true := of_iff.mpr ⟨htable, hcase⟩

/-- **The rows that go with the case, as they arrive.** -/
theorem mem_moved_rows {x : Row} (hid : t.caseId = caseId) :
    (x ∈ (moved R hexdigest strftime source destination caseId t case call s).rows ∧
        x.moves caseId = true) ↔
      (∃ r ∈ s.rows, r.moves caseId = true ∧
          x = arrived hexdigest source destination caseId r) ∨
        x ∈ transcript R hexdigest strftime source caseId t.id call.noteId s.rows ∨
        x = entry hexdigest source t call.actor (manifestOf caseId s case) call.entryId
          call.now := by
  constructor
  · intro hx
    obtain ⟨hmem, hmoves⟩ := hx
    rcases List.mem_append.mp hmem with hmem | hmem
    · obtain ⟨y, hy, rfl⟩ := List.mem_map.mp hmem
      rw [moves_congr clearConnector_table clearConnector_caseId] at hmoves
      rcases List.mem_append.mp hy with hy | hy
      · obtain ⟨r, hr, hrm, rfl⟩ := mem_moveRows.mp ⟨hy, hmoves⟩
        exact Or.inl ⟨r, hr, hrm, rfl⟩
      · rw [clearConnector_of_ne (by rw [(mem_transcript hy).1]; decide)]
        exact Or.inr (Or.inl hy)
    · exact Or.inr (Or.inr (List.mem_singleton.mp hmem))
  · intro hx
    rcases hx with ⟨r, hr, hrm, rfl⟩ | hx | rfl
    · obtain ⟨hmem, hmoves⟩ := mem_moveRows.mpr ⟨r, hr, hrm, rfl⟩
      refine ⟨List.mem_append_left _ (List.mem_map.mpr ⟨_, List.mem_append_left _ hmem, rfl⟩), ?_⟩
      rw [arrived, moves_congr clearConnector_table clearConnector_caseId]
      exact hmoves
    · obtain ⟨htable, hcase⟩ := mem_transcript hx
      refine ⟨List.mem_append_left _ (List.mem_map.mpr ⟨x, List.mem_append_right _ hx, ?_⟩), ?_⟩
      · exact clearConnector_of_ne (by rw [htable]; decide)
      · exact moves_of_table (by rw [htable]; decide) hcase
    · refine ⟨List.mem_append_right _ (List.mem_singleton_self _), ?_⟩
      exact moves_of_table (show "case_audit_log" ∈ moveRetag ++ moveWithCase by decide)
        (congrArg some hid)

theorem rows_named_iff :
    (∀ x ∈ (moved R hexdigest strftime source destination t.caseId t case call s).rows,
        x.moves t.caseId = true → ¬ RowNames staff x) ↔
      (∀ r ∈ s.rows, r.moves t.caseId = true → ∀ item ∈ r.columns,
          CellCovered hexdigest source destination staff r.table item) ∧
        (∀ r ∈ transcript R hexdigest strftime source t.caseId t.id call.noteId s.rows,
          ¬ RowNames staff r) ∧
        ¬ RowNames staff (entry hexdigest source t call.actor (manifestOf t.caseId s case)
          call.entryId call.now) := by
  constructor
  · intro h
    refine ⟨fun r hr hmoves => ?_, fun r hr => ?_, ?_⟩
    · have hmem : arrived hexdigest source destination t.caseId r ∈
            (moved R hexdigest strftime source destination t.caseId t case call s).rows ∧
          (arrived hexdigest source destination t.caseId r).moves t.caseId = true :=
        (mem_moved_rows rfl).mpr (Or.inl ⟨r, hr, hmoves, rfl⟩)
      exact (not_names_arrived_iff hmoves).mp (h _ hmem.1 hmem.2)
    · obtain ⟨hmem, hmoves⟩ := (mem_moved_rows rfl).mpr (Or.inr (Or.inl hr))
      exact h _ hmem hmoves
    · obtain ⟨hmem, hmoves⟩ := (mem_moved_rows rfl).mpr (Or.inr (Or.inr rfl))
      exact h _ hmem hmoves
  · intro h x hmem hmoves
    obtain ⟨hrows, hnote, hentry⟩ := h
    rcases (mem_moved_rows rfl).mp ⟨hmem, hmoves⟩ with ⟨r, hr, hrm, rfl⟩ | hx | rfl
    · exact (not_names_arrived_iff hrm).mpr (hrows r hr hrm)
    · exact hnote x hx
    · exact hentry

theorem case_named_iff (hid : case.id = t.caseId) :
    (∀ c ∈ (moved R hexdigest strftime source destination t.caseId t case call s).cases,
        c.id = t.caseId → (∀ person, c.createdBy = some person → ¬ staff person) ∧
          ∀ item ∈ c.columns, ¬ Names staff item.2) ↔
      ∀ c ∈ s.cases, c.id = t.caseId →
        (∀ person, pseudonym hexdigest source.id c.createdBy = some person → ¬ staff person) ∧
          ∀ item ∈ c.columns, ¬ Names staff item.2 := by
  have hmoved : ∀ c : Case, c.id = t.caseId → moveCase hexdigest source destination case c =
      { c with
        tenantId := some destination.id
        parentCaseId := none
        portalTrackingToken := none
        createdBy := pseudonym hexdigest source.id c.createdBy } := by
    intro c hc
    exact if_pos (hc.trans hid.symm)
  have hids : ∀ c : Case, (moveCase hexdigest source destination case c).id = c.id := by
    intro c
    unfold moveCase
    split
    · rfl
    · split <;> rfl
  constructor
  · intro h c hc hcid
    have hcase := h _ (List.mem_map_of_mem hc) ((hids c).trans hcid)
    rw [hmoved c hcid] at hcase
    exact hcase
  · intro h c' hc' hcid
    obtain ⟨c, hc, rfl⟩ := List.mem_map.mp hc'
    rw [hids] at hcid
    rw [hmoved c hcid]
    exact h c hc hcid

/-! ## the history -/

def history (caseId : Uuid) (s : Db) : List Row := s.rows.filter (Row.of ["case_audit_log"] caseId)

/-- the details, with the values of person-like keys replaced at most -/
def SameDetails : Value → Value → Prop
  | .dict items, v => ∃ items', v = .dict items' ∧
      List.Forall₂ (fun e e' => e'.1 = e.1 ∧ (isPersonKey e.1 = false → e' = e)) items items'
  | details, v => v = details

def SameColumn (item item' : String × Value) : Prop :=
  item'.1 = item.1 ∧ (item.1 ≠ "actor_id" → item.1 ≠ "details" → item' = item) ∧
    (item.1 = "details" → SameDetails item.2 item'.2)

structure SameEntry (r r' : Row) : Prop where
  id : r'.id = r.id
  columns : List.Forall₂ SameColumn r.columns r'.columns

theorem sameDetails_scrub (details : Value) : SameDetails details (scrubDetails details) := by
  cases details with
  | dict items =>
    refine ⟨items.map scrubItem, rfl, ?_⟩
    rw [List.forall₂_map_right_iff]
    apply List.forall₂_same.mpr
    intro e _
    exact ⟨rfl, scrubItem_of_not⟩
  | none | bool b | int n | float q | str text | list vs => rfl

theorem sameColumn_arrived (item : String × Value) :
    SameColumn item (arrivedCell hexdigest source destination "case_audit_log" item) := by
  have hretag : retagCell source destination "case_audit_log" item = item :=
    if_neg fun h => absurd h.1 (by decide)
  have hclear : ∀ item, clearCell "case_audit_log" item = item :=
    fun _ => if_neg fun h => absurd h.1 (by decide)
  unfold arrivedCell
  rw [hretag, hclear]
  unfold scrubCell
  split
  · rename_i hperson
    have hname : item.1 = "actor_id" := List.mem_singleton.mp hperson
    refine ⟨rfl, fun h => absurd hname h, fun h => ?_⟩
    rw [hname] at h
    exact absurd h (by decide)
  · split
    · rename_i hjson
      have hname : item.1 = "details" := List.mem_singleton.mp hjson
      exact ⟨rfl, fun _ h => absurd hname h, fun _ => sameDetails_scrub item.2⟩
    · rename_i hjson
      exact ⟨rfl, fun _ _ => rfl, fun h => absurd (List.mem_singleton.mpr h) hjson⟩

theorem audit_moves (h : r.of ["case_audit_log"] caseId = true) : r.moves caseId = true := by
  obtain ⟨htable, hcase⟩ := of_iff.mp h
  exact moves_of_table (by rw [List.mem_singleton.mp htable]; decide) hcase

theorem sameEntry_arrived (h : r.of ["case_audit_log"] caseId = true) :
    SameEntry r (arrived hexdigest source destination caseId r) where
  id := by
    unfold arrived
    simp
  columns := by
    rw [arrived_columns (audit_moves h), List.mem_singleton.mp (of_iff.mp h).1,
      List.forall₂_map_right_iff]
    exact List.forall₂_same.mpr fun item _ => sameColumn_arrived item

theorem of_congr {tables : List String} {x : Row} (htable : x.table = r.table)
    (hcase : x.caseId = r.caseId) : x.of tables caseId = r.of tables caseId := by
  unfold Row.of
  rw [htable, hcase]

theorem filter_map_of_same {p : Row → Bool} {f : Row → Row} (hf : ∀ r, p (f r) = p r)
    (rows : List Row) : (rows.map f).filter p = (rows.filter p).map f := by
  rw [List.filter_map]
  congr 1
  exact List.filter_congr fun r _ => hf r

theorem of_detachRow (r : Row) : (detachRow caseId r).of ["case_audit_log"] caseId =
    r.of ["case_audit_log"] caseId := by
  by_cases hof : r.of rehome caseId = true
  · have hno : "case_audit_log" ∉ rehome := by decide
    have hne : r.table ≠ "case_audit_log" := fun he => hno (he ▸ (of_iff.mp hof).1)
    rw [Bool.eq_iff_iff, of_iff, of_iff, detachRow_table]
    exact iff_of_false (fun h => hne (List.mem_singleton.mp h.1))
      fun h => hne (List.mem_singleton.mp h.1)
  · unfold detachRow
    rw [if_neg hof]

theorem history_moved (hid : t.caseId = caseId) :
    history caseId (moved R hexdigest strftime source destination caseId t case call s) =
      (history caseId s).map (arrived hexdigest source destination caseId) ++
        [entry hexdigest source t call.actor (manifestOf caseId s case) call.entryId call.now] := by
  have hkeep : ∀ rows : List Row,
      (rows.filter (!severs caseId ·)).filter (Row.of ["case_audit_log"] caseId) =
        rows.filter (Row.of ["case_audit_log"] caseId) := by
    intro rows
    rw [List.filter_filter]
    apply List.filter_congr
    intro r _
    cases hof : r.of ["case_audit_log"] caseId with
    | false => rfl
    | true => rw [severs_of_moves (audit_moves hof)]; rfl
  have hnote : (transcript R hexdigest strftime source caseId t.id call.noteId s.rows).filter
      (Row.of ["case_audit_log"] caseId) = [] := by
    apply List.filter_eq_nil_iff.mpr
    intro r hr hof
    have htable := List.mem_singleton.mp (of_iff.mp hof).1
    rw [(mem_transcript hr).1] at htable
    exact absurd htable (by decide)
  have hentry : [entry hexdigest source t call.actor (manifestOf caseId s case) call.entryId
      call.now].filter (Row.of ["case_audit_log"] caseId) =
      [entry hexdigest source t call.actor (manifestOf caseId s case) call.entryId call.now] := by
    apply List.filter_eq_self.mpr
    intro r hr
    rw [List.mem_singleton.mp hr]
    exact of_iff.mpr ⟨List.mem_singleton_self _, congrArg some hid⟩
  unfold history
  show ((moveRows hexdigest source destination caseId s.rows ++ transcript R hexdigest strftime
    source caseId t.id call.noteId s.rows).map (clearConnector caseId) ++ _).filter _ = _
  rw [List.filter_append, hentry, filter_map_of_same (fun r => of_congr (by simp) (by simp)),
    List.filter_append, hnote, List.append_nil, moveRows, filter_map_of_same of_detachRow, hkeep,
    filter_map_of_same (fun r => of_congr (by simp) (by simp)),
    filter_map_of_same (fun r => of_congr (by simp) (by simp)),
    filter_map_of_same (fun r => of_congr (by simp) (by simp)), List.map_map, List.map_map,
    List.map_map, List.map_map]
  congr 1
  apply List.map_congr_left
  intro r hr
  have hscrubbed : (scrubRow hexdigest source caseId
      (retagRow source destination caseId r)).moves caseId = true := by
    rw [moves_scrubbed]
    exact audit_moves (List.mem_filter.mp hr).2
  show clearConnector caseId (detachRow caseId (closeRow caseId (scrubRow hexdigest source caseId
    (retagRow source destination caseId r)))) = _
  rw [closeRow_of_moves hscrubbed, detachRow_of_moves hscrubbed]
  rfl

/-! ## accepted transfers -/

theorem accept_ok
    (hcase : (s.cases.find? fun c => c.id = t.caseId && c.tenantId = some t.sourceTenantId) =
      some case)
    (hsource : tenant s t.sourceTenantId = .ok source)
    (hdestination : tenant s t.destinationTenantId = .ok destination)
    (h : accept R hexdigest strftime s t call = .ok s') :
    s' = moved R hexdigest strftime source destination t.caseId t case call s := by
  unfold accept at h
  split at h
  · cases h
  · rw [hcase] at h
    dsimp only at h
    rw [hsource, hdestination] at h
    change (if call.why ≠ [] then _ else _) = _ at h
    split at h
    · cases h
    · split at h
      · cases h
      · split at h
        · cases h
        · cases h
          rfl

/-- **No one of the staff travels exactly where all are covered**, and the history is kept. -/
theorem none_travels_iff (staff : String → Prop)
    (hcase : (s.cases.find? fun c => c.id = t.caseId && c.tenantId = some t.sourceTenantId) =
      some case)
    (hsource : tenant s t.sourceTenantId = .ok source)
    (hdestination : tenant s t.destinationTenantId = .ok destination)
    (h : accept R hexdigest strftime s t call = .ok s') :
    (NoneTravels staff t.caseId s' ↔
      Covered R hexdigest strftime source destination staff s t case call) ∧
    ∃ kept, history t.caseId s' = kept ++ [entry hexdigest source t call.actor
        (manifestOf t.caseId s case) call.entryId call.now] ∧
      List.Forall₂ SameEntry (history t.caseId s) kept := by
  obtain rfl := accept_ok hcase hsource hdestination h
  have hid : case.id = t.caseId := by
    have hfound := List.find?_some hcase
    rw [Bool.and_eq_true, decide_eq_true_eq] at hfound
    exact hfound.1
  constructor
  · constructor
    · intro hnone
      obtain ⟨hrows, hnote, hentry⟩ := rows_named_iff.mp hnone.rows
      exact ⟨hrows, (case_named_iff hid).mp hnone.caseRow, hnote, hentry⟩
    · intro hcovered
      exact ⟨rows_named_iff.mpr ⟨hcovered.rows, hcovered.note, hcovered.entry⟩,
        (case_named_iff hid).mpr hcovered.caseRow⟩
  · refine ⟨_, history_moved rfl, ?_⟩
    rw [List.forall₂_map_right_iff]
    apply List.forall₂_same.mpr
    intro r hr
    exact sameEntry_arrived (List.mem_filter.mp hr).2

/-! ## a transfer -/

instance [DecidablePred staff] (details : Value) : Decidable (DetailsCovered staff details) := by
  unfold DetailsCovered
  split <;> infer_instance

instance [DecidablePred staff] (table : String) (item : String × Value) :
    Decidable (CellCovered hexdigest source destination staff table item) := by
  unfold CellCovered
  infer_instance

instance [DecidablePred staff] (r : Row) : Decidable (RowNames staff r) :=
  inferInstanceAs (Decidable (∃ item ∈ r.columns, _))

def acme : Tenant := { id := 7, slug := "acme", name := "Acme" }

def bolt : Tenant := { id := 8, slug := "bolt", name := "Bolt" }

def sampleCase : Case := { id := 1, tenantId := some acme.id, createdBy := some "alice" }

def sampleDb (details : Value) : Db where
  cases := [sampleCase]
  rows :=
    [{ table := "case_audit_log", id := 2, caseId := some 1
       columns := [("actor_id", .str "alice"), ("details", details)] }]
  tenants := [acme, bolt]

def sampleTransfer : Transfer where
  id := 3
  caseId := 1
  sourceTenantId := 7
  destinationTenantId := 8
  state := "pending"
  approvedBy := some "alice"

def sampleCall : Call where
  transferId := 3
  actor := "bob"
  noteId := 4
  entryId := 5
  now := 0

def sampleDigest : String → String := fun _ =>
  "8f60d9be47cd58d11941a07af963d77be2f885b2ff95f41df3eebc89a0e610ba"

/-- the actor is under a key that the scrubbing knows -/
theorem none_travels_named :
    let details : Value := .dict [("claimed_by", .str "alice"), ("note", .str "taken")]
    ∃ s', accept .silent sampleDigest (fun _ => "") (sampleDb details) sampleTransfer sampleCall =
      .ok s' ∧ NoneTravels (· = "alice") sampleTransfer.caseId s' := by
  intro details
  have hcase : ((sampleDb details).cases.find? fun c => c.id = sampleTransfer.caseId &&
      c.tenantId = some sampleTransfer.sourceTenantId) = some sampleCase := rfl
  have hsource : tenant (sampleDb details) sampleTransfer.sourceTenantId = .ok acme := rfl
  have hdestination : tenant (sampleDb details) sampleTransfer.destinationTenantId = .ok bolt := rfl
  have hran : ∃ s', accept .silent sampleDigest (fun _ => "") (sampleDb details) sampleTransfer
      sampleCall = .ok s' := ⟨_, rfl⟩
  obtain ⟨s', h⟩ := hran
  refine ⟨s', h, ?_⟩
  apply (none_travels_iff (· = "alice") hcase hsource hdestination h).1.mpr
  exact ⟨by decide +kernel, by decide +kernel, by decide +kernel, by decide +kernel⟩

/-- the actor is one level deeper, and travels -/
theorem nested_actor_travels :
    let details : Value := .dict [("change", .dict [("claimed_by", .str "alice")])]
    ∃ s', accept .silent sampleDigest (fun _ => "") (sampleDb details) sampleTransfer sampleCall =
      .ok s' ∧ ¬ NoneTravels (· = "alice") sampleTransfer.caseId s' := by
  intro details
  have hcase : ((sampleDb details).cases.find? fun c => c.id = sampleTransfer.caseId &&
      c.tenantId = some sampleTransfer.sourceTenantId) = some sampleCase := rfl
  have hsource : tenant (sampleDb details) sampleTransfer.sourceTenantId = .ok acme := rfl
  have hdestination : tenant (sampleDb details) sampleTransfer.destinationTenantId = .ok bolt := rfl
  have hran : ∃ s', accept .silent sampleDigest (fun _ => "") (sampleDb details) sampleTransfer
      sampleCall = .ok s' := ⟨_, rfl⟩
  obtain ⟨s', h⟩ := hran
  refine ⟨s', h, fun hnone => ?_⟩
  obtain rfl := accept_ok hcase hsource hdestination h
  have hrows := hnone.rows
  revert hrows
  decide +kernel

end
end TenantTransfer
