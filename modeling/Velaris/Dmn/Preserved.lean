import Velaris.Dmn.Parsed

/-!
# The import against the standard reading of a table

* `readTable`   the tests the cells of a table spell;
* `Preserves`   every cell is a test that the imported rule asks, and the rule gives the
    row the hit policy selects;
* `Readable`   the tables, by the kinds of value their fields hold, of which that is so;
* `import_preserves_iff`   for every table that is imported.
-/

namespace Dmn
open Py Feel

variable {L : Library}

/-! ## the table as it reads -/

def cellsOf (rule : Xml) : List (List Char) := (childrenOf rule "inputEntry").map rawText

def readTable (L : Library) (table : Xml) : Option (List (List Test)) :=
  (childrenOf table "rule").mapM fun rule => (cellsOf rule).mapM (read L.float)

def inputPaths (table : Xml) : List String :=
  (childrenOf table "input").map fun el => String.ofList (textOf el "inputExpression")

/-- the tests of a row hold of the values of the columns -/
def holdsAll (tests : List Test) (data : List Datum) : Bool :=
  (List.zipWith Test.holds tests data).all id

def hits (rows : List (List Test)) (data : List Datum) (i : Nat) : Bool :=
  rows[i]?.any (holdsAll · data)

/-! ## the rule that is imported -/

def pathOf (col : Column) : String := col.field_path.getD ""

def conditionColumns (D : Definition) : List Column := D.table_columns.filter (·.is_condition)

def outputId (D : Definition) : String :=
  (((D.table_columns.filter (!·.is_condition)).head?).map (·.id)).getD ""

def outcomesAt (D : Definition) (i : Nat) : Dict := (D.table_rows[i]?.map (·.outcomes)).getD []

/-- the hit policy; the values of `PRIORITY` are told apart by their text -/
def policyOf (L : Library) (table : Xml) (D : Definition) : HitPolicy Value :=
  match D.hit_policy with
  | some "UNIQUE" => .unique
  | some "ANY" => .any fun i => .dict (outcomesAt D i)
  | some "PRIORITY" =>
    .priority
      (match priorityRanking L (childrenOf table "output") with
      | .ok ordered => ordered.map .str
      | .error _ => [])
      fun i => .str (L.str (Dict.get (outcomesAt D i) (outputId D)))
  | _ => .first

def Evaluates (L : Library) (D : Definition) (context : Dict) : Option Nat → Prop
  | none => evaluateDecisionTable L D context = .ok ⟨false, D.id, [], none⟩
  | some i => ∃ idx, (tried D.table_rows)[idx]? = some i ∧
      evaluateDecisionTable L D context =
        .ok ⟨true, D.id, outcomesOf D.table_columns (outcomesAt D i), some idx⟩

/-- the fields hold data of the kinds `Γ` allows -/
def Typed (Γ : String → Kind → Prop) (D : Definition) (context : Dict) (data : List Datum) : Prop :=
  List.Forall₂ (fun col d => datum? (resolvePath context (pathOf col)) = some d ∧
    Γ (pathOf col) d.kind) (conditionColumns D) data

/-- the imported rule keeps the meaning of each cell, and the row the hit policy selects -/
structure Preserves (L : Library) (table : Xml) (D : Definition) (Γ : String → Kind → Prop)
    (rows : List (List Test)) : Prop where
  cells : List.Forall₂ (fun (row : Row) tests => List.Forall₂ (fun col t =>
    ∀ k, Γ (pathOf col) k → Agrees L t (row.conditions.lookup col.id) k)
      (conditionColumns D) tests) D.table_rows rows
  selected : ∀ context data, Typed Γ D context data →
    (∃ r, (policyOf L table D).Selects D.table_rows.length (hits rows data) r) →
      ∃ r, (policyOf L table D).Selects D.table_rows.length (hits rows data) r ∧
        Evaluates L D context r

/-- every cell has a reading, which the kinds of value its field may hold keep -/
def Readable (L : Library) (table : Xml) (Γ : String → Kind → Prop) : Prop :=
  ∃ rows, readTable L table = some rows ∧ ∀ tests ∈ rows,
    List.Forall₂ (fun path t => ∀ k, Γ path k → t.Kept k) (inputPaths table) tests

/-! ## the cells -/

theorem forall₂_congr_of {α β : Type} {R P Q : α → β → Prop} {xs : List α} {ys : List β}
    (h : List.Forall₂ R xs ys) (hiff : ∀ x y, R x y → (P x y ↔ Q x y)) :
    List.Forall₂ P xs ys ↔ List.Forall₂ Q xs ys := by
  induction h with
  | nil => exact ⟨fun _ => .nil, fun _ => .nil⟩
  | cons hxy _ ih =>
    rw [List.forall₂_cons, List.forall₂_cons, hiff _ _ hxy, ih]

theorem forall₂_condition {cells : List Xml} {ins : List Column} {parsed : List Value}
    {tests : List Test} {look : Column → Option Value} (hlen : cells.length = ins.length)
    (hp : List.Forall₂ (fun cell v => parseUnaryTest L (cellText cell) = .ok v) cells parsed)
    (ht : List.Forall₂ (fun cell t => read L.float (rawText cell) = some t) cells tests)
    (hl : ∀ p ∈ ins.zip parsed, look p.1 = stored p.2) :
    List.Forall₂ (fun col t => ∃ c, look col = stored c ∧ Condition t.squeezed c) ins tests := by
  induction hp generalizing ins tests with
  | nil =>
    cases ht
    obtain rfl : ins = [] := List.eq_nil_of_length_eq_zero hlen.symm
    exact .nil
  | @cons cell v cells parsed hv _ ih =>
    cases ht with
    | cons hr hrest =>
      cases ins with
      | nil => exact nomatch hlen
      | cons col ins =>
        refine .cons ⟨v, hl (col, v) (by simp), condition_of_read hr hv⟩ ?_
        exact ih (Nat.succ.inj hlen) hrest fun p hp => hl p (List.mem_cons_of_mem _ hp)

section
variable {hit_policy : String} {ins outs : List Column} {ranking : List String} {table : Xml}
  {D : Definition}

theorem Parsed.conditionColumns_eq (h : Parsed L table D hit_policy ins outs ranking) :
    conditionColumns D = ins := by
  have hins : ins.filter (·.is_condition) = ins := List.filter_eq_self.mpr fun col hcol => by
    obtain ⟨_, -, hcond, -⟩ := Base.mem_left_of_forall₂ h.inputs hcol
    exact hcond
  have houts : outs.filter (·.is_condition) = [] := List.filter_eq_nil_iff.mpr fun col hcol => by
    simp [h.outputs col hcol]
  rw [conditionColumns, h.columns, List.filter_append, hins, houts, List.append_nil]

theorem Parsed.outputId_eq (h : Parsed L table D hit_policy ins outs ranking) :
    outputId D = (outs.head?.map (·.id)).getD "" := by
  have hins : ins.filter (!·.is_condition) = [] := List.filter_eq_nil_iff.mpr fun col hcol => by
    obtain ⟨_, -, hcond, -⟩ := Base.mem_left_of_forall₂ h.inputs hcol
    simp [hcond]
  have houts : outs.filter (!·.is_condition) = outs := List.filter_eq_self.mpr fun col hcol => by
    simp [h.outputs col hcol]
  rw [outputId, h.columns, List.filter_append, hins, houts, List.nil_append]

theorem Parsed.inputPaths_eq (h : Parsed L table D hit_policy ins outs ranking) :
    inputPaths table = ins.map pathOf := by
  have hpaths := h.inputs.imp fun el col hcol => (show
    String.ofList (textOf el "inputExpression") = pathOf col by rw [pathOf, hcol.2]; rfl)
  rw [← List.forall₂_map_right_iff, ← List.forall₂_map_left_iff, List.forall₂_eq_eq_eq] at hpaths
  exact hpaths

theorem ParsedRow.condition {rule : Xml} {row : Row}
    (h : ParsedRow L hit_policy ins outs ranking rule row) (hids : (ins.map Column.id).Nodup)
    {tests : List Test}
    (ht : List.Forall₂ (fun cell t => read L.float cell = some t) (cellsOf rule) tests) :
    List.Forall₂ (fun col t => ∃ c, row.conditions.lookup col.id = stored c ∧
      Condition t.squeezed c) ins tests := by
  obtain ⟨parsed, hparsed, hrow⟩ := h.parsed hids
  rw [cellsOf, List.forall₂_map_left_iff] at ht
  refine forall₂_condition h.length hparsed ht fun p hp => ?_
  have hlen : ins.length = parsed.length := h.length.symm.trans hparsed.length_eq
  have hzip : (ins.zip parsed).map (·.1.id) = ins.map Column.id := by
    conv_rhs => rw [← List.map_fst_zip hlen.le, List.map_map]
    rfl
  rw [hrow]
  exact lookup_kept (hzip ▸ hids) hp

theorem ParsedRow.agrees_iff {rule : Xml} {row : Row}
    (h : ParsedRow L hit_policy ins outs ranking rule row) (hids : (ins.map Column.id).Nodup)
    {tests : List Test}
    (ht : List.Forall₂ (fun cell t => read L.float cell = some t) (cellsOf rule) tests)
    (Γ : String → Kind → Prop) :
    List.Forall₂ (fun col t => ∀ k, Γ (pathOf col) k →
        Agrees L t (row.conditions.lookup col.id) k) ins tests ↔
      List.Forall₂ (fun path t => ∀ k, Γ path k → t.Kept k) (ins.map pathOf) tests := by
  rw [List.forall₂_map_left_iff]
  refine forall₂_congr_of (h.condition hids ht) fun col t hc => ?_
  obtain ⟨c, hlook, hcond⟩ := hc
  rw [hlook]
  exact forall₂_congr fun k _ => Dmn.agrees_iff hcond k

/-! ## a row that is tried -/

theorem forall₂_asks {G : Column → Kind → Prop} {actual : Column → Value}
    {look : Column → Option Value} {parsed : List Value} {tests : List Test} {data : List Datum}
    (hlen : ins.length = parsed.length) (hlook : ∀ p ∈ ins.zip parsed, look p.1 = stored p.2)
    (hdata : List.Forall₂ (fun col d => datum? (actual col) = some d ∧ G col d.kind) ins data)
    (htests : List.Forall₂ (fun col t => ∀ k, G col k → Agrees L t (look col) k) ins tests) :
    List.Forall₂ (fun p answer => asks L (stored p.2) (actual p.1) = .ok answer) (ins.zip parsed)
      (List.zipWith Test.holds tests data) := by
  induction hdata generalizing parsed tests with
  | nil =>
    cases htests
    exact .nil
  | @cons col d ins data hd _ ih =>
    cases htests with
    | cons ht hrest =>
      cases parsed with
      | nil => exact nomatch hlen
      | cons v parsed =>
        refine .cons ?_ (ih (Nat.succ.inj hlen) (fun p hp => hlook p ?_) hrest)
        · rw [← hlook (col, v) (by simp)]
          exact ht d.kind hd.2 _ d hd.1 rfl
        · exact List.mem_cons_of_mem _ hp

/-- a row matches where its tests hold of the values of the columns -/
theorem ParsedRow.matches {rule : Xml} {row : Row}
    (h : ParsedRow L hit_policy ins outs ranking rule row)
    (P : Parsed L table D hit_policy ins outs ranking)
    (hids : (D.table_columns.map Column.id).Nodup) {Γ : String → Kind → Prop} {context : Dict}
    {data : List Datum} (hdata : Typed Γ D context data) {tests : List Test}
    (htests : List.Forall₂ (fun col t => ∀ k, Γ (pathOf col) k →
      Agrees L t (row.conditions.lookup col.id) k) ins tests) :
    rowMatches L D.table_columns context row.conditions = .ok (holdsAll tests data) := by
  have hins : (ins.map Column.id).Nodup := by
    rw [P.columns, List.map_append] at hids
    exact hids.of_append_left
  obtain ⟨parsed, hparsed, hrow⟩ := h.parsed hins
  have hlen : ins.length = parsed.length := h.length.symm.trans hparsed.length_eq
  have hzip : (ins.zip parsed).map (·.1.id) = ins.map Column.id := by
    conv_rhs => rw [← List.map_fst_zip hlen.le, List.map_map]
    rfl
  rw [hrow]
  refine rowMatches_kept (fun p hp => ?_) ?_
  · have hcol : p.1 ∈ ins := (List.of_mem_zip hp).1
    refine ⟨columnOf_mem hids ?_, ?_⟩
    · rw [P.columns]
      exact List.mem_append_left _ hcol
    · obtain ⟨_, -, hcond, -⟩ := Base.mem_left_of_forall₂ P.inputs hcol
      exact hcond
  · rw [Typed, P.conditionColumns_eq] at hdata
    refine forall₂_asks (G := fun col => Γ (pathOf col)) hlen (fun p hp => ?_) hdata htests
    rw [hrow]
    exact lookup_kept (hzip ▸ hins) hp

end

/-! ## the row that is selected -/

theorem evaluates_find {D : Definition} {context : Dict} {hit : Nat → Bool}
    (h : ∀ i row, D.table_rows[i]? = some row →
      rowMatches L D.table_columns context row.conditions = .ok (hit i)) :
    Evaluates L D context ((tried D.table_rows).find? hit) := by
  have hfind := find_evaluateRows
    (fun p hp => h p.2 p.1 (mem_numbered.mp hp)) 0
  rw [map_numbered] at hfind
  rw [tried, List.find?_map]
  show Evaluates L D context (((numbered D.table_rows).find? fun p => hit p.2).map Prod.snd)
  cases hf : (numbered D.table_rows).find? fun p => hit p.2 with
  | none =>
    rw [hf] at hfind
    exact hfind
  | some p =>
    rw [hf] at hfind
    obtain ⟨i, hi, he⟩ := hfind
    have hrow := mem_numbered.mp (List.mem_of_find?_eq_some hf)
    refine ⟨i, hi, ?_⟩
    rw [outcomesAt, hrow, ← Nat.zero_add i]
    exact he

theorem rank_of_nodup {ordered : List String} (hnodup : ordered.Nodup) {value : String} {n : Int}
    (h : rank ordered value = some n) : n = ordered.length - ordered.idxOf value := by
  unfold rank at h
  obtain ⟨p, hp, rfl⟩ := Option.map_eq_some_iff.mp h
  have hvalue := List.find?_some hp
  replace hvalue : p.1 = value := of_decide_eq_true hvalue
  have hmem := List.mem_reverse.mp (List.mem_of_find?_eq_some hp)
  obtain ⟨hi, hget⟩ := List.getElem?_eq_some_iff.mp (List.mem_zipIdx_iff_getElem?.mp hmem)
  rw [← hvalue, ← hget, hnodup.idxOf_getElem]

theorem idxOf_str (ordered : List String) (s : String) :
    (ordered.map Value.str).idxOf (.str s) = ordered.idxOf s := by
  induction ordered with
  | nil => rfl
  | cons t ordered ih =>
    rw [List.map_cons, List.idxOf_cons, List.idxOf_cons, ih]
    by_cases h : t = s
    · simp [h]
    · have h' : Value.str t ≠ .str s := fun he => h (Value.str.inj he)
      rw [beq_eq_false_iff_ne.mpr h, beq_eq_false_iff_ne.mpr h']

section
variable {hit_policy : String} {ins outs : List Column} {ranking : List String} {table : Xml}
  {D : Definition}

theorem Parsed.policy_priority (P : Parsed L table D hit_policy ins outs ranking)
    (h : hit_policy = "PRIORITY") : policyOf L table D = .priority (ranking.map .str)
      fun i => .str (L.str (Dict.get (outcomesAt D i) (outputId D))) := by
  rw [policyOf, P.policy, h, P.ranked h]
  rfl

theorem Parsed.policy_other (P : Parsed L table D hit_policy ins outs ranking)
    (h : hit_policy ≠ "PRIORITY") (values : List Value) (output : Nat → Value) :
    policyOf L table D ≠ .priority values output := by
  rw [policyOf, P.policy]
  split
  · exact fun he => nomatch he
  · exact fun he => nomatch he
  · rename_i he
    exact absurd (Option.some.inj he) h
  · exact fun he => nomatch he

theorem Parsed.parsedRow (P : Parsed L table D hit_policy ins outs ranking) {row : Row}
    (h : row ∈ D.table_rows) : ∃ rule, ParsedRow L hit_policy ins outs ranking rule row := by
  obtain ⟨rule, -, hrow⟩ := Base.mem_left_of_forall₂ P.rows h
  exact ⟨rule, hrow⟩

theorem Parsed.priority_eq (P : Parsed L table D hit_policy ins outs ranking)
    (h : hit_policy = "PRIORITY") (hnodup : ranking.Nodup) {i : Nat} {row : Row}
    (hrow : D.table_rows[i]? = some row) : row.priority = ranking.length -
      ranking.idxOf (L.str (Dict.get (outcomesAt D i) (outputId D))) := by
  obtain ⟨rule, hparsed⟩ := P.parsedRow (List.mem_of_getElem? hrow)
  have hrank := hparsed.priority
  rw [if_pos h, ← P.outputId_eq] at hrank
  have hout : outcomesAt D i = row.outcomes := by rw [outcomesAt, hrow]; rfl
  rw [hout]
  exact rank_of_nodup hnodup hrank

theorem Parsed.selects_find (P : Parsed L table D hit_policy ins outs ranking) {hit : Nat → Bool}
    (h : ∃ r, (policyOf L table D).Selects D.table_rows.length hit r) :
    (policyOf L table D).Selects D.table_rows.length hit ((tried D.table_rows).find? hit) := by
  by_cases hpolicy : hit_policy = "PRIORITY"
  · rw [P.policy_priority hpolicy] at h ⊢
    cases hf : (tried D.table_rows).find? hit with
    | none =>
      intro i hi
      simpa using List.find?_eq_none.mp hf i (mem_tried.mpr hi)
    | some i =>
      have hi := mem_tried.mp (List.mem_of_find?_eq_some hf)
      refine selects_of_best hi (List.find?_some hf) (fun j hj hhit => ?_) h
      obtain ⟨r, hr⟩ := h
      cases r with
      | none =>
        have := hr j hj
        rw [hhit] at this
        exact nomatch this
      | some k =>
        have hnodup : ranking.Nodup := hr.2.2.1.of_map _
        have hi? := List.getElem?_eq_getElem hi
        have hle := priority_le_of_find hf hj hhit _ hi?
        rw [P.priority_eq hpolicy hnodup hi?,
          P.priority_eq hpolicy hnodup (List.getElem?_eq_getElem hj)] at hle
        rw [idxOf_str, idxOf_str]
        omega
  · have hzero : ∀ row ∈ D.table_rows, row.priority = 0 := by
      intro row hrow
      obtain ⟨rule, hparsed⟩ := P.parsedRow hrow
      have hpriority := hparsed.priority
      rw [if_neg hpolicy] at hpriority
      exact hpriority
    rw [tried_of_equal hzero]
    exact Feel.selects_find (P.policy_other hpolicy) h

end

/-! ## what the import keeps -/

theorem forall₂_of_readTable {table : Xml} {rows : List (List Test)}
    (h : readTable L table = some rows) : List.Forall₂ (fun rule tests =>
      List.Forall₂ (fun cell t => read L.float cell = some t) (cellsOf rule) tests)
        (childrenOf table "rule") rows :=
  (Base.forall₂_of_mapM h).imp fun _ _ hrow => Base.forall₂_of_mapM hrow

theorem forall₂_join {α β γ : Type} {R : α → β → Prop} {S : α → γ → Prop} {xs : List α}
    {ys : List β} {zs : List γ} (hR : List.Forall₂ R xs ys) (hS : List.Forall₂ S xs zs) :
    List.Forall₂ (fun y z => ∃ x, R x y ∧ S x z) ys zs := by
  induction hR generalizing zs with
  | nil =>
    cases hS
    exact .nil
  | cons hxy _ ih =>
    cases hS with
    | cons hxz hrest => exact .cons ⟨_, hxy, hxz⟩ (ih hrest)

theorem forall₂_const {α β : Type} {P : β → Prop} {xs : List α} {ys : List β}
    (hlen : xs.length = ys.length) : List.Forall₂ (fun _ y => P y) xs ys ↔ ∀ y ∈ ys, P y := by
  constructor
  · intro h y hy
    obtain ⟨_, -, hP⟩ := Base.mem_left_of_forall₂ h hy
    exact hP
  · intro h
    rw [List.forall₂_iff_zip]
    exact ⟨hlen, fun {_ y} hmem => h y (List.of_mem_zip hmem).2⟩

theorem Parsed.cells_iff {hit_policy : String} {ins outs : List Column} {ranking : List String}
    {table : Xml} {D : Definition} (P : Parsed L table D hit_policy ins outs ranking)
    (hids : (D.table_columns.map Column.id).Nodup) {rows : List (List Test)}
    (hread : readTable L table = some rows) (Γ : String → Kind → Prop) :
    List.Forall₂ (fun (row : Row) tests => List.Forall₂ (fun col t =>
        ∀ k, Γ (pathOf col) k → Agrees L t (row.conditions.lookup col.id) k)
          (conditionColumns D) tests) D.table_rows rows ↔
      ∀ tests ∈ rows,
        List.Forall₂ (fun path t => ∀ k, Γ path k → t.Kept k) (inputPaths table) tests := by
  have hins : (ins.map Column.id).Nodup := by
    rw [P.columns, List.map_append] at hids
    exact hids.of_append_left
  have hjoin := forall₂_join P.rows (forall₂_of_readTable hread)
  rw [P.conditionColumns_eq, P.inputPaths_eq, ← forall₂_const hjoin.length_eq]
  refine forall₂_congr_of hjoin fun row tests hrow => ?_
  obtain ⟨rule, hparsed, ht⟩ := hrow
  exact hparsed.agrees_iff hins ht Γ

/-- where the cells agree, the evaluation ends with the row the hit policy selects -/
theorem Parsed.selected {hit_policy : String} {ins outs : List Column} {ranking : List String}
    {table : Xml} {D : Definition} (P : Parsed L table D hit_policy ins outs ranking)
    (hids : (D.table_columns.map Column.id).Nodup) {rows : List (List Test)}
    {Γ : String → Kind → Prop}
    (hcells : List.Forall₂ (fun (row : Row) tests => List.Forall₂ (fun col t =>
      ∀ k, Γ (pathOf col) k → Agrees L t (row.conditions.lookup col.id) k)
        (conditionColumns D) tests) D.table_rows rows)
    {context : Dict} {data : List Datum} (hdata : Typed Γ D context data)
    (h : ∃ r, (policyOf L table D).Selects D.table_rows.length (hits rows data) r) :
    ∃ r, (policyOf L table D).Selects D.table_rows.length (hits rows data) r ∧
      Evaluates L D context r := by
  refine ⟨_, P.selects_find h, evaluates_find fun i row hrow => ?_⟩
  obtain ⟨rule, hparsed⟩ := P.parsedRow (List.mem_of_getElem? hrow)
  obtain ⟨hi, rfl⟩ := List.getElem?_eq_some_iff.mp hrow
  have hi' : i < rows.length := hcells.length_eq ▸ hi
  have htests := hcells.get hi hi'
  rw [P.conditionColumns_eq] at htests
  have hhit : hits rows data i = holdsAll rows[i] data := by
    rw [hits, List.getElem?_eq_getElem hi']
    rfl
  rw [hhit]
  exact hparsed.matches P hids hdata htests

/-- of the tables that are accepted, with columns that have ids of their own, the import keeps the
decision where every cell is in the subset and the values of its field are of kinds that keep its
test, and nowhere else -/
theorem import_preserves_iff {fromstring : String → Except String Xml} {xml : String}
    {results : List ImportedDecision} (h : parseDmn L fromstring xml = .ok results) {root : Xml}
    (hroot : fromstring xml = .ok root) {decision table : Xml} {D : ImportedDecision}
    (hmem : ((decision, table), D) ∈ (tablesOf root).zip results)
    (hids : (columnIds table).Nodup) (Γ : String → Kind → Prop) :
    (∃ rows, readTable L table = some rows ∧ Preserves L table D.definition_json Γ rows) ↔
      Readable L table Γ := by
  obtain ⟨-, hall⟩ := List.forall₂_iff_zip.mp (parseTable_of_parseDmn h hroot)
  have hparse := hall hmem
  obtain ⟨hit_policy, ins, outs, ranking, P⟩ := exists_parsed hparse
  rw [← P.ids] at hids
  constructor
  · intro hkeeps
    obtain ⟨rows, hread, hkeeps⟩ := hkeeps
    exact ⟨rows, hread, (P.cells_iff hids hread Γ).mp hkeeps.cells⟩
  · intro hreadable
    obtain ⟨rows, hread, hkept⟩ := hreadable
    have hcells := (P.cells_iff hids hread Γ).mpr hkept
    exact ⟨rows, hread, hcells, fun context data => P.selected hids hcells⟩

/-! ## a table with a null cell -/

/-- one input, one output, and a rule for each pair of cells -/
def feeXml (cells : List (String × String)) : Xml where
  tag := "decision"
  attrs := [("name", "fee")]
  children := [{
    tag := "decisionTable"
    attrs := [("hitPolicy", "FIRST")]
    children :=
      { tag := "input", children := [{ tag := "inputExpression", text := "days" }] } ::
      { tag := "output" } ::
      cells.map fun cell => {
        tag := "rule"
        children := [{ tag := "inputEntry", text := cell.1 },
          { tag := "outputEntry", text := cell.2 }] } }]

def feeText (cells : List (String × String)) : String :=
  "<decision name=\"fee\"><decisionTable hitPolicy=\"FIRST\">" ++
    "<input><inputExpression>days</inputExpression></input><output/>" ++
    String.join (cells.map fun cell => "<rule><inputEntry>" ++ cell.1 ++
      "</inputEntry><outputEntry>" ++ cell.2 ++ "</outputEntry></rule>") ++
    "</decisionTable></decision>"

/-- what it is imported as, from the conditions and the outcome of each row -/
def feeRule (rows : List (Dict × Value)) : ImportedDecision where
  name := "fee"
  definition_json := {
    table_columns := [
      { id := "in1", label := some "days", field_path := some "days" },
      { id := "out1", label := some "fee", field_path := some "fee", is_condition := false }]
    table_rows := rows.map fun row => { conditions := row.1, outcomes := [("out1", row.2)] }
    hit_policy := some "FIRST" }

def tableOf (decision : Xml) : Xml := (childOf decision "decisionTable").getD decision

def lateFeesCells : List (String × String) := [("[0..7)", "0"), (">= 7", "5")]

def lateFees : Xml := feeXml lateFeesCells

def lateFeesRule : ImportedDecision :=
  feeRule [([("in1", .dict [("$gte", .int 0), ("$lt", .int 7)])], .int 0),
    ([("in1", .dict [("$gte", .int 7)])], .int 5)]

/-- where the days are numbers, the import keeps a table of numbers -/
theorem import_preserves_fees : ∃ rows, readTable Library.plain (tableOf lateFees) = some rows ∧
    Preserves Library.plain (tableOf lateFees) lateFeesRule.definition_json
      (fun _ k => k = .number) rows := by
  have hparse : parseDmn Library.plain (fun _ => .ok lateFees) (feeText lateFeesCells) =
      .ok [lateFeesRule] := by decide +kernel
  refine (import_preserves_iff hparse rfl (List.mem_singleton_self _) (by decide +kernel) _).mpr ?_
  refine ⟨[[.range false 0 7 true], [.compare .ge (.number 7)]], by decide +kernel, ?_⟩
  intro tests htests
  have hpaths : inputPaths (tableOf lateFees) = ["days"] := by decide +kernel
  show List.Forall₂ _ (inputPaths (tableOf lateFees)) tests
  rw [hpaths]
  obtain rfl | rfl : tests = [.range false 0 7 true] ∨ tests = [.compare .ge (.number 7)] := by
    simpa using htests
  · exact .cons (fun k hk => hk ▸ trivial) .nil
  · exact .cons (fun k hk => hk ▸ trivial) .nil

def nullFeeCells : List (String × String) := [("null", "0"), ("-", "5")]

def nullFee : Xml := feeXml nullFeeCells

def nullFeeRule : ImportedDecision := feeRule [([], .int 0), ([], .int 5)]

/-- the cell `null` is imported as no condition: for five days the fee is 0, by a row that asks for
no days -/
theorem import_loses_null : ¬ ∀ (L : Library) (fromstring : String → Except String Xml)
    (xml : String) (results : List ImportedDecision) (root decision table : Xml)
    (D : ImportedDecision), parseDmn L fromstring xml = .ok results → fromstring xml = .ok root →
      ((decision, table), D) ∈ (tablesOf root).zip results →
        ∃ rows, readTable L table = some rows ∧
          Preserves L table D.definition_json (fun _ _ => True) rows := by
  intro hall
  obtain ⟨rows, hread, hkeeps⟩ := hall Library.plain (fun _ => .ok nullFee) (feeText nullFeeCells)
    [nullFeeRule] nullFee nullFee (tableOf nullFee) nullFeeRule (by decide +kernel) rfl
    (List.mem_singleton_self _)
  obtain rfl : rows = [[.equals .null], [.any]] := by
    have : readTable Library.plain (tableOf nullFee) = some [[.equals .null], [.any]] := by
      decide +kernel
    exact Option.some.inj (hread.symm.trans this)
  have hdata : Typed (fun _ _ => True) nullFeeRule.definition_json [("days", .int 5)]
      [.number 5] := .cons ⟨by decide +kernel, trivial⟩ .nil
  have hhits : ∀ j < 1, hits [[.equals .null], [.any]] [.number 5] j = false := by
    decide +kernel
  have hselects : (policyOf Library.plain (tableOf nullFee) nullFeeRule.definition_json).Selects 2
      (hits [[.equals .null], [.any]] [.number 5]) (some 1) := ⟨by decide, by decide +kernel, hhits⟩
  obtain ⟨r, hr, heval⟩ := hkeeps.selected _ _ hdata ⟨_, hselects⟩
  have hrun : evaluateDecisionTable Library.plain nullFeeRule.definition_json [("days", .int 5)] =
      .ok ⟨true, "", [("fee", .int 0)], some 0⟩ := by decide +kernel
  cases r with
  | none => exact absurd (hr 1 (by decide)) (by decide +kernel)
  | some i =>
    obtain ⟨idx, hidx, heval⟩ := heval
    have hidx0 : idx = 0 := by
      have := Except.ok.inj (hrun.symm.trans heval)
      injection this with _ _ _ hi
      exact (Option.some.inj hi).symm
    have htried : tried nullFeeRule.definition_json.table_rows = [0, 1] := by decide +kernel
    obtain rfl : i = 0 := by
      rw [hidx0, htried] at hidx
      exact (Option.some.inj hidx).symm
    exact absurd hr.2.1 (by decide +kernel)

end Dmn
