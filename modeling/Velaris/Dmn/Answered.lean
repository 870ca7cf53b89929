import Velaris.Base.Traverse
import Velaris.Dmn.Parsed

/-!
# When a decision table answers

`evaluate_decision_table` applies the operators of `_OPS` to whatever the context holds, and an
exception of one of them is the exception of the evaluation.

* `checkOps_eq`, `rowMatches_eq`, `evaluate_eq`   the loops as a conjunction and a search that stop;
* `RowHolds`   a row matches;
* `Before`   the order in which the rows are tried, `numbered_before`;
* `Reached`   an operator that is applied;
* `answers_iff`   the table answers exactly where no operator that is reached raises.
-/

namespace Dmn
open Py Base

variable (L : Library)

/-! ## what is asked of a value -/

def OpHolds (actual : Value) (op : String × Value) : Prop :=
  ∀ op_fn, opFn L (opName op.1) = some op_fn → op_fn actual op.2 = .ok true

def Passes (actual : Value) : Value → Prop
  | .dict ops => ∀ op ∈ ops, OpHolds L actual op
  | expected => actual.eq expected = true

def Tested (columns : List Column) (col_id : String) (col : Column) : Prop :=
  (columnOf columns col_id).filter (·.is_condition) = some col

def actualOf (context : Dict) (col : Column) : Value := resolvePath context (col.field_path.getD "")

def ConditionHolds (columns : List Column) (context : Dict) (c : String × Value) : Prop :=
  ∀ col, Tested columns c.1 col → Passes L (actualOf context col) c.2

def RowHolds (columns : List Column) (context : Dict) (row : Row) : Prop :=
  ∀ c ∈ row.conditions, ConditionHolds L columns context c

/-! ## the loops -/

/-- an operator that `_OPS` has not is passed over -/
def askOp (actual : Value) (op : String × Value) : Except Raised Bool :=
  match opFn L (opName op.1) with
  | none => .ok true
  | some op_fn => op_fn actual op.2

def askCondition (columns : List Column) (context : Dict) (c : String × Value) :
    Except Raised Bool :=
  match (columnOf columns c.1).filter (·.is_condition) with
  | none => .ok true
  | some col => check L (actualOf context col) c.2

variable {L}

theorem checkOps_eq (actual : Value) (ops : Dict) :
    checkOps L actual ops = allUntil (askOp L actual) ops := by
  induction ops with
  | nil => rfl
  | cons op ops ih =>
    rw [checkOps, allUntil, ← ih]
    unfold askOp
    cases opFn L (opName op.1) with
    | none => rfl
    | some op_fn => rfl

theorem rowMatches_eq (columns : List Column) (context : Dict) (conditions : Dict) :
    rowMatches L columns context conditions =
      allUntil (askCondition L columns context) conditions := by
  induction conditions with
  | nil => rfl
  | cons c conditions ih =>
    rw [rowMatches, allUntil, ← ih]
    unfold askCondition
    cases (columnOf columns c.1).filter (·.is_condition) with
    | none => rfl
    | some col => rfl

theorem askOp_iff {actual : Value} {op : String × Value} :
    askOp L actual op = .ok true ↔ OpHolds L actual op := by
  unfold askOp OpHolds
  cases opFn L (opName op.1) with
  | none => simp
  | some op_fn => simp

theorem check_iff {actual expected : Value} :
    check L actual expected = .ok true ↔ Passes L actual expected := by
  unfold check
  split
  · rw [checkOps_eq, allUntil_eq_true_iff]
    exact forall₂_congr fun op _ => askOp_iff
  · rename_i hdict
    have : Passes L actual expected ↔ actual.eq expected = true := by
      unfold Passes
      split
      · exact absurd rfl (hdict _)
      · rfl
    rw [this]
    simp

theorem askCondition_iff {columns : List Column} {context : Dict} {c : String × Value} :
    askCondition L columns context c = .ok true ↔ ConditionHolds L columns context c := by
  unfold askCondition ConditionHolds Tested
  cases (columnOf columns c.1).filter (·.is_condition) with
  | none => simp
  | some col => simp [check_iff]

theorem rowMatches_iff {columns : List Column} {context : Dict} {row : Row} :
    rowMatches L columns context row.conditions = .ok true ↔ RowHolds L columns context row := by
  rw [rowMatches_eq, allUntil_eq_true_iff]
  exact forall₂_congr fun c _ => askCondition_iff

/-! ## the order of the rows -/

/-- `a` has a higher priority than `b`, or the same and a place further up -/
def Before (a b : Row × Nat) : Prop :=
  b.1.priority < a.1.priority ∨ a.1.priority = b.1.priority ∧ a.2 < b.2

theorem Before.priority_le {a b : Row × Nat} (h : Before a b) : b.1.priority ≤ a.1.priority := by
  obtain h | ⟨h, -⟩ := h
  · exact h.le
  · exact h.ge

theorem pairwise_orderedInsert {a : Row × Nat} {rows : List (Row × Nat)} (h : rows.Pairwise Before)
    (ha : ∀ b ∈ rows, a.2 < b.2) :
    (rows.orderedInsert (fun a b => b.1.priority ≤ a.1.priority) a).Pairwise Before := by
  induction rows with
  | nil => simp
  | cons b rows ih =>
    obtain ⟨hb, hrows⟩ := List.pairwise_cons.mp h
    rw [List.orderedInsert_cons]
    split
    · rename_i hle
      refine List.pairwise_cons.mpr ⟨fun c hc => ?_, h⟩
      have hc2 := ha c hc
      have hpriority : c.1.priority ≤ a.1.priority := by
        obtain rfl | hc := List.mem_cons.mp hc
        · exact hle
        · exact (hb c hc).priority_le.trans hle
      obtain hlt | heq := hpriority.lt_or_eq
      · exact .inl hlt
      · exact .inr ⟨heq.symm, hc2⟩
    · rename_i hle
      refine List.pairwise_cons.mpr ⟨fun c hc => ?_, ih hrows fun c hc =>
        ha c (List.mem_cons_of_mem b hc)⟩
      obtain rfl | hc := (List.mem_orderedInsert _).mp hc
      · exact .inl (not_le.mp hle)
      · exact hb c hc

theorem numbered_before (rows : List Row) : (numbered rows).Pairwise Before := by
  have hsorted : ∀ n, ((rows.zipIdx n).insertionSort
      fun a b => b.1.priority ≤ a.1.priority).Pairwise Before := by
    induction rows with
    | nil => exact fun n => .nil
    | cons row rows ih =>
      intro n
      rw [List.zipIdx_cons, List.insertionSort_cons]
      refine pairwise_orderedInsert (ih (n + 1)) fun b hb => ?_
      have := List.le_snd_of_mem_zipIdx ((List.mem_insertionSort _).mp hb)
      show n < b.2
      omega
  exact hsorted 0

theorem mem_before_iff {rows : List Row} {before after : List (Row × Nat)} {p q : Row × Nat}
    (h : numbered rows = before ++ p :: after) (hq : q ∈ numbered rows) :
    q ∈ before ↔ Before q p := by
  have hpair := numbered_before rows
  rw [h] at hpair hq
  obtain ⟨-, hp, hcross⟩ := List.pairwise_append.mp hpair
  constructor
  · exact fun hq => hcross q hq p List.mem_cons_self
  · intro hqp
    obtain hq | hq := List.mem_append.mp hq
    · exact hq
    · exfalso
      obtain rfl | hq := List.mem_cons.mp hq
      · unfold Before at hqp
        omega
      · have := (List.pairwise_cons.mp hp).1 q hq
        unfold Before at this hqp
        omega

theorem evaluateRows_eq (rule : Definition) (context : Dict) (rows : List (Row × Nat)) (n : Nat) :
    (evaluateRows L rule context n (rows.map Prod.fst)).map (fun e => (e.matched, e.outcomes)) =
      (firstOf (fun p => rowMatches L rule.table_columns context p.1.conditions) rows).map
        fun found => (found.isSome,
          (found.map fun p => outcomesOf rule.table_columns p.1.outcomes).getD []) := by
  induction rows generalizing n with
  | nil => rfl
  | cons p rows ih =>
    rw [List.map_cons, evaluateRows, firstOf]
    cases rowMatches L rule.table_columns context p.1.conditions with
    | error e => rfl
    | ok b =>
      cases b with
      | true => rfl
      | false => exact ih (n + 1)

/-! ## the answer -/

variable (L)

def First (rule : Definition) (context : Dict) (p : Row × Nat) : Prop :=
  rule.table_rows[p.2]? = some p.1 ∧ RowHolds L rule.table_columns context p.1 ∧
    ∀ q : Row × Nat, rule.table_rows[q.2]? = some q.1 → Before q p →
      ¬ RowHolds L rule.table_columns context q.1

def Chosen (rule : Definition) (context : Dict) (e : Evaluation) : Prop :=
  (e.matched = true ∧ ∃ p, First L rule context p ∧
    e.outcomes = outcomesOf rule.table_columns p.1.outcomes) ∨
  (e.matched = false ∧ e.outcomes = [] ∧
    ∀ row ∈ rule.table_rows, ¬ RowHolds L rule.table_columns context row)

def RangeOnMissing (columns : List Column) (context : Dict) (c : String × Value) : Prop :=
  ∃ col ops, Tested columns c.1 col ∧ c.2 = .dict ops ∧ actualOf context col = .none ∧
    ∃ op ∈ ops, opName op.1 ∈ ["gt", "gte", "lt", "lte", "between"]

/-- the table answers: with the outcomes of the first row that matches, and no row with a range on a
missing field does -/
structure Answers (rule : Definition) (context : Dict) : Prop where
  chosen : ∃ e, evaluateDecisionTable L rule context = .ok e ∧ Chosen L rule context e
  missing : ∀ row ∈ rule.table_rows, ∀ c ∈ row.conditions,
    RangeOnMissing rule.table_columns context c → ¬ RowHolds L rule.table_columns context row

/-- an operator that is applied: no row before its own matches, and nothing that is asked in its row
before it fails -/
def Reached (rule : Definition) (context : Dict) (actual : Value) (op : String × Value) : Prop :=
  ∃ p : Row × Nat, rule.table_rows[p.2]? = some p.1 ∧
    (∀ q : Row × Nat, rule.table_rows[q.2]? = some q.1 → Before q p →
      ¬ RowHolds L rule.table_columns context q.1) ∧
    ∃ before c after, p.1.conditions = before ++ c :: after ∧
      (∀ b ∈ before, ConditionHolds L rule.table_columns context b) ∧
      ∃ col, Tested rule.table_columns c.1 col ∧ actual = actualOf context col ∧
        ∃ asked left, c.2 = .dict (asked ++ op :: left) ∧ ∀ o ∈ asked, OpHolds L actual o

variable {L}

/-! ### when a row returns -/

theorem askOp_returns_iff {actual : Value} {op : String × Value} :
    (∃ b, askOp L actual op = .ok b) ↔
      ∀ op_fn, opFn L (opName op.1) = some op_fn → ∃ b, op_fn actual op.2 = .ok b := by
  unfold askOp
  cases opFn L (opName op.1) with
  | none => simp
  | some op_fn => simp

theorem check_returns_iff {actual expected : Value} :
    (∃ b, check L actual expected = .ok b) ↔
      ∀ asked op left, expected = .dict (asked ++ op :: left) → (∀ o ∈ asked, OpHolds L actual o) →
        ∃ b, askOp L actual op = .ok b := by
  unfold check
  split
  · rename_i ops
    rw [checkOps_eq, allUntil_returns_iff]
    simp only [askOp_iff, Value.dict.injEq]
  · rename_i hdict
    exact ⟨fun _ asked op left he => absurd he (hdict _), fun _ => ⟨_, rfl⟩⟩

theorem askCondition_returns_iff {columns : List Column} {context : Dict} {c : String × Value} :
    (∃ b, askCondition L columns context c = .ok b) ↔
      ∀ col, Tested columns c.1 col → ∃ b, check L (actualOf context col) c.2 = .ok b := by
  unfold askCondition Tested
  cases (columnOf columns c.1).filter (·.is_condition) with
  | none => simp
  | some col => simp

theorem rowMatches_returns_iff {columns : List Column} {context : Dict} {row : Row} :
    (∃ b, rowMatches L columns context row.conditions = .ok b) ↔
      ∀ before c after, row.conditions = before ++ c :: after →
        (∀ b ∈ before, ConditionHolds L columns context b) →
        ∃ b, askCondition L columns context c = .ok b := by
  rw [rowMatches_eq, allUntil_returns_iff]
  simp only [askCondition_iff]

theorem firstOf_numbered_iff {rule : Definition} {context : Dict} :
    (∃ r, firstOf (fun p : Row × Nat => rowMatches L rule.table_columns context p.1.conditions)
      (numbered rule.table_rows) = .ok r) ↔
    ∀ p : Row × Nat, rule.table_rows[p.2]? = some p.1 →
      (∀ q : Row × Nat, rule.table_rows[q.2]? = some q.1 → Before q p →
        ¬ RowHolds L rule.table_columns context q.1) →
      ∃ b, rowMatches L rule.table_columns context p.1.conditions = .ok b := by
  rw [firstOf_returns_iff]
  constructor
  · intro h p hp hbefore
    obtain ⟨before, after, hrows⟩ := List.append_of_mem (mem_numbered.mpr hp)
    refine h before p after hrows fun q hq hmatches => ?_
    have hmem : q ∈ numbered rule.table_rows := by
      rw [hrows]
      exact List.mem_append_left _ hq
    exact hbefore q (mem_numbered.mp hmem) ((mem_before_iff hrows hmem).mp hq)
      (rowMatches_iff.mp hmatches)
  · intro h before p after hrows hbefore
    have hp : p ∈ numbered rule.table_rows := by
      rw [hrows]
      exact List.mem_append_right _ List.mem_cons_self
    refine h p (mem_numbered.mp hp) fun q hq hqp hholds => ?_
    exact hbefore q ((mem_before_iff hrows (mem_numbered.mpr hq)).mpr hqp)
      (rowMatches_iff.mpr hholds)

/-! ### the answer is right -/

theorem ordered_none (accepts : Ordering → Bool) (a : Value) :
    ordered accepts .none a = .error .typeError ∧ ordered accepts a .none = .error .typeError := by
  cases a <;> exact ⟨rfl, rfl⟩

theorem between_none (bounds : Value) : between .none bounds ≠ .ok true := by
  intro h
  unfold between at h
  obtain ⟨low, -, h⟩ := exists_of_bind_ok h
  rw [(ordered_none _ low).2] at h
  exact nomatch h

theorem range_none {name : String} (hname : name ∈ ["gt", "gte", "lt", "lte", "between"])
    {op_fn : Value → Value → Except Raised Bool} (h : opFn L name = some op_fn) (v : Value) :
    op_fn .none v ≠ .ok true := by
  simp only [List.mem_cons, List.not_mem_nil, or_false] at hname
  obtain rfl | rfl | rfl | rfl | rfl := hname
  all_goals
    obtain rfl := Option.some.inj h
    first
      | exact between_none v
      | (rw [(ordered_none _ v).1]; exact fun he => nomatch he)

theorem not_rowHolds_of_missing {columns : List Column} {context : Dict} {row : Row}
    {c : String × Value} (hc : c ∈ row.conditions) (h : RangeOnMissing columns context c) :
    ¬ RowHolds L columns context row := by
  obtain ⟨col, ops, htested, hops, hnone, op, hop, hname⟩ := h
  intro hholds
  have hpasses := hholds c hc col htested
  rw [hops, hnone] at hpasses
  have hholds : OpHolds L .none op := hpasses op hop
  cases hf : opFn L (opName op.1) with
  | none =>
    simp only [List.mem_cons, List.not_mem_nil, or_false] at hname
    obtain he | he | he | he | he := hname <;> simp [he, opFn] at hf
  | some op_fn => exact range_none hname hf op.2 (hholds op_fn hf)

theorem chosen_of_ok {rule : Definition} {context : Dict} {e : Evaluation}
    (h : evaluateDecisionTable L rule context = .ok e) : Chosen L rule context e := by
  have heq := evaluateRows_eq (L := L) rule context (numbered rule.table_rows) 0
  rw [map_numbered] at heq
  unfold evaluateDecisionTable at h
  rw [h] at heq
  obtain ⟨found, hfound, he⟩ := exists_of_map_ok heq.symm
  obtain ⟨hmatched, houtcomes⟩ := Prod.mk.inj he
  cases found with
  | none =>
    refine .inr ⟨hmatched.symm, houtcomes.symm, fun row hrow hholds => ?_⟩
    obtain ⟨i, hi⟩ := List.mem_iff_getElem?.mp hrow
    have hno := firstOf_none hfound (row, i) (mem_numbered.mpr hi)
    exact nomatch hno.symm.trans (rowMatches_iff.mpr hholds)
  | some p =>
    obtain ⟨hyes, before, after, hrows, hbefore⟩ := firstOf_some hfound
    have hp : p ∈ numbered rule.table_rows := by
      rw [hrows]
      exact List.mem_append_right _ List.mem_cons_self
    refine .inl ⟨hmatched.symm, p, ⟨mem_numbered.mp hp, rowMatches_iff.mp hyes, ?_⟩, houtcomes.symm⟩
    intro q hq hqp hholds
    have hno := hbefore q ((mem_before_iff hrows (mem_numbered.mpr hq)).mpr hqp)
    exact nomatch hno.symm.trans (rowMatches_iff.mpr hholds)

theorem returns_iff {rule : Definition} {context : Dict} :
    (∃ e, evaluateDecisionTable L rule context = .ok e) ↔
      ∃ r, firstOf (fun p : Row × Nat => rowMatches L rule.table_columns context p.1.conditions)
        (numbered rule.table_rows) = .ok r := by
  have heq := evaluateRows_eq (L := L) rule context (numbered rule.table_rows) 0
  rw [map_numbered] at heq
  constructor
  · intro h
    obtain ⟨e, he⟩ := h
    unfold evaluateDecisionTable at he
    rw [he] at heq
    obtain ⟨found, hfound, -⟩ := exists_of_map_ok heq.symm
    exact ⟨found, hfound⟩
  · intro h
    obtain ⟨found, hfound⟩ := h
    rw [hfound] at heq
    obtain ⟨e, he, -⟩ := exists_of_map_ok heq
    exact ⟨e, he⟩

/-- a table answers exactly where no operator that is reached raises -/
theorem answers_iff (L : Library) (rule : Definition) (context : Dict) :
    Answers L rule context ↔ ∀ actual op, Reached L rule context actual op →
      ∀ op_fn, opFn L (opName op.1) = some op_fn → ∃ b, op_fn actual op.2 = .ok b := by
  have hanswers : Answers L rule context ↔ ∃ e, evaluateDecisionTable L rule context = .ok e := by
    constructor
    · intro h
      obtain ⟨e, he, -⟩ := h.chosen
      exact ⟨e, he⟩
    · intro h
      obtain ⟨e, he⟩ := h
      refine ⟨⟨e, he, chosen_of_ok he⟩, fun row _ c hc hmissing => ?_⟩
      exact not_rowHolds_of_missing hc hmissing
  rw [hanswers, returns_iff, firstOf_numbered_iff]
  constructor
  · intro h actual op hreached
    obtain ⟨p, hp, hbefore, before, c, after, hc, hholds, col, htested, rfl, asked, left, hops,
      hasked⟩ := hreached
    have hc := rowMatches_returns_iff.mp (h p hp hbefore) before c after hc hholds
    have hcheck := askCondition_returns_iff.mp hc col htested
    exact askOp_returns_iff.mp (check_returns_iff.mp hcheck asked op left hops hasked)
  · intro h p hp hbefore
    refine rowMatches_returns_iff.mpr fun before c after hc hholds => ?_
    refine askCondition_returns_iff.mpr fun col htested => ?_
    refine check_returns_iff.mpr fun asked op left hops hasked => ?_
    exact askOp_returns_iff.mpr (h _ op ⟨p, hp, hbefore, before, c, after, hc, hholds, col, htested,
      rfl, asked, left, hops, hasked⟩)

def amountRule : Definition where
  table_columns := [{ id := "a", field_path := some "amount" }]
  table_rows := [{ conditions := [("a", .dict [("$gte", .int 100)])] }]

theorem amount_missing : ¬ ∀ (L : Library) (rule : Definition) (context : Dict),
    Answers L rule context := by
  intro h
  obtain ⟨e, he, -⟩ := (h Library.plain amountRule []).chosen
  have hraises : evaluateDecisionTable Library.plain amountRule [] = .error .typeError := by
    decide +kernel
  exact nomatch hraises.symm.trans he

end Dmn
