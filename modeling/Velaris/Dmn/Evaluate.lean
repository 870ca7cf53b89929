import Velaris.Dmn.Cell
import Mathlib.Data.List.Sort

/-!
# Decision tables (`case_service/core/rules_evaluator.py`)

* `Column`, `Row`, `Definition`   a decision-table rule;
* `opFn`   `_OPS`;
* `resolvePath`   a dotted path in the context;
* `evaluateDecisionTable`   the first row that matches, by falling priority.
-/

namespace Dmn
open Py

structure Column where
  id : String
  label : Option String := none
  field_path : Option String
  is_condition : Bool := true
  type_ref : Option String := none
  deriving DecidableEq

structure Row where
  conditions : Dict := []
  outcomes : Dict := []
  priority : Int := 0
  description : Option String := none
  deriving DecidableEq

structure Definition where
  id : String := ""
  table_columns : List Column
  table_rows : List Row
  hit_policy : Option String := none
  deriving DecidableEq

/-! ## `_OPS` -/

def ordered (accepts : Ordering → Bool) (a b : Value) : Except Raised Bool :=
  match a.cmp b with
  | some o => .ok (accepts o)
  | none => .error .typeError

/-- `x in collection` -/
def isIn (x collection : Value) : Except Raised Bool :=
  match collection with
  | .list xs => .ok (x.elem xs)
  | .str s =>
    match x with
    | .str t => .ok (substr t.toList s.toList)
    | _ => .error .typeError
  | .dict items =>
    if x.hashable then .ok (items.any fun item => x.eq (.str item.1)) else .error .typeError
  | _ => .error .typeError

/-- `bounds[n]` -/
def item (bounds : Value) (n : Nat) : Except Raised Value :=
  match bounds with
  | .list xs =>
    match xs[n]? with
    | some x => .ok x
    | none => .error .lookupError
  | .str s =>
    match s.toList[n]? with
    | some c => .ok (.str (String.singleton c))
    | none => .error .lookupError
  | .dict _ => .error .lookupError
  | _ => .error .typeError

def between (val bounds : Value) : Except Raised Bool := do
  if ← ordered (· != .gt) (← item bounds 0) val then
    ordered (· != .gt) val (← item bounds 1)
  else return false

def isEmpty (val : Value) : Bool := val.eq .none || val.eq (.str "") || val.eq (.list [])

variable (L : Library)

def opFn (name : String) : Option (Value → Value → Except Raised Bool) :=
  match name with
  | "eq" => some fun a b => .ok (a.eq b)
  | "neq" => some fun a b => .ok (!a.eq b)
  | "gt" => some (ordered (· == .gt))
  | "gte" => some (ordered (· != .lt))
  | "lt" => some (ordered (· == .lt))
  | "lte" => some (ordered (· != .gt))
  | "in" => some isIn
  | "not_in" => some fun a b => (isIn a b).map not
  | "contains" => some fun a b => isIn b a
  | "not_contains" => some fun a b => (isIn b a).map not
  | "starts_with" => some fun a b => .ok ((L.str b).toList.isPrefixOf (L.str a).toList)
  | "ends_with" => some fun a b => .ok ((L.str b).toList.isSuffixOf (L.str a).toList)
  | "is_empty" => some fun a _ => .ok (isEmpty a)
  | "is_not_empty" => some fun a _ => .ok (!isEmpty a)
  | "matches" => some fun a b =>
    match L.match? (L.str b) (L.str a) with
    | some found => .ok found
    | none => .error .reError
  | "between" => some between
  | _ => none

/-! ## `resolve_path` -/

def remainder (parts : List (List Char)) : String := String.ofList (['.'].intercalate parts)

/-- the remaining path is first tried as one key, then its first part -/
def resolveFrom (current : Value) : List (List Char) → Value
  | [] => current
  | part :: parts =>
    match current with
    | .dict items =>
      if parts ≠ [] ∧ Dict.has items (remainder (part :: parts)) then
        Dict.get items (remainder (part :: parts))
      else
        match Dict.get items (String.ofList part) with
        | .none => .none
        | next => resolveFrom next parts
    | _ => .none

def resolvePath (context : Dict) (path : String) : Value :=
  resolveFrom (.dict context) (path.toList.splitOn '.')

/-! ## `evaluate_decision_table` -/

/-- `range_op.lstrip("$")` -/
def opName (op : String) : String := String.ofList (op.toList.dropWhile (· = '$'))

/-- the operators of one condition, up to the first that fails -/
def checkOps (actual : Value) : Dict → Except Raised Bool
  | [] => .ok true
  | (range_op, range_val) :: ops =>
    match opFn L (opName range_op) with
    | none => checkOps actual ops
    | some op_fn => do
      if ← op_fn actual range_val then checkOps actual ops else return false

def check (actual expected : Value) : Except Raised Bool :=
  match expected with
  | .dict ops => checkOps L actual ops
  | _ => .ok (actual.eq expected)

/-- `{c["id"]: c for c in columns}[col_id]`: of the columns with one id, the last -/
def columnOf (columns : List Column) (col_id : String) : Option Column :=
  columns.reverse.find? (·.id = col_id)

/-- the conditions of one row, up to the first that fails -/
def rowMatches (columns : List Column) (context : Dict) : Dict → Except Raised Bool
  | [] => .ok true
  | (col_id, expected) :: conditions =>
    match (columnOf columns col_id).filter (·.is_condition) with
    | none => rowMatches columns context conditions
    | some col => do
      if ← check L (resolvePath context (col.field_path.getD "")) expected then
        rowMatches columns context conditions
      else return false

def outcomesOf (columns : List Column) (outcomes : Dict) : Dict :=
  outcomes.foldl (fun done o =>
    match columnOf columns o.1 with
    | some col => Dict.set (col.field_path.getD o.1) o.2 done
    | none => done) []

structure Evaluation where
  matched : Bool
  rule_id : String
  outcomes : Dict
  matched_row_index : Option Nat
  deriving DecidableEq

/-- the rows that are left, the first of them the `idx`-th -/
def evaluateRows (rule : Definition) (context : Dict) : Nat → List Row → Except Raised Evaluation
  | _, [] => .ok ⟨false, rule.id, [], none⟩
  | idx, row :: rows => do
    if ← rowMatches L rule.table_columns context row.conditions then
      return ⟨true, rule.id, outcomesOf rule.table_columns row.outcomes, some idx⟩
    else evaluateRows rule context (idx + 1) rows

/-- `sorted(rows, key=priority, reverse=True)`, which keeps rows of one priority in their order -/
def byPriority (rows : List Row) : List Row :=
  rows.insertionSort fun a b => b.priority ≤ a.priority

def evaluateDecisionTable (rule : Definition) (context : Dict) : Except Raised Evaluation :=
  evaluateRows L rule context 0 (byPriority rule.table_rows)

end Dmn
