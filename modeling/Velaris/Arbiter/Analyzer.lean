import Mathlib.Data.List.Sort
import Velaris.Arbiter.Unresolved
import Velaris.Py.Runtime

/-!
# HxArbiter: the compiler's checks, and the analysis of a draft

`hxarbiter_core/compiler.py` (what a version must pass to be activated), `catalog.py` and
`analyzer.py`.

* `checkComparison`, `walk`   what the compiler checks of a condition; `Compiles`;
* `branches`   the disjunctive normal form, where there is no `not`;
* `conjunctionSatisfiable`   one conjunction, attribute by attribute;
* `overlaps`, `subsumes`, `analyze`.
-/

namespace HxArbiter
open Py

structure Rule where
  id : String
  effect : Effect
  condition : Condition
  obligations : List Obligation := []

def Op.value : Op → String
  | .eq => "eq"
  | .ne => "ne"
  | .isIn => "in"
  | .notIn => "not_in"
  | .contains => "contains"
  | .notContains => "not_contains"
  | .intersects => "intersects"
  | .gt => "gt"
  | .gte => "gte"
  | .lt => "lt"
  | .lte => "lte"
  | .matchesDomain => "matches_domain"
  | .isSubsetOf => "is_subset_of"
  | .isPresent => "is_present"
  | .isAbsent => "is_absent"

def UNARY_OPS : List Op := [.isPresent, .isAbsent]

def LIST_VALUE_OPS : List Op := [.isIn, .notIn, .intersects, .isSubsetOf]

def ORDERING_OPS : List Op := [.gt, .gte, .lt, .lte]

/-! ## the compiler -/

inductive AttrType where
  | string | domain | number | boolean | stringSet
  deriving DecidableEq

def AttrType.value : AttrType → String
  | .string => "string"
  | .domain => "domain"
  | .number => "number"
  | .boolean => "boolean"
  | .stringSet => "string_set"

structure AttrSpec where
  type : AttrType
  allowed : Option (List String) := none

def DOMAIN_OPS : List Op := [.matchesDomain, .eq, .ne, .isIn, .notIn, .isPresent, .isAbsent]

def SET_OPS : List Op :=
  [.contains, .notContains, .intersects, .isSubsetOf, .isPresent, .isAbsent, .eq, .ne]

/-- `type(value).__name__` -/
def typeName : Value → String
  | .none => "NoneType"
  | .bool _ => "bool"
  | .int _ => "int"
  | .float _ => "float"
  | .str _ => "str"
  | .list _ => "list"
  | .dict _ => "dict"

/-- `isinstance(value, _TYPE_OF_LITERAL[type])`, a boolean being no number -/
def AttrType.takes : AttrType → Value → Bool
  | .string, .str _ | .domain, .str _ | .stringSet, .str _ => true
  | .number, .int _ | .number, .float _ => true
  | .boolean, .bool _ => true
  | _, _ => false

/-- the path of `{"attr": path}` -/
def Comparison.reference? (cmp : Comparison) : Option Value :=
  match cmp.value with
  | .dict [("attr", path)] => some path
  | _ => none

structure PolicyCompiler where
  catalog : String → Option AttrSpec
  /-- `repr(value)` -/
  repr : Value → String
  maxDepth : Nat := 8
  maxNodes : Nat := 128

structure Walked where
  nodes : Nat := 0
  depth : Nat := 0
  requiredAttrs : List String := []

namespace PolicyCompiler

variable (C : PolicyCompiler)

def checkLiteral (spec : AttrSpec) (path : String) (value : Value) : Except String Unit :=
  let name := C.repr (.str path)
  match spec.type, value with
  | .number, .bool _ => .error (name ++ " is numeric; got a boolean")
  | type, value =>
    if ¬ type.takes value then
      .error (name ++ " is " ++ type.value ++ "; got " ++ typeName value ++ " " ++ C.repr value)
    else
      match spec.allowed with
      | none => .ok ()
      | some allowed =>
        if value.elem (allowed.map .str) then .ok ()
        else .error (C.repr value ++ " is not a permitted value for " ++ name ++ " (allowed: " ++
          ", ".intercalate allowed ++ ")")

def checkLiterals (spec : AttrSpec) (path : String) (op : Op) (values : List Value) :
    Except String Unit :=
  if values = [] then .error (op.value ++ " was given an empty list")
  else values.forM (C.checkLiteral spec path)

def checkShape (spec : AttrSpec) (cmp : Comparison) : Except String Unit :=
  match cmp.op, cmp.value with
  | .matchesDomain, .list values => C.checkLiterals spec cmp.attr cmp.op values
  | op, value =>
    if op ∈ LIST_VALUE_OPS then
      match value with
      | .list values => C.checkLiterals spec cmp.attr op values
      | _ => .error (op.value ++ " requires a list value")
    else if spec.type = .stringSet then
      if op ∈ [Op.contains, .notContains] then C.checkLiteral spec cmp.attr value
      else
        match value with
        | .list _ => .ok ()
        | _ => .error (op.value ++ " on the set attribute " ++ C.repr (.str cmp.attr) ++
          " requires a list")
    else C.checkLiteral spec cmp.attr value

/-- the operators that an attribute of the type may have beside a literal -/
def checkOperator (spec : AttrSpec) (cmp : Comparison) : Except String Unit :=
  let name := C.repr (.str cmp.attr)
  if spec.type = .domain ∧ cmp.op ∉ DOMAIN_OPS then
    .error (cmp.op.value ++ " is not allowed on the domain attribute " ++ name ++
      "; use matches_domain — substring matching on a hostname is a bypass class")
  else if spec.type = .stringSet ∧ cmp.op ∉ SET_OPS then
    .error (cmp.op.value ++ " is not allowed on the set attribute " ++ name)
  else if cmp.op ∈ ORDERING_OPS ∧ spec.type ≠ .number then
    .error (cmp.op.value ++ " requires a numeric attribute; " ++ name ++ " is " ++
      spec.type.value)
  else if cmp.op = .matchesDomain ∧ spec.type ≠ .domain then
    .error ("matches_domain requires a domain attribute; " ++ name ++ " is " ++ spec.type.value)
  else .ok ()

/-- the attribute on the right-hand side; a path that is no text names none -/
def checkReference (spec : AttrSpec) (cmp : Comparison) (path : Value) : Except String Unit :=
  let other := match path with
    | .str p => C.catalog p
    | _ => none
  match other with
  | none => .error ("unknown attribute " ++ C.repr path ++ " on the right-hand side")
  | some other =>
    if other.type ≠ spec.type then
      .error ("cannot compare " ++ spec.type.value ++ " attribute " ++ C.repr (.str cmp.attr) ++
        " with " ++ other.type.value ++ " attribute " ++ C.repr path)
    else .ok ()

def checkComparison (cmp : Comparison) : Except String Unit :=
  match C.catalog cmp.attr with
  | none =>
    .error ("unknown attribute " ++ C.repr (.str cmp.attr) ++ " (not in the registered catalog)")
  | some spec =>
    if cmp.op ∈ UNARY_OPS then
      if cmp.value ≠ .none then .error (cmp.op.value ++ " takes no value") else .ok ()
    else if cmp.value = .none then .error (cmp.op.value ++ " requires a value")
    else
      match cmp.reference? with
      | some path => C.checkReference spec cmp path
      | none => do
        C.checkOperator spec cmp
        C.checkShape spec cmp

def enter (depth : Nat) (w : Walked) : Except String Walked :=
  if C.maxDepth < depth then
    .error ("condition nests deeper than the limit of " ++ toString C.maxDepth)
  else if C.maxNodes < w.nodes + 1 then
    .error ("condition has more than " ++ toString C.maxNodes ++ " nodes")
  else .ok { w with nodes := w.nodes + 1, depth := max w.depth depth }

mutual

def walk (depth : Nat) : Condition → Walked → Except String Walked
  | .allOf cs, w => do walkAll (depth + 1) cs (← C.enter depth w)
  | .anyOf cs, w => do walkAll (depth + 1) cs (← C.enter depth w)
  | .notOf c, w => do walk (depth + 1) c (← C.enter depth w)
  | .comparison cmp, w => do
    let w ← C.enter depth w
    C.checkComparison cmp
    return { w with requiredAttrs := w.requiredAttrs ++ cmp.paths }

def walkAll (depth : Nat) : List Condition → Walked → Except String Walked
  | [], w => .ok w
  | c :: cs, w => do walkAll depth cs (← walk depth c w)

end

def checkRule (r : Rule) : Except String Walked := C.walk 1 r.condition {}

def Compiles (r : Rule) : Prop := ∃ w, C.checkRule r = .ok w

end PolicyCompiler

/-! ## the constraints of a condition -/

mutual

/-- `_hashable`: lists and dictionaries as tuples -/
def hashableOf : Value → Value
  | .list xs => .list (hashableList xs)
  | .dict items =>
    .list (((hashableItems items).insertionSort fun a b => a.1 ≤ b.1).map fun item =>
      .list [.str item.1, item.2])
  | v => v

def hashableList : List Value → List Value
  | [] => []
  | x :: xs => hashableOf x :: hashableList xs

def hashableItems : List (String × Value) → List (String × Value)
  | [] => []
  | (k, v) :: items => (k, hashableOf v) :: hashableItems items

end

/-- `value` is hashable: a list stands for a tuple -/
structure Constraint where
  attr : String
  op : Op
  value : Value

def Comparison.constraint (cmp : Comparison) : Constraint :=
  ⟨cmp.attr, cmp.op, hashableOf cmp.value⟩

section
variable {γ : Type} (leaf : Comparison → γ)

mutual

/-- the disjunctive normal form, with what stands for a comparison -/
def dnf : Condition → Option (List (List γ))
  | .comparison cmp => some [[leaf cmp]]
  | .allOf cs => dnfAll [[]] cs
  | .anyOf cs => dnfAny [] cs
  | .notOf _ => none

def dnfAll (out : List (List γ)) : List Condition → Option (List (List γ))
  | [] => some out
  | c :: cs =>
    match dnf c with
    | none => none
    | some sub =>
      let out := out.flatMap fun a => sub.map fun b => a ++ b
      if 256 < out.length then none else dnfAll out cs

def dnfAny (out : List (List γ)) : List Condition → Option (List (List γ))
  | [] => some out
  | c :: cs =>
    match dnf c with
    | none => none
    | some sub => dnfAny (out ++ sub) cs

end
end

def branches (cond : Condition) : Option (List (List Constraint)) := dnf Comparison.constraint cond

/-! ## one conjunction -/

def values (c : Constraint) : Option (List Value) :=
  match c.op, c.value with
  | .eq, v => some [v]
  | .isIn, .list vs => some vs
  | _, _ => none

/-- what `ne` or `not_in` leaves out -/
def excluded (c : Constraint) : Option (List Value) :=
  match c.op, c.value with
  | .ne, v => some [v]
  | .notIn, .list vs => some vs
  | _, _ => none

def insertSorted (x : Value) : List Value → Except Err (List Value)
  | [] => .ok [x]
  | y :: ys =>
    match x.cmp y with
    | none => .error .typeError
    | some .gt => do return y :: (← insertSorted x ys)
    | some _ => .ok (x :: y :: ys)

/-- `sorted(vs)` -/
def sortedValues : List Value → Except Err (List Value)
  | [] => .ok []
  | x :: xs => do insertSorted x (← sortedValues xs)

/-- `set.intersection(*sets)` -/
def intersection : List (List Value) → List Value
  | [] => []
  | s :: rest => s.filter fun v => rest.all fun t => v.elem t

inductive Weight where
  | impossible | decided | undecided
  deriving DecidableEq

def positive (c : Constraint) : Bool := c.op = .eq ∨ c.op = .isIn

/-- what an exclusion leaves of the first positive constraint; `none` where it is passed over -/
def leftOver (positives : List Constraint) (c : Constraint) : Option (List Value) :=
  match positives with
  | [] => none
  | p :: _ =>
    match excluded c, values p with
    | some out, some allowed => some (allowed.filter fun v => !v.elem out)
    | _, _ => none

/-- the constraints on one attribute, its positive ones brought to one -/
def weighRest (group positives : List Constraint) (decidedAny : Bool) : Weight :=
  let leftOvers := group.filterMap (leftOver positives)
  let present := group.any (·.op = .isPresent)
  let absent := group.any (·.op = .isAbsent)
  if leftOvers.any List.isEmpty then .impossible
  else if present && absent then .impossible
  else if absent && !positives.isEmpty then .impossible
  else if decidedAny || !leftOvers.isEmpty then .decided
  else .undecided

def weigh (attr : String) (group : List Constraint) : Except Err Weight :=
  let positives := group.filter positive
  if 1 < positives.length then
    match positives.mapM values with
    | none => .ok .undecided
    | some sets =>
      if intersection sets = [] then .ok .impossible
      else do
        let common ← sortedValues (intersection sets)
        return weighRest group [⟨attr, .isIn, .list common⟩] true
  else .ok (weighRest group positives false)

/-- the attributes are weighed in the order in which they first occur -/
def weighAll (constraints : List Constraint) (decidedAny : Bool) :
    List String → Except Err (Option Bool)
  | [] => .ok (if decidedAny then some true else none)
  | attr :: attrs => do
    match ← weigh attr (constraints.filter (·.attr = attr)) with
    | .impossible => return some false
    | .decided => weighAll constraints true attrs
    | .undecided => weighAll constraints decidedAny attrs

def conjunctionSatisfiable (constraints : List Constraint) : Except Err (Option Bool) :=
  weighAll constraints false (constraints.map (·.attr)).eraseDups

/-! ## two rules, and a draft -/

def overlapsFrom (sawUnknown : Bool) : List (List Constraint) → Except Err (Option Bool)
  | [] => .ok (if sawUnknown then none else some false)
  | branch :: rest => do
    match ← conjunctionSatisfiable branch with
    | some true => return some true
    | none => overlapsFrom true rest
    | some false => overlapsFrom sawUnknown rest

def overlaps (a b : Rule) : Except Err (Option Bool) :=
  match branches a.condition, branches b.condition with
  | some ba, some bb =>
    overlapsFrom false (ba.flatMap fun left => bb.map fun right => left ++ right)
  | _, _ => .ok none

def Constraint.same (c d : Constraint) : Bool := c.attr = d.attr ∧ c.op = d.op ∧ c.value.eq d.value

def subsumes (broad narrow : Rule) : Bool :=
  match branches narrow.condition, branches broad.condition with
  | some nb, some [required] =>
    !nb.isEmpty && nb.all fun branch => required.all fun c => branch.any c.same
  | _, _ => false

inductive Severity where
  | error | warning | info

inductive Kind where
  | undecidable | contradiction | tautology | conflict | shadowed

structure Finding where
  severity : Severity
  kind : Kind
  message : String
  ruleIds : List String

def contradicts : List (List Constraint) → Except Err Bool
  | [] => .ok false
  | branch :: rest => do
    if (← conjunctionSatisfiable branch) = some false then return true else contradicts rest

section
variable (repr : String → String)

def ruleFindings (rule : Rule) : Except Err (List Finding) :=
  match branches rule.condition with
  | none => .ok [⟨.info, .undecidable, "rule " ++ repr rule.id ++ " uses `not`, so conflict and " ++
      "shadowing analysis cannot reason about it. It is still compiled and evaluated normally.",
      [rule.id]⟩]
  | some [] => .ok [⟨.error, .contradiction,
      "rule " ++ repr rule.id ++ " can never match anything.", [rule.id]⟩]
  | some (branch :: rest) => do
    let tautology :=
      if (branch :: rest).all List.isEmpty then
        [⟨.warning, .tautology,
          "rule " ++ repr rule.id ++ " matches every request in the namespace.", [rule.id]⟩]
      else []
    let contradiction :=
      if ← contradicts (branch :: rest) then
        [⟨.error, .contradiction, "rule " ++ repr rule.id ++ " contains conditions that cannot " ++
          "all hold at once, so it can never fire.", [rule.id]⟩]
      else []
    return tautology ++ contradiction

/-- the findings about two rules of the pool; the flag tells a draft's rule from an active one -/
def pairFindings (a b : Rule × Bool) : Except Err (List Finding) :=
  if a.1.id = b.1.id ∧ a.2 = b.2 then .ok []
  else if a.1.effect ≠ b.1.effect then do
    if (← overlaps a.1 b.1) = some true then
      let (deny, allow) := if a.1.effect = .deny then (a.1, b.1) else (b.1, a.1)
      return [⟨.warning, .conflict, "rules " ++ repr a.1.id ++ " and " ++ repr b.1.id ++
        " have opposite effects and can both match the same request. Deny-overrides means " ++
        repr deny.id ++ " wins and " ++ repr allow.id ++ " has no effect there.",
        [a.1.id, b.1.id]⟩]
    else return []
  else if subsumes a.1 b.1 ∧ a.1.id ≠ b.1.id then
    .ok [⟨.warning, .shadowed, "rule " ++ repr b.1.id ++ " can never fire on its own: " ++
      repr a.1.id ++ " has the same effect and already matches everything " ++ repr b.1.id ++
      " does.", [a.1.id, b.1.id]⟩]
  else .ok []

def poolFindings : List (Rule × Bool) → Except Err (List Finding)
  | [] => .ok []
  | a :: rest => do
    let here ← rest.mapM (pairFindings repr a)
    return here.flatten ++ (← poolFindings rest)

def analyze (rules existing : List Rule) : Except Err (List Finding) := do
  let alone ← rules.mapM (ruleFindings repr)
  let pool ← poolFindings repr (rules.map (·, true) ++ existing.map (·, false))
  return alone.flatten ++ pool

end

end HxArbiter
