import Velaris.Base.Attempt
import Velaris.Base.Traverse
import Velaris.Py.Text
import Velaris.SafeExpression.Operators

/-!
# The size of what an expression computes

`core/safe_expression.py`: the classifier, and the walker that evaluates what conforms.

* `Expr`, `classifyExpression`   the syntax, and what of it conforms;
* `evalNode`   the walker; it notes the operations it computes, once the bounds
    are checked, and what calls return;
* `Val.Within`   a value within the bounds;
* `Bounded`, `Safe`   an operation whose result is at most twice as large, and when;
* `Invariant.eval`   what holds of every value that the walker meets;
* `sizes_bounded_iff`   when all it computes is at most twice as large.
-/

namespace SafeExpression
open Base

/-! ## syntax -/

inductive BoolOp where
  | and | or

inductive Expr (F : Type) where
  | constant (value : Val F)
  | name (id ctx : String)
  | binOp (left : Expr F) (op : Operator) (right : Expr F)
  | unaryOp (op : UnaryOp) (operand : Expr F)
  | boolOp (op : BoolOp) (values : List (Expr F))
  | compare (left : Expr F) (ops : List CmpOp) (comparators : List (Expr F))
  | ifExp (test body orelse : Expr F)
  | call (func : Expr F) (args keywords : List (Expr F))
  | attr (value : Expr F) (ctx : String)
  | other (kind : String) (children : List (Expr F))

def Operator.name : Operator → String
  | .add => "Add" | .sub => "Sub" | .mult => "Mult" | .div => "Div" | .floorDiv => "FloorDiv"
  | .mod => "Mod" | .pow => "Pow" | .matMult => "MatMult" | .lShift => "LShift"
  | .rShift => "RShift" | .bitOr => "BitOr" | .bitXor => "BitXor" | .bitAnd => "BitAnd"

def UnaryOp.name : UnaryOp → String
  | .uAdd => "UAdd" | .uSub => "USub" | .not => "Not" | .invert => "Invert"

def CmpOp.name : CmpOp → String
  | .eq => "Eq" | .notEq => "NotEq" | .lt => "Lt" | .ltE => "LtE" | .gt => "Gt" | .gtE => "GtE"
  | .is => "Is" | .isNot => "IsNot" | .isIn => "In" | .notIn => "NotIn"

def BoolOp.name : BoolOp → String
  | .and => "And" | .or => "Or"

/-! ## classification -/

def MAX_NODES : Nat := 250
def MAX_DEPTH : Nat := 30
def MAX_SEQUENCE_LEN : Nat := 1000000
def MAX_INT_BITS : Nat := 65536
def MAX_POW_EXPONENT : Nat := 10000

def SAFE_CALLS : List String :=
  ["abs", "min", "max", "round", "len", "str", "int", "float", "bool", "sum", "any", "all"]

def BINOP_FN : List Operator := [.add, .sub, .mult, .div, .floorDiv, .mod, .pow]
def UNARYOP_FN : List UnaryOp := [.uAdd, .uSub, .not]
def CMPOP_FN : List CmpOp := [.eq, .notEq, .lt, .ltE, .gt, .gtE, .isIn, .notIn]

def STRICT_NODES : List String :=
  ["Expression", "Constant", "Name", "Load", "BinOp", "UnaryOp", "BoolOp", "Compare", "IfExp",
    "Call"] ++ BINOP_FN.map Operator.name ++ UNARYOP_FN.map UnaryOp.name ++
    CMPOP_FN.map CmpOp.name ++ ["And", "Or"]

inductive Node where
  | attribute
  | name (id : String)
  | call (strict : Bool)
  | other (kind : String)

/-- two trees side by side, level by level -/
def beside : List (List Node) → List (List Node) → List (List Node)
  | [], ys => ys
  | xs, [] => xs
  | x :: xs, y :: ys => (x ++ y) :: beside xs ys

variable {F : Type}

/-- a bare name of `SAFE_CALLS` is called, without keywords -/
def Expr.strictCall (func : Expr F) (keywords : List (Expr F)) : Bool :=
  match func with
  | .name id _ => decide (id ∈ SAFE_CALLS) && keywords.isEmpty
  | _ => false

mutual

def Expr.levels : Expr F → List (List Node)
  | .constant _ => [[.other "Constant"]]
  | .name id ctx => [[.name id], [.other ctx]]
  | .binOp l op r => [.other "BinOp"] :: beside (beside l.levels [[.other op.name]]) r.levels
  | .unaryOp op e => [.other "UnaryOp"] :: beside [[.other op.name]] e.levels
  | .boolOp op es => [.other "BoolOp"] :: beside [[.other op.name]] (Expr.levelsAll es)
  | .compare l ops es =>
    [.other "Compare"] ::
      beside (beside l.levels [ops.map fun op => .other op.name]) (Expr.levelsAll es)
  | .ifExp t b o => [.other "IfExp"] :: beside (beside t.levels b.levels) o.levels
  | .call f args keywords =>
    [.call (f.strictCall keywords)] ::
      beside (beside f.levels (Expr.levelsAll args)) (Expr.levelsAll keywords)
  | .attr e ctx => [.attribute] :: beside e.levels [[.other ctx]]
  | .other kind es => [.other kind] :: Expr.levelsAll es

def Expr.levelsAll : List (Expr F) → List (List Node)
  | [] => []
  | e :: es => beside e.levels (Expr.levelsAll es)

end

inductive Classification where
  | conforming | needsMigration | rejected
  deriving DecidableEq

def isDunder (name : String) : Bool :=
  4 < name.length && "__".toList.isPrefixOf name.toList && "__".toList.isSuffixOf name.toList

def REJECTED_NODES : List String := ["Lambda", "Await", "Yield", "YieldFrom", "NamedExpr"]

/-- the nodes in the order of `ast.walk` -/
def classifyNodes (strict : Bool) : List Node → Classification × String
  | [] =>
    if strict then (.conforming, "")
    else (.needsMigration, "uses constructs outside the strict grammar; runs on the hardened " ++
      "fallback during the deprecation window")
  | .attribute :: _ => (.rejected, "attribute access is not allowed")
  | .name id :: nodes =>
    if isDunder id then (.rejected, "dunder identifier '" ++ id ++ "' is not allowed")
    else classifyNodes strict nodes
  | .call ok :: nodes => classifyNodes (strict && ok) nodes
  | .other kind :: nodes =>
    if kind ∈ REJECTED_NODES then (.rejected, "'" ++ kind ++ "' is not allowed")
    else classifyNodes (strict && decide (kind ∈ STRICT_NODES)) nodes

def classifyTree (tree : Expr F) : Classification × String :=
  let levels := [.other "Expression"] :: tree.levels
  let nodes := levels.flatten
  let depth := levels.length - 1
  if MAX_NODES < nodes.length then
    (.rejected, "too large (" ++ toString nodes.length ++ " nodes > " ++ toString MAX_NODES ++ ")")
  else if MAX_DEPTH < depth then
    (.rejected, "too deeply nested (depth " ++ toString depth ++ " > " ++ toString MAX_DEPTH ++ ")")
  else classifyNodes true nodes

/-- `parse` is `ast.parse`, which fails with the message of a syntax error -/
def classifyExpression (parse : String → Except String (Expr F)) (expression : String) :
    Classification × String :=
  if expression.toList.all Py.isSpace then (.rejected, "empty expression")
  else
    match parse expression with
    | .error message => (.rejected, "syntax error: " ++ message)
    | .ok tree => classifyTree tree

/-! ## bounds -/

/-- `_size_of` -/
def Val.size : Val F → Nat
  | .int n => n.natAbs.size
  | _ => 0

def Val.isSeq : Val F → Bool
  | .str _ | .bytes _ | .list _ | .tuple _ => true
  | _ => false

def tooLong (seq n : Val F) : Bool :=
  seq.isSeq && (n.int?.map fun k => decide ((MAX_SEQUENCE_LEN : Int) < seq.len * k)).getD false

def checkBinopBounds : Operator → Val F → Val F → Except Err Unit
  | .pow, left, .int n =>
    if MAX_POW_EXPONENT < n.natAbs then
      .error (.expression
        ("exponent " ++ toString n ++ " exceeds " ++ toString MAX_POW_EXPONENT))
    else if left.int?.isSome && decide (MAX_INT_BITS < left.size * n.natAbs) then
      .error (.expression "result of '**' would be too large")
    else .ok ()
  | .mult, left, right =>
    if tooLong left right || tooLong right left then
      .error (.expression "result of '*' would be too long")
    else if left.int?.isSome && right.int?.isSome &&
        decide (MAX_INT_BITS < left.size + right.size) then
      .error (.expression "result of '*' would be too large")
    else .ok ()
  | _, _, _ => .ok ()

def checkValueBounds (v : Val F) : Except Err (Val F) :=
  if MAX_SEQUENCE_LEN < v.len then
    .error (.expression ("value longer than " ++ toString MAX_SEQUENCE_LEN))
  else if MAX_INT_BITS < v.size then
    .error (.expression ("integer larger than " ++ toString MAX_INT_BITS ++ " bits"))
  else .ok v

/-! ## the walker -/

/-- an operation that is computed, or a call that has returned -/
inductive Event (F : Type) where
  | computed (op : Operator) (left right : Val F)
  | returned (v : Val F)

abbrev Walk (F : Type) := Logged Err (Event F)

def notAllowed {α : Type} (what : String) : Walk F α :=
  .fail (.expression (what ++ " not allowed"))

variable (B : Builtins F) (names : List (String × Val F))

mutual

def evalNode : Expr F → Walk F (Val F)
  | .constant v => pure v
  | .name id _ =>
    match names.lookup id with
    | some v => pure v
    | none => .fail (.expression ("unknown name '" ++ id ++ "'"))
  | .binOp l op r =>
    if op ∈ BINOP_FN then do
      let left ← evalNode l
      let right ← evalNode r
      .lift (checkBinopBounds op left right)
      .tell (.computed op left right)
      let v ← .lift (binop B op left right)
      .lift (checkValueBounds v)
    else notAllowed ("operator " ++ op.name)
  | .unaryOp op e =>
    if op ∈ UNARYOP_FN then do
      let v ← evalNode e
      .lift (unaryop B op v)
    else notAllowed ("operator " ++ op.name)
  | .boolOp .and es => evalAnd (.bool true) es
  | .boolOp .or es => evalOr (.bool false) es
  | .compare l ops es => do
    let left ← evalNode l
    evalCompare left ops es
  | .ifExp t b o => do
    let v ← evalNode t
    if v.truthy B then evalNode b else evalNode o
  | .call (.name id _) args _ =>
    if id ∈ SAFE_CALLS then do
      let vs ← evalArgs args
      let v ← .lift (safeCall B id vs)
      .tell (.returned v)
      pure v
    else .fail (.expression "only whitelisted builtin calls are allowed")
  | .call _ _ _ => .fail (.expression "only whitelisted builtin calls are allowed")
  | .attr _ _ => notAllowed "node Attribute"
  | .other kind _ => notAllowed ("node " ++ kind)

def evalAnd (result : Val F) : List (Expr F) → Walk F (Val F)
  | [] => pure result
  | e :: es => do
    let v ← evalNode e
    if v.truthy B then evalAnd v es else pure v

def evalOr (result : Val F) : List (Expr F) → Walk F (Val F)
  | [] => pure result
  | e :: es => do
    let v ← evalNode e
    if v.truthy B then pure v else evalOr v es

def evalCompare (left : Val F) : List CmpOp → List (Expr F) → Walk F (Val F)
  | op :: ops, e :: es =>
    if op ∈ CMPOP_FN then do
      let right ← evalNode e
      let holds ← .lift (cmpop B op left right)
      if holds then evalCompare right ops es else pure (.bool false)
    else notAllowed ("comparison " ++ op.name)
  | _, _ => pure (.bool true)

def evalArgs : List (Expr F) → Walk F (List (Val F))
  | [] => pure []
  | e :: es => do
    let v ← evalNode e
    let vs ← evalArgs es
    pure (v :: vs)

end

mutual

def Expr.literals : Expr F → List (Val F)
  | .constant v => [v]
  | .name _ _ => []
  | .binOp l _ r => l.literals ++ r.literals
  | .unaryOp _ e => e.literals
  | .boolOp _ es => Expr.literalsAll es
  | .compare l _ es => l.literals ++ Expr.literalsAll es
  | .ifExp t b o => t.literals ++ b.literals ++ o.literals
  | .call _ args _ => Expr.literalsAll args
  | .attr e _ => e.literals
  | .other _ es => Expr.literalsAll es

def Expr.literalsAll : List (Expr F) → List (Val F)
  | [] => []
  | e :: es => e.literals ++ Expr.literalsAll es

end

/-! ## what holds of every value -/

variable {B names} {A G : Event F → Prop} {Q : Val F → Prop}

/-- `Q` of the values, as long as `A` holds of what is noted, and `G` of the notes -/
structure Invariant (B : Builtins F) (A G : Event F → Prop) (Q : Val F → Prop) : Prop where
  bool : ∀ b, Q (.bool b)
  unary : ∀ op v w, Q v → unaryop B op v = .ok w → Q w
  checked : ∀ v w, checkValueBounds v = .ok w → Q w
  computed : ∀ op l r, Q l → Q r → checkBinopBounds op l r = .ok () → G (.computed op l r)
  returned : ∀ v, A (.returned v) → G (.returned v) ∧ Q v

namespace Invariant

theorem step (h : Invariant B A G Q) (op : Operator) {left right : Val F} (hl : Q left)
    (hr : Q right) :
    Logged.Under A G (do
      .lift (checkBinopBounds op left right)
      .tell (.computed op left right)
      let v ← .lift (binop B op left right)
      .lift (checkValueBounds v) : Walk F (Val F)) Q := by
  refine .bind (P := fun _ => checkBinopBounds op left right = .ok ())
    (.lift fun _ hcheck => hcheck) fun _ hcheck => ?_
  refine .bind (P := fun _ => True)
    (.tell (fun _ => h.computed op left right hl hr hcheck) fun _ => trivial) fun _ _ => ?_
  exact .bind (P := fun _ => True) (.lift fun _ _ => trivial) fun v _ => .lift (h.checked v)

mutual

theorem evalNode (h : Invariant B A G Q) (hnames : ∀ x v, names.lookup x = some v → Q v) :
    ∀ e : Expr F, (∀ v ∈ e.literals, Q v) → (SafeExpression.evalNode B names e).Under A G Q
  | .constant v, hlit => by
    rw [SafeExpression.evalNode]
    exact .pure (hlit v (by simp [Expr.literals]))
  | .name id ctx, _ => by
    rw [SafeExpression.evalNode]
    cases hv : names.lookup id with
    | none => exact .fail
    | some v => exact .pure (hnames id v hv)
  | .binOp l op r, hlit => by
    rw [Expr.literals] at hlit
    rw [SafeExpression.evalNode]
    split
    · refine .bind (h.evalNode hnames l fun v hv => hlit v (by simp [hv])) fun left hl => ?_
      exact .bind (h.evalNode hnames r fun v hv => hlit v (by simp [hv])) fun right hr =>
        h.step op hl hr
    · exact .fail
  | .unaryOp op e, hlit => by
    rw [Expr.literals] at hlit
    rw [SafeExpression.evalNode]
    split
    · exact .bind (h.evalNode hnames e hlit) fun v hv => .lift fun w hw => h.unary op v w hv hw
    · exact .fail
  | .boolOp .and es, hlit => by
    rw [Expr.literals] at hlit
    rw [SafeExpression.evalNode]
    exact h.evalAnd hnames _ (h.bool true) es hlit
  | .boolOp .or es, hlit => by
    rw [Expr.literals] at hlit
    rw [SafeExpression.evalNode]
    exact h.evalOr hnames _ (h.bool false) es hlit
  | .compare l ops es, hlit => by
    rw [Expr.literals] at hlit
    rw [SafeExpression.evalNode]
    exact .bind (h.evalNode hnames l fun v hv => hlit v (by simp [hv])) fun left _ =>
      h.evalCompare hnames left ops es fun v hv => hlit v (by simp [hv])
  | .ifExp t b o, hlit => by
    rw [Expr.literals] at hlit
    rw [SafeExpression.evalNode]
    refine .bind (h.evalNode hnames t fun v hv => hlit v (by simp [hv])) fun v _ => ?_
    split
    · exact h.evalNode hnames b fun v hv => hlit v (by simp [hv])
    · exact h.evalNode hnames o fun v hv => hlit v (by simp [hv])
  | .call f args keywords, hlit => by
    rw [Expr.literals] at hlit
    cases f with
    | name id ctx =>
      rw [SafeExpression.evalNode]
      split
      · refine .bind (h.evalArgs hnames args hlit) fun vs _ => ?_
        refine .bind (P := fun _ => True) (.lift fun _ _ => trivial) fun v _ => ?_
        exact .bind (P := fun _ => Q v) (.tell (fun hA => (h.returned v hA).1)
          fun hA => (h.returned v hA).2) fun _ hv => .pure hv
      · exact .fail
    | constant _ | binOp _ _ _ | unaryOp _ _ | boolOp _ _ | compare _ _ _ | ifExp _ _ _
    | call _ _ _ | attr _ _ | other _ _ =>
      rw [SafeExpression.evalNode]
      · exact .fail
      · intro _ _ h
        cases h
  | .attr e ctx, _ => by
    rw [SafeExpression.evalNode]
    exact .fail
  | .other kind es, _ => by
    rw [SafeExpression.evalNode]
    exact .fail

theorem evalAnd (h : Invariant B A G Q) (hnames : ∀ x v, names.lookup x = some v → Q v) :
    ∀ result : Val F, Q result → ∀ es : List (Expr F), (∀ v ∈ Expr.literalsAll es, Q v) →
      (SafeExpression.evalAnd B names result es).Under A G Q
  | result, hresult, [], _ => by
    rw [SafeExpression.evalAnd]
    exact .pure hresult
  | result, _, e :: es, hlit => by
    rw [Expr.literalsAll] at hlit
    rw [SafeExpression.evalAnd]
    refine .bind (h.evalNode hnames e fun v hv => hlit v (by simp [hv])) fun v hv => ?_
    split
    · exact h.evalAnd hnames v hv es fun v hv => hlit v (by simp [hv])
    · exact .pure hv

theorem evalOr (h : Invariant B A G Q) (hnames : ∀ x v, names.lookup x = some v → Q v) :
    ∀ result : Val F, Q result → ∀ es : List (Expr F), (∀ v ∈ Expr.literalsAll es, Q v) →
      (SafeExpression.evalOr B names result es).Under A G Q
  | result, hresult, [], _ => by
    rw [SafeExpression.evalOr]
    exact .pure hresult
  | result, _, e :: es, hlit => by
    rw [Expr.literalsAll] at hlit
    rw [SafeExpression.evalOr]
    refine .bind (h.evalNode hnames e fun v hv => hlit v (by simp [hv])) fun v hv => ?_
    split
    · exact .pure hv
    · exact h.evalOr hnames v hv es fun v hv => hlit v (by simp [hv])

theorem evalCompare (h : Invariant B A G Q) (hnames : ∀ x v, names.lookup x = some v → Q v) :
    ∀ (left : Val F) (ops : List CmpOp) (es : List (Expr F)),
      (∀ v ∈ Expr.literalsAll es, Q v) →
      (SafeExpression.evalCompare B names left ops es).Under A G Q
  | left, [], es, _ => by
    rw [SafeExpression.evalCompare]
    · exact .pure (h.bool true)
    · intro _ _ _ _ h
      cases h
  | left, op :: ops, [], _ => by
    rw [SafeExpression.evalCompare]
    · exact .pure (h.bool true)
    · intro _ _ _ _ _ h
      cases h
  | left, op :: ops, e :: es, hlit => by
    rw [Expr.literalsAll] at hlit
    rw [SafeExpression.evalCompare]
    split
    · refine .bind (h.evalNode hnames e fun v hv => hlit v (by simp [hv])) fun right _ => ?_
      refine .bind (P := fun _ => True) (.lift fun _ _ => trivial) fun holds _ => ?_
      split
      · exact h.evalCompare hnames right ops es fun v hv => hlit v (by simp [hv])
      · exact .pure (h.bool false)
    · exact .fail

theorem evalArgs (h : Invariant B A G Q) (hnames : ∀ x v, names.lookup x = some v → Q v) :
    ∀ es : List (Expr F), (∀ v ∈ Expr.literalsAll es, Q v) →
      (SafeExpression.evalArgs B names es).Under A G fun _ => True
  | [], _ => by
    rw [SafeExpression.evalArgs]
    exact .pure trivial
  | e :: es, hlit => by
    rw [Expr.literalsAll] at hlit
    rw [SafeExpression.evalArgs]
    refine .bind (h.evalNode hnames e fun v hv => hlit v (by simp [hv])) fun _ _ => ?_
    exact .bind (h.evalArgs hnames es fun v hv => hlit v (by simp [hv])) fun _ _ => .pure trivial

end

end Invariant

/-! ## sizes -/

def Val.Within (v : Val F) : Prop := v.len ≤ MAX_SEQUENCE_LEN ∧ v.size ≤ MAX_INT_BITS

def Val.WithinTwice (v : Val F) : Prop :=
  v.len ≤ 2 * MAX_SEQUENCE_LEN ∧ v.size ≤ 2 * MAX_INT_BITS

section
variable {v w : Val F} {m n : Int}

theorem within_of_check (h : checkValueBounds v = .ok w) : w.Within := by
  unfold checkValueBounds at h
  split at h
  · cases h
  · rename_i hlen
    split at h
    · cases h
    · rename_i hsize
      cases h
      exact ⟨Nat.le_of_not_lt hlen, Nat.le_of_not_lt hsize⟩

theorem within_bool (b : Bool) : (Val.bool b : Val F).Within := by
  simp [Val.Within, Val.len, Val.size]

theorem natAbs_le_of_int? (h : v.int? = some n) : n.natAbs ≤ 2 ^ v.size := by
  cases v with
  | bool b =>
    cases h
    cases b <;> simp [Val.size]
  | int k =>
    cases h
    exact (Nat.lt_size_self _).le
  | none | ellipsis | number _ | str _ | bytes _ | list _ | tuple _ | dict _ => cases h

theorem natAbs_lt_of_int? (h : v.int? = some n) {k : Nat} (hk : 0 < k) (hsize : v.size ≤ k) :
    n.natAbs < 2 ^ k := by
  cases v with
  | bool b =>
    cases h
    cases b <;> simp [Nat.one_lt_two_pow hk.ne', Nat.two_pow_pos]
  | int m =>
    cases h
    exact Nat.size_le.mp hsize
  | none | ellipsis | number _ | str _ | bytes _ | list _ | tuple _ | dict _ => cases h

theorem num?_int (h : v.num? = some (.inl n)) : v.int? = some n := by
  cases v <;> simp_all [Val.num?, Val.int?]

theorem within_int (h : n.natAbs < 2 ^ MAX_INT_BITS) : (Val.int n : Val F).Within :=
  ⟨Nat.zero_le _, Nat.size_le.mpr h⟩

theorem natAbs_of_within (hv : v.Within) (h : v.int? = some n) : n.natAbs < 2 ^ MAX_INT_BITS :=
  natAbs_lt_of_int? h (by decide) hv.2

theorem within_number (x : F) : (Val.number x).Within := ⟨Nat.zero_le _, Nat.zero_le _⟩

theorem unary_within {op : UnaryOp} (hv : v.Within) (h : unaryop B op v = .ok w) : w.Within := by
  cases op with
  | not =>
    cases h
    exact within_bool _
  | invert => cases h
  | uAdd =>
    simp only [unaryop] at h
    split at h
    · rename_i n hn
      cases h
      exact within_int (natAbs_of_within hv (num?_int hn))
    · cases h
      exact within_number _
    · cases h
  | uSub =>
    simp only [unaryop] at h
    split at h
    · rename_i n hn
      cases h
      refine within_int ?_
      rw [Int.natAbs_neg]
      exact natAbs_of_within hv (num?_int hn)
    · cases h
      exact within_number _
    · cases h

end

/-! ## one operation -/

/-- its result is at most twice as large as a value may be -/
def Bounded (B : Builtins F) (op : Operator) (l r : Val F) : Prop :=
  ∀ v, binop B op l r = .ok v → v.WithinTwice

/-- what `%` makes of a format and its arguments -/
def formattedBy (B : Builtins F) : Val F → Val F → Option (Except Err (List Char))
  | .str format, args => some (formatStr B format args)
  | .bytes format, args => some (formatBytes B format args)
  | _, _ => none

def joins : Val F → Val F → Bool
  | .str _, .str _ | .bytes _, .bytes _ | .list _, .list _ | .tuple _, .tuple _ => true
  | _, _ => false

/-- the text that `%` makes is at most twice as long as a value may be -/
def Fits (B : Builtins F) (op : Operator) (l r : Val F) : Prop :=
  op = .mod → ∀ text, formattedBy B l r = some (.ok text) → text.length ≤ 2 * MAX_SEQUENCE_LEN

/-- the three ways past the bounds: a format, and the sequences and ints that calls return -/
structure Safe (B : Builtins F) (op : Operator) (l r : Val F) : Prop where
  format : Fits B op l r
  joined : op = .add → joins l r → l.len + r.len ≤ 2 * MAX_SEQUENCE_LEN
  wide : MAX_INT_BITS < l.size ∨ MAX_INT_BITS < r.size → ∀ m n k, l.int? = some m →
    r.int? = some n → intop B op m n = .ok (.int k) → k.natAbs.size ≤ 2 * MAX_INT_BITS

section
variable {op : Operator} {l r : Val F} {m n k : Int}

theorem two_mul_bits : 2 ^ (2 * MAX_INT_BITS) = 2 ^ MAX_INT_BITS * 2 ^ MAX_INT_BITS := by
  rw [Nat.two_mul, Nat.pow_add]

theorem double_le : 2 ^ MAX_INT_BITS + 2 ^ MAX_INT_BITS ≤ 2 ^ (2 * MAX_INT_BITS) := by
  rw [two_mul_bits, ← Nat.two_mul]
  exact Nat.mul_le_mul_right _ (Nat.le_self_pow (by decide) 2)

theorem natAbs_fmod_lt (m : Int) {n : Int} (hn : n ≠ 0) : (m.fmod n).natAbs < n.natAbs := by
  rcases Int.lt_or_gt_of_ne hn with hneg | hpos
  · have h₁ := Int.fmod_nonneg_of_pos (-m) (b := -n) (by omega)
    have h₂ := Int.fmod_lt_of_pos (-m) (b := -n) (by omega)
    rw [Int.neg_fmod_neg] at h₁ h₂
    omega
  · have h₁ := Int.fmod_nonneg_of_pos m hpos
    have h₂ := Int.fmod_lt_of_pos m hpos
    omega

theorem two_pow_lt : 2 ^ MAX_INT_BITS < 2 ^ (2 * MAX_INT_BITS) :=
  Nat.pow_lt_pow_right (by decide) (by decide)

theorem natAbs_pow_lt (hm : m.natAbs < 2 ^ MAX_INT_BITS) (hl : l.int? = some m)
    (hr : r.int? = some n) (hcheck : checkBinopBounds .pow l r = .ok ()) :
    (m ^ n.toNat).natAbs < 2 ^ (2 * MAX_INT_BITS) := by
  rw [Int.natAbs_pow]
  cases r with
  | bool b =>
    cases hr
    cases b with
    | true => simpa using hm.trans two_pow_lt
    | false => simpa using Nat.one_lt_two_pow (by decide)
  | int j =>
    cases hr
    have hbits : l.size * n.natAbs ≤ MAX_INT_BITS := by
      rw [checkBinopBounds] at hcheck
      by_contra hbits
      simp [hl, Nat.lt_of_not_le hbits] at hcheck
      split at hcheck <;> cases hcheck
    calc m.natAbs ^ n.toNat ≤ (2 ^ l.size) ^ n.toNat :=
          Nat.pow_le_pow_left (natAbs_le_of_int? hl) _
      _ = 2 ^ (l.size * n.toNat) := (Nat.pow_mul ..).symm
      _ ≤ 2 ^ MAX_INT_BITS :=
          Nat.pow_le_pow_right (by decide)
            ((Nat.mul_le_mul_left _ (by omega)).trans hbits)
      _ < 2 ^ (2 * MAX_INT_BITS) := two_pow_lt
  | none | ellipsis | number _ | str _ | bytes _ | list _ | tuple _ | dict _ => cases hr

theorem intop_lt (hm : m.natAbs < 2 ^ MAX_INT_BITS) (hn : n.natAbs < 2 ^ MAX_INT_BITS)
    (hl : l.int? = some m) (hr : r.int? = some n) (hcheck : checkBinopBounds op l r = .ok ())
    (h : intop B op m n = .ok (.int k)) : k.natAbs < 2 ^ (2 * MAX_INT_BITS) := by
  have hdouble := double_le
  cases op with
  | add =>
    cases h
    exact (Int.natAbs_add_le m n).trans_lt (by omega)
  | sub =>
    cases h
    exact (Int.natAbs_sub_le m n).trans_lt (by omega)
  | mult =>
    cases h
    rw [Int.natAbs_mul, two_mul_bits]
    exact Nat.mul_lt_mul'' hm hn
  | floorDiv =>
    rw [intop] at h
    split at h
    · cases h
    · cases h
      exact (Int.natAbs_fdiv_le_natAbs m n).trans_lt (by omega)
  | mod =>
    rw [intop] at h
    split at h
    · cases h
    · rename_i hne
      cases h
      exact (natAbs_fmod_lt m hne).trans (by omega)
  | pow =>
    rw [intop] at h
    split at h
    · cases h
      exact natAbs_pow_lt hm hl hr hcheck
    · split at h
      · cases h
      · cases hx : B.arith .pow (.inl m) (.inl n) <;> rw [hx] at h <;> cases h
  | div =>
    rw [intop] at h
    split at h
    · cases h
    · cases hx : B.arith .div (.inl m) (.inl n) <;> rw [hx] at h <;> cases h
  | matMult | lShift | rShift | bitOr | bitXor | bitAnd => cases h

theorem within_twice_number (x : F) : (Val.number x).WithinTwice := ⟨Nat.zero_le _, Nat.zero_le _⟩

theorem within_twice_seq {v : Val F} (hsize : v.size = 0) (hlen : v.len ≤ 2 * MAX_SEQUENCE_LEN) :
    v.WithinTwice :=
  ⟨hlen, hsize ▸ Nat.zero_le _⟩

theorem num?_of_int? {v : Val F} (h : v.int? = some n) : v.num? = some (.inl n) := by
  cases v <;> simp_all [Val.num?, Val.int?]

theorem binop_int (hl : l.int? = some m) (hr : r.int? = some n) :
    binop B op l r = intop B op m n := by
  rw [binop, num?_of_int? hl, num?_of_int? hr]

theorem intop_int {v : Val F} (h : intop B op m n = .ok v) :
    (∃ k, v = .int k) ∨ ∃ x, v = .number x := by
  cases op with
  | add | sub | mult =>
    cases h
    exact .inl ⟨_, rfl⟩
  | floorDiv | mod =>
    rw [intop] at h
    split at h
    · cases h
    · cases h
      exact .inl ⟨_, rfl⟩
  | div =>
    rw [intop] at h
    split at h
    · cases h
    · obtain ⟨x, -, rfl⟩ := exists_of_map_ok h
      exact .inr ⟨x, rfl⟩
  | pow =>
    rw [intop] at h
    split at h
    · cases h
      exact .inl ⟨_, rfl⟩
    · split at h
      · cases h
      · obtain ⟨x, -, rfl⟩ := exists_of_map_ok h
        exact .inr ⟨x, rfl⟩
  | matMult | lShift | rShift | bitOr | bitXor | bitAnd => cases h

theorem repeated_len {a v : Val F} (h : a.repeated n = some v) :
    a.isSeq = true ∧ v.len = n.toNat * a.len ∧ v.size = 0 := by
  cases a with
  | str s =>
    cases h
    refine ⟨rfl, ?_, rfl⟩
    simp [Val.len, String.length]
  | bytes _ | list _ | tuple _ =>
    cases h
    refine ⟨rfl, ?_, rfl⟩
    simp [Val.len]
  | none | ellipsis | bool _ | int _ | number _ | dict _ => cases h

theorem repeated_bounded {a b v : Val F} (hcheck : tooLong a b = false)
    (h : (b.int?.bind fun k => a.repeated k) = some v) : v.WithinTwice := by
  obtain ⟨k, hk, hv⟩ := Option.bind_eq_some_iff.mp h
  obtain ⟨hseq, hlen, hsize⟩ := repeated_len hv
  have hfits : (a.len : Int) * k ≤ MAX_SEQUENCE_LEN := by
    simpa [tooLong, hseq, hk] using hcheck
  refine within_twice_seq hsize ?_
  rw [hlen]
  rcases Int.le_total 0 k with hpos | hneg
  · have hcast : ((k.toNat * a.len : Nat) : Int) ≤ MAX_SEQUENCE_LEN := by
      rw [Int.natCast_mul, Int.toNat_of_nonneg hpos, Int.mul_comm]
      exact hfits
    exact (Int.ofNat_le.mp hcast).trans (Nat.le_mul_of_pos_left _ (by decide))
  · rw [Int.toNat_of_nonpos hneg, Nat.zero_mul]
    exact Nat.zero_le _

theorem check_mult (hcheck : checkBinopBounds .mult l r = .ok ()) :
    tooLong l r = false ∧ tooLong r l = false := by
  rw [checkBinopBounds] at hcheck
  split at hcheck
  · cases hcheck
  · rename_i h
    simpa using h

theorem seqop_bounded {v : Val F} (hcheck : checkBinopBounds op l r = .ok ())
    (hsafe : Safe B op l r) (h : seqop B op l r = .ok v) : v.WithinTwice := by
  cases op with
  | add =>
    have hjoined := hsafe.joined rfl
    cases l <;> cases r <;> cases h <;>
      exact within_twice_seq rfl (by simpa [Val.len, joins] using hjoined)
  | mult =>
    obtain ⟨hl, hr⟩ := check_mult hcheck
    simp only [seqop] at h
    split at h
    · rename_i hv
      cases h
      exact repeated_bounded hl hv
    · rename_i hv
      cases h
      exact repeated_bounded hr hv
    · cases h
  | mod =>
    have hfits := hsafe.format rfl
    cases l with
    | str format =>
      obtain ⟨text, htext, rfl⟩ := exists_of_map_ok h
      exact within_twice_seq rfl (by simpa [Val.len] using hfits text (congrArg some htext))
    | bytes format =>
      obtain ⟨text, htext, rfl⟩ := exists_of_map_ok h
      exact within_twice_seq rfl (by simpa [Val.len] using hfits text (congrArg some htext))
    | none | ellipsis | bool _ | int _ | number _ | list _ | tuple _ | dict _ => cases h
  | sub | div | floorDiv | pow | matMult | lShift | rShift | bitOr | bitXor | bitAnd =>
    cases h

theorem bounded_of_safe (hcheck : checkBinopBounds op l r = .ok ()) (hsafe : Safe B op l r) :
    Bounded B op l r := by
  intro v h
  unfold binop at h
  split at h
  · rename_i m n hm hn
    have hl := num?_int hm
    have hr := num?_int hn
    rcases intop_int h with ⟨k, rfl⟩ | ⟨x, rfl⟩
    · refine ⟨Nat.zero_le _, ?_⟩
      by_cases hwide : MAX_INT_BITS < l.size ∨ MAX_INT_BITS < r.size
      · exact hsafe.wide hwide m n k hl hr h
      · rw [not_or, Nat.not_lt, Nat.not_lt] at hwide
        exact Nat.size_le.mpr (intop_lt (natAbs_lt_of_int? hl (by decide) hwide.1)
          (natAbs_lt_of_int? hr (by decide) hwide.2) hl hr hcheck h)
    · exact within_twice_number x
  · obtain ⟨x, -, rfl⟩ := exists_of_map_ok h
    exact within_twice_number x
  · exact seqop_bounded hcheck hsafe h

theorem safe_of_bounded (h : Bounded B op l r) : Safe B op l r where
  format := by
    rintro rfl text htext
    cases l with
    | str format =>
      have hv : binop B .mod (.str format) r = .ok (.str (String.ofList text)) := by
        have hok : formatStr B format r = .ok text := Option.some.inj htext
        simp [binop, Val.num?, Val.int?, seqop, hok, Except.map]
      simpa [Val.len] using (h _ hv).1
    | bytes format =>
      have hv : binop B .mod (.bytes format) r =
          .ok (.bytes (text.map fun c => c.toNat.toUInt8)) := by
        have hok : formatBytes B format r = .ok text := Option.some.inj htext
        simp [binop, Val.num?, Val.int?, seqop, hok, Except.map]
      simpa [Val.len] using (h _ hv).1
    | none | ellipsis | bool _ | int _ | number _ | list _ | tuple _ | dict _ => cases htext
  joined := by
    rintro rfl hjoins
    cases l <;> cases r <;> cases hjoins <;> simpa [Val.len] using (h _ rfl).1
  wide _ m n k hl hr hk := (h _ ((binop_int hl hr).trans hk)).2

theorem bounded_iff (hcheck : checkBinopBounds op l r = .ok ()) :
    Bounded B op l r ↔ Safe B op l r :=
  ⟨safe_of_bounded, bounded_of_safe hcheck⟩

theorem safe_iff_fits (hl : l.Within) (hr : r.Within) : Safe B op l r ↔ Fits B op l r := by
  refine ⟨Safe.format, fun h => ⟨h, fun _ _ => ?_, fun hwide => ?_⟩⟩
  · have := hl.1
    have := hr.1
    omega
  · exact absurd hwide (not_or.mpr ⟨Nat.not_lt.mpr hl.2, Nat.not_lt.mpr hr.2⟩)

end

/-! ## a whole evaluation -/

def Checked : Event F → Prop
  | .computed op l r => checkBinopBounds op l r = .ok ()
  | .returned _ => True

def OperandsWithin : Event F → Prop
  | .computed _ l r => l.Within ∧ r.Within
  | .returned _ => True

def ReturnedWithin : Event F → Prop
  | .computed _ _ _ => True
  | .returned v => v.Within

theorem checked_invariant : Invariant B (fun _ => True) Checked (fun _ => True) where
  bool _ := trivial
  unary _ _ _ _ _ := trivial
  checked _ _ _ := trivial
  computed _ _ _ _ _ h := h
  returned _ _ := ⟨trivial, trivial⟩

theorem within_invariant : Invariant B ReturnedWithin OperandsWithin Val.Within where
  bool := within_bool
  unary _ _ _ := unary_within
  checked _ _ := within_of_check
  computed _ _ _ hl hr _ := ⟨hl, hr⟩
  returned _ h := ⟨trivial, h⟩

/-- the operations of an evaluation are bounded exactly when they are safe; as long as calls
return values within the bounds, that is when its formats fit -/
theorem sizes_bounded_iff (B : Builtins F) (names : List (String × Val F)) (e : Expr F)
    (hliterals : ∀ v ∈ e.literals, v.Within)
    (hnames : ∀ x v, names.lookup x = some v → v.Within) :
    ((∀ op l r, .computed op l r ∈ (evalNode B names e).log → Bounded B op l r) ↔
      ∀ op l r, .computed op l r ∈ (evalNode B names e).log → Safe B op l r) ∧
    ((∀ v, .returned v ∈ (evalNode B names e).log → v.Within) →
      ((∀ op l r, .computed op l r ∈ (evalNode B names e).log → Bounded B op l r) ↔
        ∀ op l r, .computed op l r ∈ (evalNode B names e).log → Fits B op l r)) := by
  have hchecked : ∀ op l r, .computed op l r ∈ (evalNode B names e).log →
      checkBinopBounds op l r = .ok () := by
    have hwalk : (evalNode B names e).Under (fun _ => True) Checked fun _ => True :=
      checked_invariant.evalNode (fun _ _ _ => trivial) e fun _ _ => trivial
    exact fun op l r hmem => (hwalk fun _ _ => trivial).1 _ hmem
  constructor
  · exact forall₃_congr fun op l r => forall_congr' fun hmem =>
      bounded_iff (hchecked op l r hmem)
  · intro hreturned
    have hassumed : ∀ x ∈ (evalNode B names e).log, ReturnedWithin x := by
      intro x hx
      cases x with
      | computed _ _ _ => trivial
      | returned v => exact hreturned v hx
    have hoperands := (within_invariant.evalNode hnames e hliterals hassumed).1
    refine forall₃_congr fun op l r => forall_congr' fun hmem => ?_
    obtain ⟨hl, hr⟩ := hoperands (.computed op l r) hmem
    exact (bounded_iff (hchecked op l r hmem)).trans (safe_iff_fits hl hr)

/-! ## expressions without floats -/

/-- the functions of Python where no float arises: a plain `%d` and `%s`, and ints in order -/
def onInts : Builtins Empty where
  arith _ _ _ := .error .raised
  negate x := x
  positive x := x
  abs x := .ok x
  truth x := x.elim
  numEq
    | .inl m, .inl n => m == n
    | .inr x, _ | _, .inr x => x.elim
  numOrder op
    | .inl m, .inl n => .ok (op.holds (compareOfLessAndEq m n))
    | .inr x, _ | _, .inr x => x.elim
  round
    | [v] => match v.int? with
      | some n => .ok (.int n)
      | none => .error .raised
    | _ => .error .raised
  str
    | [] => .ok ""
    | [.str s] => .ok s
    | [.int n] => .ok (toString n)
    | _ => .error .raised
  int _ := .error .raised
  float _ := .error .raised
  convert
    | 'd', flags, none, .int n =>
      .ok (if n < 0 then ['-'] else if '+' ∈ flags then ['+'] else [],
        (toString n.natAbs).toList)
    | 's', _, none, .str s => .ok ([], s.toList)
    | _, _, _, _ => .error .raised
  convertBytes _ _ _ _ := .error .raised

/-- `price * 2 + len("ab")` -/
def priceTree : Expr Empty :=
  .binOp (.binOp (.name "price" "Load") .mult (.constant (.int 2))) .add
    (.call (.name "len" "Load") [.constant (.str "ab")] [])

theorem price_bounded :
    (evalNode onInts [("price", .int 7)] priceTree).log =
      [.computed .mult (.int 7) (.int 2), .returned (.int 2),
        .computed .add (.int 14) (.int 2)] ∧
    ∀ op l r, .computed op l r ∈ (evalNode onInts [("price", .int 7)] priceTree).log →
      Bounded onInts op l r := by
  have hlog : (evalNode onInts [("price", .int 7)] priceTree).log =
      [.computed .mult (.int 7) (.int 2), .returned (.int 2),
        .computed .add (.int 14) (.int 2)] := rfl
  refine ⟨hlog, ((sizes_bounded_iff onInts [("price", .int 7)] priceTree ?_ ?_).2 ?_).mpr ?_⟩
  · intro v hv
    simp [priceTree, Expr.literals, Expr.literalsAll] at hv
    rcases hv with rfl | rfl <;> exact ⟨by decide, by decide⟩
  · intro x v hv
    rw [List.lookup_cons] at hv
    split at hv
    · cases hv
      exact ⟨by decide, by decide⟩
    · cases hv
  · intro v hv
    rw [hlog] at hv
    simp at hv
    subst hv
    exact ⟨by decide, by decide⟩
  · intro op l r hmem hmod
    rw [hlog] at hmem
    simp [hmod] at hmem

theorem length_padded (flags : List Char) (numeric : Bool) (width : Int) (sign body : List Char) :
    width.natAbs ≤ (padded flags numeric width sign body).length := by
  unfold padded
  split
  · simp only [List.length_append, List.length_replicate]
    omega
  · split <;>
    · simp only [List.length_append, List.length_replicate]
      omega

/-- `"%3000000d" % 1` -/
def wideTree : Expr Empty := .binOp (.constant (.str "%3000000d")) .mod (.constant (.int 1))

theorem wide_formatted : formatStr onInts "%3000000d" (.int 1) =
    .ok (padded [] true 3000000 [] ['1'] ++ []) := rfl

theorem wide_log : (evalNode onInts [] wideTree).log =
    [.computed .mod (.str "%3000000d") (.int 1)] := rfl

/-- the text of three million characters is computed, and only then refused -/
theorem not_sizes_bounded : ¬ ∀ (parse : String → Except String (Expr Empty)) (expression : String)
    (tree : Expr Empty), classifyExpression parse expression = (.conforming, "") →
    parse expression = .ok tree → (∀ v ∈ tree.literals, v.Within) →
    ∀ op l r, .computed op l r ∈ (evalNode onInts [] tree).log → Bounded onInts op l r := by
  intro h
  have hconforming : classifyExpression (fun _ => .ok wideTree) "'%3000000d' % 1" =
    (.conforming, "") := by decide +kernel
  have hliterals : ∀ v ∈ wideTree.literals, v.Within := by
    intro v hv
    simp only [wideTree, Expr.literals, List.cons_append, List.nil_append, List.mem_cons,
      List.not_mem_nil, or_false] at hv
    rcases hv with rfl | rfl <;> exact ⟨by decide, by decide⟩
  have hbounded := h _ _ wideTree hconforming rfl hliterals .mod (.str "%3000000d") (.int 1)
    (by rw [wide_log]; exact List.mem_singleton.mpr rfl)
  have hfits := (safe_of_bounded hbounded).format rfl _ (congrArg some wide_formatted)
  rw [List.append_nil] at hfits
  have hwidth := length_padded [] true 3000000 [] ['1']
  exact absurd (hwidth.trans hfits) (by decide)

end SafeExpression
