import Mathlib.Data.List.Basic
import Mathlib.Data.List.Infix
import Mathlib.Algebra.Ring.Nat
import Mathlib.Algebra.Group.Int.Defs
import Mathlib.Data.Nat.Size

/-!
# The values of an expression, and their operators

What Python does with the operands that `core/safe_expression.py` gives it.

* `Val`   values; of floats and complex numbers only that they are there;
* `Builtins`   the functions that know them, or print a value;
* `scan`, `render`   printf-style formatting, which `%` is on a text;
* `binop`   the seven binary operators on operands of every type;
* `unaryop`, `cmpop`   the others;
* `safeCall`   `_SAFE_CALLS`.
-/

namespace SafeExpression

/-! ## values -/

inductive Val (F : Type) where
  | none
  | ellipsis
  | bool (b : Bool)
  | int (n : Int)
  | number (x : F)
  | str (s : String)
  | bytes (bs : List UInt8)
  | list (xs : List (Val F))
  | tuple (xs : List (Val F))
  | dict (items : List (String × Val F))

inductive Err where
  /-- `ExpressionError` -/
  | expression (message : String)
  | raised

inductive Operator where
  | add | sub | mult | div | floorDiv | mod | pow
  | matMult | lShift | rShift | bitOr | bitXor | bitAnd
  deriving DecidableEq

inductive UnaryOp where
  | uAdd | uSub | not | invert
  deriving DecidableEq

inductive CmpOp where
  | eq | notEq | lt | ltE | gt | gtE | is | isNot | isIn | notIn
  deriving DecidableEq

abbrev Num (F : Type) := Int ⊕ F

structure Builtins (F : Type) where
  /-- a binary operator one of whose operands, or whose result, is not an int -/
  arith : Operator → Num F → Num F → Except Err F
  negate : F → F
  positive : F → F
  abs : F → Except Err F
  truth : F → Bool
  numEq : Num F → Num F → Bool
  numOrder : CmpOp → Num F → Num F → Except Err Bool
  round : List (Val F) → Except Err (Val F)
  str : List (Val F) → Except Err String
  int : List (Val F) → Except Err Int
  float : List (Val F) → Except Err F
  /-- a conversion of `%` on a text, with its flags and precision: the sign, and what follows it -/
  convert : Char → List Char → Option Nat → Val F → Except Err (List Char × List Char)
  convertBytes : Char → List Char → Option Nat → Val F → Except Err (List Char × List Char)

variable {F : Type} (B : Builtins F)

namespace Val

def int? : Val F → Option Int
  | .bool b => some (if b then 1 else 0)
  | .int n => some n
  | _ => Option.none

def num? : Val F → Option (Num F)
  | .number x => some (.inr x)
  | v => v.int?.map .inl

/-- `len` of a text, bytes, list or tuple -/
def len : Val F → Nat
  | .str s => s.length
  | .bytes bs => bs.length
  | .list xs => xs.length
  | .tuple xs => xs.length
  | _ => 0

/-- `bool(v)` -/
def truthy : Val F → Bool
  | .none => false
  | .ellipsis => true
  | .bool b => b
  | .int n => n != 0
  | .number x => B.truth x
  | .dict items => !items.isEmpty
  | v => v.len != 0

def items? : Val F → Option (List (Val F))
  | .str s => some (s.toList.map fun c => .str (String.ofList [c]))
  | .bytes bs => some (bs.map fun b => .int b.toNat)
  | .list xs => some xs
  | .tuple xs => some xs
  | .dict items => some (items.map fun i => .str i.1)
  | _ => Option.none

/-- `n` copies of a sequence, one after the other -/
def repeated (n : Int) : Val F → Option (Val F)
  | .str s => some (.str (String.ofList (List.replicate n.toNat s.toList).flatten))
  | .bytes bs => some (.bytes (List.replicate n.toNat bs).flatten)
  | .list xs => some (.list (List.replicate n.toNat xs).flatten)
  | .tuple xs => some (.tuple (List.replicate n.toNat xs).flatten)
  | _ => Option.none

end Val

/-! ## formatting -/

/-- a width or a precision: a number, or `*` for the next argument -/
inductive Amount where
  | fixed (n : Nat)
  | star

structure Directive where
  key : Option String := none
  flags : List Char := []
  width : Option Amount := none
  precision : Option Amount := none
  conversion : Char := 's'

inductive Piece where
  | literal (c : Char)
  | directive (d : Directive)

inductive Part where
  | start | flags | width | starred | point | precision | measured | done
  deriving DecidableEq

inductive Mode where
  | text
  | key (opened : Nat) (chars : List Char)
  | spec (part : Part) (d : Directive)

def FLAGS : List Char := ['-', '+', ' ', '#', '0']

def digit? (c : Char) : Option Nat :=
  if c.isDigit then some (c.toNat - '0'.toNat) else none

def Amount.push (k : Nat) : Option Amount → Option Amount
  | some (.fixed n) => some (.fixed (10 * n + k))
  | _ => some (.fixed k)

def spec (part : Part) (d : Directive) (c : Char) : Mode × Option Piece :=
  if c = '(' ∧ part = .start ∧ d.key.isNone then (.key 1 [], none)
  else if c ∈ FLAGS ∧ (part = .start ∨ part = .flags) then
    (.spec .flags { d with flags := d.flags ++ [c] }, none)
  else if c = '*' ∧ (part = .start ∨ part = .flags) then
    (.spec .starred { d with width := some .star }, none)
  else if c.isDigit ∧ (part = .start ∨ part = .flags ∨ part = .width) then
    (.spec .width { d with width := Amount.push ((digit? c).getD 0) d.width }, none)
  else if c = '.' ∧ part ∈ [.start, .flags, .width, .starred] then
    (.spec .point { d with precision := some (.fixed 0) }, none)
  else if c = '*' ∧ part = .point then
    (.spec .measured { d with precision := some .star }, none)
  else if c.isDigit ∧ (part = .point ∨ part = .precision) then
    (.spec .precision { d with precision := Amount.push ((digit? c).getD 0) d.precision }, none)
  else if c ∈ ['h', 'l', 'L'] ∧ part ≠ .done then (.spec .done d, none)
  else (.text, some (.directive { d with conversion := c }))

def next : Mode → Char → Mode × Option Piece
  | .text, c => if c = '%' then (.spec .start {}, none) else (.text, some (.literal c))
  | .key opened chars, c =>
    if c = ')' ∧ opened = 1 then (.spec .start { key := some (String.ofList chars) }, none)
    else
      (.key (if c = ')' then opened - 1 else if c = '(' then opened + 1 else opened) (chars ++ [c]),
        none)
  | .spec part d, c => spec part d c

/-- the pieces of a format; it raises where the last directive is incomplete -/
def scan : Mode → List Char → Except Err (List Piece)
  | .text, [] => .ok []
  | _, [] => .error .raised
  | mode, c :: cs => (scan (next mode c).1 cs).map ((next mode c).2.toList ++ ·)

def MAX_WIDTH : Nat := 2 ^ 63 - 1

def MAX_PRECISION : Nat := 2 ^ 31 - 1

/-- an amount, and the arguments that are left -/
def Amount.take (limit : Nat) (args : List (Val F)) :
    Option Amount → Except Err (Option Int × List (Val F))
  | none => .ok (none, args)
  | some (.fixed n) => if n ≤ limit then .ok (some n, args) else .error .raised
  | some .star =>
    match args with
    | [] => .error .raised
    | v :: rest =>
      match v.int? with
      | some n => if n.natAbs ≤ limit then .ok (some n, rest) else .error .raised
      | none => .error .raised

def padded (flags : List Char) (numeric : Bool) (width : Int) (sign body : List Char) : List Char :=
  let n := width.natAbs - (sign.length + body.length)
  if '-' ∈ flags ∨ width < 0 then sign ++ body ++ List.replicate n ' '
  else if '0' ∈ flags ∧ numeric then sign ++ List.replicate n '0' ++ body
  else List.replicate n ' ' ++ sign ++ body

def NUMERIC : List Char := ['d', 'i', 'u', 'o', 'x', 'X', 'e', 'E', 'f', 'F', 'g', 'G']

/-- the arguments of a directive: those that are left, or the value of its key -/
def keyed (mapping : Option (Val F)) (args : List (Val F)) :
    Option String → Except Err (List (Val F))
  | none => .ok args
  | some k =>
    match mapping with
    | some (.dict items) =>
      match items.lookup k with
      | some v => .ok [v]
      | none => .error .raised
    | _ => .error .raised

variable (convert : Char → List Char → Option Nat → Val F → Except Err (List Char × List Char))

/-- the text of a directive, and the arguments that are left -/
def Directive.format (mapping : Option (Val F)) (args : List (Val F)) (d : Directive) :
    Except Err (List Char × List (Val F)) := do
  let args ← keyed mapping args d.key
  let (width, args) ← Amount.take MAX_WIDTH args d.width
  let (precision, args) ← Amount.take MAX_PRECISION args d.precision
  if d.conversion = '%' then return (['%'], args)
  match args with
  | [] => .error .raised
  | v :: rest =>
    let (sign, body) ← convert d.conversion d.flags (precision.map Int.toNat) v
    return (padded d.flags (d.conversion ∈ NUMERIC) (width.getD 0) sign body, rest)

def render (mapping : Option (Val F)) : List (Val F) → List Piece → Except Err (List Char)
  | args, [] => if args.isEmpty || mapping.isSome then .ok [] else .error .raised
  | args, .literal c :: pieces => (render mapping args pieces).map (c :: ·)
  | args, .directive d :: pieces => do
    let (text, rest) ← d.format convert mapping args
    (render mapping rest pieces).map (text ++ ·)

/-- `format % args` -/
def formatted (mapping : Option (Val F)) (format : List Char) (args : Val F) :
    Except Err (List Char) := do
  let pieces ← scan .text format
  match args with
  | .tuple xs => render convert mapping xs pieces
  | v => render convert mapping [v] pieces

def Val.mapping : Val F → Option (Val F)
  | .dict items => some (.dict items)
  | .list xs => some (.list xs)
  | .bytes bs => some (.bytes bs)
  | _ => Option.none

def Val.mappingOfBytes : Val F → Option (Val F)
  | .dict items => some (.dict items)
  | .list xs => some (.list xs)
  | _ => Option.none

def formatStr (format : String) (args : Val F) : Except Err (List Char) :=
  formatted B.convert args.mapping format.toList args

def formatBytes (format : List UInt8) (args : Val F) : Except Err (List Char) :=
  formatted B.convertBytes args.mappingOfBytes (format.map fun b => Char.ofNat b.toNat) args

/-! ## binary operators -/

def intop : Operator → Int → Int → Except Err (Val F)
  | .add, a, b => .ok (.int (a + b))
  | .sub, a, b => .ok (.int (a - b))
  | .mult, a, b => .ok (.int (a * b))
  | .div, a, b =>
    if b = 0 then .error .raised else (B.arith .div (.inl a) (.inl b)).map .number
  | .floorDiv, a, b => if b = 0 then .error .raised else .ok (.int (a.fdiv b))
  | .mod, a, b => if b = 0 then .error .raised else .ok (.int (a.fmod b))
  | .pow, a, b =>
    if 0 ≤ b then .ok (.int (a ^ b.toNat))
    else if a = 0 then .error .raised
    else (B.arith .pow (.inl a) (.inl b)).map .number
  | _, _, _ => .error .raised

def seqop : Operator → Val F → Val F → Except Err (Val F)
  | .add, .str a, .str b => .ok (.str (a ++ b))
  | .add, .bytes a, .bytes b => .ok (.bytes (a ++ b))
  | .add, .list a, .list b => .ok (.list (a ++ b))
  | .add, .tuple a, .tuple b => .ok (.tuple (a ++ b))
  | .mult, a, b =>
    match b.int?.bind (a.repeated ·), a.int?.bind (b.repeated ·) with
    | some v, _ => .ok v
    | none, some v => .ok v
    | none, none => .error .raised
  | .mod, .str format, args => (formatStr B format args).map fun cs => .str (String.ofList cs)
  | .mod, .bytes format, args =>
    (formatBytes B format args).map fun cs => .bytes (cs.map fun c => c.toNat.toUInt8)
  | _, _, _ => .error .raised

/-- `_BINOP_FN[op](a, b)` -/
def binop (op : Operator) (a b : Val F) : Except Err (Val F) :=
  match a.num?, b.num? with
  | some (.inl m), some (.inl n) => intop B op m n
  | some m, some n => (B.arith op m n).map .number
  | _, _ => seqop B op a b

/-! ## the other operators -/

def unaryop : UnaryOp → Val F → Except Err (Val F)
  | .not, v => .ok (.bool (!v.truthy B))
  | .uAdd, v =>
    match v.num? with
    | some (.inl n) => .ok (.int n)
    | some (.inr x) => .ok (.number (B.positive x))
    | none => .error .raised
  | .uSub, v =>
    match v.num? with
    | some (.inl n) => .ok (.int (-n))
    | some (.inr x) => .ok (.number (B.negate x))
    | none => .error .raised
  | .invert, _ => .error .raised

mutual

/-- `a == b` -/
def Val.eq : Val F → Val F → Bool
  | .none, .none => true
  | .ellipsis, .ellipsis => true
  | .str a, .str b => a == b
  | .bytes a, .bytes b => a == b
  | .list xs, .list ys => Val.eqList xs ys
  | .tuple xs, .tuple ys => Val.eqList xs ys
  | .dict xs, .dict ys => xs.length == ys.length && Val.eqItems xs ys
  | a, b =>
    match a.num?, b.num? with
    | some m, some n => B.numEq m n
    | _, _ => false

def Val.eqList : List (Val F) → List (Val F) → Bool
  | [], [] => true
  | x :: xs, y :: ys => Val.eq x y && Val.eqList xs ys
  | _, _ => false

def Val.eqItems : List (String × Val F) → List (String × Val F) → Bool
  | [], _ => true
  | (k, v) :: xs, ys =>
    (match ys.lookup k with
    | some w => Val.eq v w
    | Option.none => false) && Val.eqItems xs ys

end

def CmpOp.holds : CmpOp → Ordering → Bool
  | .lt, o => o == .lt
  | .ltE, o => o != .gt
  | .gt, o => o == .gt
  | .gtE, o => o != .lt
  | _, _ => false

mutual

/-- `a < b` and its like -/
def Val.order (op : CmpOp) : Val F → Val F → Except Err Bool
  | .str a, .str b => .ok (op.holds (compareOfLessAndEq a b))
  | .bytes a, .bytes b =>
    .ok (op.holds (compareOfLessAndEq (a.map UInt8.toNat) (b.map UInt8.toNat)))
  | .list xs, .list ys => Val.orderList op xs ys
  | .tuple xs, .tuple ys => Val.orderList op xs ys
  | a, b =>
    match a.num?, b.num? with
    | some m, some n => B.numOrder op m n
    | _, _ => .error .raised

def Val.orderList (op : CmpOp) : List (Val F) → List (Val F) → Except Err Bool
  | [], [] => .ok (op.holds .eq)
  | [], _ :: _ => .ok (op.holds .lt)
  | _ :: _, [] => .ok (op.holds .gt)
  | x :: xs, y :: ys => if Val.eq B x y then Val.orderList op xs ys else Val.order op x y

end

mutual

def Val.hashable : Val F → Bool
  | .list _ | .dict _ => false
  | .tuple xs => Val.hashableAll xs
  | _ => true

def Val.hashableAll : List (Val F) → Bool
  | [] => true
  | x :: xs => Val.hashable x && Val.hashableAll xs

end

/-- `v in container` -/
def contains (v : Val F) : Val F → Except Err Bool
  | .str t =>
    match v with
    | .str s => .ok (decide (s.toList <:+: t.toList))
    | _ => .error .raised
  | .bytes bs =>
    match v with
    | .bytes b => .ok (decide (b <:+: bs))
    | v =>
      match v.int? with
      | some n =>
        if 0 ≤ n ∧ n < 256 then .ok (decide (n.toNat.toUInt8 ∈ bs)) else .error .raised
      | none => .error .raised
  | .list xs => .ok (xs.any (Val.eq B v))
  | .tuple xs => .ok (xs.any (Val.eq B v))
  | .dict items =>
    match v with
    | .str k => .ok (items.lookup k).isSome
    | v => if v.hashable then .ok false else .error .raised
  | _ => .error .raised

/-- `_CMPOP_FN[op](a, b)` -/
def cmpop (op : CmpOp) (a b : Val F) : Except Err Bool :=
  match op with
  | .eq => .ok (Val.eq B a b)
  | .notEq => .ok (!Val.eq B a b)
  | .isIn => contains B a b
  | .notIn => (contains B a b).map (!·)
  | .is | .isNot => .error .raised
  | op => Val.order B op a b

/-! ## calls -/

def best (op : CmpOp) (v : Val F) : List (Val F) → Except Err (Val F)
  | [] => .ok v
  | w :: ws => do best op (if ← Val.order B op w v then w else v) ws

def minmax (op : CmpOp) : List (Val F) → Except Err (Val F)
  | [v] =>
    match v.items? with
    | some (w :: ws) => best B op w ws
    | _ => .error .raised
  | v :: vs => best B op v vs
  | [] => .error .raised

/-- `sum`, which adds with `+` -/
def total (start : Val F) : List (Val F) → Except Err (Val F)
  | [] => .ok start
  | v :: vs => do total (← binop B .add start v) vs

def sum (v start : Val F) : Except Err (Val F) :=
  match start, v.items? with
  | .str _, _ => .error .raised
  | .bytes _, _ => .error .raised
  | start, some vs => total B start vs
  | _, none => .error .raised

/-- `any` and `all` of an iterable -/
def quantified (test : (Val F → Bool) → List (Val F) → Bool) (v : Val F) : Except Err (Val F) :=
  match v.items? with
  | some vs => .ok (.bool (test (Val.truthy B) vs))
  | none => .error .raised

/-- `_SAFE_CALLS[f](*args)` -/
def safeCall : String → List (Val F) → Except Err (Val F)
  | "abs", [v] =>
    match v.num? with
    | some (.inl n) => .ok (.int n.natAbs)
    | some (.inr x) => (B.abs x).map .number
    | none => .error .raised
  | "min", args => minmax B .lt args
  | "max", args => minmax B .gt args
  | "round", args => B.round args
  | "len", [.dict items] => .ok (.int items.length)
  | "len", [v] => if v.items?.isSome then .ok (.int v.len) else .error .raised
  | "str", args => (B.str args).map .str
  | "int", [v] =>
    match v.int? with
    | some n => .ok (.int n)
    | none => (B.int [v]).map .int
  | "int", args => (B.int args).map .int
  | "float", args => (B.float args).map .number
  | "bool", [] => .ok (.bool false)
  | "bool", [v] => .ok (.bool (v.truthy B))
  | "sum", [v] => sum B v (.int 0)
  | "sum", [v, start] => sum B v start
  | "any", [v] => quantified B (fun p vs => vs.any p) v
  | "all", [v] => quantified B (fun p vs => vs.all p) v
  | _, _ => .error .raised

end SafeExpression
