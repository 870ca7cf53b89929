import Velaris.Py.Blank
import Velaris.Py.Text
import Velaris.Py.Runtime

/-!
# The cells of a DMN table (`case_service/core/dmn.py`)

* `Library`   what is used of Python's library: `float`, `str.upper`, `re.match`;
* `Raised`   the exceptions;
* `literal`   a FEEL literal as a Python value;
* `splitTopLevel`   the parts of a cell between its commas;
* `parseUnaryTest`   an input entry as a condition; `None` is no condition.
-/

namespace Dmn
open Py

structure Library extends Runtime where
  /-- `float(text)` of a decimal -/
  float : List Char → ℚ
  /-- `text.upper()` -/
  upper : String → String
  /-- `\w` -/
  word : Char → Bool
  /-- `bool(re.match(pattern, text))`, where the pattern is one -/
  match? : String → String → Option Bool

/-- a library for runs on fixed inputs in lower case, without decimals and patterns -/
def Library.plain : Library where
  toRuntime := Runtime.silent
  float := fun _ => 0
  upper := id
  word := fun c => c.isAlphanum || c = '_'
  match? := fun _ _ => none

inductive Raised where
  | dmnError (code message : String)
  | valueError
  | typeError
  | lookupError
  | reError
  deriving DecidableEq

def exprError (message : String) : Raised := .dmnError "VEL-RULE-DMN-EXPR-422" message

/-! ## `_NUM` -/

/-- `\d` -/
def isDecimal (c : Char) : Bool := (decimal? c).isSome

/-- `\d+(?:\.\d+)?` at the start of a text, and what follows it -/
def unsigned (cs : List Char) : Option (List Char × List Char) :=
  let whole := cs.takeWhile isDecimal
  if whole = [] then none
  else
    match cs.dropWhile isDecimal with
    | '.' :: rest =>
      if rest.takeWhile isDecimal = [] then some (whole, '.' :: rest)
      else some (whole ++ '.' :: rest.takeWhile isDecimal, rest.dropWhile isDecimal)
    | rest => some (whole, rest)

/-- `_NUM` at the start of a text, and what follows it -/
def num : List Char → Option (List Char × List Char)
  | '-' :: cs => (unsigned cs).map fun p => ('-' :: p.1, p.2)
  | cs => unsigned cs

/-! ## `_literal` -/

def quoted (text : List Char) : Bool :=
  2 ≤ text.length && text.head? == text.getLast? &&
    (text.head? == some '\"' || text.head? == some '\'')

def literal (L : Library) (raw : List Char) : Except Raised Value :=
  let text := strip raw
  if quoted text then .ok (.str (String.ofList (text.drop 1).dropLast))
  else if text = ['t', 'r', 'u', 'e'] then .ok (.bool true)
  else if text = ['f', 'a', 'l', 's', 'e'] then .ok (.bool false)
  else if text = ['n', 'u', 'l', 'l'] then .ok .none
  else if (num text).any (·.2.isEmpty) then
    if '.' ∈ text then .ok (.float (L.float text))
    else
      match intText 10 (String.ofList text) with
      | some n => .ok (.int n)
      | none => .error .valueError
  else
    .error (exprError ("'" ++ String.ofList raw ++ "' is not a literal this platform reads. " ++
      "A cell may hold a number, a quoted string, true/false/null, a comparison, a range, or a " ++
      "comma-separated list of those. A bare word is a FEEL variable or function call, and this " ++
      "is deliberately not a FEEL engine."))

/-! ## `_split_top_level` -/

structure Scan where
  parts : List (List Char)
  depth : Int
  quote : Option Char
  current : List Char

namespace Scan

def push (s : Scan) (ch : Char) : Scan := { s with current := s.current ++ [ch] }

def step (s : Scan) (ch : Char) : Scan :=
  match s.quote with
  | some q => { s.push ch with quote := if ch = q then none else some q }
  | none =>
    if ch = '\"' ∨ ch = '\'' then { s.push ch with quote := some ch }
    else if ch = '[' ∨ ch = '(' then { s.push ch with depth := s.depth + 1 }
    else if ch = ']' ∨ ch = ')' then { s.push ch with depth := s.depth - 1 }
    else if ch = ',' ∧ s.depth = 0 then { s with parts := s.parts ++ [s.current], current := [] }
    else s.push ch

end Scan

def splitTopLevel (text : List Char) : List (List Char) :=
  let s := text.foldl Scan.step ⟨[], 0, none, []⟩
  ((s.parts ++ [s.current]).map strip).filter (· ≠ [])

/-! ## `_parse_unary_test` -/

/-- `_NOT.match(text)`: what is in the brackets -/
def notMatch : List Char → Option (List Char)
  | n :: o :: t :: rest =>
    if (n = 'n' ∨ n = 'N') ∧ (o = 'o' ∨ o = 'O') ∧ (t = 't' ∨ t = 'T') then
      match rest.dropWhile isSpace with
      | '(' :: inner =>
        if inner.getLast? = some ')' ∧ '\n' ∉ inner.dropLast then some inner.dropLast else none
      | _ => none
    else none
  | _ => none

structure RangeMatch where
  lo_b : Char
  lo : List Char
  hi : List Char
  hi_b : Char

/-- `_RANGE.match(text)` -/
def rangeMatch : List Char → Option RangeMatch
  | lo_b :: rest =>
    if lo_b = '[' ∨ lo_b = ']' ∨ lo_b = '(' then
      (num (rest.dropWhile isSpace)).bind fun lo =>
        match lo.2.dropWhile isSpace with
        | '.' :: '.' :: rest =>
          (num (rest.dropWhile isSpace)).bind fun hi =>
            match hi.2.dropWhile isSpace with
            | [hi_b] =>
              if hi_b = '[' ∨ hi_b = ']' ∨ hi_b = ')' then some ⟨lo_b, lo.1, hi.1, hi_b⟩ else none
            | _ => none
        | _ => none
    else none
  | [] => none

/-- the symbols in the order `_COMPARISON` tries them, with `_COMPARISON_OPS` of each -/
def comparisonOps : List (List Char × Option String) :=
  [(['<', '='], some "$lte"), (['>', '='], some "$gte"), (['<'], some "$lt"),
    (['>'], some "$gt"), (['!', '='], some "$neq"), (['='], none)]

/-- `\s*(?P<val>.+)$`; a text of white space alone leaves its last character -/
def valMatch (rest : List Char) : Option (List Char) :=
  match rest.dropWhile isSpace with
  | [] => rest.getLast?.map ([·])
  | val => some val

/-- `_COMPARISON` with one of its symbols -/
def comparisonAt (text : List Char) (op : List Char × Option String) :
    Option (Option String × List Char) :=
  if op.1.isPrefixOf text then
    ((valMatch (text.drop op.1.length)).filter ('\n' ∉ ·)).map fun val => (op.2, val)
  else none

/-- `_COMPARISON.match(text)` -/
def comparisonMatch (text : List Char) : Option (Option String × List Char) :=
  comparisonOps.findSome? (comparisonAt text)

def parseUnaryTest (L : Library) (cell : List Char) : Except Raised Value := do
  let text := strip cell
  if text = [] ∨ text = ['-'] then return .none
  match notMatch text with
  | some inner =>
    let inner := splitTopLevel inner
    if inner = [] then throw (exprError "not() with nothing in it")
    let values ← inner.mapM (literal L)
    return .dict [("$not_in", .list values)]
  | none =>
    let parts := splitTopLevel text
    if 1 < parts.length then
      let values ← parts.mapM (literal L)
      return .dict [("$in", .list values)]
    match rangeMatch text with
    | some m =>
      let lo ← literal L m.lo
      let hi ← literal L m.hi
      -- FEEL writes an exclusive bound as `(` or `]`, and both forms appear
      let lowOp := if m.lo_b = '(' ∨ m.lo_b = ']' then "$gt" else "$gte"
      let highOp := if m.hi_b = ')' ∨ m.hi_b = '[' then "$lt" else "$lte"
      return .dict [(lowOp, lo), (highOp, hi)]
    | none =>
      match comparisonMatch text with
      | some (op, val) =>
        let value ← literal L val
        match op with
        | none => return value
        | some op => return .dict [(op, value)]
      | none => literal L text

end Dmn
