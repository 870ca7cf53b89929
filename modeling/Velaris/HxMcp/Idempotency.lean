import Velaris.Py.Runtime
import Mathlib.Logic.Function.Basic

/-!
# Writes through the MCP server

`case_service/hxmcp/idempotency.py` and the mutating tools of `case_service/hxmcp/server.py`.  Any
number of calls run side by side; a step is one transaction, or what happens between two of them.

* `Call`, `Key`, `Row`   a call of a tool, what its key stands under, and what is stored there;
* `claim`, `lookUp`   the two transactions of `claim`;
* `complete`, `release`   the ends of a claim;
* `Phase`, `Act`, `step`   `_call_mutating_tool` from one point to the next.
-/

namespace HxMcp

open Py

-- the arguments of a tool without the key, and digests
variable {J δ : Type}

structure Key where
  userId : String
  idempotencyKey : String
  deriving DecidableEq

structure Call (J : Type) where
  userId : String
  idempotencyKey : String
  toolName : String
  arguments : J
  deriving DecidableEq

def Call.key (c : Call J) : Key := ⟨c.userId, c.idempotencyKey⟩

def Call.request (c : Call J) : String × J := (c.toolName, c.arguments)

/-- `MCPIdempotencyKeyModel` under its key -/
structure Row (δ : Type) where
  toolName : String
  requestHash : δ
  done : Bool := false
  response : Option Dict := none
  isError : Bool := false

/-- a write that is committed, and the result its handler is about to return -/
structure Applied (J : Type) where
  key : Key
  request : String × J
  result : Dict

inductive Answer where
  | result (payload : Dict)
  | replay (payload : Dict) (isError : Bool)
  | invalid (message : String)
  | failed
  deriving DecidableEq

inductive Phase (J : Type) where
  | idle
  | called (c : Call J)
  | refused (c : Call J)
  /-- it has claimed the key; nothing is written -/
  | executing (c : Call J)
  | committed (c : Call J) (result : Dict)
  | completing (c : Call J) (result : Dict)
  | failing (c : Call J)
  | answered (c : Call J) (answer : Answer)
  deriving DecidableEq

structure State (J δ : Type) where
  rows : Key → Option (Row δ) := fun _ => none
  calls : Nat → Phase J := fun _ => .idle
  applied : List (Applied J) := []

def State.goto (s : State J δ) (i : Nat) (phase : Phase J) : State J δ :=
  { s with calls := Function.update s.calls i phase }

def State.setRow (s : State J δ) (k : Key) (row : Option (Row δ)) : State J δ :=
  { s with rows := Function.update s.rows k row }

/-! ## the transactions -/

variable (requestHash : String × J → δ)

def Call.pending (c : Call J) : Row δ where
  toolName := c.toolName
  requestHash := requestHash c.request

/-- `claim`, up to its commit: the unique key lets one INSERT through -/
def claim (s : State J δ) (i : Nat) (c : Call J) : State J δ :=
  match s.rows c.key with
  | none => (s.setRow c.key (some (c.pending requestHash))).goto i (.executing c)
  | some _ => s.goto i (.refused c)

/-- `claim`, where the key was taken; a row that has gone meanwhile is an exception -/
def lookUp [DecidableEq δ] (s : State J δ) (c : Call J) : Answer :=
  match s.rows c.key with
  | none => .failed
  | some existing =>
    if existing.requestHash ≠ requestHash c.request then
      .invalid "idempotency_key already used with different arguments"
    else if !existing.done then
      .invalid "a call with this idempotency_key is still being processed"
    else .replay (existing.response.getD []) existing.isError

def complete (s : State J δ) (k : Key) (result : Dict) : State J δ :=
  match s.rows k with
  | none => s
  | some existing =>
    s.setRow k (some { existing with
      done := true
      response := some result
      isError := false })

def release (s : State J δ) (k : Key) : State J δ :=
  match s.rows k with
  | none => s
  | some existing => if existing.done then s else s.setRow k none

/-! ## the steps -/

inductive Act (J : Type) where
  | call (i : Nat) (userId : String) (key : Option String) (toolName : String) (arguments : J)
  | claim (i : Nat)
  | lookUp (i : Nat)
  | commit (i : Nat) (result : Dict)
  | returns (i : Nat)
  /-- it fails, before its write or after it -/
  | fail (i : Nat)
  | complete (i : Nat)
  | release (i : Nat)
  | die (i : Nat)

/-- `_call_mutating_tool`, up to its claim -/
def called (userId : String) (key : Option String) (toolName : String) (arguments : J) : Phase J :=
  match key with
  | some text =>
    if 1 ≤ text.length ∧ text.length ≤ 255 then .called ⟨userId, text, toolName, arguments⟩
    else .answered ⟨userId, text, toolName, arguments⟩
      (.invalid "'idempotency_key' (1-255 char string) is required for writes")
  | none => .answered ⟨userId, "", toolName, arguments⟩
      (.invalid "'idempotency_key' (1-255 char string) is required for writes")

def step [DecidableEq δ] (s : State J δ) : Act J → State J δ
  | .call i userId key toolName arguments =>
    match s.calls i with
    | .idle => s.goto i (called userId key toolName arguments)
    | _ => s
  | .claim i =>
    match s.calls i with
    | .called c => claim requestHash s i c
    | _ => s
  | .lookUp i =>
    match s.calls i with
    | .refused c => s.goto i (.answered c (lookUp requestHash s c))
    | _ => s
  | .commit i result =>
    match s.calls i with
    | .executing c =>
      State.goto { s with applied := s.applied ++ [⟨c.key, c.request, result⟩] } i
        (.committed c result)
    | _ => s
  | .returns i =>
    match s.calls i with
    | .committed c result => s.goto i (.completing c result)
    | _ => s
  | .fail i =>
    match s.calls i with
    | .executing c | .committed c _ => s.goto i (.failing c)
    | _ => s
  | .complete i =>
    match s.calls i with
    | .completing c result => (complete s c.key result).goto i (.answered c (.result result))
    | _ => s
  | .release i =>
    match s.calls i with
    | .failing c => (release s c.key).goto i (.answered c .failed)
    | _ => s
  | .die i => s.goto i .idle

end HxMcp
