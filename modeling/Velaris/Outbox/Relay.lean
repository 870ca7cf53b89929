import Velaris.Py.Value
import Mathlib.Algebra.Group.Int.Defs
import Mathlib.Data.List.Sort

/-!
# The outbox relay

`case_service/integrations/outbox_relay.py`.  Any number of workers run `_deliver_batch` on one
table; a step is what happens between two points where another worker can come in.

* `OutboxEvent`, `Tracked`   a row; beside it who holds it, what was tried, and what was reported;
* `claimable`, `chosen`   what the first transaction claims;
* `deliverOne`   the answers of the subscribers, folded into one outcome;
* `Phase`, `Act`, `step`   the claim, one delivery, the write-back, and a crash between them.
-/

namespace Outbox

open Py

def MAX_ATTEMPTS : Nat := 5
def CLAIM_TTL : Int := seconds 300
def BATCH_SIZE : Nat := 50

def backoff (attempts : Nat) : Int := seconds (30 * 2 ^ (attempts - 1))

/-! ## rows -/

structure OutboxEvent where
  id : Uuid
  eventType : String
  payload : Value
  caseTypeId : Option Uuid
  createdAt : Int
  claimedAt : Option Int := none
  deliveredAt : Option Int := none
  attempts : Nat := 0
  nextAttemptAt : Option Int := none

structure Subscription where
  id : Uuid
  url : String
  events : List String
  caseTypeId : Option Uuid
  isActive : Bool

inductive Answer where
  | status (code : Nat)
  /-- a `ValueError`, as of the guard against requests to inner addresses -/
  | blocked
  | failed

def Answer.final : Answer → Bool
  | .status code => code < 400
  | .blocked => true
  | .failed => false

/-- one delivery: every subscription that matched, and its answer -/
abbrev Attempt := List (Subscription × Answer)

structure Tracked extends OutboxEvent where
  /-- the workers that have claimed the row and not let go of it -/
  heldBy : List Nat := []
  tried : List Attempt := []
  marked : Bool := false
  /-- its last claim ended with a failure written back -/
  failed : Bool := false

def Tracked.key (r : Tracked) : Uuid := r.id

/-- `get_matching_subscriptions` -/
def matching (subs : List Subscription) (eventType : String) (caseTypeId : Option Uuid) :
    List Subscription :=
  subs.filter fun sub =>
    sub.isActive &&
      (sub.events = [] || eventType ∈ sub.events || "*" ∈ sub.events) &&
      (sub.caseTypeId.isNone || caseTypeId.isNone || sub.caseTypeId = caseTypeId)

/-! ## the two transactions, and the calls between them -/

def claimable (now : Int) (row : OutboxEvent) : Bool :=
  row.deliveredAt.isNone && row.attempts < MAX_ATTEMPTS && row.nextAttemptAt.all (· ≤ now) &&
    row.claimedAt.all (· < now - CLAIM_TTL)

/-- the batch: the oldest of the rows that are not locked by another claim -/
def chosen (now : Int) (locked : List Uuid) (rows : List Tracked) : List Tracked :=
  ((rows.filter fun r => claimable now r.toOutboxEvent && r.key ∉ locked).insertionSort
    fun a b => a.createdAt ≤ b.createdAt).take BATCH_SIZE

structure Claimed where
  rowId : Uuid
  eventType : String
  payload : Value
  caseTypeId : Option Uuid
  attempts : Nat

def Tracked.claimed (r : Tracked) : Claimed where
  rowId := r.id
  eventType := r.eventType
  payload := r.payload
  caseTypeId := r.caseTypeId
  attempts := r.attempts

structure RowResult where
  rowId : Uuid
  attempts : Nat
  deliveredAt : Option Int := none
  nextAttemptAt : Option Int := none

/-- `_deliver_one`, where the calls end in the attempt; without subscriptions nothing is left to
do -/
def deliverOne (now : Int) (c : Claimed) (attempt : Attempt) : RowResult :=
  let attempts := c.attempts + 1
  if attempt.isEmpty || attempt.any (·.2.final) then
    { rowId := c.rowId, attempts := attempts, deliveredAt := some now }
  else { rowId := c.rowId, attempts := attempts, nextAttemptAt := some (now + backoff attempts) }

/-! ## the state -/

/-- where a worker is in `_deliver_batch` -/
inductive Phase where
  | idle
  | begun (now : Int)
  /-- its claim is committed: the rows to be delivered, and the outcomes so far -/
  | busy (now : Int) (todo : List Claimed) (results : List RowResult)

structure State where
  rows : List Tracked := []
  subs : List Subscription := []
  clock : Int := 0
  phase : Nat → Phase := fun _ => .idle

inductive Act where
  | tick (d : Nat)
  | enqueue (row : OutboxEvent)
  | subscribe (subs : List Subscription)
  | begin (w : Nat)
  | claim (w : Nat) (locked : List Uuid)
  /-- the next row of the batch, with what every subscription answers -/
  | deliver (w : Nat) (answer : Subscription → Answer)
  | writeBack (w : Nat)
  | crash (w : Nat)

def State.goto (s : State) (w : Nat) (phase : Phase) : State :=
  { s with phase := Function.update s.phase w phase }

def State.write (s : State) (f : Tracked → Tracked) : State := { s with rows := s.rows.map f }

def Tracked.taken (r : Tracked) (w : Nat) (now : Int) : Tracked :=
  { r with
    claimedAt := some now
    heldBy := w :: r.heldBy
    failed := false }

def Tracked.attempted (r : Tracked) (attempt : Attempt) : Tracked :=
  { r with tried := r.tried ++ [attempt] }

def Tracked.released (r : Tracked) (w : Nat) : Tracked :=
  { r with heldBy := r.heldBy.filter (· ≠ w) }

def Tracked.reported (r : Tracked) (w : Nat) (res : RowResult) : Tracked :=
  { r.released w with
    attempts := res.attempts
    deliveredAt := res.deliveredAt
    nextAttemptAt := res.nextAttemptAt
    marked := r.marked || res.deliveredAt.isSome
    failed := res.deliveredAt.isNone }

def report (w : Nat) (r : Tracked) (res : RowResult) : Tracked :=
  if r.key = res.rowId then r.reported w res else r

def step (s : State) : Act → State
  | .tick d => { s with clock := s.clock + d }
  | .enqueue row =>
    if row.id ∈ s.rows.map Tracked.key then s
    else
      let fresh : OutboxEvent :=
        { id := row.id, eventType := row.eventType, payload := row.payload
          caseTypeId := row.caseTypeId, createdAt := row.createdAt }
      { s with rows := s.rows ++ [{ toOutboxEvent := fresh }] }
  | .subscribe subs => { s with subs := subs }
  | .begin w =>
    match s.phase w with
    | .idle => s.goto w (.begun s.clock)
    | .begun _ | .busy _ _ _ => s
  | .claim w locked =>
    match s.phase w with
    | .begun now =>
      let batch := chosen now locked s.rows
      if batch.isEmpty then s.goto w .idle
      else
        (s.write fun r => if r.key ∈ batch.map Tracked.key then r.taken w now else r).goto w
          (.busy now (batch.map Tracked.claimed) [])
    | .idle | .busy _ _ _ => s
  | .deliver w answer =>
    match s.phase w with
    | .busy now (c :: todo) results =>
      let attempt := (matching s.subs c.eventType c.caseTypeId).map fun sub => (sub, answer sub)
      (s.write fun r => if r.key = c.rowId then r.attempted attempt else r).goto w
        (.busy now todo (results ++ [deliverOne now c attempt]))
    | .idle | .begun _ | .busy _ [] _ => s
  | .writeBack w =>
    match s.phase w with
    | .busy _ [] results => (s.write fun r => results.foldl (report w) r).goto w .idle
    | .idle | .begun _ | .busy _ (_ :: _) _ => s
  | .crash w => (s.write fun r => r.released w).goto w .idle

end Outbox
