import Velaris.Field.Service

/-!
# Field nodes, the device's side

`velaris_shared/field_node/node.py`: what a node holds while it is away, and what it refuses.  A
call returns the node it leaves, which after a refusal is the old one, up to the latest time seen.

* `FieldNode`   the meta table, the cases and the events of the node's database;
* `loadBundle`, `record`   taking a bundle, and the one way work enters the node;
* `syncBody`, `synced`, `wipe`   going home.

Moments are microseconds.
-/

namespace Field
open Py Handoff

def CLOCK_TOLERANCE : Int := seconds 300

inductive Refusal where
  | clockWentBack
  | noBundle
  | stale
  | notAKind
  | caseNotHere
  | noFieldName
  | otherNode (slug : String)
  | unsyncedEvents (n : Nat)
  | notVerified
  | uncaught

structure FieldNode where
  slug : String
  clockHighWater : Option Int := none
  dispatchId : Option String := none
  subchainGenesis : Option String := none
  head : Option String := none
  staleAfter : Option String := none
  offlineDeny : List String := []
  ceiling : Option Ceiling := none
  lastSyncedHead : Option String := none
  cases : List CaseView := []
  events : List Event := []

namespace FieldNode

variable (R : Setup)

def unsynced (n : FieldNode) : Nat := n.events.length

/-- `_now`: the time, refused where it is earlier than the node has already seen -/
def now (clock : Int) (n : FieldNode) : Option FieldNode :=
  match n.clockHighWater with
  | some seen =>
    if clock < seen - CLOCK_TOLERANCE then none
    else if seen < clock then some { n with clockHighWater := some clock }
    else some n
  | none => some { n with clockHighWater := some clock }

/-- what `_require_fresh` raises once the time is taken -/
def freshProblem (clock : Int) (n : FieldNode) : Option Refusal :=
  if n.dispatchId.isNone then some .noBundle
  else
    match R.fromisoformat (n.staleAfter.getD "") with
    | none => some .uncaught
    | some after => if after < clock then some .stale else none

/-! ## the bundle -/

def loadBundle (clock : Int) (bundle : Bundle) (n : FieldNode) :
    FieldNode × Except Refusal Unit :=
  match n.now clock with
  | none => (n, .error .clockWentBack)
  | some n =>
    if bundle.slug ≠ n.slug then (n, .error (.otherNode bundle.slug))
    else if n.unsynced ≠ 0 then (n, .error (.unsyncedEvents n.unsynced))
    else if (R.fromisoformat bundle.staleAfter).isNone then (n, .error .uncaught)
    else if ¬ (bundle.cases.map CaseView.caseId).Nodup then (n, .error .uncaught)
    else
      ({ n with
          cases := bundle.cases
          dispatchId := some bundle.dispatchId
          subchainGenesis := some bundle.subchainGenesis
          head := some bundle.subchainGenesis
          staleAfter := some bundle.staleAfter
          offlineDeny := bundle.offlineDeny.insertionSort (· ≤ ·)
          ceiling := some bundle.ceiling }, .ok ())

/-! ## recording -/

/-- what a worker did, as `record` is called with it -/
structure Work where
  caseId : String
  kind : String
  target : Option String := none
  payload : Dict := []

def eventOf (clock : Int) (n : FieldNode) (work : Work) : Option Event :=
  let event : Event :=
    [("seq", .int (n.unsynced + 1)), ("case_id", .str work.caseId), ("kind", .str work.kind),
      ("target", (work.target.map .str).getD .none), ("payload", .dict work.payload),
      ("payload_sha256", .str (Subchain.payloadHash R.toRuntime (.dict work.payload))),
      ("node_time", .str (R.isoformat clock))]
  let prev := n.head.getD ""
  (Subchain.eventDocument R.toRuntime event).map fun document =>
    event ++ [("prev_hash", .str prev),
      ("content_hash", .str (Subchain.link R.toRuntime document prev))]

def workProblem (n : FieldNode) (work : Work) : Option Refusal :=
  if work.kind ∉ EVENT_KINDS then some .notAKind
  else if work.caseId ∉ n.cases.map CaseView.caseId then some .caseNotHere
  else if work.kind = "variable_set" ∧ work.target.getD "" = "" then some .noFieldName
  else none

def record (clock : Int) (work : Work) (n : FieldNode) : FieldNode × Except Refusal Event :=
  match n.now clock with
  | none => (n, .error .clockWentBack)
  | some n =>
    match (n.freshProblem R clock).or (n.workProblem work) with
    | some problem => (n, .error problem)
    | none =>
      match n.eventOf R clock work with
      | none => (n, .error .uncaught)
      | some event =>
        ({ n with
            events := n.events ++ [event]
            head := some (R.str (event.get "content_hash")) }, .ok event)

/-! ## going home -/

structure SyncBody where
  dispatchId : String
  events : List Event
  signature : String

/-- the signature is by the node's key over the head of its chain -/
def syncBody (sign : String → String) (clock : Int) (n : FieldNode) :
    FieldNode × Except Refusal SyncBody :=
  match n.now clock with
  | none => (n, .error .clockWentBack)
  | some n =>
    match n.dispatchId with
    | none => (n, .error .noBundle)
    | some dispatchId => (n, .ok ⟨dispatchId, n.events, sign (n.head.getD "")⟩)

/-- the hub accepted the stream: the dispatch and everything in it are dropped -/
def synced (result : SyncReport) (n : FieldNode) : FieldNode × Except Refusal Unit :=
  if !result.verified then (n, .error .notVerified)
  else
    ({ n with
        events := []
        cases := []
        dispatchId := none
        subchainGenesis := none
        head := none
        staleAfter := none
        offlineDeny := []
        ceiling := none
        lastSyncedHead := some result.head }, .ok ())

/-- the cases, the events and the meta table are destroyed -/
def wipe (_ : FieldNode) : FieldNode := { slug := "" }

end FieldNode
end Field
