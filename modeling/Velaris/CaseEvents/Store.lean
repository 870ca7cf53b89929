import Velaris.Py.Doc
import Mathlib.Data.List.Sort
import Mathlib.Logic.Function.Basic

/-!
# The event stream of a case

`case_service/core/event_store.py`: an append-only stream beside the row of a case, and the check
that the row is what the stream says.

* `append`, `record`   one more event; `record` is what the lifecycle calls, and does not raise;
* `stream`, `project`  the events of a case in order, and the state they imply;
* `verify`   the projection compared with the row, and the gaps of the sequence.
-/

namespace CaseEvents
open Py

/-! ## rows -/

/-- `KNOWN_EVENTS` -/
inductive EventType where
  | caseCreated | stageEntered | stepCompleted | assigned | statusChanged | slaBreached

structure CaseEvent where
  caseId : Uuid
  seq : Nat
  eventType : EventType
  data : Dict
  actorId : Option String := none
  actorType : String := "system"

structure CaseInstance where
  caseTypeId : Uuid
  status : String := "new"
  priority : String := "medium"
  currentStageId : Option String := none
  eventSourced : Bool := false
  createdBy : Option String := none
  tenantId : Option Uuid := none
  deriving DecidableEq

structure Db where
  /-- `case_instances`, by primary key -/
  cases : Uuid → Option CaseInstance
  /-- `case_events`, as they were written -/
  events : List CaseEvent

def Db.empty : Db := ⟨fun _ => none, []⟩

/-- `update_case_instance`: an update that names no row changes nothing -/
def Db.update (db : Db) (caseId : Uuid) (values : CaseInstance → CaseInstance) : Db :=
  { db with cases := Function.update db.cases caseId ((db.cases caseId).map values) }

/-! ## appending -/

def MAX_EVENT_BYTES : Nat := 16 * 1024

inductive EventStoreError where
  | payloadTooBig
  | sequenceTaken

variable (R : Runtime)

def tooBig (data : Dict) : Bool := dumpedBytes R (.dict data) > MAX_EVENT_BYTES

def isEventSourced (db : Db) (caseId : Uuid) : Bool := (db.cases caseId).any (·.eventSourced)

def eventsOf (db : Db) (caseId : Uuid) : List CaseEvent := db.events.filter (·.caseId = caseId)

/-- `max(seq)` of the case, 0 without events, and one more -/
def nextSeq (db : Db) (caseId : Uuid) : Nat :=
  ((eventsOf db caseId).map (·.seq)).foldl max 0 + 1

def append (db : Db) (caseId : Uuid) (eventType : EventType) (data : Dict)
    (actorId : Option String := none) (actorType : String := "system")
    (expectedSeq : Option Nat := none) : Except EventStoreError Db :=
  if tooBig R data then .error .payloadTooBig
  else
    let seq := expectedSeq.getD (nextSeq db caseId)
    -- UNIQUE (case_id, seq)
    if (eventsOf db caseId).any (·.seq = seq) then .error .sequenceTaken
    else .ok { db with events := db.events ++ [⟨caseId, seq, eventType, data, actorId, actorType⟩] }

def record (eventSourcingEnabled : Bool) (db : Db) (caseId : Uuid) (eventType : EventType)
    (data : Dict) (actorId : Option String := none) (actorType : String := "system") : Db :=
  if !eventSourcingEnabled then db
  else if !isEventSourced db caseId then db
  else
    match append R db caseId eventType data actorId actorType with
    | .ok db' => db'
    -- logged, not raised
    | .error _ => db

/-! ## reading -/

def stream (db : Db) (caseId : Uuid) (afterSeq : Nat := 0) (limit : Nat := 1000) :
    List CaseEvent :=
  (((eventsOf db caseId).filter (afterSeq < ·.seq)).insertionSort (·.seq ≤ ·.seq)).take limit

structure Projection where
  exists' : Bool := false
  status : Value := .none
  currentStageId : Value := .none
  assigneeIds : List Value := []
  stepsCompleted : List Value := []
  slaBreaches : Nat := 0
  events : Nat
  lastSeq : Nat := 0

/-- `data.get(key, default)` -/
def getOr (data : Dict) (key : String) (default : Value) : Value := (data.lookup key).getD default

/-- `value` at the end of the list, unless it is empty or there already -/
def noted (value : Value) (values : List Value) : List Value :=
  if value.truthy && !value.elem values then values ++ [value] else values

def projectEvent (state : Projection) (e : CaseEvent) : Projection :=
  let state := { state with lastSeq := e.seq }
  match e.eventType with
  | .caseCreated =>
    { state with exists' := true, status := getOr e.data "status" (.str "open") }
  | .stageEntered => { state with currentStageId := Dict.get e.data "stage_id" }
  | .stepCompleted =>
    { state with stepsCompleted := noted (Dict.get e.data "step_id") state.stepsCompleted }
  | .assigned => { state with assigneeIds := noted (Dict.get e.data "assignee_id") state.assigneeIds }
  | .statusChanged => { state with status := getOr e.data "to" state.status }
  | .slaBreached => { state with slaBreaches := state.slaBreaches + 1 }

def project (events : List CaseEvent) : Projection :=
  events.foldl projectEvent { events := events.length }

structure Mismatch where
  field : String
  projected : Value
  actual : Value
  deriving DecidableEq

structure Verification where
  events : Nat
  sequenceGaps : List Nat
  mismatches : List Mismatch
  projection : Projection

def Verification.consistent (v : Verification) : Bool :=
  v.mismatches.isEmpty && v.sequenceGaps.isEmpty

/-- the stage the row shows: an empty id is none -/
def actualStage (row : CaseInstance) : Value :=
  match row.currentStageId with
  | none => .none
  | some s => if s = "" then .none else .str s

def sequenceGaps (seqs : List Nat) : List Nat :=
  (List.range' 1 (seqs.getLast?.getD 0)).filter fun n => n ∉ seqs

def mismatches (projected : Projection) (row : CaseInstance) : List Mismatch :=
  (if projected.status ≠ .none ∧ !projected.status.eq (.str row.status) then
    [⟨"status", projected.status, .str row.status⟩] else []) ++
  (if !projected.currentStageId.eq (actualStage row) then
    [⟨"current_stage_id", projected.currentStageId, actualStage row⟩] else [])

/-- the events `verify` reads at most -/
def VERIFY_LIMIT : Nat := 100000

inductive Verified where
  /-- the case predates the cutover: `verifiable` is false -/
  | unverifiable
  | replayed (v : Verification)

/-- `none` where the case is not found -/
def verify (db : Db) (caseId : Uuid) : Option Verified :=
  match db.cases caseId with
  | none => none
  | some row =>
    if !row.eventSourced then some .unverifiable
    else
      let events := stream db caseId 0 VERIFY_LIMIT
      let projected := project events
      some (.replayed ⟨events.length, sequenceGaps (events.map (·.seq)), mismatches projected row,
        projected⟩)

end CaseEvents
