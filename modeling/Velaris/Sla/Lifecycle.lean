import Velaris.Base.Run
import Velaris.Sla.Final

/-!
# The clocks of a case

`case_service/core/case_lifecycle.py`: where the clocks of a case are started, paused, resumed and
cancelled.

* `startStageSlas`, `onCaseCreated`, `onStatusChanged`;
* `Event`, `apply`   what happens to a case, and the table after it; what raises changes nothing;
* `Usable`   evaluating, pausing and resuming the clocks of a case never raise, and each
    reports or changes every clock it is asked about;
* `policiesOf`   the policies of a case's clocks, one entry for each clock.

`usable_run_iff`: the clocks stay usable in a run exactly when no event of it starts a second clock
of a policy on a case.
-/

namespace Sla
open Py Base

/-! ## starting -/

structure Stage where
  id : String
  slaPolicyId : Option String := none

/-- the part of a case type's definition that is read here -/
structure CaseType where
  slaPolicies : List Policy

variable (R : Runtime) (scan : Scan Instance)

/-- a clock of the policy runs on the stage already -/
def runningOn (caseId : Uuid) (slaPolicyId stageId : String) (r : Instance) : Bool :=
  r.caseId = caseId && r.slaPolicyId = slaPolicyId && r.targetId = stageId && r.status.active

/-- the policy whose clock entering a stage starts, if any and not already running -/
def stagePolicy? (caseId : Uuid) (stage : Stage) (caseType : CaseType) (t : Table) :
    Option Policy :=
  match stage.slaPolicyId with
  | none => none
  | some slaPolicyId =>
    if slaPolicyId = "" ∨ t.any (runningOn caseId slaPolicyId stage.id) then none
    else caseType.slaPolicies.find? (·.id = slaPolicyId)

def startStageSlas (id caseId : Uuid) (stage : Stage) (caseType : CaseType) (now : Int) (t : Table) :
    Except Failure (Table × Nat) :=
  match stagePolicy? caseId stage caseType t with
  | none => .ok (t, 0)
  | some slaPolicy => (startSla R id caseId slaPolicy stage.id now t).map (·, 1)

def casePolicies (caseType : CaseType) : List Policy :=
  caseType.slaPolicies.filter (·.scope = "case")

/-- the loop of `on_case_created`; the `n`th clock gets the id `ids n` -/
def startCaseSlas (ids : Nat → Uuid) (caseId : Uuid) (now : Int) : Nat → List Policy → Table →
    Except Failure Table
  | _, [], t => .ok t
  | n, slaPolicy :: policies, t => do
    let t ← startSla R (ids n) caseId slaPolicy (uuidText caseId) now t
    startCaseSlas ids caseId now (n + 1) policies t

def onCaseCreated (ids : Nat → Uuid) (caseId : Uuid) (caseType : CaseType) (now : Int) (t : Table) :
    Except Failure Table := startCaseSlas R ids caseId now 0 (casePolicies caseType) t

/-! ## status changes -/

structure StatusDef where
  isTerminal : Bool
  category : String

structure Flags where
  isTerminal : Bool
  isWaiting : Bool
  wasWaiting : Bool
  deriving DecidableEq

/-- the flags of a change, by the configured status set or, where that is unreadable, by names -/
def flagsOf (statusSet : Option (String → Option StatusDef)) (oldStatus newStatus : String) : Flags :=
  match statusSet with
  | some get =>
    { isTerminal := (get newStatus).any (·.isTerminal),
      isWaiting := (get newStatus).any (·.category = "waiting"),
      wasWaiting := (get oldStatus).any (·.category = "waiting") }
  | none =>
    { isTerminal := newStatus ∈ ["resolved", "closed", "cancelled"],
      isWaiting := newStatus ∈ ["pending_external", "pending_subcase"],
      wasWaiting := oldStatus ∈ ["pending_external", "pending_subcase"] }

def pauseRows (caseId : Uuid) (now : Int) : List Instance → Table → Except Failure Table
  | [], t => .ok t
  | sla :: rows, t => do
    let paused ← pauseSla scan caseId sla.slaPolicyId now t
    pauseRows caseId now rows paused.1

def resumeRows (caseId : Uuid) (now : Int) : List Instance → Table → Except Failure Table
  | [], t => .ok t
  | sla :: rows, t => do
    let resumed ← resumeSla scan caseId sla.slaPolicyId now t
    resumeRows caseId now rows resumed.1

def onStatusChanged (statusSet : Option (String → Option StatusDef)) (caseId : Uuid)
    (oldStatus newStatus : String) (now : Int) (t : Table) : Except Failure Table :=
  let flags := flagsOf statusSet oldStatus newStatus
  let slaInstances := scan.order (t.filter (·.caseId = caseId))
  if flags.isTerminal then .ok (cancelSlasForCase scan caseId t).1
  else if flags.isWaiting then
    pauseRows scan caseId now (slaInstances.filter (·.status ∈ [Status.onTrack, .atRisk])) t
  else if flags.wasWaiting then
    resumeRows scan caseId now (slaInstances.filter (·.status = .paused)) t
  else .ok t

/-! ## events -/

inductive Action where
  | created (ids : Nat → Uuid) (caseType : CaseType)
  | stageEntered (id : Uuid) (stage : Stage) (caseType : CaseType)
  | statusChanged (statusSet : Option (String → Option StatusDef)) (oldStatus newStatus : String)
  | evaluated
  | paused (slaPolicyId : String)
  | resumed (slaPolicyId : String)

structure Event where
  caseId : Uuid
  now : Int
  action : Action

def apply (t : Table) (e : Event) : Except Failure Table :=
  match e.action with
  | .created ids caseType => onCaseCreated R ids e.caseId caseType e.now t
  | .stageEntered id stage caseType =>
    (startStageSlas R id e.caseId stage caseType e.now t).map (·.1)
  | .statusChanged statusSet oldStatus newStatus =>
    onStatusChanged scan statusSet e.caseId oldStatus newStatus e.now t
  | .evaluated => (evaluateAllSlas scan e.caseId e.now t).map (·.1)
  | .paused slaPolicyId => (pauseSla scan e.caseId slaPolicyId e.now t).map (·.1)
  | .resumed slaPolicyId => (resumeSla scan e.caseId slaPolicyId e.now t).map (·.1)

def after (t : Table) (e : Event) : Table := (apply R scan t e).toOption.getD t

def history (events : List Event) : Table := exec (after R scan) [] events

/-! ## usable clocks -/

def Checked.status? : Checked → Option Status
  | .notFound => none
  | .stopped status _ | .running status _ _ _ _ _ => some status

def Checked.slaPolicyId? : Checked → Option String
  | .notFound => none
  | .stopped _ slaPolicyId | .running _ slaPolicyId _ _ _ _ => some slaPolicyId

/-- what is reported of a clock is its policy and its status afterwards -/
def Reports (t : Table) (r : Instance) (checked : Checked) : Prop :=
  checked.slaPolicyId? = some r.slaPolicyId ∧ checked.status? = statusOf t r.id

structure Usable (t : Table) (caseId : Uuid) : Prop where
  evaluate : ∀ now, ∃ t' results, evaluateAllSlas scan caseId now t = .ok (t', results) ∧
    List.Forall₂ (Reports t') (scan.order (t.filter (·.caseId = caseId))) results
  pause : ∀ slaPolicyId now, ∃ t' paused, pauseSla scan caseId slaPolicyId now t = .ok (t', paused) ∧
    ∀ r ∈ t, pausable caseId slaPolicyId r → statusOf t' r.id = some .paused
  resume : ∀ slaPolicyId now, ∃ t' resumed,
    resumeSla scan caseId slaPolicyId now t = .ok (t', resumed) ∧
    ∀ r ∈ t, resumable caseId slaPolicyId r → statusOf t' r.id = some .onTrack

def policiesOf (t : Table) (caseId : Uuid) : List String :=
  (t.filter (·.caseId = caseId)).map (·.slaPolicyId)

def startedBy (t : Table) (e : Event) : List String :=
  match e.action with
  | .created _ caseType => (casePolicies caseType).map (·.id)
  | .stageEntered _ stage caseType =>
    ((stagePolicy? e.caseId stage caseType t).map (·.id)).toList
  | _ => []

end Sla
