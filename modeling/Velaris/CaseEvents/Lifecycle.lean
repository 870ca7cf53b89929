import Velaris.CaseEvents.Store

/-!
# What writes the row of a case

`case_service/core/case_lifecycle.py`, `core/relationship_manager.py`, `core/sla_escalation.py`, and
`apply_status_change` and `apply_on_enter_status`, which lead to them.

* `onCaseCreated`, `onStageEntered`, `applyStatusChange`, `onStatusChanged`;
* `propagateStatusChange`   what the end of a case does to its parents;
* `executeAction`, `applyLevel`   the actions of an escalation level;
* `Op`, `perform`, `step`   the operations; one that raises is rolled back.
-/

namespace CaseEvents
open Py

/-! ## the configured statuses -/

structure Status where
  isTerminal : Bool
  enabled : Bool
  allowedFrom : List String

/-- nothing in `allowed_from` means from anywhere -/
def Status.reachableFrom (s : Status) (current : String) : Bool :=
  s.allowedFrom.isEmpty || current ∈ s.allowedFrom

inductive StatusError where
  | unknown | disabled | transition

structure Relationship where
  sourceCaseId : Uuid
  targetCaseId : Uuid
  relationshipType : String
  propagateStatus : Bool
  required : Bool
  deriving DecidableEq

/-- what an operation reads beside the cases and their events -/
structure Context where
  eventSourcingEnabled : Bool
  /-- `resolve_set` of a tenant and a case type -/
  resolveSet : Option Uuid → Option Uuid → String → Option Status
  relationships : List Relationship
  /-- the text a string column stores for a value that is no string, unless the driver refuses it -/
  bind : Value → Option String
  /-- `resolve_dynamic_target`: `("", "")` where it fails -/
  resolveDynamicTarget : Uuid → Value → Value → String × String

variable (R : Runtime) (ctx : Context)

def Context.isTerminal (status : String) (tenantId caseTypeId : Option Uuid) : Bool :=
  status ≠ "" && (ctx.resolveSet tenantId caseTypeId status).any (·.isTerminal)

def Context.isTerminalForCase (row : CaseInstance) : Bool :=
  ctx.isTerminal row.status row.tenantId (some row.caseTypeId)

def Context.validateTransition (current target : String) (tenantId caseTypeId : Option Uuid) :
    Except StatusError Status :=
  match ctx.resolveSet tenantId caseTypeId target with
  | none => .error .unknown
  | some found =>
    if !found.enabled then .error .disabled
    else if !found.reachableFrom current then .error .transition
    else .ok found

def Context.text : Value → Option String
  | .str s => some s
  | v => ctx.bind v

/-! ## parents -/

def childTypes : List String := ["child", "blocking"]

def allRequiredTargetsResolved (cases : Uuid → Option CaseInstance) (parentId : Uuid) : Bool :=
  let rels := ctx.relationships.filter fun rel =>
    rel.sourceCaseId = parentId && rel.required && rel.relationshipType ∈ childTypes
  rels.all fun rel => (cases rel.targetCaseId).all ctx.isTerminalForCase

/-- the loop's body: a parent that waits, and waits for nothing more, is opened -/
def unblock (acc : (Uuid → Option CaseInstance) × List Uuid) (rel : Relationship) :
    (Uuid → Option CaseInstance) × List Uuid :=
  if rel.relationshipType ∈ childTypes ∧ allRequiredTargetsResolved ctx acc.1 rel.sourceCaseId then
    match acc.1 rel.sourceCaseId with
    | none => acc
    | some parent =>
      if parent.status = "pending_subcase" then
        (Function.update acc.1 rel.sourceCaseId (some { parent with status := "open" }),
          acc.2 ++ [rel.sourceCaseId])
      else acc
  else acc

/-- the cases afterwards, and the parents that were opened -/
def propagateStatusChange (cases : Uuid → Option CaseInstance) (caseId : Uuid)
    (newStatus : String) : (Uuid → Option CaseInstance) × List Uuid :=
  let child := cases caseId
  if !ctx.isTerminal newStatus (child.bind (·.tenantId)) (child.map (·.caseTypeId)) then (cases, [])
  else
    let rels := ctx.relationships.filter fun rel =>
      rel.targetCaseId = caseId && rel.propagateStatus
    rels.foldl (unblock ctx) (cases, [])

/-! ## the chokepoints -/

def createdData (caseTypeId : Uuid) (status : String) (tenantId : Option Uuid) : Dict :=
  [("case_type_id", .str (uuidText caseTypeId)), ("status", .str status),
    ("tenant_id", tenantId.elim .none fun t => .str (uuidText t))]

def onCaseCreated (db : Db) (caseId caseTypeId : Uuid) (tenantId : Option Uuid) : Db :=
  if !ctx.eventSourcingEnabled then db
  else
    match db.cases caseId with
    | none => db
    | some row =>
      if row.eventSourced then db
      else
        record R ctx.eventSourcingEnabled
          (db.update caseId fun row => { row with eventSourced := true }) caseId .caseCreated
          (createdData caseTypeId row.status tenantId) row.createdBy
          (if row.createdBy.any (· ≠ "") then "user" else "system")

def statusData (oldStatus newStatus : String) : Dict :=
  [("from", .str oldStatus), ("to", .str newStatus)]

def onStatusChanged (db : Db) (caseId : Uuid) (oldStatus newStatus : String) : Db :=
  let db := record R ctx.eventSourcingEnabled db caseId .statusChanged
    (statusData oldStatus newStatus)
  { db with cases := (propagateStatusChange ctx db.cases caseId newStatus).1 }

/-- a case that is not there is a 404 before anything is written -/
def applyStatusChange (db : Db) (caseId : Uuid) (newStatus : String) : Db :=
  match db.cases caseId with
  | none => db
  | some row =>
    onStatusChanged R ctx (db.update caseId fun row => { row with status := newStatus }) caseId
      row.status newStatus

def onEnterStatus (stage : Dict) : Option String :=
  match Dict.get stage "on_enter_status" with
  | .none => none
  | raw =>
    let name := String.ofList (strip (R.str raw).toList)
    if name = "" then none else some name

def enterStatus? (db : Db) (caseId : Uuid) (stage : Dict) : Option String := do
  let target ← onEnterStatus R stage
  let row ← db.cases caseId
  if row.status = target then none
  else
    match ctx.validateTransition row.status target none (some row.caseTypeId) with
    | .error _ => none
    | .ok _ => some target

def applyOnEnterStatus (db : Db) (caseId : Uuid) (stage : Dict) : Db :=
  match enterStatus? R ctx db caseId stage with
  | none => db
  | some target => applyStatusChange R ctx db caseId target

inductive Failure where
  /-- `stage["id"]` of a stage without one -/
  | keyError
  /-- the driver refuses a value of the wrong type, and the transaction with it -/
  | refused

def stageData (stage : Dict) (stageId : Value) : Dict :=
  [("stage_id", stageId), ("stage_name", getOr stage "name" (.str ""))]

/-- what the stage column stores: `None` is NULL -/
def Context.stageColumn : Value → Except Failure (Option String)
  | .none => .ok none
  | v => (ctx.text v).elim (.error .refused) fun s => .ok (some s)

def enterStage (db : Db) (caseId : Uuid) (stage : Dict) (stageId : Value)
    (column : Option String) : Db :=
  record R ctx.eventSourcingEnabled
    (db.update caseId fun row => { row with currentStageId := column }) caseId .stageEntered
    (stageData stage stageId)

def onStageEntered (db : Db) (caseId : Uuid) (stage : Dict) : Except Failure Db := do
  let stageId ← (stage.lookup "id").elim (.error .keyError) .ok
  let column ← ctx.stageColumn stageId
  return applyOnEnterStatus R ctx (enterStage R ctx db caseId stage stageId column) caseId stage

/-! ## escalation -/

structure ActionResult where
  action : Value
  ok : Bool

/-- `case.<column> = value` and a flush -/
def setColumn (db : Db) (caseId : Uuid) (value : Value)
    (set : String → CaseInstance → CaseInstance) : Except Failure Db :=
  match db.cases caseId with
  | none => .ok db
  | some _ => (ctx.text value).elim (.error .refused) fun s => .ok (db.update caseId (set s))

def executeAction (db : Db) (caseId : Uuid) (action : Dict) : Except Failure (Db × ActionResult) :=
  let atype := Dict.get action "type"
  if atype = .str "notify" then
    let target := ctx.resolveDynamicTarget caseId
      (getOr action "target_type" (.str "current_assignee")) (Dict.get action "target_id")
    .ok (db, ⟨atype, target.2 ≠ ""⟩)
  else if atype = .str "reassign" then
    -- the assignments it moves are no columns of the case
    let target := ctx.resolveDynamicTarget caseId
      (getOr action "target_type" (.str "queue")) (Dict.get action "target_id")
    .ok (db, ⟨atype, target.2 ≠ ""⟩)
  else if atype = .str "priority" then
    (setColumn ctx db caseId (getOr action "set" (.str "high"))
      fun s row => { row with priority := s }).map (·, ⟨atype, true⟩)
  else if atype = .str "status" then
    let newStatus := Dict.get action "set"
    if newStatus.truthy then
      (setColumn ctx db caseId newStatus fun s row => { row with status := s }).map
        (·, ⟨atype, true⟩)
    else .ok (db, ⟨atype, true⟩)
  else .ok (db, ⟨atype, false⟩)

def applyLevel (db : Db) (caseId : Uuid) : List Dict → Except Failure (Db × List ActionResult)
  | [] => .ok (db, [])
  | action :: actions => do
    let (db, result) ← executeAction ctx db caseId action
    let (db, results) ← applyLevel db caseId actions
    return (db, result :: results)

/-! ## runs -/

inductive Op where
  /-- a row is inserted, and `on_case_created` runs on it -/
  | create (caseId caseTypeId : Uuid) (priority : String) (createdBy : Option String)
      (tenantId : Option Uuid)
  | enterStage (caseId : Uuid) (stage : Dict)
  /-- the row's new status is written, and `on_status_changed` runs -/
  | changeStatus (caseId : Uuid) (newStatus : String)
  | escalate (caseId : Uuid) (actions : List Dict)

inductive Refused where
  | duplicateKey
  | failed (f : Failure)

def perform (db : Db) : Op → Except Refused Db
  | .create caseId caseTypeId priority createdBy tenantId =>
    if (db.cases caseId).isSome then .error .duplicateKey
    else
      let row : CaseInstance :=
        { caseTypeId := caseTypeId, priority := priority, createdBy := createdBy,
          tenantId := tenantId }
      .ok (onCaseCreated R ctx { db with cases := Function.update db.cases caseId (some row) }
        caseId caseTypeId tenantId)
  | .enterStage caseId stage => (onStageEntered R ctx db caseId stage).mapError .failed
  | .changeStatus caseId newStatus => .ok (applyStatusChange R ctx db caseId newStatus)
  | .escalate caseId actions =>
    ((applyLevel ctx db caseId actions).map (·.1)).mapError .failed

def step (db : Db) (act : Context × Op) : Db := (perform R act.1 db act.2).toOption.getD db

end CaseEvents
