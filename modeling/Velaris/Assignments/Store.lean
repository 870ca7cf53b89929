import Velaris.Base.Table
import Velaris.Base.Latest
import Velaris.Py.Runtime
import Velaris.Py.Text

/-!
# Work items and the access that goes with them

`case_assignments`, the `assignee` tuples of their cases, and what writes either.

* `Db.writeTuple`, `Db.removeTuple`, `Db.syncAssigneeTuple`   the tuples;
* `Db.createAssignment`, `Db.updateAssignment`   the rows;
* `claimAssignment` … `deleteAssignment`   `api/routers/assignments.py`;
* `hAssign`, `hReassign`   `case_actions/dispatcher.py`;
* `reassignForSla`   `core/sla_escalation.py`;
* `onStepCompleted`, `closeStep`   `core/case_lifecycle.py`, `api/routers/cases.py`.
-/

namespace Assignments
open Py Base

/-! ## rows -/

structure Assignment where
  id : Uuid
  caseId : Uuid
  stepId : String
  assigneeType : String
  assigneeId : String
  status : String := "active"
  assignedAt : Int
  claimedAt : Option Int := none
  completedAt : Option Int := none

structure Db where
  assignments : List Assignment := []
  /-- the cases and users that a tuple `case#assignee@user` joins; a tuple is unique -/
  assignees : List (Uuid × String) := []

structure HttpError where
  statusCode : Nat
  detail : String

namespace Db
variable (db : Db)

/-- an `INSERT` that does nothing on a conflict -/
def writeTuple (caseId : Uuid) (userId : String) : Db :=
  { db with assignees := db.assignees.insert (caseId, userId) }

def removeTuple (caseId : Uuid) (userId : String) : Db :=
  { db with assignees := db.assignees.filter (· ≠ (caseId, userId)) }

/-- `remaining is not None` -/
def hasRemaining (caseId : Uuid) (userId : String) : Bool :=
  db.assignments.any fun a =>
    a.caseId = caseId && a.assigneeId = userId && a.assigneeType = "user" && a.status = "active"

def syncAssigneeTuple (caseId : Uuid) (userId : String) (add : Bool) : Db :=
  if userId = "" then db
  else if add then db.writeTuple caseId userId
  else if db.hasRemaining caseId userId then db
  else db.removeTuple caseId userId

def getAssignment (assignmentId : Uuid) : Option Assignment :=
  db.assignments.find? fun a => a.id = assignmentId

def updateAssignment (assignmentId : Uuid) (values : Assignment → Assignment) : Db :=
  { db with assignments := update Assignment.id db.assignments assignmentId values }

/-- the primary key is checked as the row is flushed -/
def createAssignment (a : Assignment) : Except HttpError Db :=
  if (db.getAssignment a.id).isSome then .error ⟨500, "Internal Server Error"⟩
  else
    let db := { db with assignments := db.assignments ++ [a] }
    .ok (if a.assigneeType = "user" && a.assigneeId ≠ "" then db.writeTuple a.caseId a.assigneeId
      else db)

end Db

/-! ## the assignment routes -/

variable (db : Db)

/-- `self_assign` of `api/routers/my_work.py`: the row is added, without a tuple -/
def selfAssign (id caseId : Uuid) (stepId userId : String) (now : Int) : Except HttpError Db :=
  if (db.getAssignment id).isSome then .error ⟨500, "Internal Server Error"⟩
  else
    .ok { db with
      assignments := db.assignments ++
        [{ id, caseId, stepId, assigneeType := "user", assigneeId := userId, assignedAt := now }] }

def getAssignmentOr404 (assignmentId : Uuid) : Except HttpError Assignment :=
  match db.getAssignment assignmentId with
  | none => .error ⟨404, "Assignment not found"⟩
  | some a => .ok a

def claimed (userId : String) (now : Int) (a : Assignment) : Assignment :=
  { a with assigneeId := userId, assigneeType := "user", claimedAt := some now }

def claimAssignment (assignmentId : Uuid) (userId : String) (now : Int) : Except HttpError Db := do
  let a ← getAssignmentOr404 db assignmentId
  if a.status ≠ "active" then .error ⟨409, "Assignment is not claimable"⟩
  else if a.claimedAt.isSome then .error ⟨409, "Assignment already claimed"⟩
  else
    .ok ((db.updateAssignment assignmentId (claimed userId now)).syncAssigneeTuple a.caseId userId
      true)

def released (a : Assignment) : Assignment := { a with assigneeType := "queue", claimedAt := none }

def releaseAssignment (assignmentId : Uuid) (userId : String) : Except HttpError Db := do
  let a ← getAssignmentOr404 db assignmentId
  if a.assigneeId ≠ userId then .error ⟨403, "Only the current assignee can release"⟩
  else
    .ok ((db.updateAssignment assignmentId released).syncAssigneeTuple a.caseId userId false)

def reassigned (newAssigneeId : String) (now : Int) (a : Assignment) : Assignment :=
  { a with assigneeId := newAssigneeId, assigneeType := "user", claimedAt := some now }

def reassignAssignment (assignmentId : Uuid) (newAssigneeId : String) (now : Int) :
    Except HttpError Db := do
  let a ← getAssignmentOr404 db assignmentId
  let prevAssignee := a.assigneeId
  let db := db.updateAssignment assignmentId (reassigned newAssigneeId now)
  -- the row in the session has the new values by the time its type is read
  let a := reassigned newAssigneeId now a
  let db := if a.assigneeType = "user" then db.syncAssigneeTuple a.caseId prevAssignee false else db
  .ok (db.syncAssigneeTuple a.caseId newAssigneeId true)

def completed (now : Int) (a : Assignment) : Assignment :=
  { a with status := "completed", completedAt := some now }

def completeAssignment (assignmentId : Uuid) (now : Int) : Except HttpError Db := do
  let a ← getAssignmentOr404 db assignmentId
  if a.status ≠ "active" then .error ⟨409, "Assignment is not active"⟩
  else
    let db := db.updateAssignment assignmentId (completed now)
    .ok (if a.assigneeType = "user" then db.syncAssigneeTuple a.caseId a.assigneeId false else db)

def deleteAssignment (assignmentId : Uuid) : Except HttpError Db := do
  let a ← getAssignmentOr404 db assignmentId
  let db := { db with assignments := db.assignments.filter fun a => a.id ≠ assignmentId }
  .ok (if a.assigneeType = "user" then db.syncAssigneeTuple a.caseId a.assigneeId false else db)

/-! ## the dispatcher -/

variable (R : Runtime)

/-- `_bounded`, of a parameter that is required -/
def bounded (params : Dict) (key : String) (limit : Nat) : Except HttpError String :=
  let value := String.ofList (strip (R.str ((Dict.get params key).or (.str ""))).toList)
  if value = "" then .error ⟨400, "'" ++ key ++ "' must not be empty."⟩
  else if value.length > limit then
    .error ⟨400, "'" ++ key ++ "' is " ++ toString value.length ++ " characters; the limit is " ++
      toString limit ++ "."⟩
  else .ok value

def assigneeTypes : List String := ["queue", "user"]

def boundedType (params : Dict) : Except HttpError String := do
  let assigneeType ← bounded R params "assignee_type" 20
  if assigneeType ∉ assigneeTypes then
    .error ⟨400, "'" ++ assigneeType ++ "' is not an assignee type. Known: queue, user."⟩
  else .ok assigneeType

def hAssign (id caseId : Uuid) (params : Dict) (now : Int) : Except HttpError Db := do
  let assigneeType ← boundedType R params
  let stepId ← bounded R params "step_id" 255
  let assigneeId ← bounded R params "assignee_id" 255
  db.createAssignment { id, caseId, stepId, assigneeType, assigneeId, assignedAt := now }

def Db.activeRows (caseId : Uuid) : List Assignment :=
  db.assignments.filter fun a => a.caseId = caseId && a.status = "active"

def movedAway (a : Assignment) : Assignment := { a with status := "reassigned" }

def replacement (newType newId : String) (freshId : Uuid) (now : Int) (row : Assignment) :
    Assignment :=
  { id := freshId, caseId := row.caseId, stepId := row.stepId, assigneeType := newType,
    assigneeId := newId, assignedAt := now }

def moveRow (newType newId : String) (freshId : Uuid) (now : Int) (row : Assignment) :
    Except HttpError Db :=
  if row.assigneeType = newType && row.assigneeId = newId then .ok db
  else do
    let db := db.updateAssignment row.id movedAway
    let db ← db.createAssignment (replacement newType newId freshId now row)
    .ok (if row.assigneeType = "user" then db.syncAssigneeTuple row.caseId row.assigneeId false
      else db)

/-- `_new_uuid` gives the row that replaces `row` the id `fresh row.id` -/
def hReassign (caseId : Uuid) (params : Dict) (fresh : Uuid → Uuid) (now : Int) :
    Except HttpError Db :=
  if db.activeRows caseId = [] then .ok db
  else do
    let newType ← boundedType R params
    let newId ← bounded R params "assignee_id" 255
    (db.activeRows caseId).foldlM (fun db row => moveRow db newType newId (fresh row.id) now row) db

/-! ## escalations -/

/-- what a target is resolved with outside the assignments -/
structure UserDirectory where
  getManager : String → Option String
  /-- `_cover_if_away` -/
  coverIfAway : String → String
  lower : String → String

/-- `get_current_assignee_for_case` -/
def currentAssignee (caseId : Uuid) : Option String :=
  (latest? (·.assignedAt) (db.activeRows caseId)).bind fun a =>
    if a.assigneeType = "user" then some a.assigneeId else none

/-- a type and an id, both empty where the target cannot be resolved -/
def resolveDynamicTarget (users : UserDirectory) (caseId : Uuid) (targetType : String)
    (targetId : Option String) : String × String :=
  let t := users.lower targetType
  let id := targetId.getD ""
  -- a user id that is empty is no user id
  let assignee := (currentAssignee db caseId).filter (· ≠ "")
  if t = "current_assignee" then
    (assignee.map fun user => ("user", users.coverIfAway user)).getD ("", "")
  else if t = "manager_of_current_assignee" then
    (((assignee.bind users.getManager).filter (· ≠ "")).map
      fun manager => ("user", users.coverIfAway manager)).getD ("", "")
  else if t = "user" && id ≠ "" then ("user", users.coverIfAway id)
  else if t = "access_group" then
    if id ≠ "" then ("queue", "access_group:" ++ id) else ("", "")
  else if t = "role" then if id ≠ "" then ("queue", "role:" ++ id) else ("", "")
  else (if t = "" then "queue" else t, id)

/-- `execute_action`, of an action of the type `reassign` -/
def reassignForSla (users : UserDirectory) (caseId : Uuid) (targetType : String)
    (targetId : Option String) : Db :=
  let target := resolveDynamicTarget db users caseId targetType targetId
  if target.2 = "" then db
  else
    { db with
      assignments := db.assignments.map fun a =>
        if a.caseId = caseId && a.status = "active" then
          { a with assigneeId := target.2, assigneeType := target.1, claimedAt := none }
        else a }

/-! ## completed steps -/

def Db.activeOnStep (caseId : Uuid) (stepId : String) : List Assignment :=
  db.assignments.filter fun a => a.caseId = caseId && a.stepId = stepId && a.status = "active"

/-- `on_step_completed` of the lifecycle, which raises where several rows are active on the step -/
def onStepCompleted (caseId : Uuid) (stepId : String) (now : Int) : Except HttpError Db :=
  match db.activeOnStep caseId stepId with
  | [] => .ok db
  | [a] => .ok (db.updateAssignment a.id (completed now))
  | _ => .error ⟨500, "Internal Server Error"⟩

/-- what `complete_step` does to the assignments of a case that is found, writable and not locked by
another operator -/
def closeStep (caseId : Uuid) (stepId : String) (now : Int) : Db :=
  match latest? (·.assignedAt) (db.activeOnStep caseId stepId) with
  | none => db
  | some a => db.updateAssignment a.id (completed now)

def orUnchanged (db : Db) (result : Except HttpError Db) : Db := result.toOption.getD db

end Assignments
