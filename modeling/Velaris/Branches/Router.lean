import Velaris.Base.Run
import Velaris.Base.Traverse
import Velaris.Py.Runtime
import Velaris.Py.Text
import Mathlib.Data.List.Dedup
import Mathlib.Data.List.Sort
import Mathlib.Data.String.Basic

/-!
# Branches of an artifact

`case_service/api/routers/branches.py`: a branch is cut from main, edited, reviewed and merged.

* `Artifact`, `Branch`, `Db`   main, the branches, and a record of what was merged;
* `getLocalArtifact`, `applyArtifactToMain`   main read and written;
* `computeDiff`, `detectConflict`   a branch against its base and main;
* `createBranch` … `mergeBranch`   the handlers;
* `Op`, `perform`, `step`   one request; a refused one writes nothing.
-/

namespace Branches
open Py

/-! ## main -/

/-- what `artifact_type` can name -/
inductive Kind where
  | caseType
  | form
  | rule
  | connector
  | escalation
  deriving DecidableEq

def Kind.ofText : String → Option Kind
  | "case_type" => some caseType
  | "form" => some form
  | "rule" => some rule
  | "integration" => some connector
  | "connector" => some connector
  | "escalation" => some escalation
  | _ => none

def VALID_ARTIFACT_TYPES : List String := ["case_type", "form", "integration", "rule", "escalation"]

def Kind.columns : Kind → List String
  | caseType => ["name", "version", "definition_json", "default_priority", "description"]
  | form => ["name", "version", "definition_json"]
  | rule => ["name", "version", "rule_type", "definition_json", "enabled"]
  | connector => ["name", "connector_type", "description", "config", "enabled"]
  | escalation => ["name", "description", "scope", "tree_json", "is_active"]

def Kind.label : Kind → String
  | caseType => "Case type"
  | form => "Form"
  | rule => "Rule"
  | connector => "Connector"
  | escalation => "Escalation tree"

structure Artifact where
  kind : Kind
  id : Uuid
  columns : Dict
  deriving DecidableEq

def Artifact.snapshot (a : Artifact) : Dict :=
  ("id", .str (uuidText a.id)) :: a.kind.columns.map fun c => (c, a.columns.get c)

def Kind.merged (kind : Kind) (content : Dict) : List String :=
  match kind with
  | caseType =>
    (if content.has "definition_json" then ["definition_json"] else []) ++
      if content.has "description" ∧ (content.get "description").truthy then ["description"] else []
  | form => ["definition_json"].filter content.has
  | rule => ["definition_json", "enabled"].filter content.has
  | connector => ["config", "name", "enabled"].filter content.has
  | escalation => ["tree_json", "is_active"].filter content.has

/-! ## branches -/

inductive Status where
  | open
  | pendingReview
  | approved
  | merged
  | rejected
  | closed
  deriving DecidableEq

/-- `VALID_STATUSES` -/
def Status.ofText : String → Option Status
  | "open" => some .open
  | "pending_review" => some .pendingReview
  | "approved" => some .approved
  | "merged" => some .merged
  | "rejected" => some .rejected
  | "closed" => some .closed
  | _ => none

def Status.text : Status → String
  | .open => "open"
  | .pendingReview => "pending_review"
  | .approved => "approved"
  | .merged => "merged"
  | .rejected => "rejected"
  | .closed => "closed"

structure Change where
  field : String
  base : Value
  branch : Value

structure Diff where
  changedFields : List Change
  addedKeys : List String
  removedKeys : List String

structure Branch where
  id : Uuid
  name : String
  description : Option String := none
  branchType : String := "artifact"
  artifactType : Option String := none
  artifactId : Option String := none
  status : Status := .open
  contentSnapshot : Value := .dict []
  baseSnapshot : Dict := []
  mergeDiff : Option Diff := none
  ownerId : Option String := none
  assignedReviewerId : Option String := none
  reviewedBy : Option String := none
  mergedBy : Option String := none

inductive Via where
  | review
  | override
  deriving DecidableEq

/-- a content written into main: the branch as it was, who wrote it and how, and main before and
after -/
structure Applied where
  branch : Branch
  actor : String
  via : Via
  kind : Kind
  content : Dict
  before : Dict
  after : Dict

/-- the tables; `applied` only records what the handlers write into main -/
structure Db where
  branches : List Branch := []
  main : List Artifact := []
  applied : List Applied := []

structure User where
  userId : String
  /-- `design.branches.write` -/
  mayWrite : Bool := true
  /-- `design.branches.override` -/
  mayOverride : Bool := false

structure Platform where
  /-- `json.dumps(d, sort_keys=True, default=str)` -/
  dumps : Value → String
  /-- `hashlib.sha256(text.encode()).hexdigest()` -/
  sha256 : String → String
  /-- the database takes the value for the column -/
  storable : Kind → String → Value → Bool

structure Refused where
  status : Nat
  code : Option String := none
  message : String

/-! ## helpers -/

/-- `if text:` -/
def present (text : Option String) : Bool := text.getD "" ≠ ""

def Db.branchOr404 (db : Db) (branchId : Uuid) : Except Refused Branch :=
  match db.branches.find? fun b => b.id = branchId with
  | some b => .ok b
  | none => .error ⟨404, some "VEL-BRANCH-NOTFOUND-404", "Branch not found"⟩

def Db.artifact? (db : Db) (kind : Kind) (id : Uuid) : Option Artifact :=
  db.main.find? fun a => a.kind = kind && a.id = id

/-- `uuid.UUID(artifact_id)` -/
def parsed (artifactId : String) : Except Refused Uuid :=
  match uuid artifactId with
  | some id => .ok id
  | none => .error ⟨500, none, "badly formed hexadecimal UUID string"⟩

def Db.getLocalArtifact (db : Db) (artifactType artifactId : String) : Except Refused Dict :=
  match Kind.ofText artifactType with
  | none => .ok []
  | some kind =>
    (parsed artifactId).map fun id => ((db.artifact? kind id).map Artifact.snapshot).getD []

/-- the snapshot of main for a branch, `{}` where it has no artifact -/
def Db.currentMain (db : Db) (artifactType artifactId : Option String) : Except Refused Dict :=
  if present artifactType ∧ present artifactId then
    db.getLocalArtifact (artifactType.getD "") (artifactId.getD "")
  else .ok []

variable (P : Platform)

def Artifact.merge (a : Artifact) (content : Dict) : Artifact :=
  { a with
    columns := (a.kind.merged content).foldl (fun cols c => cols.set c (content.get c)) a.columns }

/-- `_apply_artifact_to_main`; the artifact before and after -/
def Db.applyArtifactToMain (db : Db) (artifactType artifactId : String) (content : Dict) :
    Except Refused (Artifact × Artifact) :=
  match Kind.ofText artifactType with
  | none =>
    .error ⟨400, some "VEL-BRANCH-UNSUPPORTED-400",
      "Merge not yet supported for artifact_type='" ++ artifactType ++ "'."⟩
  | some kind =>
    (parsed artifactId).bind fun id =>
    match db.artifact? kind id with
    | none =>
      .error ⟨404, some "VEL-BRANCH-ARTIFACT-404",
        kind.label ++ " " ++ artifactId ++ " not found in dev — cannot merge."⟩
    | some a =>
      if (kind.merged content).all fun c => P.storable kind c (content.get c) then
        .ok (a, a.merge content)
      else .error ⟨500, none, "the database refuses a value"⟩

def computeDiff (base current : Dict) : Diff where
  changedFields :=
    ((base.map Prod.fst ++ current.map Prod.fst).dedup.insertionSort (· ≤ ·)).filterMap fun key =>
      if (base.get key).eq (current.get key) then none
      else some ⟨key, base.get key, current.get key⟩
  addedKeys := (current.map Prod.fst).filter fun k => !base.has k
  removedKeys := (base.map Prod.fst).filter fun k => !current.has k

/-- `_detect_conflict`: main has changed since the branch was created -/
def detectConflict (baseSnapshot currentMain : Dict) : Bool :=
  P.sha256 (P.dumps (.dict baseSnapshot)) ≠ P.sha256 (P.dumps (.dict currentMain))

def Db.storeBranch (db : Db) (b : Branch) : Db :=
  { db with branches := db.branches.map fun x => if x.id = b.id then b else x }

def Db.storeArtifact (db : Db) (a : Artifact) : Db :=
  { db with main := db.main.map fun x => if x.kind = a.kind ∧ x.id = a.id then a else x }

def guardWrite (user : User) : Except Refused Unit :=
  if user.mayWrite then .ok () else .error ⟨403, none, "design.branches.write is required"⟩

def refuseIf (bad : Bool) (r : Refused) : Except Refused Unit :=
  if bad then .error r else .ok ()

def notOwner (user : User) (b : Branch) : Bool :=
  !user.mayOverride && present b.ownerId && b.ownerId ≠ some user.userId

def stateRefused (message : String) : Refused := ⟨400, some "VEL-BRANCH-STATE-400", message⟩

def actorRefused (message : String) : Refused := ⟨403, some "VEL-BRANCH-ACTOR-403", message⟩

/-! ## making and editing branches -/

structure CreateBranchRequest where
  name : String
  description : Option String := none
  branchType : String := "artifact"
  artifactType : Option String := none
  artifactId : Option String := none

def checkArtifact (artifactType artifactId : Option String) (missing : String) :
    Except Refused Unit :=
  (refuseIf (!present artifactType || artifactType.getD "" ∉ VALID_ARTIFACT_TYPES)
    ⟨400, none, "artifact_type must be one of the valid artifact types"⟩).bind fun _ =>
  refuseIf (!present artifactId) ⟨400, none, missing⟩

def checkName (name : String) : Except Refused Unit :=
  refuseIf (name = "" || 200 < name.length) ⟨422, none, "name"⟩

/-- the insertion of a new row under its drawn id -/
def Db.addBranch (db : Db) (b : Branch) : Except Refused Db :=
  (refuseIf (db.branches.any fun x => x.id = b.id) ⟨500, none, "duplicate key"⟩).map fun _ =>
  { db with branches := b :: db.branches }

def createBranch (db : Db) (user : User) (id : Uuid) (body : CreateBranchRequest) :
    Except Refused Db :=
  (guardWrite user).bind fun _ =>
  (checkName body.name).bind fun _ =>
  (if body.branchType = "artifact" then
    checkArtifact body.artifactType body.artifactId
      "artifact_id is required for artifact-level branches"
  else .ok ()).bind fun _ =>
  (db.currentMain body.artifactType body.artifactId).bind fun localContent =>
  db.addBranch
    { id := id
      name := body.name
      description := body.description
      branchType := body.branchType
      artifactType := body.artifactType
      artifactId := body.artifactId
      contentSnapshot := .dict localContent
      baseSnapshot := localContent
      ownerId := some user.userId }

/-- `pull_branch_from_env`; `fetched` is the artifact as the remote environment gives it -/
def pullBranchFromEnv (db : Db) (user : User) (id : Uuid) (body : CreateBranchRequest)
    (fetched : Value) : Except Refused Db :=
  (guardWrite user).bind fun _ =>
  (checkName body.name).bind fun _ =>
  (if body.branchType = "app" then .ok ()
  else if body.branchType = "artifact" then
    checkArtifact body.artifactType body.artifactId
      "artifact_id is required when pulling an artifact-level branch"
  else .error ⟨400, none, "branch_type must be 'app' or 'artifact'"⟩).bind fun _ =>
  (db.currentMain body.artifactType body.artifactId).bind fun baseSnapshot =>
  db.addBranch
    { id := id
      name := body.name
      description := body.description
      branchType := body.branchType
      artifactType := body.artifactType
      artifactId := body.artifactId
      contentSnapshot := fetched
      baseSnapshot := baseSnapshot
      ownerId := some user.userId }

def askedStatus (b : Branch) (status : Option String) : Except Refused Status :=
  match status with
  | none => .ok b.status
  | some text =>
    match Status.ofText text with
    | some status => .ok status
    | none => .error ⟨400, none, "Invalid status. Must be one of the valid statuses"⟩

def updateBranch (db : Db) (user : User) (branchId : Uuid)
    (name description status : Option String) : Except Refused Db :=
  (guardWrite user).bind fun _ =>
  (db.branchOr404 branchId).bind fun b =>
  (refuseIf (b.status = .merged || b.status = .closed)
    (stateRefused ("Cannot edit a branch with status '" ++ b.status.text ++ "'."))).bind fun _ =>
  (askedStatus b status).map fun status =>
  db.storeBranch
    { b with
      name := name.getD b.name
      description := description.or b.description
      status := status }

def updateBranchContent (db : Db) (user : User) (branchId : Uuid) (content : Dict) :
    Except Refused Db :=
  (db.branchOr404 branchId).bind fun b =>
  (refuseIf (notOwner user b)
    (actorRefused "Only the branch owner may edit its content.")).bind fun _ =>
  (refuseIf (b.status = .pendingReview)
    ⟨423, some "VEL-BRANCH-LOCKED-423",
      "Branch is locked for review. Recall the branch first to make changes."⟩).bind fun _ =>
  (refuseIf (b.status = .merged || b.status = .closed || b.status = .approved)
    (stateRefused ("Cannot edit a branch with status '" ++ b.status.text ++ "'."))).map fun _ =>
  db.storeBranch { b with contentSnapshot := .dict content }

def deleteBranch (db : Db) (user : User) (branchId : Uuid) : Except Refused Db :=
  (guardWrite user).bind fun _ =>
  (db.branchOr404 branchId).map fun b =>
  { db with branches := db.branches.filter fun x => x.id ≠ b.id }

/-! ## review -/

def submitForReview (db : Db) (user : User) (branchId : Uuid) (assignedReviewerId : String) :
    Except Refused Db :=
  (refuseIf (assignedReviewerId = "") ⟨422, none, "assigned_reviewer_id"⟩).bind fun _ =>
  (db.branchOr404 branchId).bind fun b =>
  (refuseIf (b.status ≠ .open)
    (stateRefused ("Branch must be 'open' to submit for review (current: '" ++ b.status.text ++
      "')."))).bind fun _ =>
  (refuseIf (notOwner user b)
    (actorRefused "Only the branch owner may submit it for review.")).bind fun _ =>
  (refuseIf (assignedReviewerId = if present b.ownerId then b.ownerId.getD "" else user.userId)
    ⟨400, some "VEL-BRANCH-SOD-400", "Separation of duties: the reviewer must be a different " ++
      "person from the branch owner."⟩).map fun _ =>
  db.storeBranch
    { b with status := .pendingReview, assignedReviewerId := some assignedReviewerId }

inductive Decision where
  | approved
  | rejected
  | changesRequested
  deriving DecidableEq

/-- `VALID_DECISIONS` -/
def Decision.ofText : String → Except Refused Decision
  | "approved" => .ok .approved
  | "rejected" => .ok .rejected
  | "changes_requested" => .ok .changesRequested
  | _ => .error ⟨400, none, "decision must be one of the valid decisions"⟩

/-- the content as a dictionary; `_compute_diff` raises on anything else -/
def contentOf (b : Branch) : Except Refused Dict :=
  match b.contentSnapshot.dict? with
  | some content => .ok content
  | none => .error ⟨500, none, "content_snapshot has no keys"⟩

/-- the content of a branch written into main, and a record of it -/
def Db.applyBranch (db : Db) (user : User) (via : Via) (b : Branch) (content : Dict) :
    Except Refused Db :=
  (db.applyArtifactToMain P (b.artifactType.getD "") (b.artifactId.getD "") content).map fun a =>
  let db := db.storeArtifact a.2
  { db with
    applied :=
      { branch := b, actor := user.userId, via := via, kind := a.1.kind, content := content,
        before := a.1.snapshot, after := a.2.snapshot } :: db.applied }

def Branch.hasArtifact (b : Branch) : Bool := present b.artifactType && present b.artifactId

def conflictRefused : Refused :=
  ⟨409, some "VEL-BRANCH-CONFLICT-409",
    "Conflict detected: dev main has changed since this branch was created. " ++
      "The owner must recall the branch, rebase, and resubmit."⟩

def Db.approve (db : Db) (user : User) (b : Branch) : Except Refused Db :=
  (db.currentMain b.artifactType b.artifactId).bind fun currentMain =>
  (refuseIf (b.hasArtifact && detectConflict P b.baseSnapshot currentMain)
    conflictRefused).bind fun _ =>
  (contentOf b).bind fun content =>
  (if b.hasArtifact then db.applyBranch P user .review b content else .ok db).map fun db =>
  db.storeBranch
    { b with
      status := .merged
      reviewedBy := some user.userId
      mergedBy := some user.userId
      mergeDiff := some (computeDiff currentMain content) }

def postReview (db : Db) (user : User) (branchId : Uuid) (decision : String) :
    Except Refused Db :=
  (Decision.ofText decision).bind fun decision =>
  (db.branchOr404 branchId).bind fun b =>
  (refuseIf (b.status ≠ .pendingReview)
    (stateRefused ("Branch must be 'pending_review' to post a review (current: '" ++
      b.status.text ++ "')."))).bind fun _ =>
  (refuseIf (!user.mayOverride && present b.assignedReviewerId &&
      b.assignedReviewerId ≠ some user.userId)
    (actorRefused "Only the assigned reviewer may post a review decision.")).bind fun _ =>
  match decision with
  | .approved => db.approve P user b
  | .rejected =>
    .ok (db.storeBranch { b with status := .rejected, reviewedBy := some user.userId })
  | .changesRequested =>
    -- the owner picks a reviewer again on the next submit
    .ok (db.storeBranch { b with status := .open, assignedReviewerId := none })

def recallBranch (db : Db) (user : User) (branchId : Uuid) : Except Refused Db :=
  (db.branchOr404 branchId).bind fun b =>
  (refuseIf (notOwner user b)
    (actorRefused "Only the branch owner may recall a branch.")).bind fun _ =>
  (refuseIf (b.status ≠ .pendingReview)
    (stateRefused ("Only 'pending_review' branches can be recalled (current: '" ++
      b.status.text ++ "')."))).map fun _ =>
  db.storeBranch { b with status := .open, assignedReviewerId := none }

def revertToBase (db : Db) (user : User) (branchId : Uuid) : Except Refused Db :=
  (db.branchOr404 branchId).bind fun b =>
  (refuseIf (notOwner user b)
    (actorRefused "Only the branch owner may revert to base.")).bind fun _ =>
  (refuseIf (b.status ≠ .open)
    (stateRefused ("Revert to base only works on 'open' branches (current: '" ++ b.status.text ++
      "'). Recall the branch first."))).map fun _ =>
  db.storeBranch { b with contentSnapshot := .dict b.baseSnapshot }

/-- `merge_branch`, for holders of the override -/
def mergeBranch (db : Db) (user : User) (branchId : Uuid) : Except Refused Db :=
  (refuseIf (!user.mayOverride)
    (actorRefused ("Only holders of design.branches.override may trigger a manual merge. " ++
      "Use the review approval flow instead."))).bind fun _ =>
  (db.branchOr404 branchId).bind fun b =>
  (refuseIf (b.status = .merged || b.status = .closed)
    (stateRefused ("Branch already '" ++ b.status.text ++ "'."))).bind fun _ =>
  (db.currentMain b.artifactType b.artifactId).bind fun currentMain =>
  (contentOf b).bind fun content =>
  (if b.branchType = "artifact" && b.hasArtifact then db.applyBranch P user .override b content
  else .ok db).map fun db =>
  db.storeBranch
    { b with
      status := .merged
      mergedBy := some user.userId
      mergeDiff := some (computeDiff currentMain content) }

/-! ## requests -/

inductive Op where
  | create (user : User) (id : Uuid) (body : CreateBranchRequest)
  | pull (user : User) (id : Uuid) (body : CreateBranchRequest) (fetched : Value)
  | update (user : User) (branchId : Uuid) (name description status : Option String)
  | updateContent (user : User) (branchId : Uuid) (content : Dict)
  | delete (user : User) (branchId : Uuid)
  | submit (user : User) (branchId : Uuid) (assignedReviewerId : String)
  | review (user : User) (branchId : Uuid) (decision : String)
  | recalled (user : User) (branchId : Uuid)
  | revert (user : User) (branchId : Uuid)
  | merge (user : User) (branchId : Uuid)
  /-- main, edited by the other routers -/
  | elsewhere (main : List Artifact)

def perform (db : Db) : Op → Except Refused Db
  | .create user id body => createBranch db user id body
  | .pull user id body fetched => pullBranchFromEnv db user id body fetched
  | .update user branchId name description status =>
    updateBranch db user branchId name description status
  | .updateContent user branchId content => updateBranchContent db user branchId content
  | .delete user branchId => deleteBranch db user branchId
  | .submit user branchId assignedReviewerId =>
    submitForReview db user branchId assignedReviewerId
  | .review user branchId decision => postReview P db user branchId decision
  | .recalled user branchId => recallBranch db user branchId
  | .revert user branchId => revertToBase db user branchId
  | .merge user branchId => mergeBranch P db user branchId
  | .elsewhere main => .ok { db with main := main }

def step (db : Db) (op : Op) : Db :=
  match perform P db op with
  | .ok db => db
  | .error _ => db

end Branches
