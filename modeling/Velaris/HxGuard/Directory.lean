import Mathlib.Data.List.Dedup
import Velaris.Base.Table
import Velaris.Base.Traverse
import Velaris.HxGuard.Privileges
import Velaris.Py.Text

/-!
# Operators and their access groups

The tables of `db/models.py`, and `_enrich_with_access_group` of `auth/dependencies.py`: what an
authenticated user is given from them.

* `Db`, `Session`   the tables, and a session whose queries may raise;
* `enrich`   the user with the tenant and the one active access group;
* `loginUser`   the user of a token that `_make_tokens` issues.
-/

namespace HxGuard
open Py Base

/-! ## tables -/

structure HelixUser where
  id : Uuid
  username : String
  email : String
  roles : List String
  isSuperadmin : Bool := false
  isActive : Bool := true

structure UserDirectory where
  userId : String
  tenantId : Option String := none
  currentAccessGroupId : Option Uuid := none

structure AccessRole where
  id : Uuid
  name : String
  privileges : List Privilege

structure AccessGroup where
  id : Uuid
  name : String
  portalId : Uuid
  roleIds : List String
  allowedCaseTypeIds : List String := ["*"]
  allowedQueueIds : List String := ["*"]
  isActive : Bool := true

structure OperatorAccessGroup where
  operatorId : String
  accessGroupId : Uuid
  isPrimary : Bool := false
  deriving DecidableEq

structure Portal where
  id : Uuid
  name : String
  portalType : String := "staff"
  modules : List String := []
  homepage : String := "/work-center"

structure Db where
  users : List HelixUser
  directory : List UserDirectory
  roles : List AccessRole
  groups : List AccessGroup
  memberships : List OperatorAccessGroup
  portals : List Portal

inductive Query where
  | directory (ident : String)
  | memberships (ident : String)
  | group
  | portal
  | roles
  | groups
  | revoked
  | account

inductive Failure where
  | query (q : Query)
  /-- `uuid.UUID(r)` of a text that is none -/
  | badUuid

structure Session where
  db : Db
  raises : Query → Bool
  /-- the order of the memberships a query returns -/
  scan : Scan OperatorAccessGroup

/-- the answer to a query; a row is fetched by a column that no two rows share -/
def Session.ask {α : Type} (s : Session) (q : Query) (answer : α) : Except Failure α :=
  if s.raises q then .error (.query q) else .ok answer

/-! ## users -/

structure ActiveAccessGroup where
  id : String
  name : String
  portalId : String
  portalType : String
  portalName : String
  modules : List String
  homepage : String
  roles : List String
  privileges : List Privilege
  allowedCaseTypeIds : List String
  allowedQueueIds : List String

structure AvailableGroup where
  id : String
  name : String
  isPrimary : Bool

structure AuthenticatedUser where
  userId : String
  username : String := ""
  email : String := ""
  roles : List String := []
  groups : List String := []
  department : String := ""
  token : String := ""
  tenantId : Option String := none
  activeAccessGroup : Option ActiveAccessGroup := none
  availableAccessGroups : List AvailableGroup := []

/-- what a membership row may call the user, the id of the token first -/
def AuthenticatedUser.identifiers (user : AuthenticatedUser) : List String :=
  [user.userId, user.username, user.email].filter (· ≠ "")

/-! ## enrichment -/

def findDirectory (s : Session) : List String → Except Failure (Option UserDirectory)
  | [] => .ok none
  | ident :: idents => do
    match ← s.ask (.directory ident) (s.db.directory.find? (·.userId = ident)) with
    | some row => return some row
    | none => findDirectory s idents

def findMemberships (s : Session) : List String → Except Failure (List OperatorAccessGroup)
  | [] => .ok []
  | ident :: idents => do
    let rows ← s.ask (.memberships ident)
      (s.scan.order (s.db.memberships.filter (·.operatorId = ident)))
    if rows ≠ [] then return rows else findMemberships s idents

/-- the persisted group where it is one of theirs, else the primary one, else the first -/
def activeGroupId (dirRow : Option UserDirectory) (rows : List OperatorAccessGroup) : Option Uuid :=
  match (dirRow.bind (·.currentAccessGroupId)).filter (· ∈ rows.map (·.accessGroupId)) with
  | some id => some id
  | none => ((rows.find? (·.isPrimary)).or rows.head?).map (·.accessGroupId)

def roleUuids (roleIds : List String) : Except Failure (List Uuid) :=
  roleIds.mapM fun r => match uuid r with
    | some u => .ok u
    | none => .error .badUuid

/-- `x or d` of a list -/
def orList {α : Type} (xs d : List α) : List α := if xs.isEmpty then d else xs

def loadRoles (s : Session) (ag : AccessGroup) : Except Failure (List AccessRole) :=
  if ag.roleIds.isEmpty then .ok []
  else do
    let ids ← roleUuids ag.roleIds
    s.ask .roles (s.db.roles.filter (·.id ∈ ids))

def activeAccessGroup (ag : AccessGroup) (portal : Option Portal) (roleRows : List AccessRole) :
    ActiveAccessGroup where
  id := uuidText ag.id
  name := ag.name
  portalId := (portal.map fun p => uuidText p.id).getD ""
  portalType := (portal.map (·.portalType)).getD "staff"
  portalName := (portal.map (·.name)).getD ""
  modules := (portal.map (·.modules)).getD []
  homepage := (portal.map (·.homepage)).getD "/work-center"
  roles := roleRows.map (·.name)
  privileges := roleRows.flatMap (·.privileges)
  allowedCaseTypeIds := orList ag.allowedCaseTypeIds ["*"]
  allowedQueueIds := orList ag.allowedQueueIds ["*"]

def availableGroups (rows : List OperatorAccessGroup) (allAgs : List AccessGroup) :
    List AvailableGroup :=
  allAgs.map fun a =>
    { id := uuidText a.id, name := a.name,
      isPrimary := rows.any fun r => r.isPrimary && r.accessGroupId = a.id }

/-- the active group of the rows, with its portal and roles -/
def groupContext (s : Session) (dirRow : Option UserDirectory) (rows : List OperatorAccessGroup) :
    Except Failure (Option (ActiveAccessGroup × List AvailableGroup)) := do
  let found ← s.ask .group (s.db.groups.find? (some ·.id = activeGroupId dirRow rows))
  match found with
  | none => return none
  | some ag =>
    let portal ← s.ask .portal (s.db.portals.find? (·.id = ag.portalId))
    let roleRows ← loadRoles s ag
    let allAgs ← s.ask .groups (s.db.groups.filter (·.id ∈ rows.map (·.accessGroupId)))
    return some (activeAccessGroup ag portal roleRows, availableGroups rows allAgs)

def findRows (s : Session) (user : AuthenticatedUser) :
    Except Failure (Option UserDirectory × List OperatorAccessGroup) := do
  let dirRow ← findDirectory s user.identifiers
  let rows ← findMemberships s user.identifiers
  return (dirRow, rows)

def setTenant (dirRow : Option UserDirectory) (user : AuthenticatedUser) : AuthenticatedUser :=
  match (dirRow.bind (·.tenantId)).filter (· ≠ "") with
  | some t => { user with tenantId := some t }
  | none => user

def enrich (s : Session) (user : AuthenticatedUser) : AuthenticatedUser × Option Failure :=
  match findRows s user with
  | .error e => (user, some e)
  | .ok (dirRow, rows) =>
    let user := setTenant dirRow user
    if rows = [] then (user, none)
    else
      match groupContext s dirRow rows with
      | .error e => (user, some e)
      | .ok none => (user, none)
      | .ok (some (ag, available)) =>
        ({ user with activeAccessGroup := some ag, availableAccessGroups := available }, none)

/-! ## tokens -/

/-- the user of the token `_make_tokens` issues for an account -/
def loginUser (emailDomain : String) (u : HelixUser) : AuthenticatedUser where
  userId := uuidText u.id
  username := u.username
  email := u.username ++ "@" ++ emailDomain
  roles := u.roles.dedup

def subjectFromUser (generation : Nat) (user : AuthenticatedUser) : Subject where
  kind := "user"
  id := user.userId
  roles := user.roles
  isAdmin := "admin" ∈ user.roles
  privileges := (user.activeAccessGroup.map (·.privileges)).getD []
  roleStoreGeneration := generation

/-- `user_allows`, for an action of the platform -/
def userAllows (P : Policy) (user : AuthenticatedUser) (action : String) : Bool :=
  if action ∉ P.actions.map (·.name) then false
  else subjectAllows P (subjectFromUser 0 user) action

end HxGuard
