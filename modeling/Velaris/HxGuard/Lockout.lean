import Velaris.HxGuard.Directory

/-!
# The lockout guard

`hxguard/lockout.py`, and the endpoints of `api/routers/access_groups.py` that ask it before they
write.

* `holdersOf`   whom the guard counts;
* `assertNotLastHolder`   the refusal;
* `Op`, `perform`   the writes that can take an action from somebody;
* `step`   a write, or a refused one, which changes nothing.
-/

namespace HxGuard
open Py Base

def BOOTSTRAP_ACTION : String := "identity.groups.write"

structure HttpError where
  status : Nat
  detail : String

variable (P : Policy)

/-! ## holders -/

/-- the membership rows under the first identifier of the account that has any -/
def memberRows (db : Db) (u : HelixUser) : List OperatorAccessGroup :=
  let idents := [uuidText u.id, u.username, u.email].filter (· ≠ "")
  match idents.find? fun i => db.memberships.any (·.operatorId = i) with
  | some i => db.memberships.filter (·.operatorId = i)
  | none => []

/-- the entries of all the groups of the rows, active or not -/
def memberPrivileges (db : Db) (u : HelixUser) : List Privilege :=
  (memberRows db u).flatMap fun m =>
    match db.groups.find? (·.id = m.accessGroupId) with
    | none => []
    | some group => group.roleIds.flatMap fun rid =>
      match db.roles.find? (uuidText ·.id = rid) with
      | none => []
      | some role => role.privileges

def isHolder (db : Db) (action : String) (u : HelixUser) : Bool :=
  u.isActive && (u.isSuperadmin || "superadmin" ∈ u.roles ||
    evaluatePrivileges P (effectivePrivileges P u.roles (memberPrivileges db u)) action)

def holdersOf (db : Db) (action : String) : List String :=
  (db.users.filter (isHolder P db action)).map (uuidText ·.id)

def refusal (action : String) : HttpError :=
  ⟨409, "Refused: this would leave nobody able to perform '" ++ action ++ "'. " ++
    "Grant it to another account first. " ++
    "(If you are already locked out, use scripts/grant_privilege.py.)"⟩

def assertNotLastHolder (db : Db) (action : String) (removingUserIds : List String) :
    Except HttpError Unit :=
  let holders := holdersOf P db action
  let remaining := holders.filter (· ∉ removingUserIds)
  if remaining ≠ [] then .ok ()
  -- nobody held it before the change either
  else if holders = [] then .ok ()
  else .error (refusal action)

/-! ## revocation by edit -/

def roleConfers (privileges : List Privilege) (action : String) : Bool :=
  evaluatePrivileges P (effectivePrivileges P [] privileges) action

def membersOfGroup (db : Db) (groupId : Uuid) : List String :=
  (db.memberships.filter (·.accessGroupId = groupId)).map (·.operatorId)

def membersHoldingRole (db : Db) (roleId : Uuid) : List String :=
  let affected := (db.groups.filter fun g => g.isActive && uuidText roleId ∈ g.roleIds).map (·.id)
  (db.memberships.filter (·.accessGroupId ∈ affected)).map (·.operatorId)

def assertRoleEditSurvivable (db : Db) (role : AccessRole) (newPrivileges : List Privilege)
    (action : String) : Except HttpError Unit :=
  if !roleConfers P role.privileges action then .ok ()
  else if roleConfers P newPrivileges action then .ok ()
  else assertNotLastHolder P db action (membersHoldingRole db role.id)

def assertRoleDeleteSurvivable (db : Db) (role : AccessRole) (action : String) :
    Except HttpError Unit :=
  if !roleConfers P role.privileges action then .ok ()
  else assertNotLastHolder P db action (membersHoldingRole db role.id)

def keptIds (newRoleIds : List String) (newIsActive : Bool) : List String :=
  if newIsActive then newRoleIds else []

def groupRoles (db : Db) (group : AccessGroup) : Except HttpError (List AccessRole) :=
  match roleUuids group.roleIds with
  | .ok ids => .ok (db.roles.filter (·.id ∈ ids))
  | .error _ => .error ⟨500, "Internal Server Error"⟩

def assertGroupEditSurvivable (db : Db) (group : AccessGroup) (newRoleIds : List String)
    (newIsActive : Bool) (action : String) : Except HttpError Unit := do
  let kept := keptIds newRoleIds newIsActive
  let dropped := group.roleIds.filter (· ∉ kept)
  if dropped = [] then return ()
  let roles ← groupRoles db group
  let losing := roles.filter fun r => uuidText r.id ∈ dropped && roleConfers P r.privileges action
  if losing = [] then return ()
  let stillGranted := roles.filter fun r => uuidText r.id ∈ kept && roleConfers P r.privileges action
  if stillGranted ≠ [] then return ()
  assertNotLastHolder P db action (membersOfGroup db group.id)

/-! ## writes -/

/-- the body of `PATCH /access-groups/{group_id}` -/
structure GroupBody where
  name : String
  portalId : Uuid
  roleIds : List String := []
  allowedCaseTypeIds : List String := ["*"]
  allowedQueueIds : List String := ["*"]
  isActive : Bool := true

/-- the body of `PATCH /access-roles/{role_id}` -/
structure RoleBody where
  name : String
  privileges : List Privilege := []

inductive Op where
  | removeMember (groupId : Uuid) (operatorId : String)
  | updateGroup (groupId : Uuid) (body : GroupBody)
  | deleteGroup (groupId : Uuid)
  | suspend (userId : Uuid)
  | updateRole (roleId : Uuid) (body : RoleBody)
  | deleteRole (roleId : Uuid)

def OperatorAccessGroup.is (m : OperatorAccessGroup) (groupId : Uuid) (operatorId : String) : Bool :=
  m.operatorId = operatorId && m.accessGroupId = groupId

def Db.withoutMember (db : Db) (groupId : Uuid) (operatorId : String) : Db :=
  { db with memberships := db.memberships.filter fun m => !m.is groupId operatorId }

def Db.editGroup (db : Db) (groupId : Uuid) (edit : AccessGroup → AccessGroup) : Db :=
  { db with groups := db.groups.map fun g => if g.id = groupId then edit g else g }

def GroupBody.write (body : GroupBody) (g : AccessGroup) : AccessGroup :=
  { g with
    name := body.name, portalId := body.portalId, roleIds := body.roleIds
    allowedCaseTypeIds := body.allowedCaseTypeIds, allowedQueueIds := body.allowedQueueIds
    isActive := body.isActive }

def AccessGroup.deactivate (g : AccessGroup) : AccessGroup := { g with isActive := false }

def Db.editRole (db : Db) (roleId : Uuid) (edit : AccessRole → AccessRole) : Db :=
  { db with roles := db.roles.map fun r => if r.id = roleId then edit r else r }

def RoleBody.write (body : RoleBody) (r : AccessRole) : AccessRole :=
  { r with name := body.name, privileges := body.privileges }

def Db.withoutRole (db : Db) (roleId : Uuid) : Db :=
  { db with roles := db.roles.filter (·.id ≠ roleId) }

def Db.suspend (db : Db) (userId : Uuid) : Db :=
  { db with users := db.users.map fun u => if u.id = userId then { u with isActive := false } else u }

def perform (db : Db) : Op → Except HttpError Db
  | .removeMember groupId operatorId => do
    if db.memberships.any (·.is groupId operatorId) then
      assertNotLastHolder P db BOOTSTRAP_ACTION [operatorId]
      return db.withoutMember groupId operatorId
    else return db
  | .updateGroup groupId body =>
    match db.groups.find? (·.id = groupId) with
    | none => .error ⟨404, "Access group not found"⟩
    | some g => do
      assertGroupEditSurvivable P db g body.roleIds body.isActive BOOTSTRAP_ACTION
      return db.editGroup groupId body.write
  | .deleteGroup groupId =>
    match db.groups.find? (·.id = groupId) with
    | none => .ok db
    | some _ => do
      assertNotLastHolder P db BOOTSTRAP_ACTION (membersOfGroup db groupId)
      return db.editGroup groupId AccessGroup.deactivate
  | .suspend userId => .ok (db.suspend userId)
  | .updateRole roleId body =>
    match db.roles.find? (·.id = roleId) with
    | none => .error ⟨404, "Access role not found"⟩
    | some r => do
      assertRoleEditSurvivable P db r body.privileges BOOTSTRAP_ACTION
      return db.editRole roleId body.write
  | .deleteRole roleId =>
    match db.roles.find? (·.id = roleId) with
    | none => .ok db
    | some r => do
      assertRoleDeleteSurvivable P db r BOOTSTRAP_ACTION
      return db.withoutRole roleId

def step (db : Db) (op : Op) : Db := ((perform P db op).toOption).getD db

/-! ## who really receives it -/

/-- what a deployment fixes: the policy, the domain of the email addresses of tokens, and the order
in which its database returns memberships -/
structure Deployment where
  policy : Policy
  emailDomain : String
  scan : Scan OperatorAccessGroup

def Deployment.session (D : Deployment) (db : Db) : Session := ⟨db, fun _ => false, D.scan⟩

/-- the account is active, and the user of its requests is allowed the action -/
def receives (D : Deployment) (db : Db) (action : String) (u : HelixUser) : Bool :=
  u.isActive &&
    userAllows D.policy (enrich (D.session db) (loginUser D.emailDomain u)).1 action

/-- at least one active operator can grant access -/
def SomeoneReceives (D : Deployment) (db : Db) : Prop :=
  ∃ u ∈ db.users, receives D db BOOTSTRAP_ACTION u = true

end HxGuard
