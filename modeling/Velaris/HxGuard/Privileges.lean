import Mathlib.Data.List.Basic
import Mathlib.Data.List.Sort
import Velaris.Py.Value

/-!
# Privileges

`hxguard/privileges.py`: an action is allowed when an entry grants it and none denies it.

* `resourceMatches`, `privilegeGrants`   what an entry is about;
* `evaluatePrivileges`   the decision over a list of entries;
* `effectivePrivileges`   the entries of a subject: those of its roles, and those of its
    access group that reach the platform;
* `allows_iff`   the decision as a statement about the entries.
-/

namespace HxGuard

/-- a row of `ACTIONS` -/
structure ActionDef where
  name : String
  legacyRoles : List String

structure Privilege where
  resource : String
  actions : List String
  effect : String := "allow"
  deriving DecidableEq

/-- what a decision reads beside the subject; `lower` is `str.lower` -/
structure Policy where
  lower : String → String
  /-- `ACTIONS` -/
  actions : List ActionDef
  /-- `role_store.privileges_for` -/
  stored : String → List Privilege

def WILDCARD : String := "*"

/-! ## names -/

/-- `s.split(".")` -/
def segments (s : String) : List (List Char) := s.toList.splitOn '.'

def resourceOf (action : String) : String :=
  if '.' ∈ action.toList then
    String.ofList (((action.toList.reverse.dropWhile (· ≠ '.')).drop 1).reverse)
  else action

def verbOf (action : String) : String :=
  String.ofList (action.toList.reverse.takeWhile (· ≠ '.')).reverse

/-! ## matching -/

/-- segment by segment: `compliance.*` is not about `compliance_admin.x` -/
def resourceMatches (pattern resource : String) : Bool :=
  if pattern = WILDCARD then true
  else
    let pat := segments pattern
    let res := segments resource
    if pat.getLast? = some ['*'] then
      let head := pat.dropLast
      head.length ≤ res.length && res.take head.length = head
    else pat = res

def verbMatches (allowed : List String) (verb : String) : Bool :=
  WILDCARD ∈ allowed || verb ∈ allowed

def privilegeGrants (priv : Privilege) (action : String) : Bool :=
  resourceMatches priv.resource (resourceOf action) && verbMatches priv.actions (verbOf action)

variable (P : Policy)

def Policy.denies (priv : Privilege) : Bool := P.lower priv.effect = "deny"

def evaluatePrivileges (privs : List Privilege) (action : String) : Bool :=
  go false privs
where
  go (allowed : Bool) : List Privilege → Bool
    | [] => allowed
    | p :: ps =>
      if !privilegeGrants p action then go allowed ps
      else if P.denies p then false
      else go true ps

/-! ## the entries of a subject -/

def ALL_ACCESS : List Privilege := [{ resource := WILDCARD, actions := [WILDCARD] }]

def privilegesForRole (role : String) : List Privilege :=
  if role ∈ ["admin", "superadmin"] then ALL_ACCESS
  else
    let granted := ((P.actions.filter (role ∈ ·.legacyRoles)).map (·.name)).mergeSort (· ≤ ·)
    granted.map fun n => { resource := resourceOf n, actions := [verbOf n] }

def KNOWN_ROLES : List String :=
  ["superadmin", "admin", "manager", "designer", "case_worker", "devops", "integration", "security",
    "viewer", "developer", "staff", "finance"]

/-- `SEEDED_ROLE_PRIVILEGES.get(role, [])` -/
def seededRolePrivileges (role : String) : List Privilege :=
  if role ∈ KNOWN_ROLES then privilegesForRole P role else []

def LEGACY_PRIVILEGE_RESOURCES : List String :=
  ["case", "case_type", "form", "workflow", "document", "queue", "report"]

def PLATFORM_RESOURCES_UNDER_A_LEGACY_HEAD : List String := ["case.actions"]

/-- an entry reaches a platform action only by naming the dotted namespace -/
def crossesIntoPlatformNamespace (priv : Privilege) : Bool :=
  if priv.resource ∈ ["", WILDCARD] then false
  else if priv.resource ∈ PLATFORM_RESOURCES_UNDER_A_LEGACY_HEAD then true
  else if String.ofList ((segments priv.resource).headD []) ∈ LEGACY_PRIVILEGE_RESOURCES then false
  else '.' ∈ priv.resource.toList

def rolePrivileges (role : String) : List Privilege :=
  seededRolePrivileges P role ++ (P.stored role).filter crossesIntoPlatformNamespace

def effectivePrivileges (roles : List String) (accessGroupPrivileges : List Privilege) :
    List Privilege :=
  roles.flatMap (rolePrivileges P) ++ accessGroupPrivileges.filter crossesIntoPlatformNamespace

/-! ## the backend -/

structure Decision where
  allow : Bool
  reason : String
  source : String
  cached : Bool := false

structure Subject where
  kind : String
  id : String
  roles : List String := []
  isAdmin : Bool := false
  privileges : List Privilege := []
  roleStoreGeneration : Nat := 0
  deriving DecidableEq

/-- `PrivilegeBackend.evaluate` -/
def privilegeBackend (subject : Subject) (action : String) : Decision :=
  if action ∉ P.actions.map (·.name) then
    ⟨false, "unknown action '" ++ action ++ "' (fail-closed)", "privilege", false⟩
  else if subject.kind ≠ "user" then
    ⟨false, "action '" ++ action ++ "' requires a user subject, got " ++ subject.kind, "privilege",
      false⟩
  else if "superadmin" ∈ subject.roles then
    ⟨true, "superadmin break-glass", "privilege", false⟩
  else if evaluatePrivileges P (effectivePrivileges P subject.roles subject.privileges) action then
    ⟨true, "privilege grants '" ++ action ++ "'", "privilege", false⟩
  else ⟨false, "no privilege grants '" ++ action ++ "'", "privilege", false⟩

def subjectAllows (subject : Subject) (action : String) : Bool :=
  (privilegeBackend P subject action).allow

/-! ## decisions as statements about entries -/

variable {P} {privs : List Privilege} {action : String}

theorem go_eq (allowed : Bool) (privs : List Privilege) :
    evaluatePrivileges.go P action allowed privs =
      ((allowed || privs.any (privilegeGrants · action)) &&
        privs.all fun p => !(privilegeGrants p action && P.denies p)) := by
  induction privs generalizing allowed with
  | nil => simp [evaluatePrivileges.go]
  | cons p ps ih =>
    rw [evaluatePrivileges.go]
    cases hg : privilegeGrants p action
    · simp [ih, hg]
    · cases hd : P.denies p
      · simp [ih, hg, hd]
      · simp [hg, hd]

theorem evaluate_iff :
    evaluatePrivileges P privs action = true ↔
      (∃ p ∈ privs, privilegeGrants p action = true) ∧
        ∀ p ∈ privs, privilegeGrants p action = true → P.denies p = false := by
  rw [evaluatePrivileges, go_eq, Bool.false_or, Bool.and_eq_true, List.any_eq_true, List.all_eq_true]
  refine and_congr_right fun _ => forall₂_congr fun p _ => ?_
  cases privilegeGrants p action <;> simp

theorem allows_iff {subject : Subject} (hkind : subject.kind = "user") :
    subjectAllows P subject action = true ↔ action ∈ P.actions.map (·.name) ∧
      ("superadmin" ∈ subject.roles ∨
        evaluatePrivileges P (effectivePrivileges P subject.roles subject.privileges) action) := by
  rw [subjectAllows, privilegeBackend]
  by_cases hact : action ∈ P.actions.map (·.name)
  · rw [if_neg (not_not_intro hact), if_neg (not_not_intro hkind)]
    by_cases hsuper : "superadmin" ∈ subject.roles
    · simp [hact, hsuper]
    · rw [if_neg hsuper]
      cases evaluatePrivileges P (effectivePrivileges P subject.roles subject.privileges) action <;>
        simp [hact, hsuper]
  · rw [if_pos hact]
    simp [hact]

end HxGuard
