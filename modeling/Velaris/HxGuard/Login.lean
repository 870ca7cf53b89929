import Velaris.HxGuard.Lockout

/-!
# What a login reads

* `rowsOf`, `activeGroup`, `groupPrivileges`   the rows behind the entries a user is given, where no
    query raises;
* `receives_iff`   who receives an action, by the entries of their roles
    and of their one active group;
* `Mine`, `evaluate_mono`   a change of those entries that takes nothing away.
-/

namespace HxGuard
open Py Base

/-! ## the rows -/

variable (D : Deployment) (db : Db)

def identOf (idents : List String) : Option String :=
  idents.find? fun i => db.memberships.any (·.operatorId = i)

def rowsOf (idents : List String) : List OperatorAccessGroup :=
  match identOf db idents with
  | some i => D.scan.order (db.memberships.filter (·.operatorId = i))
  | none => []

def directoryOf (idents : List String) : Option UserDirectory :=
  idents.findSome? fun i => db.directory.find? (·.userId = i)

def activeGroup (idents : List String) : Option AccessGroup :=
  let rows := rowsOf D db idents
  if rows = [] then none
  else db.groups.find? (some ·.id = activeGroupId (directoryOf db idents) rows)

/-- the roles whose ids the group has, none where one of the ids is no id -/
def rolesOf (ag : AccessGroup) : List AccessRole :=
  match roleUuids ag.roleIds with
  | .ok ids => db.roles.filter (·.id ∈ ids)
  | .error _ => []

def groupPrivileges (idents : List String) : List Privilege :=
  match activeGroup D db idents with
  | some ag => (rolesOf db ag).flatMap (·.privileges)
  | none => []

variable {D db}

theorem findDirectory_eq (idents : List String) :
    findDirectory (D.session db) idents = .ok (directoryOf db idents) := by
  induction idents with
  | nil => rfl
  | cons i is ih =>
    have hcons : directoryOf db (i :: is) =
        (db.directory.find? (·.userId = i)).or (directoryOf db is) := by
      rw [directoryOf, List.findSome?_cons]
      cases db.directory.find? (·.userId = i) <;> rfl
    rw [findDirectory, ih, hcons]
    show Except.bind (Except.ok (db.directory.find? (·.userId = i))) _ = _
    cases db.directory.find? (·.userId = i) with
    | none => rfl
    | some row => rfl

theorem order_eq_nil {rows : List OperatorAccessGroup} : D.scan.order rows = [] ↔ rows = [] := by
  rw [← List.length_eq_zero_iff, (D.scan.perm rows).length_eq, List.length_eq_zero_iff]

theorem filter_operator_eq_nil {ms : List OperatorAccessGroup} {i : String} :
    ms.filter (·.operatorId = i) = [] ↔ ms.any (·.operatorId = i) = false := by
  rw [List.filter_eq_nil_iff, List.any_eq_false]

theorem findMemberships_eq (idents : List String) :
    findMemberships (D.session db) idents = .ok (rowsOf D db idents) := by
  induction idents with
  | nil => rfl
  | cons i is ih =>
    rw [findMemberships, ih, Session.ask]
    show (if D.scan.order (db.memberships.filter (·.operatorId = i)) ≠ []
      then Except.ok (D.scan.order (db.memberships.filter (·.operatorId = i)))
      else Except.ok (rowsOf D db is)) = _
    rw [rowsOf, rowsOf, identOf, identOf, List.find?_cons]
    by_cases hany : db.memberships.any (·.operatorId = i) = true
    · have hne : D.scan.order (db.memberships.filter (·.operatorId = i)) ≠ [] := by
        intro hx
        rw [order_eq_nil, filter_operator_eq_nil, hany] at hx
        cases hx
      rw [if_pos hne, hany]
    · have hnil : D.scan.order (db.memberships.filter (·.operatorId = i)) = [] := by
        rw [order_eq_nil, filter_operator_eq_nil]
        exact eq_false_of_ne_true hany
      rw [if_neg (not_not_intro hnil), eq_false_of_ne_true hany]

theorem loadRoles_eq (ag : AccessGroup) :
    loadRoles (D.session db) ag =
      (roleUuids ag.roleIds).map fun ids => db.roles.filter (·.id ∈ ids) := by
  rw [loadRoles]
  cases hids : ag.roleIds with
  | nil =>
    show Except.ok [] = Except.ok (db.roles.filter (·.id ∈ ([] : List Uuid)))
    simp
  | cons r rs =>
    rw [List.isEmpty_cons, if_neg Bool.false_ne_true]
    cases roleUuids (r :: rs) with
    | error e => rfl
    | ok ids => rfl

/-! ## the entries of a user -/

theorem setTenant_roles (dirRow : Option UserDirectory) (user : AuthenticatedUser) :
    (setTenant dirRow user).roles = user.roles := by
  rw [setTenant]
  split
  · rfl
  · rfl

theorem setTenant_group (dirRow : Option UserDirectory) (user : AuthenticatedUser) :
    (setTenant dirRow user).activeAccessGroup = user.activeAccessGroup := by
  rw [setTenant]
  split
  · rfl
  · rfl

theorem enrich_userId (s : Session) (user : AuthenticatedUser) :
    (enrich s user).1.userId = user.userId := by
  have htenant : ∀ dirRow, (setTenant dirRow user).userId = user.userId := by
    intro dirRow
    rw [setTenant]
    split
    · rfl
    · rfl
  rw [enrich]
  split
  · rfl
  · dsimp only
    split
    · exact htenant _
    · split
      · exact htenant _
      · exact htenant _
      · exact htenant _

theorem groupContext_eq (dirRow : Option UserDirectory) (rows : List OperatorAccessGroup) :
    groupContext (D.session db) dirRow rows =
      match db.groups.find? (some ·.id = activeGroupId dirRow rows) with
      | none => .ok none
      | some ag => (roleUuids ag.roleIds).map fun ids =>
          some (activeAccessGroup ag (db.portals.find? (·.id = ag.portalId))
              (db.roles.filter (·.id ∈ ids)),
            availableGroups rows (db.groups.filter (·.id ∈ rows.map (·.accessGroupId)))) := by
  rw [groupContext]
  show (match db.groups.find? (some ·.id = activeGroupId dirRow rows) with
    | none => Except.ok none
    | some ag => _) = _
  cases db.groups.find? (some ·.id = activeGroupId dirRow rows) with
  | none => rfl
  | some ag =>
    dsimp only
    rw [loadRoles_eq]
    cases roleUuids ag.roleIds with
    | error e => rfl
    | ok ids => rfl

theorem enrich_eq {user : AuthenticatedUser} (hfresh : user.activeAccessGroup = none) :
    (enrich (D.session db) user).1.roles = user.roles ∧
      ((enrich (D.session db) user).1.activeAccessGroup.map (·.privileges)).getD [] =
        groupPrivileges D db user.identifiers := by
  have hrows : findRows (D.session db) user =
      .ok (directoryOf db user.identifiers, rowsOf D db user.identifiers) := by
    rw [findRows, findDirectory_eq, findMemberships_eq]
    rfl
  have hnone : ((setTenant (directoryOf db user.identifiers) user).activeAccessGroup.map
      (·.privileges)).getD [] = [] := by
    rw [setTenant_group, hfresh]
    rfl
  rw [enrich, hrows, groupPrivileges, activeGroup]
  dsimp only
  by_cases hnil : rowsOf D db user.identifiers = []
  · rw [if_pos hnil, if_pos hnil]
    exact ⟨setTenant_roles .., hnone⟩
  · rw [if_neg hnil, if_neg hnil, groupContext_eq]
    cases db.groups.find? (some ·.id = activeGroupId (directoryOf db user.identifiers)
        (rowsOf D db user.identifiers)) with
    | none => exact ⟨setTenant_roles .., hnone⟩
    | some ag =>
      dsimp only
      rw [rolesOf]
      cases roleUuids ag.roleIds with
      | error e => exact ⟨setTenant_roles .., hnone⟩
      | ok ids => exact ⟨setTenant_roles .., rfl⟩

/-! ## who receives an action -/

/-- the entries that decide for a subject with these roles and these entries of its group -/
def Mine (P : Policy) (roles : List String) (privs : List Privilege) (p : Privilege) : Prop :=
  (∃ r ∈ roles, p ∈ rolePrivileges P r) ∨ p ∈ privs ∧ crossesIntoPlatformNamespace p = true

variable {P : Policy} {roles : List String} {privs privs' : List Privilege} {action : String}

theorem mem_effectivePrivileges {p : Privilege} :
    p ∈ effectivePrivileges P roles privs ↔ Mine P roles privs p := by
  rw [effectivePrivileges, List.mem_append, List.mem_flatMap, List.mem_filter]
  exact Iff.rfl

theorem evaluate_effective_iff :
    evaluatePrivileges P (effectivePrivileges P roles privs) action = true ↔
      (∃ p, Mine P roles privs p ∧ privilegeGrants p action = true) ∧
        ∀ p, Mine P roles privs p → privilegeGrants p action = true → P.denies p = false := by
  rw [evaluate_iff]
  simp only [mem_effectivePrivileges]

def About (action : String) (p : Privilege) : Prop :=
  crossesIntoPlatformNamespace p = true ∧ privilegeGrants p action = true

/-- other entries of the group allow what these allow, when none of them denies it and a grant among
these is replaced by one among them -/
theorem evaluate_mono
    (hdeny : ∀ p ∈ privs', About action p → P.denies p = false)
    (hgrant : (∃ p ∈ privs, About action p) → ∃ p ∈ privs', About action p)
    (h : evaluatePrivileges P (effectivePrivileges P roles privs) action = true) :
    evaluatePrivileges P (effectivePrivileges P roles privs') action = true := by
  rw [evaluate_effective_iff] at h ⊢
  obtain ⟨⟨p, hmine, hp⟩, hnone⟩ := h
  refine ⟨?_, ?_⟩
  · rcases hmine with hown | ⟨hp', hcross⟩
    · exact ⟨p, Or.inl hown, hp⟩
    · obtain ⟨q, hq, hcross', hgrants⟩ := hgrant ⟨p, hp', hcross, hp⟩
      exact ⟨q, Or.inr ⟨hq, hcross'⟩, hgrants⟩
  · intro q hmine' hq
    rcases hmine' with hown | ⟨hq', hcross⟩
    · exact hnone q (Or.inl hown) hq
    · exact hdeny q hq' ⟨hcross, hq⟩

def HelixUser.idents (D : Deployment) (u : HelixUser) : List String :=
  (loginUser D.emailDomain u).identifiers

theorem receives_iff (u : HelixUser) :
    receives D db action u = true ↔
      u.isActive = true ∧ action ∈ D.policy.actions.map (·.name) ∧
        ("superadmin" ∈ u.roles ∨ evaluatePrivileges D.policy
          (effectivePrivileges D.policy u.roles.dedup (groupPrivileges D db (u.idents D))) action =
            true) := by
  have hfresh : (loginUser D.emailDomain u).activeAccessGroup = none := rfl
  obtain ⟨hroles, hprivs⟩ := @enrich_eq D db _ hfresh
  rw [receives, Bool.and_eq_true, userAllows]
  refine and_congr_right fun _ => ?_
  by_cases hact : action ∈ D.policy.actions.map (·.name)
  · rw [if_neg (not_not_intro hact), allows_iff rfl, subjectFromUser]
    dsimp only
    rw [hroles, hprivs, loginUser, List.mem_dedup]
    rfl
  · rw [if_pos hact]
    simp [hact]

end HxGuard
