import Velaris.Base.Run
import Velaris.HxGuard.Login

/-!
# Someone stays in charge

* `Reaches`   the change touches what the login of an account reads;
* `AllStripped`   everyone the guard counts is taken from, under the id of the account;
* `Benign`   some account that receives the action is out of reach, or the guard sees the
    change for what it is;
* `step_receives`, `run_receives`   what a benign write, and a run of them, leaves in place.

The guard counts by all the groups of an account, the login reads one; it takes from by the text of
the membership rows, and counts by the id of the account.
-/

namespace HxGuard
open Py Base

variable {D : Deployment} {db : Db}

/-! ## what a write changes of a login -/

theorem identOf_withoutMember {groupId : Uuid} {operatorId : String} {idents : List String}
    (h : identOf db idents ≠ some operatorId) :
    identOf (db.withoutMember groupId operatorId) idents = identOf db idents := by
  induction idents with
  | nil => rfl
  | cons i is ih =>
    rw [identOf, identOf, List.find?_cons, List.find?_cons]
    rw [identOf, List.find?_cons] at h
    have hsub : (db.withoutMember groupId operatorId).memberships.any (·.operatorId = i) = true →
        db.memberships.any (·.operatorId = i) = true := by
      intro hx
      obtain ⟨m, hm, hi⟩ := List.any_eq_true.mp hx
      exact List.any_eq_true.mpr ⟨m, List.mem_of_mem_filter hm, hi⟩
    cases hany : db.memberships.any (·.operatorId = i) with
    | false =>
      rw [hany] at h
      rw [eq_false_of_ne_true fun hx => Bool.false_ne_true (hany.symm.trans (hsub hx))]
      exact ih h
    | true =>
      rw [hany] at h
      have hne : i ≠ operatorId := fun hx => h (congrArg some hx)
      obtain ⟨m, hm, hi⟩ := List.any_eq_true.mp hany
      have hkept : (db.withoutMember groupId operatorId).memberships.any (·.operatorId = i) = true := by
        refine List.any_eq_true.mpr ⟨m, List.mem_filter.mpr ⟨hm, ?_⟩, hi⟩
        have hmi : m.operatorId ≠ operatorId := by
          rw [of_decide_eq_true hi]
          exact hne
        simp [OperatorAccessGroup.is, hmi]
      rw [hkept]

theorem rowsOf_withoutMember {groupId : Uuid} {operatorId : String} {idents : List String}
    (h : identOf db idents ≠ some operatorId) :
    rowsOf D (db.withoutMember groupId operatorId) idents = rowsOf D db idents := by
  rw [rowsOf, rowsOf, identOf_withoutMember h]
  cases hi : identOf db idents with
  | none => rfl
  | some i =>
    have hne : i ≠ operatorId := fun hx => h (by rw [hi, hx])
    refine congrArg D.scan.order ?_
    rw [Db.withoutMember, List.filter_filter]
    refine List.filter_congr fun m _ => ?_
    by_cases hm : m.operatorId = i
    · simp [OperatorAccessGroup.is, hm, hne]
    · simp [hm]

theorem find?_map_key {ρ : Type} {p : ρ → Bool} {f : ρ → ρ} (hp : ∀ r, p (f r) = p r)
    (rows : List ρ) : (rows.map f).find? p = (rows.find? p).map f := by
  rw [List.find?_map]
  have hcomp : p ∘ f = p := funext hp
  rw [hcomp]

theorem activeGroup_editGroup {groupId : Uuid} (edit : AccessGroup → AccessGroup)
    (hedit : ∀ g, (edit g).id = g.id) (idents : List String) :
    activeGroup D (db.editGroup groupId edit) idents =
      (activeGroup D db idents).map fun g => if g.id = groupId then edit g else g := by
  have hid : ∀ g : AccessGroup, (if g.id = groupId then edit g else g).id = g.id := by
    intro g
    split
    · exact hedit g
    · rfl
  rw [activeGroup, activeGroup]
  by_cases hnil : rowsOf D db idents = []
  · have hnil' : rowsOf D (db.editGroup groupId edit) idents = [] := hnil
    rw [if_pos hnil, if_pos hnil']
    rfl
  · have hnil' : ¬ rowsOf D (db.editGroup groupId edit) idents = [] := hnil
    rw [if_neg hnil, if_neg hnil']
    apply find?_map_key
    intro g
    rw [hid]

theorem mem_rolesOf {ag : AccessGroup} {r : AccessRole} :
    r ∈ rolesOf db ag ↔ ∃ ids, roleUuids ag.roleIds = .ok ids ∧ r ∈ db.roles ∧ r.id ∈ ids := by
  rw [rolesOf]
  cases hids : roleUuids ag.roleIds with
  | error e => simp
  | ok ids => simp

theorem mem_roleUuids {roleIds : List String} {ids : List Uuid} (h : roleUuids roleIds = .ok ids)
    {id : Uuid} : id ∈ ids ↔ ∃ rid ∈ roleIds, uuid rid = some id := by
  have hall : List.Forall₂ (fun rid id => uuid rid = some id) roleIds ids := by
    apply (forall₂_of_mapM_ok h).imp
    intro rid id hx
    cases hu : uuid rid with
    | none =>
      rw [hu] at hx
      cases hx
    | some u =>
      rw [hu] at hx
      cases hx
      rfl
  constructor
  · intro hid
    obtain ⟨rid, hrid, hread⟩ := mem_left_of_forall₂ hall hid
    exact ⟨rid, hrid, hread⟩
  · intro hx
    obtain ⟨rid, hrid, hu⟩ := hx
    obtain ⟨id', hid', hread⟩ := mem_right_of_forall₂ hall hrid
    obtain rfl : id = id' := Option.some_inj.mp (hu.symm.trans hread)
    exact hid'

theorem roleUuids_ok {roleIds : List String} (h : ∀ rid ∈ roleIds, (uuid rid).isSome) :
    ∃ ids, roleUuids roleIds = .ok ids := by
  induction roleIds with
  | nil => exact ⟨[], rfl⟩
  | cons r rs ih =>
    obtain ⟨id, hid⟩ := Option.isSome_iff_exists.mp (h r List.mem_cons_self)
    obtain ⟨ids, hids⟩ := ih fun rid hrid => h rid (List.mem_cons_of_mem _ hrid)
    rw [roleUuids] at hids
    refine ⟨id :: ids, ?_⟩
    rw [roleUuids, List.mapM_cons, hid, hids]
    rfl

/-! ## which logins a write reaches -/

variable (D db) in
def Reaches (op : Op) (u : HelixUser) : Prop :=
  match op with
  | .removeMember _ operatorId => identOf db (u.idents D) = some operatorId
  | .updateGroup groupId _ => ∃ ag ∈ activeGroup D db (u.idents D), ag.id = groupId
  -- no login asks whether its group is active
  | .deleteGroup _ => False
  | .suspend userId => u.id = userId
  | .updateRole roleId _ | .deleteRole roleId =>
    ∃ ag ∈ activeGroup D db (u.idents D), ∃ rid ∈ ag.roleIds, uuid rid = some roleId

def Db.written (db : Db) : Op → Db
  | .removeMember groupId operatorId => db.withoutMember groupId operatorId
  | .updateGroup groupId body => db.editGroup groupId body.write
  | .deleteGroup groupId => db.editGroup groupId AccessGroup.deactivate
  | .suspend userId => db.suspend userId
  | .updateRole roleId body => db.editRole roleId body.write
  | .deleteRole roleId => db.withoutRole roleId

theorem step_cases (P : Policy) (db : Db) (op : Op) :
    step P db op = db ∨ step P db op = db.written op ∧ perform P db op = .ok (db.written op) := by
  rw [step]
  cases hp : perform P db op with
  | error e => exact Or.inl rfl
  | ok db' =>
    have hwritten : db' = db ∨ db' = db.written op := by
      cases op with
      | removeMember groupId operatorId =>
        rw [perform] at hp
        split at hp
        · obtain ⟨_, _, hp⟩ := exists_of_bind_ok hp
          cases hp
          exact Or.inr rfl
        · cases hp
          exact Or.inl rfl
      | updateGroup groupId body =>
        rw [perform] at hp
        split at hp
        · cases hp
        · obtain ⟨_, _, hp⟩ := exists_of_bind_ok hp
          cases hp
          exact Or.inr rfl
      | deleteGroup groupId =>
        rw [perform] at hp
        split at hp
        · cases hp
          exact Or.inl rfl
        · obtain ⟨_, _, hp⟩ := exists_of_bind_ok hp
          cases hp
          exact Or.inr rfl
      | suspend userId =>
        cases hp
        exact Or.inr rfl
      | updateRole roleId body =>
        rw [perform] at hp
        split at hp
        · cases hp
        · obtain ⟨_, _, hp⟩ := exists_of_bind_ok hp
          cases hp
          exact Or.inr rfl
      | deleteRole roleId =>
        rw [perform] at hp
        split at hp
        · cases hp
          exact Or.inl rfl
        · obtain ⟨_, _, hp⟩ := exists_of_bind_ok hp
          cases hp
          exact Or.inr rfl
    rcases hwritten with rfl | rfl
    · exact Or.inl rfl
    · exact Or.inr ⟨rfl, rfl⟩

theorem rolesOf_editRole {roleId : Uuid} (edit : AccessRole → AccessRole)
    (hedit : ∀ r, (edit r).id = r.id) (ag : AccessGroup) :
    rolesOf (db.editRole roleId edit) ag =
      (rolesOf db ag).map fun r => if r.id = roleId then edit r else r := by
  rw [rolesOf, rolesOf]
  cases roleUuids ag.roleIds with
  | error e => rfl
  | ok ids =>
    dsimp only
    rw [Db.editRole, List.filter_map]
    refine congrArg _ (List.filter_congr fun r _ => ?_)
    show decide ((if r.id = roleId then edit r else r).id ∈ ids) = decide (r.id ∈ ids)
    split
    · rw [hedit]
    · rfl

theorem rolesOf_withoutRole {roleId : Uuid} (ag : AccessGroup) :
    rolesOf (db.withoutRole roleId) ag = (rolesOf db ag).filter (·.id ≠ roleId) := by
  rw [rolesOf, rolesOf]
  cases roleUuids ag.roleIds with
  | error e => rfl
  | ok ids =>
    dsimp only
    rw [Db.withoutRole, List.filter_filter, List.filter_filter]
    exact List.filter_congr fun r _ => Bool.and_comm ..

theorem id_ne_of_unnamed {ag : AccessGroup} {roleId : Uuid}
    (h : ¬ ∃ rid ∈ ag.roleIds, uuid rid = some roleId) {r : AccessRole} (hr : r ∈ rolesOf db ag) :
    r.id ≠ roleId := by
  obtain ⟨ids, hids, -, hid⟩ := mem_rolesOf.mp hr
  intro hx
  refine h ?_
  rw [← hx]
  exact (mem_roleUuids hids).mp hid

theorem flatMap_privileges_eq {rs : List AccessRole} {f : AccessRole → AccessRole}
    (h : ∀ r ∈ rs, f r = r) : (rs.map f).flatMap (·.privileges) = rs.flatMap (·.privileges) := by
  have hid : rs.map f = rs := by
    rw [List.map_congr_left h, List.map_id']
  rw [hid]

theorem groupPrivileges_written {op : Op} {u : HelixUser} (h : ¬ Reaches D db op u) :
    groupPrivileges D (db.written op) (u.idents D) = groupPrivileges D db (u.idents D) := by
  cases op with
  | removeMember groupId operatorId =>
    have hrows : rowsOf D (db.withoutMember groupId operatorId) (u.idents D) =
        rowsOf D db (u.idents D) := rowsOf_withoutMember h
    rw [groupPrivileges, groupPrivileges, activeGroup, activeGroup, Db.written, hrows]
    rfl
  | updateGroup groupId body =>
    rw [groupPrivileges, groupPrivileges, Db.written, activeGroup_editGroup body.write fun _ => rfl]
    cases hag : activeGroup D db (u.idents D) with
    | none => rfl
    | some ag =>
      have hne : ag.id ≠ groupId := fun hx => h ⟨ag, hag, hx⟩
      rw [Option.map_some, if_neg hne]
      rfl
  | deleteGroup groupId =>
    rw [groupPrivileges, groupPrivileges, Db.written,
      activeGroup_editGroup AccessGroup.deactivate fun _ => rfl]
    cases activeGroup D db (u.idents D) with
    | none => rfl
    | some ag =>
      rw [Option.map_some]
      by_cases hid : ag.id = groupId
      · rw [if_pos hid]
        rfl
      · rw [if_neg hid]
        rfl
  | suspend userId => rfl
  | updateRole roleId body =>
    have hgroup : activeGroup D (db.written (.updateRole roleId body)) (u.idents D) =
        activeGroup D db (u.idents D) := rfl
    rw [groupPrivileges, groupPrivileges, hgroup]
    cases hag : activeGroup D db (u.idents D) with
    | none => rfl
    | some ag =>
      dsimp only
      rw [Db.written, rolesOf_editRole body.write fun _ => rfl]
      refine flatMap_privileges_eq fun r hr => if_neg ?_
      exact id_ne_of_unnamed (fun hx => h ⟨ag, hag, hx⟩) hr
  | deleteRole roleId =>
    have hgroup : activeGroup D (db.written (.deleteRole roleId)) (u.idents D) =
        activeGroup D db (u.idents D) := rfl
    rw [groupPrivileges, groupPrivileges, hgroup]
    cases hag : activeGroup D db (u.idents D) with
    | none => rfl
    | some ag =>
      dsimp only
      rw [Db.written, rolesOf_withoutRole]
      have hall : (rolesOf db ag).filter (·.id ≠ roleId) = rolesOf db ag :=
        List.filter_eq_self.mpr fun r hr =>
          decide_eq_true (id_ne_of_unnamed (fun hx => h ⟨ag, hag, hx⟩) hr)
      rw [hall]

/-! ## when the guard sees the change -/

variable (P : Policy)

/-- everyone the guard counts, and there is someone, is among those it takes from -/
def AllStripped (db : Db) (removing : List String) : Prop :=
  (∃ u ∈ db.users, isHolder P db BOOTSTRAP_ACTION u = true) ∧
    ∀ u ∈ db.users, isHolder P db BOOTSTRAP_ACTION u = true → uuidText u.id ∈ removing

def NoDeny (privs : List Privilege) : Prop :=
  ∀ p ∈ privs, About BOOTSTRAP_ACTION p → P.denies p = false

/-- a role that confers the action is dropped from the group, and none that is kept does -/
def takesAway (db : Db) (g : AccessGroup) (body : GroupBody) : Bool :=
  let kept := keptIds body.roleIds body.isActive
  let conferring := (rolesOf db g).filter fun r => roleConfers P r.privileges BOOTSTRAP_ACTION
  conferring.any (fun r => uuidText r.id ∈ g.roleIds && uuidText r.id ∉ kept) &&
    !conferring.any fun r => uuidText r.id ∈ kept

/-- the new ids are ids, of roles that deny nothing, and the guard reads the ids of the conferring
roles of the group as the login does -/
structure Readable (db : Db) (g : AccessGroup) (body : GroupBody) : Prop where
  ids : ∀ rid ∈ body.roleIds, (uuid rid).isSome
  noDeny : ∀ r ∈ db.roles, (∃ rid ∈ body.roleIds, uuid rid = some r.id) → NoDeny P r.privileges
  spelled : ∀ r ∈ rolesOf db g, roleConfers P r.privileges BOOTSTRAP_ACTION = true →
    ∀ rid ∈ g.roleIds, uuid rid = some r.id → rid = uuidText r.id

/-- the guard is right about the change: it refuses it, or rightly finds nothing to refuse -/
def Seen (db : Db) : Op → Prop
  | .removeMember groupId operatorId =>
    db.memberships.any (·.is groupId operatorId) = true → AllStripped P db [operatorId]
  | .updateGroup groupId body => ∀ g ∈ db.groups.find? (·.id = groupId),
    if takesAway P db g body then AllStripped P db (membersOfGroup db g.id)
    else Readable P db g body
  | .deleteGroup _ => True
  | .suspend _ => False
  | .updateRole roleId body => ∀ r ∈ db.roles.find? (·.id = roleId),
    if roleConfers P r.privileges BOOTSTRAP_ACTION then
      roleConfers P body.privileges BOOTSTRAP_ACTION = true ∨
        AllStripped P db (membersHoldingRole db r.id)
    else NoDeny P body.privileges
  | .deleteRole roleId => ∀ r ∈ db.roles.find? (·.id = roleId),
    roleConfers P r.privileges BOOTSTRAP_ACTION = true →
      AllStripped P db (membersHoldingRole db r.id)

variable (D) in
/-- a write that leaves some receiver alone, or that the guard sees -/
def Benign (db : Db) (op : Op) : Prop :=
  (∃ u ∈ db.users, receives D db BOOTSTRAP_ACTION u = true ∧ ¬ Reaches D db op u) ∨
    Seen D.policy db op

variable {P}

theorem AllStripped.refused {removing : List String} (h : AllStripped P db removing) :
    assertNotLastHolder P db BOOTSTRAP_ACTION removing = .error (refusal BOOTSTRAP_ACTION) := by
  obtain ⟨⟨u, hu, hcounted⟩, hall⟩ := h
  have hmem : uuidText u.id ∈ holdersOf P db BOOTSTRAP_ACTION :=
    List.mem_map_of_mem (f := fun u : HelixUser => uuidText u.id) (List.mem_filter.mpr ⟨hu, hcounted⟩)
  have hnil : (holdersOf P db BOOTSTRAP_ACTION).filter (· ∉ removing) = [] := by
    refine List.filter_eq_nil_iff.mpr fun id hid hx => of_decide_eq_true hx ?_
    obtain ⟨v, hv, rfl⟩ := List.mem_map.mp hid
    obtain ⟨hv, hcounted⟩ := List.mem_filter.mp hv
    exact hall v hv hcounted
  rw [assertNotLastHolder, hnil, if_neg (not_not_intro rfl), if_neg (List.ne_nil_of_mem hmem)]

theorem roleConfers_iff {privs : List Privilege} :
    roleConfers P privs BOOTSTRAP_ACTION = true ↔
      (∃ p ∈ privs, About BOOTSTRAP_ACTION p) ∧ NoDeny P privs := by
  rw [roleConfers, evaluate_effective_iff]
  constructor
  · intro h
    obtain ⟨⟨p, hmine, hp⟩, hnone⟩ := h
    refine ⟨?_, fun q hq habout => hnone q (Or.inr ⟨hq, habout.1⟩) habout.2⟩
    rcases hmine with ⟨r, hr, -⟩ | ⟨hmem, hcross⟩
    · cases hr
    · exact ⟨p, hmem, hcross, hp⟩
  · intro h
    obtain ⟨⟨p, hp, hcross, hgrants⟩, hnone⟩ := h
    refine ⟨⟨p, Or.inr ⟨hp, hcross⟩, hgrants⟩, fun q hmine hq => ?_⟩
    rcases hmine with ⟨r, hr, -⟩ | ⟨hmem, hcross'⟩
    · cases hr
    · exact hnone q hmem ⟨hcross', hq⟩

theorem receives_mono {db' : Db} {u : HelixUser} (h : receives D db BOOTSTRAP_ACTION u = true)
    (hlogin : NoDeny D.policy (groupPrivileges D db (u.idents D)) →
      NoDeny D.policy (groupPrivileges D db' (u.idents D)) ∧
        ((∃ p ∈ groupPrivileges D db (u.idents D), About BOOTSTRAP_ACTION p) →
          ∃ p ∈ groupPrivileges D db' (u.idents D), About BOOTSTRAP_ACTION p)) :
    receives D db' BOOTSTRAP_ACTION u = true := by
  rw [receives_iff] at h ⊢
  obtain ⟨hactive, hact, h⟩ := h
  refine ⟨hactive, hact, ?_⟩
  rcases h with hsuper | h
  · exact Or.inl hsuper
  · have hnone : NoDeny D.policy (groupPrivileges D db (u.idents D)) := fun p hp habout =>
      (evaluate_effective_iff.mp h).2 p (Or.inr ⟨hp, habout.1⟩) habout.2
    obtain ⟨hdeny, hgrant⟩ := hlogin hnone
    exact Or.inr (evaluate_mono hdeny hgrant h)

/-! ## a write that the guard sees leaves every receiver -/

section
variable {u : HelixUser} (h : receives D db BOOTSTRAP_ACTION u = true)
include h

theorem receives_unreached {op : Op} (hop : ¬ Reaches D db op u) :
    receives D (db.written op) BOOTSTRAP_ACTION u = true := by
  refine receives_mono h fun hnone => ?_
  rw [groupPrivileges_written hop]
  exact ⟨hnone, id⟩

theorem receives_updateGroup {groupId : Uuid} {body : GroupBody} {g : AccessGroup}
    (hg : db.groups.find? (·.id = groupId) = some g)
    (hkeep : takesAway D.policy db g body = false) (hread : Readable D.policy db g body) :
    receives D (db.editGroup groupId body.write) BOOTSTRAP_ACTION u = true := by
  by_cases hreach : Reaches D db (.updateGroup groupId body) u
  · obtain ⟨ag, hag, hid⟩ := hreach
    have hag' : activeGroup D db (u.idents D) = some ag := hag
    obtain rfl : ag = g := by
      rw [activeGroup] at hag'
      split at hag'
      · cases hag'
      · have hactive : some ag.id = activeGroupId (directoryOf db (u.idents D))
            (rowsOf D db (u.idents D)) := by
          have hfound := List.find?_some hag'
          exact of_decide_eq_true hfound
        rw [← hactive, hid] at hag'
        simp only [Option.some.injEq] at hag'
        exact Option.some_inj.mp (hag'.symm.trans hg)
    have hbefore : groupPrivileges D db (u.idents D) = (rolesOf db ag).flatMap (·.privileges) := by
      rw [groupPrivileges, hag']
    have hafter : groupPrivileges D (db.editGroup groupId body.write) (u.idents D) =
        (rolesOf db (body.write ag)).flatMap (·.privileges) := by
      rw [groupPrivileges, activeGroup_editGroup body.write fun _ => rfl, hag', Option.map_some,
        if_pos hid]
      rfl
    obtain ⟨newIds, hnewIds⟩ := roleUuids_ok hread.ids
    have hnew : ∀ r : AccessRole, r ∈ rolesOf db (body.write ag) ↔
        r ∈ db.roles ∧ ∃ rid ∈ body.roleIds, uuid rid = some r.id := by
      intro r
      have hids : roleUuids (body.write ag).roleIds = .ok newIds := hnewIds
      rw [rolesOf, hids]
      dsimp only
      rw [List.mem_filter, decide_eq_true_eq, mem_roleUuids hnewIds]
    refine receives_mono h fun hnone => ?_
    rw [hafter]
    rw [hbefore] at hnone ⊢
    refine ⟨?_, ?_⟩
    · intro p hp
      obtain ⟨r, hr, hpr⟩ := List.mem_flatMap.mp hp
      obtain ⟨hmem, hnamed⟩ := (hnew r).mp hr
      exact hread.noDeny r hmem hnamed p hpr
    · intro hx
      obtain ⟨p, hp, habout⟩ := hx
      obtain ⟨r, hr, hpr⟩ := List.mem_flatMap.mp hp
      have hconfers : roleConfers D.policy r.privileges BOOTSTRAP_ACTION = true :=
        roleConfers_iff.mpr ⟨⟨p, hpr, habout⟩,
          fun q hq => hnone q (List.mem_flatMap.mpr ⟨r, hr, hq⟩)⟩
      -- the role is kept, or another one that confers the action is
      have hkept : ∃ r' ∈ rolesOf db ag, roleConfers D.policy r'.privileges BOOTSTRAP_ACTION = true ∧
          uuidText r'.id ∈ keptIds body.roleIds body.isActive := by
        by_cases hk : uuidText r.id ∈ keptIds body.roleIds body.isActive
        · exact ⟨r, hr, hconfers, hk⟩
        · obtain ⟨ids, hids, hmem, hid⟩ := mem_rolesOf.mp hr
          obtain ⟨rid, hrid, hparse⟩ := (mem_roleUuids hids).mp hid
          obtain rfl := hread.spelled r hr hconfers rid hrid hparse
          rw [takesAway, Bool.and_eq_false_iff] at hkeep
          rcases hkeep with hkeep | hkeep
          · rw [List.any_eq_false] at hkeep
            refine absurd ?_ (hkeep r (List.mem_filter.mpr ⟨hr, hconfers⟩))
            simp [hrid, hk]
          · rw [Bool.not_eq_false', List.any_eq_true] at hkeep
            obtain ⟨r', hr', hk'⟩ := hkeep
            obtain ⟨hr', hconfers'⟩ := List.mem_filter.mp hr'
            exact ⟨r', hr', hconfers', of_decide_eq_true hk'⟩
      obtain ⟨r', hr', hconfers', hk'⟩ := hkept
      obtain ⟨ids, hids, hmem', hid'⟩ := mem_rolesOf.mp hr'
      obtain ⟨rid, hrid, hparse⟩ := (mem_roleUuids hids).mp hid'
      obtain rfl := hread.spelled r' hr' hconfers' rid hrid hparse
      have hnamed : uuidText r'.id ∈ body.roleIds := by
        rw [keptIds] at hk'
        split at hk'
        · exact hk'
        · cases hk'
      obtain ⟨⟨q, hq, habout'⟩, -⟩ := roleConfers_iff.mp hconfers'
      have hin : r' ∈ rolesOf db (body.write ag) :=
        (hnew r').mpr ⟨hmem', uuidText r'.id, hnamed, hparse⟩
      exact ⟨q, List.mem_flatMap.mpr ⟨r', hin, hq⟩, habout'⟩
  · have hstay := receives_unreached h hreach
    exact hstay

theorem receives_updateRole {roleId : Uuid} {body : RoleBody} {r : AccessRole}
    (hkeyed : (db.roles.map (·.id)).Nodup) (hr : db.roles.find? (·.id = roleId) = some r)
    (hkeep : roleConfers D.policy r.privileges BOOTSTRAP_ACTION = true →
      roleConfers D.policy body.privileges BOOTSTRAP_ACTION = true)
    (hdeny : roleConfers D.policy r.privileges BOOTSTRAP_ACTION = false →
      NoDeny D.policy body.privileges) :
    receives D (db.editRole roleId body.write) BOOTSTRAP_ACTION u = true := by
  obtain ⟨hmem, rfl⟩ := (find?_key_iff hkeyed).mp hr
  have hnew : NoDeny D.policy body.privileges := by
    cases hc : roleConfers D.policy r.privileges BOOTSTRAP_ACTION with
    | true => exact (roleConfers_iff.mp (hkeep hc)).2
    | false => exact hdeny hc
  refine receives_mono h fun hnone => ?_
  have hgroup : activeGroup D (db.editRole r.id body.write) (u.idents D) =
      activeGroup D db (u.idents D) := rfl
  rw [groupPrivileges, hgroup]
  rw [groupPrivileges] at hnone ⊢
  cases hag : activeGroup D db (u.idents D) with
  | none =>
    rw [hag] at hnone
    exact ⟨hnone, id⟩
  | some ag =>
    rw [hag] at hnone
    dsimp only at hnone ⊢
    rw [rolesOf_editRole body.write fun _ => rfl]
    refine ⟨?_, ?_⟩
    · intro p hp habout
      obtain ⟨r', hr', hp⟩ := List.mem_flatMap.mp hp
      obtain ⟨r₀, hr₀, rfl⟩ := List.mem_map.mp hr'
      split at hp
      · exact hnew p hp habout
      · exact hnone p (List.mem_flatMap.mpr ⟨r₀, hr₀, hp⟩) habout
    · intro hx
      obtain ⟨p, hp, habout⟩ := hx
      obtain ⟨r₀, hr₀, hp⟩ := List.mem_flatMap.mp hp
      by_cases hid : r₀.id = r.id
      · obtain ⟨ids, -, hmem₀, -⟩ := mem_rolesOf.mp hr₀
        obtain rfl : r₀ = r := List.inj_on_of_nodup_map hkeyed hmem₀ hmem hid
        have hconfers : roleConfers D.policy r₀.privileges BOOTSTRAP_ACTION = true :=
          roleConfers_iff.mpr ⟨⟨p, hp, habout⟩,
            fun q hq => hnone q (List.mem_flatMap.mpr ⟨r₀, hr₀, hq⟩)⟩
        obtain ⟨⟨q, hq, habout'⟩, -⟩ := roleConfers_iff.mp (hkeep hconfers)
        refine ⟨q, List.mem_flatMap.mpr ⟨body.write r₀, ?_, hq⟩, habout'⟩
        exact List.mem_map.mpr ⟨r₀, hr₀, if_pos rfl⟩
      · refine ⟨p, List.mem_flatMap.mpr ⟨r₀, ?_, hp⟩, habout⟩
        exact List.mem_map.mpr ⟨r₀, hr₀, if_neg hid⟩

theorem receives_deleteRole {roleId : Uuid} {r : AccessRole}
    (hkeyed : (db.roles.map (·.id)).Nodup) (hr : db.roles.find? (·.id = roleId) = some r)
    (hkeep : roleConfers D.policy r.privileges BOOTSTRAP_ACTION = false) :
    receives D (db.withoutRole roleId) BOOTSTRAP_ACTION u = true := by
  obtain ⟨hmem, rfl⟩ := (find?_key_iff hkeyed).mp hr
  refine receives_mono h fun hnone => ?_
  have hgroup : activeGroup D (db.withoutRole r.id) (u.idents D) =
      activeGroup D db (u.idents D) := rfl
  rw [groupPrivileges, hgroup]
  rw [groupPrivileges] at hnone ⊢
  cases hag : activeGroup D db (u.idents D) with
  | none =>
    rw [hag] at hnone
    exact ⟨hnone, id⟩
  | some ag =>
    rw [hag] at hnone
    dsimp only at hnone ⊢
    rw [rolesOf_withoutRole]
    refine ⟨?_, ?_⟩
    · intro p hp
      obtain ⟨r', hr', hp⟩ := List.mem_flatMap.mp hp
      exact hnone p (List.mem_flatMap.mpr ⟨r', List.mem_of_mem_filter hr', hp⟩)
    · intro hx
      obtain ⟨p, hp, habout⟩ := hx
      obtain ⟨r₀, hr₀, hp⟩ := List.mem_flatMap.mp hp
      by_cases hid : r₀.id = r.id
      · obtain ⟨ids, -, hmem₀, -⟩ := mem_rolesOf.mp hr₀
        obtain rfl : r₀ = r := List.inj_on_of_nodup_map hkeyed hmem₀ hmem hid
        have hconfers : roleConfers D.policy r₀.privileges BOOTSTRAP_ACTION = true :=
          roleConfers_iff.mpr ⟨⟨p, hp, habout⟩,
            fun q hq => hnone q (List.mem_flatMap.mpr ⟨r₀, hr₀, hq⟩)⟩
        rw [hkeep] at hconfers
        cases hconfers
      · exact ⟨p, List.mem_flatMap.mpr ⟨r₀, List.mem_filter.mpr ⟨hr₀, decide_eq_true hid⟩, hp⟩,
          habout⟩

end

/-! ## the step -/

theorem counted_of_takesAway {g : AccessGroup} {body : GroupBody}
    (htakes : takesAway P db g body = true)
    (h : assertGroupEditSurvivable P db g body.roleIds body.isActive BOOTSTRAP_ACTION = .ok ()) :
    assertNotLastHolder P db BOOTSTRAP_ACTION (membersOfGroup db g.id) = .ok () := by
  rw [takesAway, Bool.and_eq_true, Bool.not_eq_true', List.any_eq_true, List.any_eq_false] at htakes
  obtain ⟨⟨r, hr, hdrop⟩, hnone⟩ := htakes
  obtain ⟨hr, hconfers⟩ := List.mem_filter.mp hr
  rw [Bool.and_eq_true, decide_eq_true_eq, decide_eq_true_eq] at hdrop
  have hdropped : uuidText r.id ∈ g.roleIds.filter (· ∉ keptIds body.roleIds body.isActive) :=
    List.mem_filter.mpr ⟨hdrop.1, decide_eq_true hdrop.2⟩
  obtain ⟨ids, hids, -, -⟩ := mem_rolesOf.mp hr
  have hroles : groupRoles db g = .ok (rolesOf db g) := by
    rw [groupRoles, rolesOf, hids]
  have hlosing : (rolesOf db g).filter (fun r =>
      uuidText r.id ∈ g.roleIds.filter (· ∉ keptIds body.roleIds body.isActive) &&
        roleConfers P r.privileges BOOTSTRAP_ACTION) ≠ [] := by
    refine List.ne_nil_of_mem (List.mem_filter.mpr ⟨hr, ?_⟩)
    rw [hconfers, Bool.and_true]
    exact decide_eq_true hdropped
  have hstill : (rolesOf db g).filter (fun r =>
      uuidText r.id ∈ keptIds body.roleIds body.isActive &&
        roleConfers P r.privileges BOOTSTRAP_ACTION) = [] := by
    refine List.filter_eq_nil_iff.mpr fun r' hr' hx => ?_
    obtain ⟨hkept, hconfers'⟩ := Bool.and_eq_true_iff.mp hx
    exact hnone r' (List.mem_filter.mpr ⟨hr', hconfers'⟩) hkept
  rw [assertGroupEditSurvivable] at h
  dsimp only at h
  rw [if_neg (List.ne_nil_of_mem hdropped), hroles] at h
  obtain ⟨roles, hok, h⟩ := exists_of_bind_ok h
  cases hok
  rw [if_neg hlosing, if_neg (not_not_intro hstill)] at h
  exact h

theorem receives_seen {op : Op} (hkeyed : (db.roles.map (·.id)).Nodup) (hop : Seen D.policy db op)
    (hok : perform D.policy db op = .ok (db.written op)) {u : HelixUser}
    (h : receives D db BOOTSTRAP_ACTION u = true) :
    receives D (db.written op) BOOTSTRAP_ACTION u = true := by
  cases op with
  | removeMember groupId operatorId =>
    rw [perform] at hok
    by_cases hany : db.memberships.any (·.is groupId operatorId) = true
    · rw [if_pos hany] at hok
      obtain ⟨_, hpass, -⟩ := exists_of_bind_ok hok
      rw [(hop hany).refused] at hpass
      cases hpass
    · have hsame : db.written (.removeMember groupId operatorId) = db := by
        rw [if_neg hany] at hok
        exact (Except.ok.inj hok).symm
      rw [hsame]
      exact h
  | updateGroup groupId body =>
    rw [perform] at hok
    cases hg : db.groups.find? (·.id = groupId) with
    | none =>
      rw [hg] at hok
      cases hok
    | some g =>
      rw [hg] at hok
      obtain ⟨_, hpass, -⟩ := exists_of_bind_ok hok
      have hseen := hop g hg
      cases htakes : takesAway D.policy db g body with
      | true =>
        rw [if_pos htakes] at hseen
        have hcount := counted_of_takesAway htakes hpass
        rw [hseen.refused] at hcount
        cases hcount
      | false =>
        rw [if_neg (ne_true_of_eq_false htakes)] at hseen
        exact receives_updateGroup h hg htakes hseen
  | deleteGroup groupId => exact receives_unreached h fun hx => hx
  | suspend userId => exact hop.elim
  | updateRole roleId body =>
    rw [perform] at hok
    cases hr : db.roles.find? (·.id = roleId) with
    | none =>
      rw [hr] at hok
      cases hok
    | some r =>
      rw [hr] at hok
      obtain ⟨_, hpass, -⟩ := exists_of_bind_ok hok
      have hseen := hop r hr
      rw [assertRoleEditSurvivable] at hpass
      apply receives_updateRole h hkeyed hr
      · intro hconfers
        rw [if_pos hconfers] at hseen
        rcases hseen with hafter | hstripped
        · exact hafter
        · by_contra hafter
          rw [if_neg (by rw [hconfers]; decide), if_neg hafter, hstripped.refused] at hpass
          cases hpass
      · intro hconfers
        rw [if_neg (ne_true_of_eq_false hconfers)] at hseen
        exact hseen
  | deleteRole roleId =>
    rw [perform] at hok
    cases hr : db.roles.find? (·.id = roleId) with
    | none =>
      rw [hr] at hok
      have hsame : db.written (.deleteRole roleId) = db := (Except.ok.inj hok).symm
      rw [hsame]
      exact h
    | some r =>
      rw [hr] at hok
      obtain ⟨_, hpass, -⟩ := exists_of_bind_ok hok
      rw [assertRoleDeleteSurvivable] at hpass
      apply receives_deleteRole h hkeyed hr
      by_contra hconfers
      have hconfers := eq_true_of_ne_false hconfers
      rw [if_neg (by rw [hconfers]; decide), (hop r hr hconfers).refused] at hpass
      cases hpass

theorem mem_users_written {op : Op} {u : HelixUser} (hu : u ∈ db.users)
    (h : ∀ userId, op = .suspend userId → u.id ≠ userId) : u ∈ (db.written op).users := by
  cases op with
  | suspend userId =>
    exact List.mem_map.mpr ⟨u, hu, if_neg (h userId rfl)⟩
  | removeMember groupId operatorId => exact hu
  | updateGroup groupId body => exact hu
  | deleteGroup groupId => exact hu
  | updateRole roleId body => exact hu
  | deleteRole roleId => exact hu

/-- the rows of a table have ids of their own, and someone can grant access -/
structure InCharge (D : Deployment) (db : Db) : Prop where
  keyed : (db.roles.map (·.id)).Nodup
  receives : SomeoneReceives D db

theorem keyed_written (hkeyed : (db.roles.map (·.id)).Nodup) (op : Op) :
    ((db.written op).roles.map (·.id)).Nodup := by
  cases op with
  | updateRole roleId body =>
    have hids : (db.editRole roleId body.write).roles.map (·.id) = db.roles.map (·.id) := by
      rw [Db.editRole, List.map_map]
      refine List.map_congr_left fun r _ => ?_
      show (if r.id = roleId then body.write r else r).id = r.id
      split
      · rfl
      · rfl
    exact hids ▸ hkeyed
  | deleteRole roleId => exact hkeyed.sublist (List.filter_sublist.map _)
  | removeMember groupId operatorId => exact hkeyed
  | updateGroup groupId body => exact hkeyed
  | deleteGroup groupId => exact hkeyed
  | suspend userId => exact hkeyed

theorem step_inCharge (db : Db) (op : Op) (h : InCharge D db) (hb : Benign D db op) :
    InCharge D (step D.policy db op) := by
  rcases step_cases D.policy db op with hsame | ⟨hwritten, hok⟩
  · rw [hsame]
    exact h
  · rw [hwritten]
    refine ⟨keyed_written h.keyed op, ?_⟩
    rcases hb with ⟨u, hu, hrec, hunreached⟩ | hseen
    · refine ⟨u, mem_users_written hu ?_, receives_unreached hrec hunreached⟩
      intro userId hop hid
      subst hop
      exact hunreached hid
    · obtain ⟨u, hu, hrec⟩ := h.receives
      refine ⟨u, mem_users_written hu ?_, receives_seen h.keyed hseen hok hrec⟩
      intro userId hop
      subst hop
      exact hseen.elim

/-- after every run of benign writes, refused or made, someone can still grant access -/
theorem run_inCharge (D : Deployment) {db : Db} {ops : List Op} (h : InCharge D db)
    (hops : Along (step D.policy) (Benign D) db ops) :
    SomeoneReceives D (exec (step D.policy) db ops) :=
  (exec_inv step_inCharge h hops).receives

/-! ### one operator in charge -/

instance : ∀ (op : Op) (u : HelixUser), Decidable (Reaches D db op u)
  | .removeMember _ operatorId, u =>
    inferInstanceAs (Decidable (identOf db (u.idents D) = some operatorId))
  | .updateGroup groupId _, u =>
    inferInstanceAs (Decidable (∃ ag ∈ activeGroup D db (u.idents D), ag.id = groupId))
  | .deleteGroup _, _ => inferInstanceAs (Decidable False)
  | .suspend userId, u => inferInstanceAs (Decidable (u.id = userId))
  | .updateRole roleId _, u | .deleteRole roleId, u => inferInstanceAs
    (Decidable (∃ ag ∈ activeGroup D db (u.idents D), ∃ rid ∈ ag.roleIds, uuid rid = some roleId))

instance (P : Policy) (privs : List Privilege) : Decidable (NoDeny P privs) :=
  inferInstanceAs (Decidable (∀ p ∈ privs, (_ ∧ _) → _))

instance (P : Policy) (g : AccessGroup) (body : GroupBody) : Decidable (Readable P db g body) :=
  decidable_of_iff (_ ∧ _ ∧ _) ⟨fun h => ⟨h.1, h.2.1, h.2.2⟩, fun h => ⟨h.ids, h.noDeny, h.spelled⟩⟩

instance (P : Policy) (removing : List String) : Decidable (AllStripped P db removing) :=
  inferInstanceAs (Decidable (_ ∧ _))

instance (P : Policy) : ∀ op : Op, Decidable (Seen P db op)
  | .removeMember groupId operatorId => inferInstanceAs (Decidable
    (db.memberships.any (·.is groupId operatorId) = true → AllStripped P db [operatorId]))
  | .updateGroup groupId body => inferInstanceAs (Decidable
    (∀ g ∈ db.groups.find? (·.id = groupId), if takesAway P db g body
      then AllStripped P db (membersOfGroup db g.id) else Readable P db g body))
  | .deleteGroup _ => inferInstanceAs (Decidable True)
  | .suspend _ => inferInstanceAs (Decidable False)
  | .updateRole roleId body => inferInstanceAs (Decidable
    (∀ r ∈ db.roles.find? (·.id = roleId), if roleConfers P r.privileges BOOTSTRAP_ACTION
      then roleConfers P body.privileges BOOTSTRAP_ACTION = true ∨
        AllStripped P db (membersHoldingRole db r.id)
      else NoDeny P body.privileges))
  | .deleteRole roleId => inferInstanceAs (Decidable
    (∀ r ∈ db.roles.find? (·.id = roleId), roleConfers P r.privileges BOOTSTRAP_ACTION = true →
      AllStripped P db (membersHoldingRole db r.id)))

instance (op : Op) : Decidable (Benign D db op) := inferInstanceAs (Decidable (_ ∨ _))

instance : Decidable (SomeoneReceives D db) :=
  inferInstanceAs (Decidable (∃ u ∈ db.users, receives D db BOOTSTRAP_ACTION u = true))

def sampleDeployment : Deployment where
  policy := ⟨id, [⟨BOOTSTRAP_ACTION, ["admin"]⟩], fun _ => []⟩
  emailDomain := "local"
  scan := ⟨id, fun _ => .refl _⟩

/-- one operator grants access, through the membership row under `operatorId` -/
def oneInCharge (operatorId : String) : Db where
  users := [{ id := 1, username := "alice", email := "alice@example.org", roles := [] },
    { id := 2, username := "bob", email := "bob@example.org", roles := ["viewer"] }]
  directory := []
  roles := [{ id := 10, name := "granter", privileges := [⟨"identity.groups", ["write"], "allow"⟩] }]
  groups := [{ id := 20, name := "granters", portalId := 30, roleIds := [uuidText 10] }]
  memberships := [{ operatorId := operatorId, accessGroupId := 20 }]
  portals := [{ id := 30, name := "staff" }]

/-- by the id of the account: the guard refuses what it has to -/
theorem run_inCharge_by_id :
    SomeoneReceives sampleDeployment (exec (step sampleDeployment.policy) (oneInCharge (uuidText 1))
      [.removeMember 20 (uuidText 1), .updateRole 10 ⟨"granter", []⟩, .deleteRole 10,
        .updateGroup 20 ⟨"granters", 30, [], ["*"], ["*"], true⟩, .suspend 2, .deleteGroup 20]) := by
  apply run_inCharge
  · exact ⟨by decide, by decide +kernel⟩
  · decide +kernel

/-- by the username: the guard counts the account, and takes from somebody else -/
theorem removal_by_username_locks_out :
    SomeoneReceives sampleDeployment (oneInCharge "alice") ∧
      ¬ SomeoneReceives sampleDeployment
        (step sampleDeployment.policy (oneInCharge "alice") (.removeMember 20 "alice")) := by
  decide +kernel

end HxGuard
