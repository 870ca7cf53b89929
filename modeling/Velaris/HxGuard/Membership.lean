import Mathlib.Data.List.Find
import Velaris.HxGuard.Held
import Velaris.HxGuard.Rebac

/-!
# One membership at two gates

The login resolves the memberships of a user for the entries its requests carry, `RebacBackend`
resolves them again for the cases.

* `SameAtEveryGate`   an inactive group counts at neither gate, and both gates give a
    membership row to the same user;
* `OneIdentity`   the rows under the id of the user are the rows a login finds;
* `NothingDormantInEffect`   the group in effect is active, or giving it up changes no entry;
* `sameAtEveryGate_iff`   the first holds exactly when the other two do.
-/

namespace HxGuard
open Py Base

variable (D : Deployment) (db : Db) (user : AuthenticatedUser)

/-! ## the two gates -/

def requestUser : AuthenticatedUser := (enrich (D.session db) user).1

def carriedPrivileges : List Privilege :=
  ((requestUser D db user).activeAccessGroup.map (·.privileges)).getD []

def caseDecision (t : CaseTables) (generation : Nat) (action : String) (caseId : Option Uuid) :
    Decision :=
  rebacBackend D.policy t (subjectFromUser generation (requestUser D t.db user)) action caseId

def TheirsAtLogin (m : OperatorAccessGroup) : Prop :=
  ∃ rows, findMemberships (D.session db) user.identifiers = .ok rows ∧ m ∈ rows

/-- the row is the user's, in the join of the backend -/
def TheirsAtGate (m : OperatorAccessGroup) : Prop :=
  m ∈ db.memberships.filter (·.operatorId = user.userId)

def Dormant (m : OperatorAccessGroup) : Prop :=
  ∃ g ∈ db.groups, g.id = m.accessGroupId ∧ g.isActive = false

def CaseTables.withoutMember (t : CaseTables) (groupId : Uuid) (operatorId : String) : CaseTables :=
  { t with db := t.db.withoutMember groupId operatorId }

structure SameAtEveryGate (t : CaseTables) : Prop where
  entries : ∀ m ∈ t.db.memberships, Dormant t.db m → carriedPrivileges D t.db user =
    carriedPrivileges D (t.db.withoutMember m.accessGroupId m.operatorId) user
  access : ∀ m ∈ t.db.memberships, Dormant t.db m → ∀ generation action caseId,
    caseDecision D user t generation action caseId =
      caseDecision D user (t.withoutMember m.accessGroupId m.operatorId) generation action caseId
  belongs : ∀ m ∈ t.db.memberships, TheirsAtLogin D t.db user m ↔ TheirsAtGate t.db user m

/-! ## when they agree -/

def hasRows (i : String) : Bool := db.memberships.any (·.operatorId = i)

/-- rows under the id of the user are found under it, and otherwise there are none -/
def OneIdentity : Prop :=
  if hasRows db user.userId then user.userId ≠ ""
  else ∀ i ∈ user.identifiers, hasRows db i = false

def entriesAmong (rows : List OperatorAccessGroup) : List Privilege :=
  if rows = [] then []
  else
    match db.groups.find? (some ·.id = activeGroupId (directoryOf db user.identifiers) rows) with
    | some ag => (rolesOf db ag).flatMap (·.privileges)
    | none => []

/-- the rows a login would find without a group: the others under the id of the user, and where
there are none, those under another name -/
def rowsWithout (groupId : Uuid) : List OperatorAccessGroup :=
  let left := (D.scan.order (db.memberships.filter (·.operatorId = user.userId))).filter
    (·.accessGroupId ≠ groupId)
  if left = [] then rowsOf D db (user.identifiers.filter (· ≠ user.userId)) else left

def NothingDormantInEffect : Prop :=
  ∀ ag, activeGroup D db user.identifiers = some ag → ag.isActive = false →
    (rolesOf db ag).flatMap (·.privileges) = entriesAmong db user (rowsWithout D db user ag.id)

variable {D db user}

theorem groupPrivileges_eq :
    groupPrivileges D db user.identifiers =
      entriesAmong db user (rowsOf D db user.identifiers) := by
  rw [groupPrivileges, activeGroup, entriesAmong]
  by_cases hnil : rowsOf D db user.identifiers = []
  · rw [if_pos hnil, if_pos hnil]
  · cases db.groups.find? (some ·.id = activeGroupId (directoryOf db user.identifiers)
        (rowsOf D db user.identifiers)) with
    | none => simp [hnil]
    | some ag => simp [hnil]

theorem identOf_of_oneIdentity (h : OneIdentity db user) :
    identOf db user.identifiers = if hasRows db user.userId then some user.userId else none := by
  rw [OneIdentity] at h
  by_cases hrows : hasRows db user.userId = true
  · rw [if_pos hrows] at h ⊢
    have hfirst : user.identifiers =
        user.userId :: [user.username, user.email].filter (· ≠ "") := by
      rw [AuthenticatedUser.identifiers]
      exact List.filter_cons_of_pos (decide_eq_true h)
    rw [hfirst]
    exact List.find?_cons_of_pos hrows
  · rw [if_neg hrows] at h ⊢
    apply List.find?_eq_none.mpr
    intro i hi
    have hnone : (db.memberships.any fun m => m.operatorId = i) = false := h i hi
    rw [hnone]
    exact Bool.false_ne_true

/-! ## whose row it is -/

theorem mem_rowsOf {idents : List String} {m : OperatorAccessGroup} :
    m ∈ rowsOf D db idents ↔ m ∈ db.memberships ∧ identOf db idents = some m.operatorId := by
  rw [rowsOf]
  cases identOf db idents with
  | none => simp
  | some i =>
    dsimp only
    rw [(D.scan.perm _).mem_iff, List.mem_filter, decide_eq_true_eq, Option.some.injEq, eq_comm]

theorem theirsAtLogin_iff {m : OperatorAccessGroup} (hm : m ∈ db.memberships) :
    TheirsAtLogin D db user m ↔ identOf db user.identifiers = some m.operatorId := by
  rw [TheirsAtLogin, findMemberships_eq]
  constructor
  · intro h
    obtain ⟨rows, heq, hmem⟩ := h
    cases heq
    exact (mem_rowsOf.mp hmem).2
  · intro h
    exact ⟨_, rfl, mem_rowsOf.mpr ⟨hm, h⟩⟩

theorem theirsAtGate_iff {m : OperatorAccessGroup} (hm : m ∈ db.memberships) :
    TheirsAtGate db user m ↔ m.operatorId = user.userId := by
  rw [TheirsAtGate, List.mem_filter, decide_eq_true_eq]
  exact and_iff_right hm

theorem belongs_iff :
    (∀ m ∈ db.memberships, TheirsAtLogin D db user m ↔ TheirsAtGate db user m) ↔
      OneIdentity db user := by
  constructor
  · intro h
    rw [OneIdentity]
    by_cases hrows : hasRows db user.userId = true
    · rw [if_pos hrows]
      obtain ⟨m, hm, hop⟩ := List.any_eq_true.mp hrows
      have hop : m.operatorId = user.userId := of_decide_eq_true hop
      have hident := (theirsAtLogin_iff hm).mp ((h m hm).mpr ((theirsAtGate_iff hm).mpr hop))
      have hmem : m.operatorId ∈ user.identifiers := List.mem_of_find?_eq_some hident
      rw [← hop]
      exact of_decide_eq_true (List.mem_filter.mp hmem).2
    · rw [if_neg hrows]
      intro i hi
      apply eq_false_of_ne_true
      intro hany
      -- the first identifier with rows, whose rows the login counts
      obtain ⟨j, hj⟩ := Option.isSome_iff_exists.mp (List.find?_isSome.mpr ⟨i, hi, hany⟩)
      have hfound : hasRows db j = true := List.find?_some hj
      obtain ⟨m, hm, hop⟩ := List.any_eq_true.mp hfound
      have hop : m.operatorId = j := of_decide_eq_true hop
      have htheirs : TheirsAtLogin D db user m := (theirsAtLogin_iff hm).mpr (by rw [hop]; exact hj)
      have hgate := (theirsAtGate_iff hm).mp ((h m hm).mp htheirs)
      exact hrows (List.any_eq_true.mpr ⟨m, hm, decide_eq_true hgate⟩)
  · intro h m hm
    rw [theirsAtLogin_iff hm, theirsAtGate_iff hm, identOf_of_oneIdentity h]
    by_cases hrows : hasRows db user.userId = true
    · rw [if_pos hrows]
      constructor
      · intro hx
        exact (Option.some.inj hx).symm
      · intro hx
        rw [hx]
    · rw [if_neg hrows]
      constructor
      · intro hx
        cases hx
      · intro hx
        exact absurd (List.any_eq_true.mpr ⟨m, hm, decide_eq_true hx⟩) hrows

/-! ## what a removal leaves -/

theorem activeGroupId_filter {dirRow : Option UserDirectory} {rows : List OperatorAccessGroup}
    {k groupId : Uuid} (h : activeGroupId dirRow rows = some k) (hne : k ≠ groupId) :
    activeGroupId dirRow (rows.filter (·.accessGroupId ≠ groupId)) = some k := by
  have hsub : ∀ i, i ∈ (rows.filter (·.accessGroupId ≠ groupId)).map (·.accessGroupId) →
      i ∈ rows.map (·.accessGroupId) :=
    fun i hi => (List.filter_sublist.map _).subset hi
  have hkept : ∀ r : OperatorAccessGroup, r.accessGroupId = k →
      decide (r.accessGroupId ≠ groupId) = true :=
    fun r hr => decide_eq_true (hr ▸ hne)
  rw [activeGroupId] at h ⊢
  cases hcurrent : (dirRow.bind (·.currentAccessGroupId)).filter
      (· ∈ rows.map (·.accessGroupId)) with
  | some i =>
    rw [hcurrent] at h
    cases h
    obtain ⟨hdir, hin⟩ := Option.filter_eq_some_iff.mp hcurrent
    obtain ⟨r, hr, hri⟩ := List.mem_map.mp (of_decide_eq_true hin)
    have hin' : k ∈ (rows.filter (·.accessGroupId ≠ groupId)).map (·.accessGroupId) :=
      List.mem_map.mpr ⟨r, List.mem_filter.mpr ⟨hr, hkept r hri⟩, hri⟩
    have hleft : (dirRow.bind (·.currentAccessGroupId)).filter
        (· ∈ (rows.filter (·.accessGroupId ≠ groupId)).map (·.accessGroupId)) = some k :=
      Option.filter_eq_some_iff.mpr ⟨hdir, decide_eq_true hin'⟩
    rw [hleft]
  | none =>
    rw [hcurrent] at h
    have hleft : (dirRow.bind (·.currentAccessGroupId)).filter
        (· ∈ (rows.filter (·.accessGroupId ≠ groupId)).map (·.accessGroupId)) = none := by
      rw [Option.filter_eq_none_iff] at hcurrent ⊢
      intro i hi hin
      exact hcurrent i hi (decide_eq_true (hsub i (of_decide_eq_true hin)))
    rw [hleft]
    dsimp only at h ⊢
    cases hprimary : rows.find? (·.isPrimary) with
    | some r =>
      rw [hprimary] at h
      have hk : r.accessGroupId = k := Option.some.inj h
      rw [find?_filter_of_found hprimary (hkept r hk)]
      exact congrArg some hk
    | none =>
      rw [hprimary] at h
      have hnone : (rows.filter (·.accessGroupId ≠ groupId)).find? (·.isPrimary) = none := by
        rw [List.find?_eq_none] at hprimary ⊢
        exact fun r hr => hprimary r (List.mem_of_mem_filter hr)
      rw [hnone]
      cases rows with
      | nil => cases h
      | cons r rest =>
        have hk : r.accessGroupId = k := Option.some.inj h
        have hcons : (r :: rest).filter (·.accessGroupId ≠ groupId) =
            r :: rest.filter (·.accessGroupId ≠ groupId) := List.filter_cons_of_pos (hkept r hk)
        rw [hcons]
        exact congrArg some hk

theorem hasRows_withoutMember {groupId : Uuid} {operatorId i : String} (hi : i ≠ operatorId) :
    hasRows (db.withoutMember groupId operatorId) i = hasRows db i := by
  rw [Bool.eq_iff_iff]
  show (db.memberships.filter _).any _ = true ↔ db.memberships.any _ = true
  rw [List.any_filter, List.any_eq_true, List.any_eq_true]
  refine exists_congr fun m => and_congr_right fun _ => ?_
  by_cases hm : m.operatorId = i
  · simp [OperatorAccessGroup.is, hm, hi]
  · simp [hm]

theorem memberships_withoutMember {groupId : Uuid} {operatorId i : String} (hi : i ≠ operatorId) :
    (db.withoutMember groupId operatorId).memberships.filter (·.operatorId = i) =
      db.memberships.filter (·.operatorId = i) := by
  rw [Db.withoutMember, List.filter_filter]
  refine List.filter_congr fun m _ => ?_
  by_cases hm : m.operatorId = i
  · simp [OperatorAccessGroup.is, hm, hi]
  · simp [hm]

theorem rowsOf_withoutOwn (hstable : D.scan.Stable) {groupId : Uuid}
    (hident : identOf db user.identifiers = some user.userId) :
    rowsOf D (db.withoutMember groupId user.userId) user.identifiers =
      rowsWithout D db user groupId := by
  have hleft : D.scan.order ((db.withoutMember groupId user.userId).memberships.filter
      (·.operatorId = user.userId)) =
      (D.scan.order (db.memberships.filter (·.operatorId = user.userId))).filter
        (·.accessGroupId ≠ groupId) := by
    rw [← hstable, Db.withoutMember, List.filter_filter, List.filter_filter]
    refine congrArg D.scan.order (List.filter_congr fun m _ => ?_)
    by_cases hm : m.operatorId = user.userId
    · simp [OperatorAccessGroup.is, hm]
    · simp [hm]
  rw [rowsWithout, ← hleft]
  by_cases hrows : hasRows (db.withoutMember groupId user.userId) user.userId = true
  · have hsame : ∀ i ∈ user.identifiers,
        hasRows (db.withoutMember groupId user.userId) i = hasRows db i := by
      intro i hi
      by_cases hu : i = user.userId
      · have hfound : hasRows db user.userId = true := List.find?_some hident
        rw [hu, hrows, hfound]
      · exact hasRows_withoutMember hu
    have hident' : identOf (db.withoutMember groupId user.userId) user.identifiers =
        some user.userId := (List.find?_congr hsame).trans hident
    have hne : D.scan.order ((db.withoutMember groupId user.userId).memberships.filter
        (·.operatorId = user.userId)) ≠ [] := by
      intro hx
      rw [order_eq_nil, filter_operator_eq_nil] at hx
      exact Bool.false_ne_true (hx.symm.trans hrows)
    rw [if_neg hne, rowsOf, hident']
  · have hnone : (db.withoutMember groupId user.userId).memberships.any
        (·.operatorId = user.userId) = false := eq_false_of_ne_true hrows
    have hident' : identOf (db.withoutMember groupId user.userId) user.identifiers =
        identOf db (user.identifiers.filter (· ≠ user.userId)) := by
      rw [identOf, identOf, List.find?_filter]
      apply List.find?_congr
      intro i _
      by_cases hu : i = user.userId
      · simp [hu, hnone]
      · have hi : (db.withoutMember groupId user.userId).memberships.any (·.operatorId = i) =
            db.memberships.any (·.operatorId = i) := hasRows_withoutMember hu
        rw [hi]
        simp only [decide_eq_true hu, true_and, Bool.decide_eq_true]
    rw [if_pos (order_eq_nil.mpr (filter_operator_eq_nil.mpr hnone)), rowsOf, rowsOf, hident']
    cases hi : identOf db (user.identifiers.filter (· ≠ user.userId)) with
    | none => rfl
    | some i =>
      have hmem := List.mem_of_find?_eq_some hi
      have hu : i ≠ user.userId := of_decide_eq_true (List.mem_filter.mp hmem).2
      exact congrArg D.scan.order (memberships_withoutMember hu)

/-! ## the entries -/

theorem entriesAmong_withoutMember (groupId : Uuid) (operatorId : String)
    (rows : List OperatorAccessGroup) :
    entriesAmong (db.withoutMember groupId operatorId) user rows = entriesAmong db user rows := rfl

theorem activeGroupId_mem {dirRow : Option UserDirectory} {rows : List OperatorAccessGroup}
    {k : Uuid} (h : activeGroupId dirRow rows = some k) : ∃ r ∈ rows, r.accessGroupId = k := by
  rw [activeGroupId] at h
  cases hcurrent : (dirRow.bind (·.currentAccessGroupId)).filter
      (· ∈ rows.map (·.accessGroupId)) with
  | some i =>
    rw [hcurrent] at h
    cases h
    have hin := (Option.filter_eq_some_iff.mp hcurrent).2
    exact List.mem_map.mp (of_decide_eq_true hin)
  | none =>
    rw [hcurrent] at h
    obtain ⟨r, hr, hk⟩ := Option.map_eq_some_iff.mp h
    rcases Option.or_eq_some_iff.mp hr with hfound | ⟨-, hhead⟩
    · exact ⟨r, List.mem_of_find?_eq_some hfound, hk⟩
    · exact ⟨r, List.mem_of_head? hhead, hk⟩

theorem exists_activeGroupId {dirRow : Option UserDirectory} {rows : List OperatorAccessGroup}
    (h : rows ≠ []) : ∃ k, activeGroupId dirRow rows = some k := by
  obtain ⟨r, rest, rfl⟩ := List.exists_cons_of_ne_nil h
  rw [activeGroupId]
  cases (dirRow.bind (·.currentAccessGroupId)).filter
      (· ∈ (r :: rest).map (·.accessGroupId)) with
  | some i => exact ⟨i, rfl⟩
  | none =>
    cases (r :: rest).find? (·.isPrimary) with
    | some p => exact ⟨p.accessGroupId, rfl⟩
    | none => exact ⟨r.accessGroupId, rfl⟩

theorem activeGroup_eq_some {ag : AccessGroup} :
    activeGroup D db user.identifiers = some ag ↔ rowsOf D db user.identifiers ≠ [] ∧
      db.groups.find? (some ·.id = activeGroupId (directoryOf db user.identifiers)
        (rowsOf D db user.identifiers)) = some ag := by
  rw [activeGroup]
  by_cases hnil : rowsOf D db user.identifiers = []
  · simp [hnil]
  · rw [if_neg hnil]
    exact (and_iff_right hnil).symm

theorem groupPrivileges_of_active {ag : AccessGroup}
    (h : activeGroup D db user.identifiers = some ag) :
    groupPrivileges D db user.identifiers = (rolesOf db ag).flatMap (·.privileges) := by
  rw [groupPrivileges, h]

theorem entriesAmong_filter {rows : List OperatorAccessGroup} {k groupId : Uuid}
    (hk : activeGroupId (directoryOf db user.identifiers) rows = some k) (hne : k ≠ groupId) :
    entriesAmong db user (rows.filter (·.accessGroupId ≠ groupId)) = entriesAmong db user rows := by
  have hleft := activeGroupId_filter hk hne
  have hnil : rows ≠ [] := by
    obtain ⟨r, hr, -⟩ := activeGroupId_mem hk
    exact List.ne_nil_of_mem hr
  have hnil' : rows.filter (·.accessGroupId ≠ groupId) ≠ [] := by
    obtain ⟨r, hr, -⟩ := activeGroupId_mem hleft
    exact List.ne_nil_of_mem hr
  rw [entriesAmong, entriesAmong, if_neg hnil, if_neg hnil', hk, hleft]

theorem entries_iff (hstable : D.scan.Stable) (hkeys : (db.groups.map (·.id)).Nodup)
    (hone : OneIdentity db user) :
    (∀ m ∈ db.memberships, Dormant db m → groupPrivileges D db user.identifiers =
      groupPrivileges D (db.withoutMember m.accessGroupId m.operatorId) user.identifiers) ↔
      NothingDormantInEffect D db user := by
  have hown : ∀ i, identOf db user.identifiers = some i → i = user.userId := by
    intro i hi
    rw [identOf_of_oneIdentity hone] at hi
    split at hi
    · exact (Option.some.inj hi).symm
    · cases hi
  constructor
  · intro h ag hag hinactive
    obtain ⟨-, hfind⟩ := activeGroup_eq_some.mp hag
    have hfound := List.find?_some hfind
    have hid : some ag.id = activeGroupId (directoryOf db user.identifiers)
      (rowsOf D db user.identifiers) := of_decide_eq_true hfound
    obtain ⟨m, hm, hgroup⟩ := activeGroupId_mem hid.symm
    obtain ⟨hmem, hident⟩ := mem_rowsOf.mp hm
    have hop := hown _ hident
    have hdormant : Dormant db m := ⟨ag, List.mem_of_find?_eq_some hfind, hgroup.symm, hinactive⟩
    have hsame := h m hmem hdormant
    rw [groupPrivileges_of_active hag, groupPrivileges_eq, entriesAmong_withoutMember, hop, hgroup,
      rowsOf_withoutOwn hstable (hop ▸ hident)] at hsame
    exact hsame
  · intro h m hm hdormant
    rw [groupPrivileges_eq, groupPrivileges_eq, entriesAmong_withoutMember]
    by_cases hident : identOf db user.identifiers = some m.operatorId
    · have hop := hown _ hident
      rw [hop] at hident ⊢
      have hmrows : m ∈ rowsOf D db user.identifiers := mem_rowsOf.mpr ⟨hm, hop ▸ hident⟩
      rw [rowsOf_withoutOwn hstable hident]
      obtain ⟨k, hk⟩ := @exists_activeGroupId (directoryOf db user.identifiers) _
        (List.ne_nil_of_mem hmrows)
      by_cases hkm : k = m.accessGroupId
      · -- the inactive group is the one in effect
        obtain ⟨g, hg, hid, hinactive⟩ := hdormant
        have hfind : db.groups.find? (some ·.id = activeGroupId (directoryOf db user.identifiers)
            (rowsOf D db user.identifiers)) = some g := by
          apply find?_eq_of_unique hg
          · rw [hk, hkm, hid]
            exact decide_eq_true rfl
          · intro g' hg' hsame
            have hsame : some g'.id = activeGroupId (directoryOf db user.identifiers)
              (rowsOf D db user.identifiers) := of_decide_eq_true hsame
            rw [hk, hkm, ← hid, Option.some.injEq] at hsame
            exact List.inj_on_of_nodup_map hkeys hg' hg hsame
        have hag := activeGroup_eq_some.mpr ⟨List.ne_nil_of_mem hmrows, hfind⟩
        have hentries := h g hag hinactive
        rw [← groupPrivileges_of_active hag, groupPrivileges_eq, hid] at hentries
        exact hentries
      · have hrows : rowsOf D db user.identifiers =
            D.scan.order (db.memberships.filter (·.operatorId = user.userId)) := by
          rw [rowsOf, hident]
        have hkept := @entriesAmong_filter db user _ _ m.accessGroupId hk hkm
        obtain ⟨r, hr, -⟩ := activeGroupId_mem (activeGroupId_filter hk hkm)
        rw [rowsWithout, ← hrows, if_neg (List.ne_nil_of_mem hr), hkept]
    · rw [rowsOf_withoutMember hident]

/-! ## the cases -/

theorem flatMap_filter_of_nil {α β : Type} {f : α → List β} {p : α → Bool} {xs : List α}
    (h : ∀ x ∈ xs, p x = false → f x = []) : (xs.filter p).flatMap f = xs.flatMap f := by
  induction xs with
  | nil => rfl
  | cons x xs ih =>
    have htail := ih fun y hy => h y (List.mem_cons_of_mem x hy)
    rw [List.filter_cons, List.flatMap_cons]
    cases hp : p x with
    | true => rw [if_pos rfl, List.flatMap_cons, htail]
    | false => rw [if_neg Bool.false_ne_true, h x List.mem_cons_self hp, htail, List.nil_append]

theorem activeGroupsOf_withoutMember (hkeys : (db.groups.map (·.id)).Nodup)
    {m : OperatorAccessGroup} (hdormant : Dormant db m) (operatorId userId : String) :
    activeGroupsOf (db.withoutMember m.accessGroupId operatorId) userId =
      activeGroupsOf db userId := by
  obtain ⟨g, hg, hid, hinactive⟩ := hdormant
  rw [activeGroupsOf, activeGroupsOf, Db.withoutMember, List.filter_comm]
  apply flatMap_filter_of_nil
  intro r _ hgone
  have hgroup : r.accessGroupId = m.accessGroupId := by
    rw [Bool.not_eq_false', OperatorAccessGroup.is, Bool.and_eq_true] at hgone
    exact of_decide_eq_true hgone.2
  apply List.filter_eq_nil_iff.mpr
  intro g' hg' hjoined
  rw [Bool.and_eq_true, decide_eq_true_eq] at hjoined
  have hsame : g' = g := List.inj_on_of_nodup_map hkeys hg' hg (by rw [hjoined.1, hgroup, hid])
  rw [hsame, hinactive] at hjoined
  exact Bool.false_ne_true hjoined.2

theorem rebacBackend_withoutMember {P : Policy} {t : CaseTables}
    (hkeys : (t.db.groups.map (·.id)).Nodup) {m : OperatorAccessGroup} (hdormant : Dormant t.db m)
    (operatorId : String) (subject : Subject) (action : String) (caseId : Option Uuid) :
    rebacBackend P (t.withoutMember m.accessGroupId operatorId) subject action caseId =
      rebacBackend P t subject action caseId := by
  have hgroups := activeGroupsOf_withoutMember hkeys hdormant operatorId subject.id
  have htuples : ∀ caseId relations,
      groupTupleAllows (t.withoutMember m.accessGroupId operatorId) caseId relations subject.id =
        groupTupleAllows t caseId relations subject.id := by
    intro caseId relations
    rw [groupTupleAllows, groupTupleAllows, CaseTables.withoutMember]
    dsimp only
    rw [hgroups]
    rfl
  have hscope : ∀ caseTypeId,
      accessGroupAllows (t.withoutMember m.accessGroupId operatorId) subject.id caseTypeId =
        accessGroupAllows t subject.id caseTypeId := by
    intro caseTypeId
    rw [accessGroupAllows, accessGroupAllows, CaseTables.withoutMember]
    dsimp only
    rw [hgroups]
  rw [rebacBackend, rebacBackend]
  simp only [htuples, hscope]
  rfl

theorem caseDecision_eq {t t' : CaseTables} (hfresh : user.activeAccessGroup = none)
    (hentries : carriedPrivileges D t.db user = carriedPrivileges D t'.db user)
    (hbackend : ∀ subject action caseId, rebacBackend D.policy t' subject action caseId =
      rebacBackend D.policy t subject action caseId)
    (generation : Nat) (action : String) (caseId : Option Uuid) :
    caseDecision D user t generation action caseId =
      caseDecision D user t' generation action caseId := by
  have hsubject : subjectFromUser generation (requestUser D t.db user) =
      subjectFromUser generation (requestUser D t'.db user) := by
    have hroles : (requestUser D t.db user).roles = (requestUser D t'.db user).roles :=
      (@enrich_eq D t.db user hfresh).1.trans (@enrich_eq D t'.db user hfresh).1.symm
    have hid : (requestUser D t.db user).userId = (requestUser D t'.db user).userId :=
      (enrich_userId _ _).trans (enrich_userId _ _).symm
    have hprivileges : ((requestUser D t.db user).activeAccessGroup.map (·.privileges)).getD [] =
        ((requestUser D t'.db user).activeAccessGroup.map (·.privileges)).getD [] := hentries
    rw [subjectFromUser, subjectFromUser, hroles, hid, hprivileges]
  rw [caseDecision, caseDecision, hbackend, hsubject]

/-- the gates agree exactly when a login goes by the id of the user, and the group it puts in
effect is active or makes no difference -/
theorem sameAtEveryGate_iff (D : Deployment) (t : CaseTables) (user : AuthenticatedUser)
    (hfresh : user.activeAccessGroup = none) (hkeys : (t.db.groups.map (·.id)).Nodup)
    (hstable : D.scan.Stable) :
    SameAtEveryGate D user t ↔
      OneIdentity t.db user ∧ NothingDormantInEffect D t.db user := by
  have hcarried : ∀ db, carriedPrivileges D db user = groupPrivileges D db user.identifiers :=
    fun db => (@enrich_eq D db user hfresh).2
  constructor
  · intro h
    have hone : OneIdentity t.db user := belongs_iff.mp h.belongs
    refine ⟨hone, (entries_iff hstable hkeys hone).mp fun m hm hdormant => ?_⟩
    rw [← hcarried, ← hcarried]
    exact h.entries m hm hdormant
  · intro h
    obtain ⟨hone, hnothing⟩ := h
    have hentries : ∀ m ∈ t.db.memberships, Dormant t.db m → carriedPrivileges D t.db user =
        carriedPrivileges D (t.db.withoutMember m.accessGroupId m.operatorId) user := by
      intro m hm hdormant
      rw [hcarried, hcarried]
      exact (entries_iff hstable hkeys hone).mpr hnothing m hm hdormant
    refine ⟨hentries, ?_, belongs_iff.mpr hone⟩
    intro m hm hdormant generation action caseId
    exact caseDecision_eq hfresh (hentries m hm hdormant)
      (rebacBackend_withoutMember hkeys hdormant m.operatorId) generation action caseId

/-! ### an operator of two groups -/

instance : Decidable (OneIdentity db user) := inferInstanceAs (Decidable
  (if hasRows db user.userId then user.userId ≠ ""
    else ∀ i ∈ user.identifiers, hasRows db i = false))

instance : Decidable (NothingDormantInEffect D db user) :=
  inferInstanceAs (Decidable (∀ ag ∈ activeGroup D db user.identifiers, _ → _))

instance (m : OperatorAccessGroup) : Decidable (Dormant db m) :=
  inferInstanceAs (Decidable (∃ g ∈ db.groups, _))

def twoGroups : CaseTables where
  db := { oneInCharge (uuidText 1) with
    groups := [{ id := 20, name := "granters", portalId := 30, roleIds := [uuidText 10] },
      { id := 21, name := "archive", portalId := 30, roleIds := [], isActive := false }]
    memberships := [{ operatorId := uuidText 1, accessGroupId := 21 },
      { operatorId := uuidText 1, accessGroupId := 20, isPrimary := true }] }
  cases := [{ id := 40, caseTypeId := 41, createdBy := none }]
  tuples := []

def alice : AuthenticatedUser where
  userId := uuidText 1
  username := "alice"
  email := "alice@local"

theorem sameAtEveryGate_twoGroups : SameAtEveryGate sampleDeployment alice twoGroups := by
  apply (sameAtEveryGate_iff sampleDeployment twoGroups alice rfl ?_ ?_).mpr
  · decide +kernel
  · decide
  · intro p rows
    rfl

/-- a login goes on with an inactive group, and finds rows under a username, which the backend does
not -/
theorem gates_disagree :
    ¬ SameAtEveryGate sampleDeployment alice
        ⟨(oneInCharge (uuidText 1)).editGroup 20 AccessGroup.deactivate, [], []⟩ ∧
      ¬ SameAtEveryGate sampleDeployment alice ⟨oneInCharge "alice", [], []⟩ := by
  constructor
  · intro h
    have hsame := h.entries ⟨uuidText 1, 20, false⟩ (by decide) (by decide)
    revert hsame
    decide +kernel
  · intro h
    have hrow : (⟨"alice", 20, false⟩ : OperatorAccessGroup) ∈
        (oneInCharge "alice").memberships := by decide
    have hlogin : TheirsAtLogin sampleDeployment (oneInCharge "alice") alice ⟨"alice", 20, false⟩ :=
      (theirsAtLogin_iff hrow).mpr (by decide +kernel)
    have hgate := (theirsAtGate_iff hrow).mp ((h.belongs _ hrow).mp hlogin)
    revert hgate
    decide +kernel

end HxGuard
