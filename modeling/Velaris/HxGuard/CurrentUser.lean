import Velaris.HxGuard.Held

/-!
# The current user of a request

`get_current_user` of `auth/dependencies.py`: the token, the enrichment, and the check that the
session is not revoked and the account not suspended.

* `getCurrentUser`   the user that reaches the route, or the refusal;
* `Barred`   the token is in the loaded revoked set, or the account is inactive;
* `Enrichable`   the tables are such that the enrichment raises nothing;
* `neverAdmitted_iff`   when a barred request is refused.

The check stands in one block with the enrichment, and what that block raises is swallowed.
-/

namespace HxGuard
open Py Base

/-! ## tokens -/

structure Claims where
  sub : Option String := none
  preferredUsername : Option String := none
  name : Option String := none
  email : Option String := none
  realmRoles : List String := []
  resourceRoles : List (List String) := []
  roles : List String := []
  groups : List String := []
  department : Option String := none
  /-- empty where the token has no such claim -/
  tokenUse : String := ""

def extractUserFromClaims (token : String) (claims : Claims) : AuthenticatedUser where
  userId := claims.sub.getD "unknown"
  username := (claims.preferredUsername.or claims.name).getD ""
  email := claims.email.getD ""
  roles := (claims.realmRoles ++ claims.resourceRoles.flatten ++ claims.roles).dedup
  groups := claims.groups
  department := claims.department.getD ""
  token := token

structure AuthService where
  decodeJwtToken : String → Option Claims
  sha256 : String → String

/-! ## the check -/

structure RevokedSession where
  tokenHash : String
  expiresAt : Int

structure RevokedCache where
  hashes : List String := []
  loadedAt : ℚ := 0

def REVOKED_CACHE_TTL : ℚ := 30

structure Moment where
  utc : Int
  monotonic : ℚ

def refreshRevokedCache (s : Session) (stored : List RevokedSession) (moment : Moment) :
    Except Failure RevokedCache := do
  let rows ← s.ask .revoked (stored.filter (moment.utc < ·.expiresAt))
  return { hashes := rows.map (·.tokenHash), loadedAt := moment.monotonic }

/-- the cache the check consults; a renewal that fails is given up -/
def loadedCache (s : Session) (stored : List RevokedSession) (moment : Moment)
    (cache : RevokedCache) : RevokedCache :=
  if REVOKED_CACHE_TTL < moment.monotonic - cache.loadedAt then
    ((refreshRevokedCache s stored moment).toOption).getD cache
  else cache

def findAccount (s : Session) (userId : String) : Except Failure (Option HelixUser) :=
  match uuid userId with
  | none => .error .badUuid
  | some id => s.ask .account (s.db.users.find? (·.id = id))

/-- the refusal, where there is one; a lookup that fails does not block -/
def securityCheck (A : AuthService) (s : Session) (user : AuthenticatedUser) (rawToken : String)
    (cache : RevokedCache) : Option HttpError :=
  if A.sha256 rawToken ∈ cache.hashes then some ⟨401, "Session has been revoked"⟩
  else
    match findAccount s user.userId with
    | .ok (some hu) =>
      if hu.isActive then none
      else some ⟨401, "Account is suspended. Contact your administrator."⟩
    | .ok none | .error _ => none

/-! ## the request -/

structure Connection where
  attached : Bool := false
  /-- else the factory gives one -/
  opens : Bool := true
  closes : Bool := true

structure Request where
  credentials : Option String
  connection : Connection := {}
  moment : Moment

/-- what a process and its database hold when the request comes -/
structure AuthState where
  session : Session
  stored : List RevokedSession
  cache : RevokedCache

def enrichAndCheck (A : AuthService) (σ : AuthState) (moment : Moment) (rawToken : String)
    (user : AuthenticatedUser) : AuthenticatedUser × RevokedCache × Option HttpError :=
  match enrich σ.session user with
  | (user, some _) => (user, σ.cache, none)
  | (user, none) =>
    let cache := loadedCache σ.session σ.stored moment σ.cache
    (user, cache, securityCheck A σ.session user rawToken cache)

/-- the same on the session of the request; no error but a refusal leaves the block -/
def withSession (A : AuthService) (σ : AuthState) (request : Request) (rawToken : String)
    (user : AuthenticatedUser) : AuthenticatedUser × RevokedCache × Option HttpError :=
  if request.connection.attached then enrichAndCheck A σ request.moment rawToken user
  else if !request.connection.opens then (user, σ.cache, none)
  else
    match enrichAndCheck A σ request.moment rawToken user with
    | (user, cache, refusal) =>
      (user, cache, if request.connection.closes then refusal else none)

def getCurrentUser (A : AuthService) (σ : AuthState) (request : Request) :
    RevokedCache × Except HttpError AuthenticatedUser :=
  match request.credentials with
  | none => (σ.cache, .error ⟨401, "Authentication required"⟩)
  | some rawToken =>
    match A.decodeJwtToken rawToken with
    | none => (σ.cache, .error ⟨401, "Invalid or expired token"⟩)
    | some claims =>
      if claims.tokenUse ≠ "" then
        (σ.cache, .error ⟨401, "A " ++ claims.tokenUse ++ " token is not valid on this endpoint"⟩)
      else
        match withSession A σ request rawToken (extractUserFromClaims rawToken claims) with
        | (_, cache, some refusal) => (cache, .error refusal)
        | (user, cache, none) => (cache, .ok user)

/-! ## who is barred -/

section
variable (A : AuthService) (σ : AuthState) (request : Request)

def loaded : List String := (loadedCache σ.session σ.stored request.moment σ.cache).hashes

/-- the token is in the revoked set, as the process has it loaded -/
def Revoked : Prop := ∃ token ∈ request.credentials, A.sha256 token ∈ loaded σ request

def Inactive (db : Db) (userId : String) : Prop :=
  ∃ id ∈ uuid userId, ∃ hu ∈ db.users.find? (·.id = id), hu.isActive = false

def Suspended : Prop :=
  ∃ token ∈ request.credentials, ∃ claims ∈ A.decodeJwtToken token,
    Inactive σ.session.db (extractUserFromClaims token claims).userId

def Barred : Prop := Revoked A σ request ∨ Suspended A σ request

def Answered401 : Prop :=
  ∃ e, (getCurrentUser A σ request).2 = .error e ∧ e.status = 401

def NeverAdmitted : Prop := Barred A σ request → Answered401 A σ request

end

/-! ## what the enrichment asks -/

def asked (found : String → Bool) : List String → List String
  | [] => []
  | i :: is => i :: if found i then [] else asked found is

def Session.rows (s : Session) (idents : List String) : List OperatorAccessGroup :=
  match identOf s.db idents with
  | some i => s.scan.order (s.db.memberships.filter (·.operatorId = i))
  | none => []

def Session.groupOf (s : Session) (idents : List String) : Option AccessGroup :=
  s.db.groups.find? (some ·.id = activeGroupId (directoryOf s.db idents) (s.rows idents))

structure Enrichable (s : Session) (idents : List String) : Prop where
  directory : ∀ i ∈ asked (fun i => s.db.directory.any (·.userId = i)) idents,
    s.raises (.directory i) = false
  memberships : ∀ i ∈ asked (fun i => s.db.memberships.any (·.operatorId = i)) idents,
    s.raises (.memberships i) = false
  group : s.rows idents ≠ [] → s.raises .group = false
  portal : s.rows idents ≠ [] → s.groupOf idents ≠ none → s.raises .portal = false
  roleIds : s.rows idents ≠ [] → ∀ ag ∈ s.groupOf idents, ∀ r ∈ ag.roleIds, (uuid r).isSome
  roles : s.rows idents ≠ [] → ∀ ag ∈ s.groupOf idents, ag.roleIds ≠ [] → s.raises .roles = false
  groups : s.rows idents ≠ [] → s.groupOf idents ≠ none → s.raises .groups = false

def Checked (A : AuthService) (σ : AuthState) (request : Request) : Prop :=
  ∀ token ∈ request.credentials, ∀ claims ∈ A.decodeJwtToken token, claims.tokenUse = "" →
    (request.connection.attached = true ∨
      request.connection.opens = true ∧ request.connection.closes = true) ∧
    Enrichable σ.session (extractUserFromClaims token claims).identifiers ∧
    (A.sha256 token ∈ loaded σ request ∨ σ.session.raises .account = false)

variable {s : Session} {α : Type}

theorem ask_eq_ok_iff {q : Query} {a b : α} :
    s.ask q a = .ok b ↔ s.raises q = false ∧ a = b := by
  rw [Session.ask]
  cases s.raises q with
  | true => simp
  | false => simp

theorem asked_cons {found : String → Bool} {i : String} {is : List String} {p : String → Prop} :
    (∀ j ∈ asked found (i :: is), p j) ↔ p i ∧ (found i = false → ∀ j ∈ asked found is, p j) := by
  rw [asked, List.forall_mem_cons]
  cases found i with
  | true => simp
  | false => simp

theorem findDirectory_eq_ok_iff {idents : List String} {r : Option UserDirectory} :
    findDirectory s idents = .ok r ↔
      (∀ i ∈ asked (fun i => s.db.directory.any (·.userId = i)) idents,
        s.raises (.directory i) = false) ∧ directoryOf s.db idents = r := by
  induction idents with
  | nil =>
    show Except.ok none = Except.ok r ↔ (∀ i ∈ [], _) ∧ none = r
    simp
  | cons i is ih =>
    have hany : s.db.directory.any (·.userId = i) =
        (s.db.directory.find? (·.userId = i)).isSome := by
      rw [Bool.eq_iff_iff, List.any_eq_true, List.find?_isSome]
    rw [asked_cons, hany, directoryOf, List.findSome?_cons, findDirectory, Session.ask]
    cases s.raises (.directory i) with
    | true =>
      show Except.error _ = Except.ok r ↔ _
      simp
    | false =>
      cases s.db.directory.find? (·.userId = i) with
      | some row =>
        show Except.ok (some row) = Except.ok r ↔ _
        simp
      | none =>
        show findDirectory s is = .ok r ↔ _
        rw [ih, directoryOf]
        simp

theorem findMemberships_eq_ok_iff {idents : List String} {rows : List OperatorAccessGroup} :
    findMemberships s idents = .ok rows ↔
      (∀ i ∈ asked (fun i => s.db.memberships.any (·.operatorId = i)) idents,
        s.raises (.memberships i) = false) ∧ s.rows idents = rows := by
  induction idents with
  | nil =>
    show Except.ok [] = Except.ok rows ↔ (∀ i ∈ [], _) ∧ [] = rows
    simp
  | cons i is ih =>
    have hnil : s.scan.order (s.db.memberships.filter (·.operatorId = i)) = [] ↔
        s.db.memberships.any (·.operatorId = i) = false := by
      rw [← List.length_eq_zero_iff, (s.scan.perm _).length_eq, List.length_eq_zero_iff,
        filter_operator_eq_nil]
    rw [asked_cons, Session.rows, identOf, List.find?_cons, findMemberships, Session.ask]
    cases s.raises (.memberships i) with
    | true =>
      show Except.error _ = Except.ok rows ↔ _
      simp
    | false =>
      show (if s.scan.order (s.db.memberships.filter (·.operatorId = i)) ≠ []
        then Except.ok (s.scan.order (s.db.memberships.filter (·.operatorId = i)))
        else findMemberships s is) = .ok rows ↔ _
      cases hany : s.db.memberships.any (·.operatorId = i) with
      | true =>
        have hne : s.scan.order (s.db.memberships.filter (·.operatorId = i)) ≠ [] := by
          intro hx
          rw [hnil, hany] at hx
          cases hx
        rw [if_pos hne]
        simp
      | false =>
        rw [if_neg (not_not_intro (hnil.mpr hany)), ih, Session.rows, identOf]
        simp

theorem roleUuids_isOk_iff {roleIds : List String} :
    (∃ ids, roleUuids roleIds = .ok ids) ↔ ∀ r ∈ roleIds, (uuid r).isSome := by
  constructor
  · intro h
    obtain ⟨ids, hids⟩ := h
    intro r hr
    obtain ⟨id, -, hid⟩ := mem_right_of_forall₂ (forall₂_of_mapM_ok hids) hr
    cases hu : uuid r with
    | none =>
      rw [hu] at hid
      cases hid
    | some u => rfl
  · exact roleUuids_ok

theorem loadRoles_isOk_iff {ag : AccessGroup} :
    (∃ roles, loadRoles s ag = .ok roles) ↔
      (∀ r ∈ ag.roleIds, (uuid r).isSome) ∧ (ag.roleIds ≠ [] → s.raises .roles = false) := by
  rw [loadRoles, ← roleUuids_isOk_iff]
  cases ag.roleIds with
  | nil =>
    constructor
    · intro _
      exact ⟨⟨[], rfl⟩, fun h => absurd rfl h⟩
    · intro _
      exact ⟨[], rfl⟩
  | cons r rs =>
    rw [List.isEmpty_cons, if_neg Bool.false_ne_true, exists_bind_ok_iff]
    simp only [ask_eq_ok_iff]
    constructor
    · intro h
      obtain ⟨ids, hids, -, hraises, -⟩ := h
      exact ⟨⟨ids, hids⟩, fun _ => hraises⟩
    · intro h
      obtain ⟨⟨ids, hids⟩, hraises⟩ := h
      exact ⟨ids, hids, _, hraises (List.cons_ne_nil r rs), rfl⟩

theorem groupContext_isOk_iff {dirRow : Option UserDirectory} {rows : List OperatorAccessGroup} :
    (∃ found, groupContext s dirRow rows = .ok found) ↔ s.raises .group = false ∧
      ∀ ag ∈ s.db.groups.find? (some ·.id = activeGroupId dirRow rows),
        s.raises .portal = false ∧
        ((∀ r ∈ ag.roleIds, (uuid r).isSome) ∧ (ag.roleIds ≠ [] → s.raises .roles = false)) ∧
        s.raises .groups = false := by
  rw [groupContext, exists_bind_ok_iff]
  simp only [ask_eq_ok_iff]
  cases s.db.groups.find? (some ·.id = activeGroupId dirRow rows) with
  | none =>
    constructor
    · intro h
      obtain ⟨-, ⟨hraises, -⟩, -⟩ := h
      exact ⟨hraises, fun ag hag => by cases hag⟩
    · intro h
      exact ⟨none, ⟨h.1, rfl⟩, none, rfl⟩
  | some ag =>
    constructor
    · intro h
      obtain ⟨-, ⟨hgroup, rfl⟩, hrest⟩ := h
      refine ⟨hgroup, fun ag' hag' => ?_⟩
      cases hag'
      dsimp only at hrest
      rw [exists_bind_ok_iff] at hrest
      obtain ⟨portal, hportal, hrest⟩ := hrest
      rw [exists_bind_ok_iff] at hrest
      obtain ⟨roles, hroles, hrest⟩ := hrest
      rw [exists_bind_ok_iff] at hrest
      obtain ⟨allAgs, hall, -⟩ := hrest
      exact ⟨(ask_eq_ok_iff.mp hportal).1, loadRoles_isOk_iff.mp ⟨roles, hroles⟩,
        (ask_eq_ok_iff.mp hall).1⟩
    · intro h
      obtain ⟨hgroup, hag⟩ := h
      obtain ⟨hportal, hroles, hgroups⟩ := hag ag rfl
      obtain ⟨roles, hroles⟩ := loadRoles_isOk_iff.mpr hroles
      refine ⟨some ag, ⟨hgroup, rfl⟩, ?_⟩
      dsimp only
      rw [exists_bind_ok_iff]
      refine ⟨_, ask_eq_ok_iff.mpr ⟨hportal, rfl⟩, ?_⟩
      rw [exists_bind_ok_iff]
      refine ⟨roles, hroles, ?_⟩
      rw [exists_bind_ok_iff]
      exact ⟨_, ask_eq_ok_iff.mpr ⟨hgroups, rfl⟩, _, rfl⟩

theorem findRows_eq_ok_iff {user : AuthenticatedUser}
    {found : Option UserDirectory × List OperatorAccessGroup} :
    findRows s user = .ok found ↔
      ((∀ i ∈ asked (fun i => s.db.directory.any (·.userId = i)) user.identifiers,
          s.raises (.directory i) = false) ∧
        ∀ i ∈ asked (fun i => s.db.memberships.any (·.operatorId = i)) user.identifiers,
          s.raises (.memberships i) = false) ∧
      found = (directoryOf s.db user.identifiers, s.rows user.identifiers) := by
  rw [findRows]
  constructor
  · intro h
    obtain ⟨dirRow, hdir, hrest⟩ := exists_of_bind_ok h
    obtain ⟨rows, hrows, hfound⟩ := exists_of_bind_ok hrest
    obtain ⟨hdirectory, rfl⟩ := findDirectory_eq_ok_iff.mp hdir
    obtain ⟨hmemberships, rfl⟩ := findMemberships_eq_ok_iff.mp hrows
    exact ⟨⟨hdirectory, hmemberships⟩, (Except.ok.inj hfound).symm⟩
  · intro h
    obtain ⟨⟨hdirectory, hmemberships⟩, rfl⟩ := h
    rw [findDirectory_eq_ok_iff.mpr ⟨hdirectory, rfl⟩,
      findMemberships_eq_ok_iff.mpr ⟨hmemberships, rfl⟩]
    rfl

theorem enrich_none_iff {user : AuthenticatedUser} :
    (enrich s user).2 = none ↔ Enrichable s user.identifiers := by
  cases hrows : findRows s user with
  | error e =>
    have hraised : (enrich s user).2 = some e := by rw [enrich, hrows]
    rw [hraised]
    constructor
    · intro h
      cases h
    · intro h
      rw [findRows_eq_ok_iff.mpr ⟨⟨h.directory, h.memberships⟩, rfl⟩] at hrows
      cases hrows
  | ok found =>
    obtain ⟨⟨hdirectory, hmemberships⟩, rfl⟩ := findRows_eq_ok_iff.mp hrows
    by_cases hnil : s.rows user.identifiers = []
    · have hquiet : (enrich s user).2 = none := by
        rw [enrich, hrows]
        dsimp only
        rw [if_pos hnil]
      constructor
      · intro _
        exact ⟨hdirectory, hmemberships, fun h => absurd hnil h, fun h => absurd hnil h,
          fun h => absurd hnil h, fun h => absurd hnil h, fun h => absurd hnil h⟩
      · intro _
        exact hquiet
    · have hcontext : (enrich s user).2 = none ↔ ∃ context, groupContext s
          (directoryOf s.db user.identifiers) (s.rows user.identifiers) = .ok context := by
        rw [enrich, hrows]
        dsimp only
        rw [if_neg hnil]
        cases groupContext s (directoryOf s.db user.identifiers) (s.rows user.identifiers) with
        | error e => simp
        | ok context =>
          cases context with
          | none => simp
          | some context => simp
      rw [hcontext, groupContext_isOk_iff]
      constructor
      · intro h
        obtain ⟨hgroup, hag⟩ := h
        refine ⟨hdirectory, hmemberships, fun _ => hgroup, fun _ hsome => ?_,
          fun _ ag hmem => (hag ag hmem).2.1.1, fun _ ag hmem => (hag ag hmem).2.1.2,
          fun _ hsome => ?_⟩
        · obtain ⟨ag, hmem⟩ := Option.ne_none_iff_exists'.mp hsome
          exact (hag ag hmem).1
        · obtain ⟨ag, hmem⟩ := Option.ne_none_iff_exists'.mp hsome
          exact (hag ag hmem).2.2
      · intro h
        refine ⟨h.group hnil, fun ag hmem => ?_⟩
        have hsome : s.groupOf user.identifiers ≠ none := Option.ne_none_iff_exists'.mpr ⟨ag, hmem⟩
        exact ⟨h.portal hnil hsome, ⟨h.roleIds hnil ag hmem, h.roles hnil ag hmem⟩,
          h.groups hnil hsome⟩

/-! ## the refusal -/

variable {A : AuthService} {σ : AuthState} {request : Request} {token : String}

theorem findAccount_iff {userId : String} :
    (∃ hu, findAccount s userId = .ok (some hu) ∧ hu.isActive = false) ↔
      s.raises .account = false ∧ Inactive s.db userId := by
  rw [findAccount, Inactive]
  cases uuid userId with
  | none => simp
  | some id =>
    simp only [ask_eq_ok_iff, Option.mem_def, Option.some.injEq, exists_eq_left', and_assoc,
      exists_and_left]

theorem securityCheck_iff {user : AuthenticatedUser} {cache : RevokedCache} :
    (∃ e, securityCheck A s user token cache = some e ∧ e.status = 401) ↔
      A.sha256 token ∈ cache.hashes ∨ s.raises .account = false ∧ Inactive s.db user.userId := by
  rw [securityCheck, ← findAccount_iff]
  by_cases hhash : A.sha256 token ∈ cache.hashes
  · rw [if_pos hhash]
    exact iff_of_true ⟨_, rfl, rfl⟩ (Or.inl hhash)
  · rw [if_neg hhash]
    cases findAccount s user.userId with
    | error e => simp [hhash]
    | ok account =>
      cases account with
      | none => simp [hhash]
      | some hu => cases hactive : hu.isActive <;> simp [hhash, hactive]

theorem enrichAndCheck_refusal {moment : Moment} {user : AuthenticatedUser} {e : HttpError} :
    (enrichAndCheck A σ moment token user).2.2 = some e ↔
      Enrichable σ.session user.identifiers ∧
        securityCheck A σ.session (enrich σ.session user).1 token
          (loadedCache σ.session σ.stored moment σ.cache) = some e := by
  rw [enrichAndCheck, ← enrich_none_iff]
  cases enrich σ.session user with
  | mk user' raised =>
    cases raised with
    | none => simp
    | some failure => simp

theorem withSession_refusal {user : AuthenticatedUser} {e : HttpError} :
    (withSession A σ request token user).2.2 = some e ↔
      (request.connection.attached = true ∨
        request.connection.opens = true ∧ request.connection.closes = true) ∧
      (enrichAndCheck A σ request.moment token user).2.2 = some e := by
  rw [withSession]
  cases request.connection.attached with
  | true => simp
  | false =>
    cases request.connection.opens with
    | false => simp
    | true => cases request.connection.closes <;> simp

theorem answered401_iff {claims : Claims} (htoken : request.credentials = some token)
    (hclaims : A.decodeJwtToken token = some claims) (huse : claims.tokenUse = "") :
    Answered401 A σ request ↔
      ∃ e, (withSession A σ request token (extractUserFromClaims token claims)).2.2 = some e ∧
        e.status = 401 := by
  have hanswer : (getCurrentUser A σ request).2 =
      match withSession A σ request token (extractUserFromClaims token claims) with
      | (_, _, some refusal) => .error refusal
      | (user, _, none) => .ok user := by
    rw [getCurrentUser, htoken]
    dsimp only
    rw [hclaims]
    dsimp only
    rw [if_neg (not_not_intro huse)]
    split <;> rfl
  rw [Answered401, hanswer]
  cases withSession A σ request token (extractUserFromClaims token claims) with
  | mk user rest =>
    obtain ⟨cache, refusal⟩ := rest
    cases refusal with
    | none => simp
    | some e => simp

theorem barred_iff {claims : Claims} (htoken : request.credentials = some token)
    (hclaims : A.decodeJwtToken token = some claims) :
    Barred A σ request ↔ A.sha256 token ∈ loaded σ request ∨
      Inactive σ.session.db (extractUserFromClaims token claims).userId := by
  rw [Barred, Revoked, Suspended]
  simp only [htoken, hclaims, Option.mem_def, Option.some.injEq, exists_eq_left']

theorem checked_iff {claims : Claims} (htoken : request.credentials = some token)
    (hclaims : A.decodeJwtToken token = some claims) (huse : claims.tokenUse = "") :
    Checked A σ request ↔
      (request.connection.attached = true ∨
        request.connection.opens = true ∧ request.connection.closes = true) ∧
      Enrichable σ.session (extractUserFromClaims token claims).identifiers ∧
      (A.sha256 token ∈ loaded σ request ∨ σ.session.raises .account = false) := by
  rw [Checked]
  simp only [htoken, hclaims, Option.mem_def, Option.some.injEq, forall_eq', huse, forall_const]

/-- a barred request is refused exactly when the block runs to the end of the check -/
theorem neverAdmitted_iff (A : AuthService) (σ : AuthState) (request : Request) :
    NeverAdmitted A σ request ↔ (Barred A σ request → Checked A σ request) := by
  rw [NeverAdmitted]
  refine imp_congr_right fun hbarred => ?_
  cases htoken : request.credentials with
  | none =>
    rcases hbarred with ⟨token, hmem, -⟩ | ⟨token, hmem, -⟩
    · cases htoken.symm.trans hmem
    · cases htoken.symm.trans hmem
  | some token =>
    cases hclaims : A.decodeJwtToken token with
    | none =>
      have hanswered : Answered401 A σ request := by
        refine ⟨⟨401, "Invalid or expired token"⟩, ?_, rfl⟩
        rw [getCurrentUser, htoken]
        dsimp only
        rw [hclaims]
      refine iff_of_true hanswered fun token' htoken' claims hclaims' => ?_
      cases htoken.symm.trans htoken'
      cases hclaims.symm.trans hclaims'
    | some claims =>
      by_cases huse : claims.tokenUse = ""
      · rw [answered401_iff htoken hclaims huse, checked_iff htoken hclaims huse]
        rw [barred_iff htoken hclaims] at hbarred
        simp only [withSession_refusal, enrichAndCheck_refusal, and_assoc, exists_and_left,
          securityCheck_iff, enrich_userId]
        refine and_congr_right fun _ => and_congr_right fun _ => ?_
        constructor
        · intro h
          rcases h with hhash | ⟨hraises, -⟩
          · exact Or.inl hhash
          · exact Or.inr hraises
        · intro h
          rcases hbarred with hhash | hinactive
          · exact Or.inl hhash
          · exact h.imp_right fun hraises => ⟨hraises, hinactive⟩
      · have hanswered : Answered401 A σ request := by
          refine ⟨⟨401, "A " ++ claims.tokenUse ++ " token is not valid on this endpoint"⟩, ?_, rfl⟩
          rw [getCurrentUser, htoken]
          dsimp only
          rw [hclaims]
          dsimp only
          rw [if_pos huse]
        refine iff_of_true hanswered fun token' htoken' claims' hclaims' huse' => ?_
        cases htoken.symm.trans htoken'
        cases hclaims.symm.trans hclaims'
        exact absurd huse' huse

/-! ### a role id that is no id -/

def plainService : AuthService where
  decodeJwtToken := fun token => some { sub := some token, preferredUsername := some "alice" }
  sha256 := id

/-- one operator, whose group has this role id; her session is revoked -/
def revokedState (roleId : String) : AuthState where
  session := sampleDeployment.session { oneInCharge "alice" with
    groups := [{ id := 20, name := "granters", portalId := 30, roleIds := [roleId] }] }
  stored := []
  cache := { hashes := [uuidText 1] }

def aliceRequest : Request where
  credentials := some (uuidText 1)
  moment := ⟨0, 1⟩

/-- the revoked session goes on -/
theorem revoked_admitted : ¬ NeverAdmitted plainService (revokedState "reviewer") aliceRequest := by
  intro h
  have hrevoked : Barred plainService (revokedState "reviewer") aliceRequest := by
    refine Or.inl ⟨uuidText 1, rfl, ?_⟩
    decide +kernel
  obtain ⟨e, he, -⟩ := h hrevoked
  have hadmitted : ((getCurrentUser plainService (revokedState "reviewer") aliceRequest).2).isOk =
      true := by decide +kernel
  rw [he] at hadmitted
  cases hadmitted

example :
    (getCurrentUser plainService (revokedState (uuidText 10)) aliceRequest).2.isOk = false := by
  decide +kernel

end HxGuard
