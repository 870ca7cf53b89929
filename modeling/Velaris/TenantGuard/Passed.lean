import Velaris.TenantGuard.Guard

/-!
# The ids of a request the tenant guard lets pass

* `Own`   the tenant column names the caller's tenant;
* `Lawful`   what an id may name;
* `lawful_iff`   an id that is not foreign, and the other way round;
* `lawful_of_passed`  every id of a request that passes is lawful.
-/

namespace TenantGuard

open Py

variable {R : Runtime} {db : Db}

/-- the tenant column is the text of the caller's token, or the id or the slug of the tenant the
token names -/
def Own (db : Db) (user : User) (owner : String) : Prop :=
  owner = keyOf user.tenantId ∨
    ∃ tenant, resolveTenant db (keyOf user.tenantId) = some tenant ∧
      (owner = uuidText tenant.id ∨ owner = tenant.slug)

theorem sameTenant_iff {user : User} {owner : String} :
    sameTenant db owner user.tenantId = true ↔ Own db user owner := by
  rw [sameTenant, Own]
  by_cases hkey : owner = keyOf user.tenantId
  · rw [if_pos hkey]
    exact iff_of_true rfl (Or.inl hkey)
  · rw [if_neg hkey, or_iff_right hkey]
    cases resolveTenant db (keyOf user.tenantId) with
    | none =>
      constructor
      · intro h
        cases h
      · intro h
        obtain ⟨_, h, -⟩ := h
        cases h
    | some tenant => simp

/-- a tenant is the caller's own, but for those who run the installation; a user has no tenant or
shares one with the caller; a row belongs to no tenant or to the caller's -/
def Lawful (db : Db) (user : User) : Spec → String → Prop
  | .tenant, id => isPlatformOperator db user = true ∨ Own db user id
  | .user, id => userTenants db id = [] ∨ ∃ tenant ∈ userTenants db id, Own db user tenant
  | .owned o, id => ∀ tenant, OwnedBy db o id (some tenant) → Own db user tenant

theorem foreign_owned {user : User} {o : Owned} {id : String} :
    foreign db user (.owned o) id = false ↔
      ∀ tenant, (ownerOf db 0 o id).2 = some tenant →
        sameTenant db tenant user.tenantId = true := by
  rw [foreign]
  constructor
  · intro h tenant ht
    have hfound := ownerOf_found db ht
    have hpair : ownerOf db 0 o id = (true, some tenant) := Prod.ext hfound ht
    rw [hpair] at h
    simpa using h
  · intro h
    split
    · rename_i owner howner
      have hsame := h owner (by rw [howner])
      simp [hsame]
    · rfl

theorem lawful_iff {user : User} {spec : Spec} {id : String} (hlinks : spec.links ≤ 3) :
    foreign db user spec id = false ↔ Lawful db user spec id := by
  cases spec with
  | tenant => simp [foreign, Lawful, ← sameTenant_iff, ← Bool.not_eq_true, imp_iff_not_or]
  | user =>
    simp only [foreign, Lawful, ← sameTenant_iff]
    cases userTenants db id with
    | nil => simp
    | cons tenant tenants => cases hfirst : sameTenant db tenant user.tenantId <;> simp [hfirst]
  | owned o =>
    rw [foreign_owned, Lawful]
    refine forall_congr' fun tenant => ?_
    rw [ownerOf_some_iff db (by simpa [Spec.links] using hlinks), sameTenant_iff]

theorem Given.links_le {rq : Request} {spec : Spec} {v : Value} (h : Given rq spec v) :
    spec.links ≤ 3 := by
  cases h with
  | path hrule _ => exact (links_rules _ (List.mem_of_find?_eq_some hrule)).trans (by omega)
  | query _ hrule _ => exact (links_fields _ (Base.mem_of_lookup hrule)).trans (by omega)
  | body _ _ hrule _ _ _ => exact (links_fields _ (Base.mem_of_lookup hrule)).trans (by omega)

theorem lawful_of_passed {signedIn : String → Option User} {rq : Request} {user : User}
    {spec : Spec} {v : Value} (hcaller : callerOf signedIn rq = some user)
    (hstaff : isSuperadmin user = false) (hpass : tenantPathGuard R db signedIn rq = .ok ())
    (hgiven : Given rq spec v) (hid : isId v = true) : Lawful db user spec (R.str v) := by
  have hmem : (spec, v) ∈ checks rq := checked hgiven hid
  have hsome : ¬(checks rq).isEmpty = true := by
    intro hempty
    rw [List.isEmpty_iff.mp hempty] at hmem
    cases hmem
  rw [tenantPathGuard, if_neg rq.routed, if_neg hsome, hcaller] at hpass
  dsimp only at hpass
  cases hmethod : rq.method with
  | none =>
    rw [hmethod] at hpass
    cases hpass
  | some method =>
    rw [hmethod] at hpass
    dsimp only at hpass
    rw [refuseForeignIds, if_neg (by simp [hstaff])] at hpass
    split at hpass
    · cases hpass
    · rename_i hnone
      have hnot : foreign db user spec (R.str v) = false := by
        rw [← Bool.not_eq_true]
        exact fun hforeign => hnone (List.any_eq_true.mpr ⟨_, hmem, hforeign⟩)
      exact (lawful_iff hgiven.links_le).mp hnot

/-! ## two tenants -/

/-- `acme`, `evil` and the tenant of the installation, a case of `acme`, and a user of the first
two -/
def shared : Db where
  row table id := if table = .caseInstance ∧ id = 7 then some ⟨some "acme", fun _ => none⟩ else none
  tenants := [⟨1, "default"⟩, ⟨2, "acme"⟩, ⟨3, "evil"⟩]
  directory userId := if userId = "kim" then some (some "acme") else none
  memberships userId := if userId = "kim" then ["evil"] else []
  cache _ := none

def admin (tenant : Option String) : User := ⟨tenant, ["admin"]⟩

def asked (template contentType : String) (h : template ≠ "") (pathParams body : Dict) : Request where
  template := template
  routed := h
  pathParams := pathParams
  query := []
  method := some "POST"
  contentType := some contentType
  body := some (.dict body)
  authorization := some "Bearer token"

def caseSeven : Value := .str "00000000-0000-0000-0000-000000000007"

theorem lawful_of_passed_shared : Lawful shared (admin (some "evil")) .user "kim" := by
  have hgiven : Given (asked "/api/v1/cases" "application/json" (by decide) []
      [("user_id", .str "kim")]) .user (.str "kim") := by
    have hrule : FIELD_RULES.lookup "user_id" = some .user := by decide +kernel
    have hexempt : exempt "/api/v1/cases" "user_id" = false := by decide +kernel
    have hvalue : (bodyValues (.str "kim"))[0]? = some (Value.str "kim") := rfl
    exact Given.body rfl rfl hrule hexempt (by omega) hvalue
  have hcaller : callerOf (fun _ => some (admin (some "evil")))
      (asked "/api/v1/cases" "application/json" (by decide) [] [("user_id", .str "kim")]) =
        some (admin (some "evil")) := by decide +kernel
  exact lawful_of_passed hcaller (by decide) (R := Runtime.silent) (by decide +kernel) hgiven
    (by decide +kernel)

/-- what the callers ask here passes, and names what another tenant owns: the installation's admin
a tenant, `evil`'s admin a user who is in both, a case behind five hundred blanks, and a case in a
body whose type is in capitals -/
theorem not_always_own :
    (tenantPathGuard Runtime.silent shared (fun _ => some (admin none))
        (asked "/api/v1/tenants/\x7btenant_id\x7d" "application/json" (by decide)
          [("tenant_id", .str "acme")] []) = .ok () ∧
      ¬Own shared (admin none) "acme") ∧
    (tenantPathGuard Runtime.silent shared (fun _ => some (admin (some "evil")))
        (asked "/api/v1/cases" "application/json" (by decide) []
          [("user_id", .str "kim")]) = .ok () ∧
      shared.directory "kim" = some (some "acme")) ∧
    (tenantPathGuard Runtime.silent shared (fun _ => some (admin (some "evil")))
        (asked "/api/v1/cases" "application/json" (by decide) []
          [("case_ids", .list (List.replicate 500 (.str "") ++ [caseSeven]))]) = .ok () ∧
      tenantPathGuard Runtime.silent shared (fun _ => some (admin (some "evil")))
        (asked "/api/v1/cases" "application/JSON" (by decide) []
          [("case_id", caseSeven)]) = .ok ()) ∧
    OwnedBy shared CASE "00000000-0000-0000-0000-000000000007" (some "acme") ∧
    ¬Own shared (admin (some "evil")) "acme" := by
  have hevil : ¬Own shared (admin (some "evil")) "acme" :=
    fun h => absurd (sameTenant_iff.mpr h) (by decide +kernel)
  have hnone : ¬Own shared (admin none) "acme" :=
    fun h => absurd (sameTenant_iff.mpr h) (by decide +kernel)
  have hcase : (ownerOf shared 0 CASE "00000000-0000-0000-0000-000000000007").2 = some "acme" := by
    decide +kernel
  have howned := (ownerOf_some_iff shared (by decide)).mp hcase
  refine ⟨⟨?_, hnone⟩, ⟨?_, rfl⟩, ⟨?_, ?_⟩, howned, hevil⟩
  all_goals decide +kernel

end TenantGuard
