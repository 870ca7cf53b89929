import Velaris.Base.Table
import Velaris.Py.Runtime
import Velaris.Py.Text
import Velaris.TenantGuard.Rules

/-!
# What the tenant guard lets pass

* `ownerOf`   the tenant of the row an id names, through its parents;
* `tenantPathGuard`   the ids of a request, each checked against the caller's tenant;
* `OwnedBy`   the owner, its parents followed to the end;
* `ownerOf_some_iff`   the depth at which the guard stops is below every declared link;
* `Given`   the ids of a request;
* `checked`   each of them is among those the guard looks at.
-/

namespace TenantGuard

open Py

/-! ## the database -/

structure Row where
  tenantId : Option String
  /-- the text of a foreign key -/
  fk : String → Option String

structure Tenant where
  id : Uuid
  slug : String

structure Db where
  row : Table → Uuid → Option Row
  tenants : List Tenant
  /-- the tenant column of a user's directory row, where there is one -/
  directory : String → Option (Option String)
  memberships : String → List String
  /-- `_cache`, of which only the entries still live answer -/
  cache : String → Option (Option Tenant)

structure User where
  tenantId : Option String
  roles : List String
  deriving DecidableEq

def DEFAULT_TENANT : String := "default"

def isSuperadmin (user : User) : Bool := "superadmin" ∈ user.roles

variable (R : Runtime) (db : Db)

/-! ## tenants -/

def resolveTenant (token : String) : Option Tenant :=
  let key := String.ofList (strip token.toList)
  if key = "" then none
  else
    match db.cache key with
    | some hit => hit
    | none =>
      db.tenants.find? fun tenant =>
        match uuid key with
        | some id => tenant.id = id
        | none => tenant.slug = key

/-- the `key` of `same_tenant` -/
def keyOf (token : Option String) : String :=
  match token with
  | some token => String.ofList (strip token.toList)
  | none => DEFAULT_TENANT

/-- `same_tenant` of a column that is not null -/
def sameTenant (owner : String) (token : Option String) : Bool :=
  if owner = keyOf token then true
  else
    match resolveTenant db (keyOf token) with
    | some tenant => owner = uuidText tenant.id || owner = tenant.slug
    | none => false

def sameTenantAsDefault (token : String) : Bool :=
  match resolveTenant db token with
  | none => false
  | some resolved =>
    match resolveTenant db DEFAULT_TENANT with
    | none => token = DEFAULT_TENANT
    | some default => resolved.id = default.id

def isPlatformOperator (user : User) : Bool :=
  if isSuperadmin user then true
  else
    match user.tenantId with
    | none => true
    | some token => if token = "" then true else sameTenantAsDefault db token

/-! ## owners -/

/-- `_owner` -/
def ownerOf (depth : Nat) : Owned → String → Bool × Option String
  | .own model, raw =>
    if depth > 3 then (false, none)
    else
      match (uuid raw).bind (db.row model) with
      | none => (false, none)
      | some row => (true, row.tenantId)
  | .via model fk parent, raw =>
    if depth > 3 then (false, none)
    else
      match (uuid raw).bind (db.row model) with
      | none => (false, none)
      | some row =>
        match row.fk fk with
        | none => (true, none)
        | some parentId =>
          let (found, tenant) := ownerOf (depth + 1) parent parentId
          (true, if found then tenant else none)

def userTenants (userId : String) : List String :=
  let own := match db.directory userId with
    | none => []
    | some none => [DEFAULT_TENANT]
    | some (some tenant) => [if tenant = "" then DEFAULT_TENANT else tenant]
  own ++ db.memberships userId

/-! ## the request -/

structure Request where
  template : String
  routed : template ≠ ""
  pathParams : Dict
  query : List (String × String)
  /-- a web socket has none -/
  method : Option String
  contentType : Option String
  body : Option Value
  authorization : Option String

inductive Refusal where
  | httpException (status : Nat) (detail : String)
  | attributeError
  deriving DecidableEq

def jsonBody (rq : Request) : Option Value :=
  match rq.method with
  | none => none
  | some method =>
    if method ∈ ["POST", "PUT", "PATCH", "DELETE"] then
      if substr "json".toList (rq.contentType.getD "").toList then rq.body else none
    else none

/-- `_caller`, of whom `signedIn` knows by the token -/
def callerOf (signedIn : String → Option User) (rq : Request) : Option User :=
  let header := (rq.authorization.getD "").toList
  if "bearer ".toList.isPrefixOf (header.map Char.toLower) then
    signedIn (String.ofList (strip (header.drop 7)))
  else none

def isId : Value → Bool
  | .none => false
  | .str s => strip s.toList ≠ []
  | .dict _ | .list _ | .bool _ => false
  | .int _ | .float _ => true

def bodyValues : Value → List Value
  | .list vs => vs
  | v => [v]

/-- the `checks` of the path, the query and the body -/
def pathChecks (rq : Request) : List (Spec × Value) :=
  (rulesFor rq.template).map fun (param, spec) => (spec, rq.pathParams.get param)

def queryChecks (rq : Request) : List (Spec × Value) :=
  rq.query.filterMap fun (key, value) =>
    if exempt rq.template key then none
    else (FIELD_RULES.lookup key).map fun spec => (spec, .str value)

def bodyChecks (rq : Request) : List (Spec × Value) :=
  match jsonBody rq with
  | some (.dict body) =>
    FIELD_RULES.flatMap fun (key, spec) =>
      match body.lookup key with
      | some value =>
        if exempt rq.template key then []
        else ((bodyValues value).take 500).map fun v => (spec, v)
      | none => []
  | _ => []

def checks (rq : Request) : List (Spec × Value) :=
  (pathChecks rq ++ queryChecks rq ++ bodyChecks rq).filter fun c => isId c.2

/-- one round of `refuse_foreign_ids`: the id names what is another tenant's -/
def foreign (user : User) (spec : Spec) (raw : String) : Bool :=
  match spec with
  | .user =>
    let owners := userTenants db raw
    !owners.isEmpty && !owners.any fun owner => sameTenant db owner user.tenantId
  | .tenant => !isPlatformOperator db user && !sameTenant db raw user.tenantId
  | .owned o =>
    match ownerOf db 0 o raw with
    | (true, some owner) => !sameTenant db owner user.tenantId
    | _ => false

def refuseForeignIds (user : User) (cs : List (Spec × Value)) : Except Refusal Unit :=
  if isSuperadmin user then .ok ()
  else if cs.any fun c => foreign db user c.1 (R.str c.2) then .error (.httpException 404 "Not found")
  else .ok ()

def tenantPathGuard (signedIn : String → Option User) (rq : Request) : Except Refusal Unit :=
  if rq.template = "" then .ok ()
  else if (checks rq).isEmpty then .ok ()
  else
    match callerOf signedIn rq with
    | none => .ok ()
    | some user =>
      match rq.method with
      | none => .error .attributeError
      | some _ => refuseForeignIds R db user (checks rq)

/-! ## owners by the links -/

/-- the row the id names belongs to the tenant, its parents asked to the end; a row without a
parent or without a tenant belongs to none -/
inductive OwnedBy : Owned → String → Option String → Prop
  | own {model raw row} (h : (uuid raw).bind (db.row model) = some row) :
      OwnedBy (.own model) raw row.tenantId
  | orphan {model fk parent raw row} (h : (uuid raw).bind (db.row model) = some row)
      (hfk : row.fk fk = none) : OwnedBy (.via model fk parent) raw none
  | via {model fk parent raw row parentId tenant} (h : (uuid raw).bind (db.row model) = some row)
      (hfk : row.fk fk = some parentId) (hparent : OwnedBy parent parentId tenant) :
      OwnedBy (.via model fk parent) raw tenant

theorem ownerOf_found {o : Owned} {raw owner : String} {depth : Nat}
    (h : (ownerOf db depth o raw).2 = some owner) : (ownerOf db depth o raw).1 = true := by
  by_cases hd : depth > 3
  · cases o <;> rw [ownerOf, if_pos hd] at h <;> cases h
  · cases o with
    | own model =>
      rw [ownerOf, if_neg hd] at h ⊢
      split at h
      · cases h
      · rfl
    | via model fk parent =>
      rw [ownerOf, if_neg hd] at h ⊢
      split at h
      · cases h
      · dsimp only
        split <;> rfl

theorem ownerOf_some_iff {o : Owned} {raw owner : String} {depth : Nat}
    (hdepth : depth + o.links ≤ 3) :
    (ownerOf db depth o raw).2 = some owner ↔ OwnedBy db o raw (some owner) := by
  induction o generalizing raw depth with
  | own model =>
    have hd : ¬depth > 3 := by
      simp only [Owned.links] at hdepth
      omega
    rw [ownerOf, if_neg hd]
    constructor
    · intro h
      cases hrow : (uuid raw).bind (db.row model) with
      | none =>
        rw [hrow] at h
        cases h
      | some row =>
        rw [hrow] at h
        have howner : row.tenantId = some owner := h
        exact howner ▸ OwnedBy.own hrow
    · intro h
      generalize ht : some owner = tenant at h
      cases h with
      | own hrow => rw [hrow]
  | via model fk parent ih =>
    have hlinks : depth + 1 + parent.links ≤ 3 := by
      simp only [Owned.links] at hdepth
      omega
    have hd : ¬depth > 3 := by omega
    rw [ownerOf, if_neg hd]
    constructor
    · intro h
      cases hrow : (uuid raw).bind (db.row model) with
      | none =>
        rw [hrow] at h
        cases h
      | some row =>
        rw [hrow] at h
        dsimp only at h
        cases hfk : row.fk fk with
        | none =>
          rw [hfk] at h
          cases h
        | some parentId =>
          rw [hfk] at h
          dsimp only at h
          split at h
          · exact OwnedBy.via hrow hfk ((ih hlinks).mp h)
          · cases h
    · intro h
      cases h with
      | via hrow hfk hparent =>
        have howner := (ih hlinks).mpr hparent
        rw [hrow]
        dsimp only
        rw [hfk]
        dsimp only
        rw [if_pos (ownerOf_found db howner)]
        exact howner

/-! ## the ids of a request -/

/-- the ids given under a name that a rule covers, and that no exemption leaves to the route -/
inductive Given (rq : Request) : Spec → Value → Prop
  | path {param rule v} (hrule : RULES.find? (·.covers rq.template param) = some rule)
      (hv : rq.pathParams.lookup param = some v) : Given rq rule.spec v
  | query {key spec value} (hmem : (key, value) ∈ rq.query)
      (hrule : FIELD_RULES.lookup key = some spec) (hexempt : exempt rq.template key = false) :
      Given rq spec (.str value)
  | body {body key spec value v} {i : Nat} (hbody : jsonBody rq = some (.dict body))
      (hvalue : body.lookup key = some value) (hrule : FIELD_RULES.lookup key = some spec)
      (hexempt : exempt rq.template key = false) (hi : i < 500)
      (hv : (bodyValues value)[i]? = some v) : Given rq spec v

theorem checked {rq : Request} {spec : Spec} {v : Value} (hgiven : Given rq spec v)
    (hid : isId v = true) : (spec, v) ∈ checks rq := by
  refine List.mem_filter.mpr ⟨?_, hid⟩
  cases hgiven with
  | @path param rule v hrule hv =>
    refine List.mem_append_left _ (List.mem_append_left _ (List.mem_map.mpr ?_))
    have hdecides : (rulesFor rq.template).lookup param = some rule.spec := by
      rw [lookup_rulesFor, hrule]
      rfl
    refine ⟨(param, rule.spec), Base.mem_of_lookup hdecides, ?_⟩
    have hget : rq.pathParams.get param = v := by rw [Dict.get, hv]; rfl
    show (rule.spec, rq.pathParams.get param) = (rule.spec, v)
    rw [hget]
  | @query key spec value hmem hrule hexempt =>
    refine List.mem_append_left _ (List.mem_append_right _ (List.mem_filterMap.mpr ?_))
    refine ⟨(key, value), hmem, ?_⟩
    dsimp only
    rw [if_neg (by simp [hexempt]), hrule]
    rfl
  | @body body key spec value v i hbody hvalue hrule hexempt hi hv =>
    refine List.mem_append_right _ ?_
    rw [bodyChecks, hbody]
    refine List.mem_flatMap.mpr ⟨(key, spec), Base.mem_of_lookup hrule, ?_⟩
    dsimp only
    rw [hvalue]
    dsimp only
    rw [if_neg (by simp [hexempt])]
    have helem : ((bodyValues value).take 500)[i]? = some v := by
      rw [List.getElem?_take, if_pos hi]
      exact hv
    exact List.mem_map.mpr ⟨v, List.mem_of_getElem? helem, rfl⟩

end TenantGuard
