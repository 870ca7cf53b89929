import Velaris.Py.Runtime
import Velaris.Base.Table

/-!
# The registry of variable namespaces

`case_service/case_vars/service.py` and the namespace routes of `api/routers/case_variables.py`.

* `Sensitivity`, `matchesName`   `SENSITIVITY_ORDER` and `NAME_RE`;
* `Registry`   the namespaces, with what both ways to register one keep;
* `CallerContext`, `owns`   who is calling, and which rows are theirs;
* `resolveNamespaceByName`, `resolveWriteNamespace`   the row that a name, and a writer, gets;
* `registerConnectorNamespace`, `createNamespace`   the two ways.
-/

namespace CaseVars

open Py Base

/-- `SENSITIVITY_ORDER` -/
inductive Sensitivity where
  | «public»
  | internal
  | pii
  | secret
  deriving DecidableEq

def Sensitivity.index : Sensitivity → Nat
  | «public» => 0
  | internal => 1
  | pii => 2
  | secret => 3

def nameStart (c : Char) : Bool := 'a' ≤ c && c ≤ 'z'

def nameChar (c : Char) : Bool := nameStart c || ('0' ≤ c && c ≤ '9') || c == '_'

/-- `NAME_RE.match(name)`; its `$` also stands before a newline that ends the text -/
def matchesName (name : String) : Bool :=
  match name.toList with
  | [] => false
  | c :: cs =>
    let cs := if cs.getLast? = some '\n' then cs.dropLast else cs
    nameStart c && decide (cs.length ≤ 99) && cs.all nameChar

def RESERVED_NAMESPACES : List String := ["velaris", "form", "portal", "legacy"]

inductive OwnerType where
  | platform
  | connector
  | devconn
  | form
  | portal
  | rules
  deriving DecidableEq

def OwnerType.integration : OwnerType → Bool
  | connector | devconn => true
  | platform | form | portal | rules => false

inductive Status where
  | active
  | frozen
  | retired
  deriving DecidableEq

def Status.text : Status → String
  | active => "active"
  | frozen => "frozen"
  | retired => "retired"

structure Namespace where
  id : Uuid
  name : String
  tenantId : Option String
  tenantKey : String
  ownerType : OwnerType
  ownerRef : Option Uuid
  sensitivity : Sensitivity := .internal
  status : Status := .active
  deriving DecidableEq

/-- `UNIQUE (tenant_key, name)` -/
def Namespace.key (n : Namespace) : String × String := (n.tenantKey, n.name)

/-- the reserved namespaces are the platform's, and no integration owns one -/
def Namespace.Lawful (n : Namespace) : Prop :=
  matchesName n.name = true ∧ (n.name ∈ RESERVED_NAMESPACES →
    n.tenantKey = "platform" ∧ n.ownerType.integration = false)

instance (n : Namespace) : Decidable n.Lawful := by
  unfold Namespace.Lawful
  infer_instance

structure Registry where
  rows : List Namespace
  ids : (rows.map Namespace.id).Nodup
  keys : (rows.map Namespace.key).Nodup
  lawful : ∀ n ∈ rows, n.Lawful

def Registry.find? (R : Registry) (id : Uuid) : Option Namespace := R.rows.find? fun n => n.id = id

/-! ## who is calling -/

inductive CallerKind where
  | platform
  | connector
  | devconn
  | form
  | portal
  /-- `rules`, `operator` and the others that own no namespace -/
  | other (name : String)

def CallerKind.text : CallerKind → String
  | platform => "platform"
  | connector => "connector"
  | devconn => "devconn"
  | form => "form"
  | portal => "portal"
  | other name => name

structure CallerContext where
  kind : CallerKind
  ref : Option Uuid := none
  actorId : String := "system"
  privileged : Bool := false
  tenantId : Option String := none

/-- `t or "platform"` -/
def tenantKeyOf (tenant : Option String) : String :=
  match tenant with
  | some t => if t = "" then "platform" else t
  | none => "platform"

def resolveNamespaceByName (R : Registry) (name : String) (tenant : Option String) :
    Option Namespace :=
  (R.rows.find? fun n => n.key = (tenantKeyOf tenant, name)).or
    (R.rows.find? fun n => n.key = ("platform", name))

def Namespace.boundTo (ref : Uuid) (n : Namespace) : Bool :=
  n.ownerType.integration && n.ownerRef = some ref

/-- the row whose owner is calling: the integration that it is bound to, or the pipeline that
writes into it -/
def owns (R : Registry) (ctx : CallerContext) (n : Namespace) : Bool :=
  match ctx.kind with
  | .connector | .devconn => ctx.ref.any fun ref => n.boundTo ref
  | .form | .portal => resolveNamespaceByName R ctx.kind.text ctx.tenantId = some n
  | .platform | .other _ => false

def opened : Option Namespace → Except String Namespace
  | none => .error ("No registered namespace for this caller — register the integration first.")
  | some n =>
    if n.status = .retired then
      .error ("Namespace '" ++ n.name ++ "' is retired — writes are closed.")
    else .ok n

/-- `_resolve_write_namespace`; of several rows of one integration the query takes any -/
def resolveWriteNamespace (scan : Scan Namespace) (R : Registry) (ctx : CallerContext) :
    Except String Namespace :=
  match ctx.kind with
  | .platform =>
    .error ("velaris.* variables are virtual — status/priority/subject change " ++
      "through the case lifecycle endpoints, not the variable store.")
  | .form | .portal => opened (resolveNamespaceByName R ctx.kind.text ctx.tenantId)
  | .connector | .devconn =>
    match ctx.ref with
    | none => .error "Connector callers must carry their connector id."
    | some ref => opened ((scan.order R.rows).find? fun n => n.boundTo ref)
  | .other name => .error ("Caller kind '" ++ name ++ "' owns no namespace.")

/-! ## registration -/

theorem lawful_pair : LawfulBEq (String × String) := inferInstance

attribute [local instance] lawful_pair in
def Registry.insert (R : Registry) (n : Namespace) : Except String Registry :=
  if h : n.id ∉ R.rows.map Namespace.id ∧ n.key ∉ R.rows.map Namespace.key ∧ n.Lawful then
    .ok
      { rows := R.rows ++ [n]
        ids := by
          rw [List.map_append]
          exact List.nodup_append.mpr ⟨R.ids, List.nodup_singleton _, fun a ha b hb hab =>
            h.1 (List.mem_singleton.mp hb ▸ hab ▸ ha)⟩
        keys := by
          rw [List.map_append]
          exact List.nodup_append.mpr ⟨R.keys, List.nodup_singleton _, fun a ha b hb hab =>
            h.2.1 (List.mem_singleton.mp hb ▸ hab ▸ ha)⟩
        lawful := by
          intro m hm
          rcases List.mem_append.mp hm with hm | hm
          · exact R.lawful m hm
          · rw [List.mem_singleton.mp hm]
            exact h.2.2 }
  else .error ("Namespace '" ++ n.name ++ "' already exists")

structure Relabels (f : Namespace → Namespace) : Prop where
  id : ∀ n, (f n).id = n.id
  key : ∀ n, (f n).key = n.key
  owner : ∀ n, (f n).ownerType = n.ownerType

theorem Relabels.lawful {f : Namespace → Namespace} (hf : Relabels f) {n : Namespace}
    (h : n.Lawful) : (f n).Lawful := by
  obtain ⟨htenant, hname⟩ := Prod.mk.inj (hf.key n)
  rw [Namespace.Lawful, hname, htenant, hf.owner]
  exact h

def Registry.relabel (R : Registry) (id : Uuid) (f : Namespace → Namespace) (hf : Relabels f) :
    Registry where
  rows := Base.modify Namespace.id id f R.rows
  ids := by
    rw [map_key_modify hf.id]
    exact R.ids
  keys := by
    have hkeys : (Base.modify Namespace.id id f R.rows).map Namespace.key =
        R.rows.map Namespace.key := by
      rw [Base.modify, List.map_map]
      refine List.map_congr_left fun n _ => ?_
      show (if n.id = id then f n else n).key = n.key
      split
      · exact hf.key n
      · rfl
    rw [hkeys]
    exact R.keys
  lawful := forall_modify R.lawful fun _ _ _ h => hf.lawful h

def setSensitivity (s : Sensitivity) (n : Namespace) : Namespace := { n with sensitivity := s }

def setStatus (s : Status) (n : Namespace) : Namespace := { n with status := s }

theorem relabels_setSensitivity (s : Sensitivity) : Relabels (setSensitivity s) :=
  ⟨fun _ => rfl, fun _ => rfl, fun _ => rfl⟩

theorem relabels_setStatus (s : Status) : Relabels (setStatus s) :=
  ⟨fun _ => rfl, fun _ => rfl, fun _ => rfl⟩

/-- a namespace to be registered, with the id that `uuid4` gives -/
structure Registration where
  id : Uuid
  name : String
  ownerType : OwnerType
  ownerRef : Option Uuid
  sensitivity : Sensitivity
  tenantId : Option String

/-- `(name or "").strip().lower()` -/
def Registration.trimmed (lower : String → String) (r : Registration) : String :=
  lower (String.ofList (strip r.name.toList))

def Registration.row (lower : String → String) (r : Registration) : Namespace where
  id := r.id
  name := r.trimmed lower
  tenantId := r.tenantId
  tenantKey := tenantKeyOf r.tenantId
  ownerType := r.ownerType
  ownerRef := r.ownerRef
  sensitivity := r.sensitivity

def registerConnectorNamespace (lower : String → String) (scan : Scan Namespace)
    (r : Registration) (R : Registry) : Except String Registry :=
  let n := r.row lower
  if ¬matchesName n.name then .error "Namespace must match ^[a-z][a-z0-9_]\x7b0,99\x7d$."
  else if n.name ∈ RESERVED_NAMESPACES then
    .error ("'" ++ n.name ++ "' is a reserved namespace.")
  else if ¬n.ownerType.integration then
    .error "Config-time registration is for connector/devconn owners."
  else
    match (scan.order R.rows).find? fun m => m.ownerType.integration && m.ownerRef = n.ownerRef with
    | some owned =>
      if owned.name = n.name ∧ owned.status ≠ .retired then .ok R
      else
        .error ("This integration already owns namespace '" ++ owned.name ++ "' (" ++
          owned.status.text ++ ") — one namespace per connector.")
    | none =>
      if R.rows.any fun m => m.name = n.name ∧
          (m.tenantKey = n.tenantKey ∨ m.tenantKey = "platform") then
        .error ("Namespace '" ++ n.name ++ "' is already registered to another owner.")
      else R.insert n

/-- `create_namespace` of the routes -/
def createNamespace (lower : String → String) (r : Registration) (R : Registry) :
    Except String Registry :=
  let n := r.row lower
  if ¬matchesName n.name then .error "Namespace must match ^[a-z][a-z0-9_]\x7b0,99\x7d$"
  else if n.name ∈ RESERVED_NAMESPACES then .error ("'" ++ n.name ++ "' is a reserved namespace")
  else if ¬n.ownerType.integration then
    .error "owner_type must be one of ['connector', 'devconn']"
  else if n.tenantId.any (· ≠ "") ∧
      R.rows.any fun m => m.name = n.name ∧ m.tenantKey = "platform" then
    .error ("'" ++ n.name ++ "' is a platform namespace that every tenant " ++
      "already resolves. A tenant namespace of the same name " ++
      "would split its data in two — pick another name.")
  else R.insert n

def retireConnectorNamespaces (ownerType : OwnerType) (ownerRef : Uuid) (R : Registry) : Registry :=
  (R.rows.filter fun n => n.ownerType = ownerType ∧ n.ownerRef = some ownerRef).foldl
    (fun R n => R.relabel n.id (setStatus .retired) (relabels_setStatus _)) R

/-- `patch_namespace` of the routes -/
def patchNamespace (id : Uuid) (tenantId : Option String) (sensitivity : Option Sensitivity)
    (status : Option Status) (R : Registry) : Except String Registry :=
  match R.find? id with
  | none => .error "Namespace not found"
  | some n =>
    if n.tenantId.isSome ∧ n.tenantId ≠ tenantId then .error "Namespace not found"
    else if n.name ∈ RESERVED_NAMESPACES then .error "Reserved namespaces cannot be modified"
    else
      let R := match sensitivity with
        | some s => R.relabel id (setSensitivity s) (relabels_setSensitivity s)
        | none => R
      .ok (match status with
        | some s => R.relabel id (setStatus s) (relabels_setStatus s)
        | none => R)

end CaseVars
