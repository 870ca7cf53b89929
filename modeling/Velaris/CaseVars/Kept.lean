import Velaris.CaseVars.Read
import Velaris.Base.Traverse

/-!
# Runs over the case variables

* `Action`, `step`   writes, and the changes of namespaces, definitions and cases;
* `Inv`   every value has the namespace row it was written under, by its name;
* `inv_step`   every action keeps it.
-/

namespace CaseVars

open Py Base

variable (env : Env)

/-! ## definitions -/

/-- `_check_override` raises -/
def overrideRefused (override : Option Sensitivity) (n : Namespace) : Bool :=
  override.any fun s => decide (s.index < n.sensitivity.index)

/-- what `define_variable` gets -/
structure NewVariable where
  caseType : Uuid
  namespaceId : Uuid
  name : String
  varType : String
  sensitivityOverride : Option Sensitivity
  tenantId : Option String

def VAR_TYPES : List String :=
  ["str", "int", "float", "bool", "date", "datetime", "list", "dict", "any"]

/-- `define_variable` of the routes -/
def defineVariable (body : NewVariable) (db : Db) : Except String Db :=
  let name := env.lower (String.ofList (strip body.name.toList))
  if ¬matchesName name then .error "Variable name must match ^[a-z][a-z0-9_]\x7b0,99\x7d$"
  else if body.varType ∉ VAR_TYPES then .error "var_type must be one of the known types"
  else
    match db.namespaces.find? body.namespaceId with
    | none => .error "Namespace not found"
    | some n =>
      if n.tenantId.isSome ∧ n.tenantId ≠ body.tenantId then .error "Namespace not found"
      else if n.name = "velaris" then
        .error "velaris.* variables are virtual — they are the case's native fields"
      else if n.status ≠ .active then
        .error ("Namespace '" ++ n.name ++ "' is " ++ n.status.text)
      else if overrideRefused body.sensitivityOverride n then
        .error "sensitivity_override may only be STRICTER than the namespace"
      else
        let fullKey := fullKeyOf n name
        if (db.definition? body.caseType fullKey).isSome then
          .error ("Variable '" ++ fullKey ++ "' already defined for this case type")
        else
          .ok { db with definitions := db.definitions ++
            [{ caseType := body.caseType, namespaceId := n.id, fullKey := fullKey,
               varType := body.varType, sensitivityOverride := body.sensitivityOverride }] }

/-- what `patch_variable` sets -/
structure VariablePatch where
  varType : Option String := none
  status : Option DefinitionStatus := none
  sensitivityOverride : Option Sensitivity := none

def VariablePatch.apply (p : VariablePatch) (d : Definition) : Definition :=
  { d with
    varType := p.varType.getD d.varType
    status := p.status.getD d.status
    sensitivityOverride := p.sensitivityOverride.or d.sensitivityOverride }

/-- `patch_variable` of the routes -/
def patchVariable (caseType : Uuid) (fullKey : String) (p : VariablePatch) (db : Db) :
    Except String Db :=
  match db.definition? caseType fullKey with
  | none => .error "Variable not found"
  | some d =>
    if p.varType.any (· ∉ VAR_TYPES) then .error "var_type must be one of the known types"
    else if p.status = some .undeclared then .error "definition_status must be defined | ignored"
    else if (db.namespaces.find? d.namespaceId).any (overrideRefused p.sensitivityOverride) then
      .error "sensitivity_override may only be STRICTER than the namespace"
    else
      .ok { db with
        definitions := Base.modify Definition.key (caseType, fullKey) p.apply db.definitions }

/-- `delete_variable` of the routes -/
def deleteVariable (caseType : Uuid) (fullKey : String) (db : Db) : Db :=
  { db with definitions := db.definitions.filter fun d => d.key ≠ (caseType, fullKey) }

/-- the definitions of a case type are copied into its fork -/
def forkDefinitions (default new : Uuid) (db : Db) : Db :=
  { db with definitions := db.definitions ++
      (db.definitions.filter fun d => d.caseType = default).map fun d =>
        { d with caseType := new } }

/-! ## actions -/

inductive Action where
  | setVariable (ctx : CallerContext) (caseId : Uuid) (name : String) (value : Value)
  | setGranted (ctx : CallerContext) (allowed : Uuid → Bool) (caseId : Uuid) (fullKey : String)
      (value : Value)
  | promote (p : Promotion)
  | registerConnectorNamespace (r : Registration)
  | createNamespace (r : Registration)
  | patchNamespace (id : Uuid) (tenantId : Option String) (sensitivity : Option Sensitivity)
      (status : Option Status)
  | retireConnectorNamespaces (ownerType : OwnerType) (ownerRef : Uuid)
  | defineVariable (body : NewVariable)
  | patchVariable (caseType : Uuid) (fullKey : String) (p : VariablePatch)
  | deleteVariable (caseType : Uuid) (fullKey : String)
  | forkDefinitions (default new : Uuid)
  /-- a case is created, or changed by anything else -/
  | putCase (c : Case)
  | dropCase (id : Uuid)

def Db.putCase (db : Db) (c : Case) : Db :=
  { db with cases := db.cases.filter (fun d => d.id ≠ c.id) ++ [c] }

def Db.dropCase (db : Db) (id : Uuid) : Db :=
  { db with
    cases := db.cases.filter fun c => c.id ≠ id
    values := db.values.filter fun v => v.caseId ≠ id }

def Db.after (db : Db) : Except String Db → Db
  | .ok db' => db'
  | .error _ => db

def Db.withRegistry (db : Db) : Except String Registry → Db
  | .ok R => { db with namespaces := R }
  | .error _ => db

variable (scan : Scan Namespace)

def step (db : Db) : Action → Db
  | .setVariable ctx caseId name value =>
    db.after (CaseVars.setVariable env scan ctx caseId name value db)
  | .setGranted ctx allowed caseId fullKey value =>
    db.after (CaseVars.setGranted env ctx allowed caseId fullKey value db)
  | .promote p => db.after (promoteBlobKey env p db)
  | .registerConnectorNamespace r =>
    db.withRegistry (CaseVars.registerConnectorNamespace env.lower scan r db.namespaces)
  | .createNamespace r => db.withRegistry (CaseVars.createNamespace env.lower r db.namespaces)
  | .patchNamespace id tenantId sensitivity status =>
    db.withRegistry (CaseVars.patchNamespace id tenantId sensitivity status db.namespaces)
  | .retireConnectorNamespaces ownerType ownerRef =>
    { db with
      namespaces := CaseVars.retireConnectorNamespaces ownerType ownerRef db.namespaces }
  | .defineVariable body => db.after (CaseVars.defineVariable env body db)
  | .patchVariable caseType fullKey p =>
    db.after (CaseVars.patchVariable caseType fullKey p db)
  | .deleteVariable caseType fullKey => CaseVars.deleteVariable caseType fullKey db
  | .forkDefinitions default new => CaseVars.forkDefinitions default new db
  | .putCase c => db.putCase c
  | .dropCase id => db.dropCase id

/-- namespaces and cases, before anything is defined or written -/
def start (R : Registry) (cases : List Case) : Db where
  namespaces := R
  cases := cases
  definitions := []
  values := []

/-! ## the invariant -/

/-- the row of this id is there, and the key is one of its keys -/
def Under (R : Registry) (id : Uuid) (fullKey : String) : Prop :=
  ∃ n ∈ R.rows, n.id = id ∧ n.name ≠ "velaris" ∧ ∃ name, fullKey = fullKeyOf n name

/-- a definition is under a dotted key, and of a bare one -/
structure Keyed (d : Definition) : Prop where
  dotted : '.' ∈ d.fullKey.toList
  bare : ∀ src, d.promotedSource = some src → '.' ∉ src.toList

structure Inv (db : Db) : Prop where
  keys : (db.values.map Variable.key).Nodup
  written : ∀ v ∈ db.values, Under db.namespaces v.under v.fullKey
  keyed : ∀ d ∈ db.definitions, Keyed d

theorem inv_start (R : Registry) (cases : List Case) : Inv (start R cases) :=
  ⟨List.nodup_nil, fun _ hv => absurd hv List.not_mem_nil, fun _ hd => absurd hd List.not_mem_nil⟩

theorem dotted_fullKeyOf (n : Namespace) (name : String) :
    '.' ∈ (fullKeyOf n name).toList := by
  simp [fullKeyOf]

/-! ## the registry -/

/-- no row goes, and none changes its name -/
def Extends (R R' : Registry) : Prop :=
  ∀ n ∈ R.rows, ∃ n' ∈ R'.rows, n'.id = n.id ∧ n'.name = n.name

theorem Extends.refl (R : Registry) : Extends R R := fun n hn => ⟨n, hn, rfl, rfl⟩

theorem Extends.trans {R R' R'' : Registry} (h : Extends R R') (h' : Extends R' R'') :
    Extends R R'' := by
  intro n hn
  obtain ⟨n', hn', hid, hname⟩ := h n hn
  obtain ⟨n'', hn'', hid', hname'⟩ := h' n' hn'
  exact ⟨n'', hn'', hid'.trans hid, hname'.trans hname⟩

theorem extends_insert {R R' : Registry} {n : Namespace} (h : R.insert n = .ok R') :
    Extends R R' := by
  rw [Registry.insert] at h
  split at h
  · obtain rfl := Except.ok.inj h
    exact fun m hm => ⟨m, List.mem_append_left _ hm, rfl, rfl⟩
  · cases h

theorem extends_relabel (R : Registry) (id : Uuid) {f : Namespace → Namespace} (hf : Relabels f) :
    Extends R (R.relabel id f hf) := by
  intro n hn
  refine ⟨if n.id = id then f n else n, List.mem_map_of_mem hn, ?_⟩
  split
  · exact ⟨hf.id n, (Prod.mk.inj (hf.key n)).2⟩
  · exact ⟨rfl, rfl⟩

theorem extends_registerConnectorNamespace {lower : String → String} {R R' : Registry}
    {r : Registration} (h : registerConnectorNamespace lower scan r R = .ok R') :
    Extends R R' := by
  rw [registerConnectorNamespace] at h
  split at h
  · cases h
  split at h
  · cases h
  split at h
  · cases h
  split at h
  · split at h
    · obtain rfl := Except.ok.inj h
      exact Extends.refl R
    · cases h
  · split at h
    · cases h
    · exact extends_insert h

theorem extends_createNamespace {lower : String → String} {R R' : Registry} {r : Registration}
    (h : createNamespace lower r R = .ok R') : Extends R R' := by
  rw [createNamespace] at h
  split at h
  · cases h
  split at h
  · cases h
  split at h
  · cases h
  split at h
  · cases h
  · exact extends_insert h

theorem extends_patchNamespace {id : Uuid} {tenantId : Option String}
    {sensitivity : Option Sensitivity} {status : Option Status} {R R' : Registry}
    (h : patchNamespace id tenantId sensitivity status R = .ok R') : Extends R R' := by
  unfold patchNamespace at h
  split at h
  · cases h
  split at h
  · cases h
  split at h
  · cases h
  obtain rfl := Except.ok.inj h
  cases sensitivity with
  | none =>
    cases status with
    | none => exact Extends.refl R
    | some s => exact extends_relabel R id (relabels_setStatus s)
  | some s =>
    have hfirst := extends_relabel R id (relabels_setSensitivity s)
    cases status with
    | none => exact hfirst
    | some t => exact hfirst.trans (extends_relabel _ id (relabels_setStatus t))

theorem extends_retire (ownerType : OwnerType) (ownerRef : Uuid) (R : Registry) :
    Extends R (retireConnectorNamespaces ownerType ownerRef R) := by
  rw [retireConnectorNamespaces]
  generalize R.rows.filter _ = ns
  induction ns generalizing R with
  | nil => exact Extends.refl R
  | cons n ns ih =>
    exact (extends_relabel R n.id (relabels_setStatus .retired)).trans (ih _)

theorem Under.extend {R R' : Registry} {id : Uuid} {fullKey : String} (h : Under R id fullKey)
    (hR : Extends R R') : Under R' id fullKey := by
  obtain ⟨n, hn, rfl, hname, name, rfl⟩ := h
  obtain ⟨n', hn', hid', hname'⟩ := hR n hn
  exact ⟨n', hn', hid', hname' ▸ hname, name, by rw [fullKeyOf, fullKeyOf, hname']⟩

theorem Inv.withRegistry {db : Db} (h : Inv db) {result : Except String Registry}
    (hR : ∀ R, result = .ok R → Extends db.namespaces R) : Inv (db.withRegistry result) := by
  cases result with
  | error e => exact h
  | ok R => exact ⟨h.keys, fun v hv => (h.written v hv).extend (hR R rfl), h.keyed⟩

/-! ## the row of a write -/

theorem resolve_mem {R : Registry} {name : String} {tenant : Option String} {n : Namespace}
    (h : resolveNamespaceByName R name tenant = some n) : n ∈ R.rows ∧ n.name = name := by
  have hfind : ∀ key : String × String, key.2 = name →
      R.rows.find? (fun n => n.key = key) = some n → n ∈ R.rows ∧ n.name = name := by
    intro key hname hfound
    have hkey := List.find?_some hfound
    refine ⟨List.mem_of_find?_eq_some hfound, ?_⟩
    rw [← hname, ← of_decide_eq_true hkey]
    rfl
  rw [resolveNamespaceByName] at h
  rcases Option.or_eq_some_iff.mp h with h | ⟨-, h⟩
  · exact hfind _ rfl h
  · exact hfind _ rfl h

/-- a write goes into a row that is there, and not into the virtual one -/
def Target (R : Registry) (n : Namespace) : Prop := n ∈ R.rows ∧ n.name ≠ "velaris"

theorem target_resolve {R : Registry} {name : String} {tenant : Option String} {n : Namespace}
    (hname : name ≠ "velaris") (h : resolveNamespaceByName R name tenant = some n) :
    Target R n := by
  obtain ⟨hn, rfl⟩ := resolve_mem h
  exact ⟨hn, hname⟩

theorem target_bound {R : Registry} {ref : Uuid} {n : Namespace}
    (h : (scan.order R.rows).find? (fun n => n.boundTo ref) = some n) : Target R n := by
  have hn : n ∈ R.rows := (scan.perm R.rows).mem_iff.mp (List.mem_of_find?_eq_some h)
  have hfound : n.boundTo ref = true := by
    have hsome := List.find?_some h
    exact hsome
  have hbound := (Bool.and_eq_true_iff.mp hfound).1
  refine ⟨hn, fun hvelaris => ?_⟩
  have hreserved : n.name ∈ RESERVED_NAMESPACES := by
    rw [hvelaris]
    decide
  rw [((R.lawful n hn).2 hreserved).2] at hbound
  cases hbound

theorem eq_of_opened {o : Option Namespace} {n : Namespace} (h : opened o = .ok n) :
    o = some n := by
  cases o with
  | none => cases h
  | some m =>
    rw [opened] at h
    split at h
    · cases h
    · rw [Except.ok.inj h]

theorem target_resolveWriteNamespace {R : Registry} {ctx : CallerContext} {n : Namespace}
    (h : resolveWriteNamespace scan R ctx = .ok n) : Target R n := by
  rw [resolveWriteNamespace] at h
  cases hkind : ctx.kind with
  | platform =>
    rw [hkind] at h
    cases h
  | other name =>
    rw [hkind] at h
    cases h
  | form =>
    rw [hkind] at h
    exact target_resolve (by decide) (eq_of_opened h)
  | portal =>
    rw [hkind] at h
    exact target_resolve (by decide) (eq_of_opened h)
  | connector =>
    rw [hkind] at h
    cases href : ctx.ref with
    | none =>
      rw [href] at h
      cases h
    | some ref =>
      rw [href] at h
      exact target_bound scan (eq_of_opened h)
  | devconn =>
    rw [hkind] at h
    cases href : ctx.ref with
    | none =>
      rw [href] at h
      cases h
    | some ref =>
      rw [href] at h
      exact target_bound scan (eq_of_opened h)

theorem target_promotionTarget {p : Promotion} {R : Registry} {n : Namespace}
    (h : promotionTarget p R = .ok n) : Target R n := by
  rw [promotionTarget] at h
  split at h
  · cases hlegacy : resolveNamespaceByName R "legacy" p.tenantId with
    | none =>
      rw [hlegacy] at h
      cases h
    | some m =>
      rw [hlegacy] at h
      obtain rfl := Except.ok.inj h
      exact target_resolve (by decide) hlegacy
  · split at h
    · cases h
    · rename_i hreserved
      cases hresolve : resolveNamespaceByName R p.targetNamespace p.tenantId with
      | none =>
        rw [hresolve] at h
        cases h
      | some m =>
        rw [hresolve] at h
        dsimp only at h
        split at h
        · cases h
        · obtain rfl := Except.ok.inj h
          refine target_resolve (fun hvelaris => hreserved ?_) hresolve
          rw [hvelaris]
          decide

/-! ## a write -/

theorem mem_upsert {db : Db} {v w : Variable} (h : w ∈ (db.upsert v).values) :
    w = v ∨ w ∈ db.values := by
  rw [Db.upsert] at h
  dsimp only at h
  split at h
  · rcases mem_modify h with ⟨-, -, -, h⟩ | h
    · exact Or.inl h
    · exact Or.inr h
  · rcases List.mem_append.mp h with h | h
    · exact Or.inr h
    · exact Or.inl (List.mem_singleton.mp h)

theorem keys_upsert {db : Db} (v : Variable) (h : (db.values.map Variable.key).Nodup) :
    ((db.upsert v).values.map Variable.key).Nodup := by
  rw [Db.upsert]
  dsimp only
  split
  · have hsame : (Base.modify Variable.key v.key (fun _ => v) db.values).map Variable.key =
        db.values.map Variable.key := by
      rw [Base.modify, List.map_map]
      refine List.map_congr_left fun w _ => ?_
      show (if w.key = v.key then v else w).key = w.key
      split
      · rename_i hkey
        exact hkey.symm
      · rfl
    rw [hsame]
    exact h
  · rename_i hnone
    rw [List.map_append]
    refine List.nodup_append.mpr ⟨h, List.nodup_singleton _, fun a ha b hb hab => hnone ?_⟩
    obtain ⟨w, hw, rfl⟩ := List.mem_map.mp ha
    obtain ⟨w', hw', rfl⟩ := List.mem_map.mp hb
    rw [List.mem_singleton.mp hw'] at hab
    exact List.any_eq_true.mpr ⟨w, hw, decide_eq_true hab⟩

theorem Inv.upsert {db : Db} (h : Inv db) {v : Variable}
    (hv : Under db.namespaces v.under v.fullKey) : Inv (db.upsert v) := by
  refine ⟨keys_upsert v h.keys, fun w hw => ?_, h.keyed⟩
  rcases mem_upsert hw with rfl | hw
  · exact hv
  · exact h.written w hw

theorem Target.under {R : Registry} {n : Namespace} (h : Target R n) (name : String) :
    Under R n.id (fullKeyOf n name) := ⟨n, h.1, rfl, h.2, name, rfl⟩

theorem inv_definitionFor {db db' : Db} {caseType : Uuid} {n : Namespace} {name : String}
    {d : Definition} (h : Inv db)
    (hd : definitionFor db caseType n (fullKeyOf n name) = .ok (d, db')) :
    Inv db' ∧ db'.namespaces = db.namespaces := by
  rw [definitionFor] at hd
  cases hfound : db.definition? caseType (fullKeyOf n name) with
  | some e =>
    rw [hfound] at hd
    obtain ⟨-, rfl⟩ := Prod.mk.inj (Except.ok.inj hd)
    exact ⟨h, rfl⟩
  | none =>
    rw [hfound] at hd
    dsimp only at hd
    split at hd
    · cases hd
    rw [createUndeclared] at hd
    split at hd
    · cases hd
    obtain ⟨-, rfl⟩ := Prod.mk.inj (Except.ok.inj hd)
    refine ⟨⟨h.keys, h.written, fun e he => ?_⟩, rfl⟩
    rcases List.mem_append.mp he with he | he
    · exact h.keyed e he
    · rw [List.mem_singleton.mp he]
      exact ⟨dotted_fullKeyOf n name, fun src hsrc => nomatch hsrc⟩

theorem inv_setInNamespace {db db' : Db} {ctx : CallerContext} {n : Namespace} {caseId : Uuid}
    {name : String} {value : Value} (h : Inv db) (hn : Target db.namespaces n)
    (hset : setInNamespace env ctx n caseId name value db = .ok db') : Inv db' := by
  rw [setInNamespace] at hset
  dsimp only at hset
  cases hcase : db.case? caseId with
  | none =>
    rw [hcase] at hset
    cases hset
  | some c =>
    rw [hcase] at hset
    obtain ⟨⟨d, db₁⟩, hd, hset⟩ := exists_of_bind_ok hset
    obtain ⟨hinv, hsame⟩ := inv_definitionFor h hd
    dsimp only at hset
    split at hset
    · cases hset
    cases hcols : pack env d.varType value with
    | none =>
      rw [hcols] at hset
      cases hset
    | some cols =>
      rw [hcols] at hset
      obtain rfl := Except.ok.inj hset
      refine hinv.upsert ?_
      rw [hsame]
      exact hn.under name

theorem inv_setVariable {db db' : Db} {ctx : CallerContext} {caseId : Uuid} {name : String}
    {value : Value} (h : Inv db)
    (hset : CaseVars.setVariable env scan ctx caseId name value db = .ok db') : Inv db' := by
  rw [CaseVars.setVariable] at hset
  split at hset
  · cases hset
  split at hset
  · cases hset
  obtain ⟨n, hn, hset⟩ := exists_of_bind_ok hset
  exact inv_setInNamespace env h (target_resolveWriteNamespace scan hn) hset

theorem inv_setGranted {db db' : Db} {ctx : CallerContext} {allowed : Uuid → Bool} {caseId : Uuid}
    {fullKey : String} {value : Value} (h : Inv db)
    (hset : CaseVars.setGranted env ctx allowed caseId fullKey value db = .ok db') : Inv db' := by
  rw [CaseVars.setGranted] at hset
  cases hsplit : partitionDot fullKey with
  | none =>
    rw [hsplit] at hset
    cases hset
  | some p =>
    obtain ⟨nsName, name⟩ := p
    rw [hsplit] at hset
    dsimp only at hset
    split at hset
    · cases hset
    split at hset
    · cases hset
    split at hset
    · cases hset
    rename_i hreserved
    cases hresolve : resolveNamespaceByName db.namespaces nsName ctx.tenantId with
    | none =>
      rw [hresolve] at hset
      cases hset
    | some n =>
      rw [hresolve] at hset
      dsimp only at hset
      split at hset
      · cases hset
      split at hset
      · cases hset
      refine inv_setInNamespace env h (target_resolve (fun hvelaris => hreserved ?_) hresolve) hset
      rw [hvelaris]
      decide

/-! ## a promotion -/

theorem promotedDefinition_spec (p : Promotion) (n : Namespace) (fullKey : String)
    (existing : Option Definition) (values : List Value)
    (hexisting : ∀ d, existing = some d → d.fullKey = fullKey) :
    (promotedDefinition p n fullKey existing values).fullKey = fullKey ∧
      (promotedDefinition p n fullKey existing values).promotedSource = some p.key := by
  unfold promotedDefinition
  cases existing with
  | none =>
    dsimp only
    split <;> exact ⟨rfl, rfl⟩
  | some d =>
    dsimp only
    split <;> exact ⟨hexisting d rfl, rfl⟩

theorem Inv.putDefinition {db : Db} (h : Inv db) {d : Definition} (hd : Keyed d) :
    Inv (db.putDefinition d) := by
  refine ⟨h.keys, h.written, fun e he => ?_⟩
  rw [Db.putDefinition] at he
  dsimp only at he
  split at he
  · rcases mem_modify he with ⟨-, -, -, rfl⟩ | he
    · exact hd
    · exact h.keyed e he
  · rcases List.mem_append.mp he with he | he
    · exact h.keyed e he
    · rw [List.mem_singleton.mp he]
      exact hd

theorem inv_promoteValues {p : Promotion} {n : Namespace} {d : Definition}
    {values : List (Uuid × Value)} {db db' : Db} (h : Inv db)
    (hn : Under db.namespaces n.id d.fullKey)
    (hpromote : values.foldlM (promoteValue env p n d) db = .ok db') : Inv db' := by
  induction values generalizing db with
  | nil =>
    obtain rfl := Except.ok.inj hpromote
    exact h
  | cons value values ih =>
    rw [List.foldlM_cons] at hpromote
    obtain ⟨db₁, hone, hrest⟩ := exists_of_bind_ok hpromote
    rw [promoteValue] at hone
    split at hone
    · obtain rfl := Except.ok.inj hone
      exact ih h hn hrest
    · cases hcols : pack env d.varType value.2 with
      | none =>
        rw [hcols] at hone
        cases hone
      | some cols =>
        rw [hcols] at hone
        obtain rfl := Except.ok.inj hone
        exact ih (h.upsert hn) hn hrest

theorem inv_promoteBlobKey {p : Promotion} {db db' : Db} (h : Inv db)
    (hpromote : promoteBlobKey env p db = .ok db') : Inv db' := by
  rw [promoteBlobKey] at hpromote
  dsimp only at hpromote
  split at hpromote
  · cases hpromote
  rename_i hbare
  split at hpromote
  · cases hpromote
  obtain ⟨n, hn, hpromote⟩ := exists_of_bind_ok hpromote
  have htarget := target_promotionTarget hn
  split at hpromote
  · cases hpromote
  have hexisting : ∀ d, db.definition? p.caseType
      (fullKeyOf n ((p.targetName.filter (· ≠ "")).getD p.key)) = some d →
      d.fullKey = fullKeyOf n ((p.targetName.filter (· ≠ "")).getD p.key) := by
    intro d hd
    have hfound := List.find?_some hd
    have hkey : d.key = (p.caseType, _) := of_decide_eq_true hfound
    exact (Prod.mk.inj hkey).2
  obtain ⟨hkey, hsource⟩ := promotedDefinition_spec p n _ _
    ((blobValues p db).map Prod.snd) hexisting
  refine inv_promoteValues env (h.putDefinition ⟨?_, fun src hsrc => ?_⟩) ?_ hpromote
  · rw [hkey]
    exact dotted_fullKeyOf n _
  · rw [hsource] at hsrc
    obtain rfl := Option.some.inj hsrc
    exact fun hdot => hbare (Or.inr hdot)
  · rw [hkey]
    exact htarget.under _

/-! ## one action -/

theorem Inv.definitions {db : Db} (h : Inv db) {ds : List Definition} (hds : ∀ d ∈ ds, Keyed d) :
    Inv { db with definitions := ds } := ⟨h.keys, h.written, hds⟩

theorem inv_defineVariable {body : NewVariable} {db db' : Db} (h : Inv db)
    (hdefine : defineVariable env body db = .ok db') : Inv db' := by
  rw [defineVariable] at hdefine
  dsimp only at hdefine
  split at hdefine
  · cases hdefine
  split at hdefine
  · cases hdefine
  cases hn : db.namespaces.find? body.namespaceId with
  | none =>
    rw [hn] at hdefine
    cases hdefine
  | some n =>
    rw [hn] at hdefine
    dsimp only at hdefine
    split at hdefine
    · cases hdefine
    split at hdefine
    · cases hdefine
    split at hdefine
    · cases hdefine
    split at hdefine
    · cases hdefine
    split at hdefine
    · cases hdefine
    obtain rfl := Except.ok.inj hdefine
    refine h.definitions fun d hd => ?_
    rcases List.mem_append.mp hd with hd | hd
    · exact h.keyed d hd
    · rw [List.mem_singleton.mp hd]
      exact ⟨dotted_fullKeyOf n _, fun src hsrc => nomatch hsrc⟩

theorem inv_patchVariable {caseType : Uuid} {fullKey : String} {p : VariablePatch} {db db' : Db}
    (h : Inv db) (hpatch : patchVariable caseType fullKey p db = .ok db') : Inv db' := by
  rw [patchVariable] at hpatch
  split at hpatch
  · cases hpatch
  split at hpatch
  · cases hpatch
  split at hpatch
  · cases hpatch
  split at hpatch
  · cases hpatch
  obtain rfl := Except.ok.inj hpatch
  exact h.definitions (forall_modify h.keyed fun d _ _ hd => ⟨hd.dotted, hd.bare⟩)

theorem Inv.after {db : Db} (h : Inv db) {result : Except String Db}
    (hresult : ∀ db', result = .ok db' → Inv db') : Inv (db.after result) := by
  cases result with
  | error e => exact h
  | ok db' => exact hresult db' rfl

theorem inv_step {db : Db} (h : Inv db) (a : Action) : Inv (step env scan db a) := by
  cases a with
  | setVariable ctx caseId name value => exact h.after fun db' => inv_setVariable env scan h
  | setGranted ctx allowed caseId fullKey value => exact h.after fun db' => inv_setGranted env h
  | promote p => exact h.after fun db' => inv_promoteBlobKey env h
  | registerConnectorNamespace r =>
    exact h.withRegistry fun R => extends_registerConnectorNamespace scan
  | createNamespace r => exact h.withRegistry fun R => extends_createNamespace
  | patchNamespace id tenantId sensitivity status =>
    exact h.withRegistry fun R => extends_patchNamespace
  | retireConnectorNamespaces ownerType ownerRef =>
    exact ⟨h.keys, fun v hv => (h.written v hv).extend (extends_retire ownerType ownerRef _),
      h.keyed⟩
  | defineVariable body => exact h.after fun db' => inv_defineVariable env h
  | patchVariable caseType fullKey p => exact h.after fun db' => inv_patchVariable h
  | deleteVariable caseType fullKey =>
    exact h.definitions fun d hd => h.keyed d (List.mem_of_mem_filter hd)
  | forkDefinitions default new =>
    refine h.definitions fun d hd => ?_
    rcases List.mem_append.mp hd with hd | hd
    · exact h.keyed d hd
    · obtain ⟨e, he, rfl⟩ := List.mem_map.mp hd
      have hkeyed := h.keyed e (List.mem_of_mem_filter he)
      exact ⟨hkeyed.dotted, hkeyed.bare⟩
  | putCase c => exact ⟨h.keys, h.written, h.keyed⟩
  | dropCase id =>
    refine ⟨?_, fun v hv => h.written v (List.mem_of_mem_filter hv), h.keyed⟩
    exact h.keys.sublist (List.filter_sublist.map _)

end CaseVars
