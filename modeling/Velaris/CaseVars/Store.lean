import Velaris.CaseVars.Registry

/-!
# Case variables and their writes

`case_service/case_vars/service.py`.

* `pack`, `unpack`   the typed columns of a value;
* `Variable`, `Db`   what is stored;
* `setInNamespace`, `setVariable`, `setGranted`, `promoteBlobKey`   the writes.
-/

namespace CaseVars

open Py Base

structure Env where
  /-- `str.lower` -/
  lower : String → String
  /-- `len(json.dumps(value, default=str).encode()) <= MAX_VALUE_BYTES` -/
  sizeOk : Value → Bool
  /-- `float(value)`; a number that is too large has none -/
  double : ℚ → Option ℚ

/-! ## value packing -/

structure Columns where
  text : Option String := none
  num : Option ℚ := none
  bool : Option Bool := none
  json : Value := .none
  deriving DecidableEq

variable (env : Env)

def effectiveType (varType : String) (value : Value) : String :=
  if varType = "any" then
    match value with
    | .bool _ => "bool"
    | .int _ | .float _ => "float"
    | .str _ => "str"
    | .none | .list _ | .dict _ => "json"
  else varType

/-- `_pack`; `none` where `float` raises -/
def pack (varType : String) (value : Value) : Option Columns :=
  let effective := effectiveType varType value
  match value with
  | .none => some {}
  | .bool b => some (if effective = "bool" then { bool := some b } else { json := value })
  | .int n =>
    if effective ∈ ["int", "float"] then (env.double n).map fun q => { num := some q }
    else some { json := value }
  | .float q =>
    if effective ∈ ["int", "float"] then (env.double q).map fun q => { num := some q }
    else some { json := value }
  | .str s =>
    some (if effective ∈ ["str", "date", "datetime"] then { text := some s } else { json := value })
  | .list _ | .dict _ => some { json := value }

def Columns.unpack (c : Columns) : Value :=
  match c.bool, c.num, c.text with
  | some b, _, _ => .bool b
  | none, some q, _ => if q.den = 1 then .int q.num else .float q
  | none, none, some s => .str s
  | none, none, none => c.json

/-! ## what is stored -/

structure Case where
  id : Uuid
  caseType : Uuid
  /-- `case.data` -/
  data : Value
  status : Value
  priority : Value
  currentStageId : Value
  caseNumber : Value
  createdBy : Value

inductive DefinitionStatus where
  | defined
  | undeclared
  | ignored
  deriving DecidableEq

structure Definition where
  caseType : Uuid
  namespaceId : Uuid
  fullKey : String
  varType : String := "any"
  status : DefinitionStatus := .defined
  sensitivityOverride : Option Sensitivity := none
  promotedSource : Option String := none

/-- `UNIQUE (case_type_id, full_key)` -/
def Definition.key (d : Definition) : Uuid × String := (d.caseType, d.fullKey)

structure Variable where
  caseId : Uuid
  fullKey : String
  cols : Columns
  writtenBy : String
  /-- the namespace row that the last write went through, which the table does not keep -/
  under : Uuid
  deriving DecidableEq

/-- `UNIQUE (case_id, full_key)` -/
def Variable.key (v : Variable) : Uuid × String := (v.caseId, v.fullKey)

def Variable.value (v : Variable) : Value := v.cols.unpack

structure Db where
  namespaces : Registry
  cases : List Case
  definitions : List Definition
  values : List Variable

namespace Db

def case? (db : Db) (id : Uuid) : Option Case := db.cases.find? fun c => c.id = id

def definition? (db : Db) (caseType : Uuid) (fullKey : String) : Option Definition :=
  db.definitions.find? fun d => d.key = (caseType, fullKey)

/-- `INSERT … ON CONFLICT (case_id, full_key) DO UPDATE` -/
def upsert (db : Db) (v : Variable) : Db :=
  { db with
    values :=
      if db.values.any fun w => w.key = v.key then
        Base.modify Variable.key v.key (fun _ => v) db.values
      else db.values ++ [v] }

end Db

/-! ## the writes -/

def MAX_UNDECLARED_PER_NS : Nat := 100
def MAX_VARS_PER_CASE : Nat := 500

def fullKeyOf (n : Namespace) (name : String) : String := n.name ++ "." ++ name

def Db.undeclared (db : Db) (caseType : Uuid) (n : Namespace) : Nat :=
  db.definitions.countP fun d =>
    d.caseType = caseType ∧ d.namespaceId = n.id ∧ d.status = .undeclared

def createUndeclared (db : Db) (caseType : Uuid) (n : Namespace) (fullKey : String) :
    Except String (Definition × Db) :=
  if MAX_UNDECLARED_PER_NS ≤ db.undeclared caseType n then
    .error ("Undeclared-variable cap reached for namespace '" ++ n.name ++ "' on this " ++
      "case type (100). Define or ignore pending variables first.")
  else
    let d : Definition :=
      { caseType := caseType, namespaceId := n.id, fullKey := fullKey, status := .undeclared }
    .ok (d, { db with definitions := db.definitions ++ [d] })

def definitionFor (db : Db) (caseType : Uuid) (n : Namespace) (fullKey : String) :
    Except String (Definition × Db) :=
  match db.definition? caseType fullKey with
  | some d => .ok (d, db)
  | none =>
    if n.status = .frozen then
      .error ("Namespace '" ++ n.name ++ "' is frozen — no new variables.")
    else createUndeclared db caseType n fullKey

def setInNamespace (ctx : CallerContext) (n : Namespace) (caseId : Uuid) (name : String)
    (value : Value) (db : Db) : Except String Db := do
  let fullKey := fullKeyOf n name
  match db.case? caseId with
  | none => .error "Case not found."
  | some c =>
    let (d, db) ← definitionFor db c.caseType n fullKey
    if MAX_VARS_PER_CASE ≤ db.values.countP (fun v => v.caseId = caseId) ∧
        ¬db.values.any fun v => v.key = (caseId, fullKey) then
      .error "Case variable limit reached (500)."
    else
      match pack env d.varType value with
      | none => .error "int too large to convert to float"
      | some cols =>
        .ok (db.upsert
          { caseId := caseId, fullKey := fullKey, cols := cols,
            writtenBy := n.name ++ ":" ++ ctx.actorId, under := n.id })

def oversize : String := "Value exceeds 64KB limit."

def setVariable (scan : Scan Namespace) (ctx : CallerContext) (caseId : Uuid) (name : String)
    (value : Value) (db : Db) : Except String Db := do
  if ¬matchesName name then .error "Variable names must match ^[a-z][a-z0-9_]\x7b0,99\x7d$."
  else if ¬env.sizeOk value then .error oversize
  else
    let n ← resolveWriteNamespace scan db.namespaces ctx
    setInNamespace env ctx n caseId name value db

/-- `text.partition(".")`, where there is a dot -/
def partitionDot (text : String) : Option (String × String) :=
  match text.toList.span (· ≠ '.') with
  | (_, []) => none
  | (before, _ :: after) => some (String.ofList before, String.ofList after)

/-- `set_granted`; `allowed` is what `hxguard.check` says of the caller and the namespace -/
def setGranted (ctx : CallerContext) (allowed : Uuid → Bool) (caseId : Uuid) (fullKey : String)
    (value : Value) (db : Db) : Except String Db :=
  match partitionDot fullKey with
  | none => .error "Target must be 'namespace.name' (lowercase, [a-z0-9_])."
  | some (nsName, name) =>
    if ¬matchesName nsName ∨ ¬matchesName name then
      .error "Target must be 'namespace.name' (lowercase, [a-z0-9_])."
    else if ¬env.sizeOk value then .error oversize
    else if nsName ∈ RESERVED_NAMESPACES then
      .error ("'" ++ nsName ++ "' is reserved — not a grantable write target.")
    else
      match resolveNamespaceByName db.namespaces nsName ctx.tenantId with
      | none => .error ("Namespace '" ++ nsName ++ "' is not registered.")
      | some n =>
        if n.status = .retired then
          .error ("Namespace '" ++ nsName ++ "' is retired — writes are closed.")
        else if ¬allowed n.id then
          .error ("No write grant for " ++ ctx.kind.text ++ " '" ++ ctx.actorId ++
            "' on namespace '" ++ nsName ++ "'.")
        else setInNamespace env ctx n caseId name value db

/-! ## sensitivity -/

def effectiveSensitivity (n : Namespace) (d : Option Definition) : Sensitivity :=
  match d.bind Definition.sensitivityOverride with
  | some override => if n.sensitivity.index < override.index then override else n.sensitivity
  | none => n.sensitivity

/-! ## promotion -/

/-- the types that `_infer_var_type` counts -/
def sampleType : Value → Option String
  | .bool _ => some "bool"
  | .int _ | .float _ => some "float"
  | .str _ => some "str"
  | .dict _ => some "dict"
  | .list _ => some "list"
  | .none => none

/-- `_infer_var_type`: the one type of all samples -/
def inferVarType (values : List Value) : String :=
  match values.filterMap sampleType with
  | [] => "any"
  | t :: ts => if ts.all (· = t) then t else "any"

structure Promotion where
  caseType : Uuid
  key : String
  targetNamespace : String := "legacy"
  targetName : Option String := none
  varType : Option String := none
  actor : String := "admin"
  tenantId : Option String := none
  /-- `_blob_pii_hints` -/
  piiHints : List String := []

def promotionTarget (p : Promotion) (R : Registry) : Except String Namespace :=
  if p.targetNamespace = "legacy" then
    match resolveNamespaceByName R "legacy" p.tenantId with
    | some n => .ok n
    | none => .error "Reserved 'legacy' namespace missing — run migration 087."
  else if p.targetNamespace ∈ RESERVED_NAMESPACES then
    .error ("'" ++ p.targetNamespace ++
      "' is reserved — promote to 'legacy' or a registered namespace.")
  else
    match resolveNamespaceByName R p.targetNamespace p.tenantId with
    | none => .error ("Namespace '" ++ p.targetNamespace ++ "' is not registered.")
    | some n =>
      if n.status = .retired then
        .error ("Namespace '" ++ p.targetNamespace ++ "' is retired.")
      else .ok n

def blobValues (p : Promotion) (db : Db) : List (Uuid × Value) :=
  (db.cases.filter fun c => c.caseType = p.caseType).filterMap fun c =>
    (c.data.dict?.bind fun blob => blob.lookup p.key).map fun v => (c.id, v)

def promotedDefinition (p : Promotion) (n : Namespace) (fullKey : String)
    (existing : Option Definition) (values : List Value) : Definition :=
  let d : Definition :=
    match existing with
    | some d => { d with promotedSource := some p.key }
    | none =>
      { caseType := p.caseType, namespaceId := n.id, fullKey := fullKey
        varType := (p.varType.filter (· ≠ "")).getD (inferVarType (values.take 200))
        promotedSource := some p.key }
  -- stricter only: what is secret stays so
  if p.key ∈ p.piiHints ∧ effectiveSensitivity n (some d) ∉ [.pii, .secret] then
    { d with sensitivityOverride := some .pii }
  else d

def Db.putDefinition (db : Db) (d : Definition) : Db :=
  { db with
    definitions :=
      if db.definitions.any fun e => e.key = d.key then
        Base.modify Definition.key d.key (fun _ => d) db.definitions
      else db.definitions ++ [d] }

def promoteValue (p : Promotion) (n : Namespace) (d : Definition) (db : Db)
    (value : Uuid × Value) : Except String Db :=
  if ¬env.sizeOk value.2 then .ok db
  else
    match pack env d.varType value.2 with
    | none => .error "int too large to convert to float"
    | some cols =>
      .ok (db.upsert
        { caseId := value.1, fullKey := d.fullKey, cols := cols,
          writtenBy := "migration:" ++ p.actor, under := n.id })

def promoteBlobKey (p : Promotion) (db : Db) : Except String Db := do
  if p.key = "" ∨ '.' ∈ p.key.toList then .error "Only bare case.data keys can be promoted."
  else
    let name := (p.targetName.filter (· ≠ "")).getD p.key
    if ¬matchesName name then
      .error ("'" ++ name ++ "' is not a valid variable name — pass target_name " ++
        "matching ^[a-z][a-z0-9_]\x7b0,99\x7d$ (original key is kept in promoted_source).")
    else
      let n ← promotionTarget p db.namespaces
      let fullKey := fullKeyOf n name
      match db.definitions.find? fun d =>
          d.caseType = p.caseType ∧ d.promotedSource = some p.key with
      | some promoted =>
        .error ("'" ++ p.key ++ "' is already promoted to " ++ promoted.fullKey ++ ".")
      | none =>
        let values := blobValues p db
        let d := promotedDefinition p n fullKey (db.definition? p.caseType fullKey)
          (values.map Prod.snd)
        values.foldlM (promoteValue env p n d) (db.putDefinition d)

end CaseVars
