import Velaris.Base.Attempt
import Velaris.Base.Table
import Velaris.Py.Runtime
import Velaris.Py.Text
import Mathlib.Logic.Function.Basic

/-!
# The rows that an import writes

`case_service/hxdeploy/packager.py`: what every handler of `apply_bundle` uses.

* `Kind`, `Row`, `Table`, `Db`   the design-time rows; a table has one row for each id;
* `Target`   whose rows an import writes;
* `State`, `Step`   an import that is under way, and a part of it;
* `ownedMatch`, `claimId`, `mapped`   `_owned_match`, `_claim_id` and the id maps;
* `Section`, `upsert`   a kind of resource: the row that an entry finds is written over,
    and where there is none a new one goes in.
-/

namespace HxDeploy

open Py Base

/-- a GUID by its text, as `str` writes it -/
abbrev Guid := String

inductive Kind where
  | dataModel
  | calendar
  | role
  | portal
  | emailTemplate
  | emailAccount
  | connector
  | process
  | form
  | rule
  | caseType
  | stage
  | step
  | escalation
  | webhook
  | outboundRule
  | receiverRule
  | group
  | bot
  | schedule
  deriving DecidableEq

structure Row where
  id : Guid
  /-- `tenant_id`; a default has none -/
  tenant : Option String := none
  forkedFrom : Option Guid := none
  createdAt : Int := 0
  cols : Dict
  deriving DecidableEq

structure Table where
  rows : List Row
  nodup : (rows.map Row.id).Nodup

def Table.empty : Table := ⟨[], List.nodup_nil⟩

/-- a row whose id is taken does not go in -/
def Table.insert (t : Table) (r : Row) : Option Table :=
  if h : r.id ∈ t.rows.map Row.id then none
  else
    some
      { rows := t.rows ++ [r]
        nodup := by
          rw [List.map_append, List.nodup_append]
          refine ⟨t.nodup, List.nodup_singleton _, ?_⟩
          rintro a ha b hb rfl
          rw [List.map_singleton, List.mem_singleton] at hb
          rw [hb] at ha
          exact h ha }

def Row.write (f : Dict → Dict) (r : Row) : Row := { r with cols := f r.cols }

def Table.write (t : Table) (id : Guid) (f : Dict → Dict) : Table where
  rows := modify Row.id id (Row.write f) t.rows
  nodup := by
    have hids : (modify Row.id id (Row.write f) t.rows).map Row.id = t.rows.map Row.id :=
      map_key_modify fun _ => rfl
    rw [hids]
    exact t.nodup

abbrev Db := Kind → Table

def Row.fits (ident : Dict) (r : Row) : Bool := ident.all fun c => r.cols.get c.1 = c.2

/-! ## whose rows -/

/-- `target_tenant_id`, and what `resolve_tenant` gives for it and for the default tenant -/
structure Target where
  token : String
  resolved : Option (Guid × String)
  default : Option Guid

def Target.ownerId (T : Target) : Option Guid :=
  if T.token = "" then none else T.resolved.map Prod.fst

/-- `same_tenant_as_default` -/
def Target.sameAsDefault (T : Target) : Bool :=
  match T.resolved, T.default with
  | none, _ => false
  | some _, none => T.token = "default"
  | some (id, _), some default => id = default

/-- `_owner_is_platform` -/
def Target.isPlatform (T : Target) : Bool := T.ownerId.isNone || T.sameAsDefault

def Target.newOwner (T : Target) : Option Guid := if T.isPlatform then none else T.ownerId

/-! ## an import under way -/

inductive Err where
  /-- `KeyError` -/
  | key (name : String)
  /-- `MultipleResultsFound` -/
  | several
  /-- `TypeError` of a key that has no hash -/
  | unhashable
  /-- `PendingRollbackError` -/
  | rolledBack
  | refused (message : String)

def Err.text : Err → String
  | key name => "'" ++ name ++ "'"
  | several => "Multiple rows were found when one or none was required"
  | unhashable => "unhashable type"
  | rolledBack => "This Session's transaction has been rolled back"
  | refused message => message

/-- from the id at the source to the id here, newest first -/
abbrev IdMap := List (Value × Guid)

structure State where
  db : Db
  ids : Kind → IdMap := fun _ => []
  /-- the calls of `uuid.uuid4` -/
  drawn : Nat := 0
  imported : Nat := 0
  skipped : Nat := 0
  errors : List String := []
  needsConfiguration : List Value
  installedAlongside : Dict := []
  /-- the database refused a flush, and the transaction is undone -/
  undone : Bool := false

structure Env where
  T : Target
  importedBy : String
  alongside : List String
  runtime : Runtime
  /-- `uuid.uuid4()` -/
  uuid4 : Nat → Guid
  now : Int
  /-- the constraints of the database beside the primary keys -/
  accepts : Db → Bool
  /-- `check_bpmn`, the findings as they are reported -/
  unsafeScripts : Value → Option String
  /-- `check_registry_allowed` -/
  registryRefuses : String → Option String
  /-- `validate_definition` of a bot -/
  invalidBot : Dict → Option String
  /-- `validate_schedule` -/
  invalidSchedule : Db → Dict → Option String
  /-- `rollouts.resolve` -/
  resolveRollout : Guid → Guid
  /-- `_rollout_open` -/
  rolloutOpen : Value → Bool

abbrev Step (α : Type) := Attempt Err State α

variable (env : Env)

def flush (s : State) : State := if env.accepts s.db then s else { s with undone := true }

def State.setTable (s : State) (k : Kind) (t : Table) : State :=
  { s with db := Function.update s.db k t }

/-- `session.add`, and what the database does with it -/
def insertRow (k : Kind) (r : Row) : Step Unit := fun s =>
  if s.undone then (.error .rolledBack, s)
  else
    match (s.db k).insert r with
    | some t => (.ok (), s.setTable k t)
    | none => (.error .rolledBack, { s with undone := true })

def writeRow (k : Kind) (id : Guid) (f : Dict → Dict) : Step Unit :=
  .alter fun s => s.setTable k ((s.db k).write id f)

def countImported : Step Unit := .alter fun s => { s with imported := s.imported + 1 }

def countSkipped : Step Unit := .alter fun s => { s with skipped := s.skipped + 1 }

def newId : Step Guid := fun s => (.ok (env.uuid4 s.drawn), { s with drawn := s.drawn + 1 })

/-- `X_id_map[key] = id` -/
def record (k : Kind) (key : Value) (id : Guid) : Step Unit :=
  if key.hashable then
    .alter fun s => { s with ids := Function.update s.ids k ((key, id) :: s.ids k) }
  else .fail .unhashable

def IdMap.get (ids : IdMap) (key : Value) : Option Guid :=
  (ids.find? fun p => p.1.eq key).map Prod.snd

/-- `X_id_map.get(key)` -/
def mapped (k : Kind) (key : Value) : Step (Option Guid) :=
  if key.hashable then .read fun s => (s.ids k).get key else .fail .unhashable

/-! ## the values of an entry -/

inductive Src where
  /-- `e[key]` -/
  | item (key : String)
  /-- `e.get(key, default)` -/
  | get (key : String) (default : Value)
  | const (v : Value)
  /-- `e.get(key)`, where it is set and the column is not -/
  | fill (key : String)

def Src.take (e : Dict) (old : Value) : Src → Except Err Value
  | .item key =>
    match e.lookup key with
    | some v => .ok v
    | none => .error (.key key)
  | .get key default => .ok ((e.lookup key).getD default)
  | .const v => .ok v
  | .fill key => .ok (if (e.get key).truthy ∧ ¬old.truthy then e.get key else old)

/-- assignments one after another, up to the first that fails -/
def assign (e : Dict) : List (String × Src) → Dict → Except Err Unit × Dict
  | [], cols => (.ok (), cols)
  | (column, src) :: rest, cols =>
    match src.take e (cols.get column) with
    | .ok v => assign e rest (cols.set column v)
    | .error err => (.error err, cols)

def evaluate (e : Dict) (srcs : List (String × Src)) : Except Err Dict :=
  match assign e srcs [] with
  | (.ok (), cols) => .ok cols
  | (.error err, _) => .error err

def items (names : List String) : List (String × Src) := names.map fun name => (name, .item name)

/-! ## finding a row -/

/-- `scalar_one_or_none` -/
def oneOrNone : List Row → Except Err (Option Row)
  | [] => .ok none
  | [r] => .ok (some r)
  | _ :: _ :: _ => .error .several

def rowsWhere (k : Kind) (p : Row → Bool) : Step (List Row) := fun s =>
  if s.undone then (.error .rolledBack, s) else (.ok ((s.db k).rows.filter p), s)

/-- the row that was created last; of several the first -/
def newest : List Row → Option Row
  | [] => none
  | r :: rows =>
    match newest rows with
    | some r' => if r.createdAt < r'.createdAt then some r' else some r
    | none => some r

/-- `inherit.fork` -/
def fork (k : Kind) (default : Row) (owner : Guid) : Step Row := do
  let forks ← rowsWhere k fun r => r.tenant = some owner ∧ r.forkedFrom = some default.id
  match newest forks with
  | some row => pure row
  | none =>
    let ident := default.cols.filter fun c => c.1 = "name" ∨ c.1 = "version"
    let taken ← rowsWhere k fun r => r.tenant = some owner ∧ r.fits ident
    if taken ≠ [] then
      .fail (.refused ("Your tenant already has its own '" ++
        env.runtime.str (default.cols.get "name") ++ "'; edit that one instead."))
    else
      let id ← newId env
      let row : Row :=
        { id := id, tenant := some owner, forkedFrom := some default.id, createdAt := env.now,
          cols := default.cols }
      insertRow k row
      .alter (flush env)
      pure row

def ownedMatch (k : Kind) (ident : Dict) : Step (Option Row) :=
  if env.T.isPlatform then do
    let rows ← rowsWhere k fun r => r.fits ident ∧ (r.tenant = none ∨ r.tenant = env.T.ownerId)
    pure ((rows.find? fun r => r.tenant.isSome).or rows.head?)
  else do
    let own ← rowsWhere k fun r => r.fits ident ∧ r.tenant = env.T.ownerId
    match own.head?, env.T.ownerId with
    | some row, _ => pure (some row)
    | none, none => pure none
    | none, some owner =>
      let defaults ← rowsWhere k fun r => r.fits ident ∧ r.tenant = none
      match defaults.head? with
      | none => pure none
      | some default => do
        let row ← fork env k default owner
        pure (some row)

/-- `_uuid` -/
def asUuid : Value → Option Guid
  | .str text => if text = "" then none else (uuid text).map uuidText
  | _ => none

def claimId (k : Kind) (sourceId : Value) : Step Guid :=
  match asUuid sourceId with
  | none => newId env
  | some wanted => do
    let taken ← rowsWhere k fun r => r.id = wanted
    if taken ≠ [] then newId env else pure wanted

/-! ## a kind of resource -/

inductive Reach where
  | own
  | anyone
  | inherited

structure Section where
  kind : Kind
  reach : Reach
  /-- the columns by which an entry finds its row -/
  key : List (String × Src)
  update : List (String × Src)
  create : List (String × Src)
  /-- the owner of a new row -/
  tenant : Option String
  /-- a new row keeps the id of the source where that is free -/
  claims : Bool := true
  /-- the id here is recorded under the id at the source -/
  records : Bool := false

def locate (S : Section) (e : Dict) : Step (Option Row) := do
  let ident ← .lift (evaluate e S.key)
  match S.reach with
  | .own => do
    let rows ← rowsWhere S.kind fun r => r.fits ident ∧ r.tenant = some env.T.token
    .lift (oneOrNone rows)
  | .anyone => do
    let rows ← rowsWhere S.kind (Row.fits ident)
    .lift (oneOrNone rows)
  | .inherited => ownedMatch env S.kind ident

def recordId (S : Section) (e : Dict) (id : Guid) : Step Unit :=
  if S.records then do
    let source ← .lift (Src.take e .none (.item "id"))
    record S.kind source id
  else pure ()

/-- the columns of the row that an entry has found, after it -/
def Section.written (S : Section) (e : Dict) (cols : Dict) : Dict := (assign e S.update cols).2

def overwrite (S : Section) (e : Dict) (row : Row) : Step Unit := do
  writeRow S.kind row.id (S.written e)
  .lift (assign e S.update row.cols).1
  recordId S e row.id
  countSkipped

def idFor (S : Section) (e : Dict) : Step Guid :=
  if S.claims then claimId env S.kind (e.get "id") else newId env

def create (S : Section) (e : Dict) : Step Guid := do
  let id ← idFor env S e
  let cols ← .lift (evaluate e S.create)
  insertRow S.kind { id := id, tenant := S.tenant, createdAt := env.now, cols := cols }
  recordId S e id
  countImported
  pure id

def store (S : Section) (e : Dict) : Option Row → Step Unit
  | some row => overwrite S e row
  | none => do
    let _ ← create env S e
    pure ()

def upsert (S : Section) (e : Dict) : Step Unit := do
  let row ← locate env S e
  store env S e row

end HxDeploy
