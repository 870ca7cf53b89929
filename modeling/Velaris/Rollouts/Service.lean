import Velaris.Base.Run
import Velaris.Base.Traverse
import Velaris.Py.Runtime
import Velaris.Py.Text

/-!
# Staged rollouts of a case type

`case_service/rollouts/service.py` with the targeting of `rollouts/policy.py`.  The table is the
list of its rows, newest first, which is the order `resolve` reads them in.

* `resolve`   the case type of a new case;
* `start`, `approve`, `setPercent`, `promote`, `rollback`, `supersede`   the life of a rollout;
* `Op`, `step`   one request; a refused one writes nothing.
-/

namespace Rollouts
open Py

/-! ## rows -/

inductive Strategy where
  | immediate
  | flag
  | percentage
  | blueGreen
  deriving DecidableEq

/-- `STRATEGIES` -/
def Strategy.ofText : String → Option Strategy
  | "immediate" => some immediate
  | "flag" => some flag
  | "percentage" => some percentage
  | "blue_green" => some blueGreen
  | _ => none

inductive State where
  | requested
  | dormant
  | rolling
  | promoted
  | rolledBack
  | superseded
  deriving DecidableEq

def State.text : State → String
  | requested => "requested"
  | dormant => "dormant"
  | rolling => "rolling"
  | promoted => "promoted"
  | rolledBack => "rolled_back"
  | superseded => "superseded"

/-- `OPEN_STATES` -/
def State.isOpen : State → Bool
  | requested | dormant | rolling => true
  | promoted | rolledBack | superseded => false

def MAX_HOPS : Nat := 8

/-- the targeting of a rollout's policy, as `validate_targeting` stores it -/
structure Targeting where
  incl : List String := []
  excl : List String := []
  field : Option String := none
  values : List String := []
  deriving DecidableEq

structure Rollout where
  id : Uuid
  tenantId : Uuid
  artifactKind : String := "case_type"
  artifactName : String
  baselineId : Uuid
  candidateId : Uuid
  strategy : Strategy
  percent : Int := 0
  state : State := .requested
  openKey : Option String := none
  requestedBy : Option String := none
  approvedBy : Option String := none
  closedBy : Option String := none
  supersededBy : Option Uuid := none
  targeting : Option Targeting := none
  deriving DecidableEq

structure CaseType where
  name : String
  isDeleted : Bool := false
  tenantId : Option Uuid := none

structure Platform where
  runtime : Runtime
  casefold : String → String
  caseType : Uuid → Option CaseType

variable (P : Platform)

/-! ## the arm of an open rollout -/

def hexDigit (c : Char) : Nat :=
  if c.isDigit then c.toNat - '0'.toNat else c.toNat - 'a'.toNat + 10

/-- `int(text, 16)` of a hexadecimal digest -/
def hexValue (text : List Char) : Nat := text.foldl (fun n c => 16 * n + hexDigit c) 0

def bucket (rolloutId : Uuid) (subject : String) : Nat :=
  hexValue ((P.runtime.sha256 (uuidText rolloutId ++ ":" ++ subject)).toList.take 8) % 100

/-- `policy.norm` -/
def norm (subject : Option String) : String :=
  P.casefold (String.ofList (strip (subject.getD "").toList))

inductive Arm where
  | baseline
  | candidate
  deriving DecidableEq

/-- `policy.target`; `none` where the percentage decides -/
def target (targeting : Option Targeting) (subject : Option String) (data : Option Dict) :
    Option Arm :=
  match targeting with
  | none => none
  | some t =>
    let key := norm P subject
    if key ≠ "" ∧ key ∈ t.excl then some .baseline
    else if key ≠ "" ∧ key ∈ t.incl then some .candidate
    else
      match t.field with
      | none => none
      | some field =>
        let value := (data.getD []).get field
        if value = .none ∨ P.runtime.str value ∉ t.values then some .baseline else none

/-- a request for a new case: whose it is, and the text drawn where it is nobody's -/
structure Asked where
  subject : Option String := none
  data : Option Dict := none
  drawn : String := ""

structure Resolution where
  caseTypeId : Uuid
  rolloutId : Option Uuid := none
  arm : Option Arm := none
  bucket : Option Nat := none
  reason : Option String := none

/-- `subject or str(uuid.uuid4())` -/
def Asked.identity (asked : Asked) : String :=
  match asked.subject with
  | some subject => if subject = "" then asked.drawn else subject
  | none => asked.drawn

/-- the arm that targeting forces; a rollout nobody approved has none -/
def forced (asked : Asked) (r : Rollout) : Option Arm :=
  if r.state = .dormant ∨ r.state = .rolling then target P r.targeting asked.subject asked.data
  else none

def armOf (asked : Asked) (r : Rollout) : Arm :=
  match forced P asked r with
  | some arm => arm
  | none =>
    if r.state = .rolling ∧ (bucket P r.id asked.identity : Int) < r.percent then .candidate
    else .baseline

def reasonOf (asked : Asked) (r : Rollout) : String :=
  match forced P asked r with
  | none => "percentage"
  | some .candidate => "pilot"
  | some .baseline =>
    if norm P asked.subject ∈ (r.targeting.map (·.excl)).getD [] then "excluded"
    else "not_targeted"

def Rollout.chosen (asked : Asked) (r : Rollout) : Uuid :=
  match armOf P asked r with
  | .candidate => r.candidateId
  | .baseline => r.baselineId

def decided (asked : Asked) (r : Rollout) : Resolution where
  caseTypeId := r.chosen P asked
  rolloutId := some r.id
  arm := some (armOf P asked r)
  bucket := some (bucket P r.id asked.identity)
  reason := some (reasonOf P asked r)

/-! ## the resolver -/

/-- the rollout has the version as its baseline or its candidate -/
def Rollout.touches (tenant current : Uuid) (r : Rollout) : Bool :=
  r.tenantId = tenant && r.artifactKind = "case_type" &&
    (r.baselineId = current || r.candidateId = current)

/-- where a closed rollout sends the requests for a version -/
def Rollout.sends (current : Uuid) (r : Rollout) : Option Uuid :=
  if r.state = .promoted ∧ r.baselineId = current then some r.candidateId
  else if (r.state = .rolledBack ∨ r.state = .superseded) ∧ r.candidateId = current then
    some r.baselineId
  else none

def openRow (rows : List Rollout) (tenant current : Uuid) : Option Rollout :=
  (rows.filter (Rollout.touches tenant current)).find? fun r => r.state.isOpen

def redirect (rows : List Rollout) (tenant current : Uuid) : Option Uuid :=
  (rows.filter (Rollout.touches tenant current)).findSome? (Rollout.sends current)

/-- the loop of `resolve`; `hops` are left -/
def walk (rows : List Rollout) (tenant : Uuid) (asked : Asked) :
    Nat → List Uuid → Uuid → Resolution
  | 0, _, current => { caseTypeId := current }
  | hops + 1, seen, current =>
    match openRow rows tenant current with
    | some r => decided P asked r
    | none =>
      match redirect rows tenant current with
      | none => { caseTypeId := current }
      | some nxt =>
        if nxt ∈ current :: seen then { caseTypeId := current }
        else walk rows tenant asked hops (current :: seen) nxt

/-- the state of the process that resolves: whether the table is there, whose tenant it is, and
whether it remembers that the tenant had no rollouts -/
structure Caller where
  tableReady : Bool := true
  tenant : Option Uuid
  noRollouts : Bool := false

def tenantHasRollouts (rows : List Rollout) (caller : Caller) (tenant : Uuid) : Bool :=
  !caller.noRollouts && rows.any fun r => r.tenantId = tenant

def resolve (rows : List Rollout) (caller : Caller) (asked : Asked) (caseTypeId : Uuid) :
    Resolution :=
  if caller.tableReady = false then { caseTypeId := caseTypeId }
  else
    match caller.tenant with
    | none => { caseTypeId := caseTypeId }
    | some tenant =>
      if tenantHasRollouts rows caller tenant then
        walk P rows tenant asked MAX_HOPS [] caseTypeId
      else { caseTypeId := caseTypeId }

/-! ## refusals -/

inductive Refused where
  /-- `RolloutError` -/
  | rollout (message : String)
  /-- `RolloutLocked`, with the open rollout -/
  | locked (openRollout : Rollout)
  /-- `PermissionError` -/
  | permission (message : String)
  /-- `LookupError` -/
  | lookup (message : String)
  /-- `IntegrityError` -/
  | integrity
  deriving DecidableEq

def NOT_ROLLABLE : List (String × String) :=
  [("rule", "rules are not chosen per case — every enabled rule for a case type " ++
     "fires — so two versions cannot be split between customers. Ship the " ++
     "rule change inside a new case type version, and roll that out"),
   ("process", "a process is reached through its case type's lifecycle process, " ++
     "not chosen per case. Ship it inside a new case type version, and " ++
     "roll that out")]

def KINDS : List String := ["case_type"]

/-! ## the life of a rollout -/

/-- `_open_key` -/
def openKeyOf (tenant : Uuid) (kind name : String) : String :=
  String.ofList ((uuidText tenant ++ ":" ++ kind ++ ":" ++ name).toList.take 400)

def openFor (rows : List Rollout) (tenant : Uuid) (kind name : String) : Option Rollout :=
  rows.find? fun r => r.openKey = some (openKeyOf tenant kind name)

def checkPercent (strategy : Strategy) (percent : Option Int) : Except Refused Int :=
  let p := percent.getD 0
  if ¬ (0 ≤ p ∧ p ≤ 100) then .error (.rollout "percent is 0 to 100")
  else if (strategy = .flag ∨ strategy = .blueGreen) ∧ p ≠ 0 ∧ p ≠ 100 then
    .error (.rollout ("a " ++ (if strategy = .flag then "flag" else "blue_green") ++
      " rollout is either off (0) or fully on (100)"))
  else .ok p

def strategyOf (text : String) : Except Refused Strategy :=
  match Strategy.ofText text with
  | some strategy => .ok strategy
  | none =>
    .error (.rollout "strategy must be one of immediate, flag, percentage, blue_green")

/-- `_case_type_visible` -/
def CaseType.visible (tenant : Uuid) (ct : CaseType) : Bool :=
  !ct.isDeleted && (ct.tenantId = none || ct.tenantId = some tenant)

def visibleType (tenant : Uuid) (id : Uuid) : Except Refused CaseType :=
  match (P.caseType id).filter (CaseType.visible tenant) with
  | some ct => .ok ct
  | none => .error (.lookup "no such case type")

def checkKind (kind : String) : Except Refused Unit :=
  match NOT_ROLLABLE.lookup kind with
  | some why =>
    .error (.rollout ("a " ++ kind ++ " cannot be rolled out on its own: " ++ why))
  | none =>
    if kind ∈ KINDS then .ok ()
    else .error (.rollout ("unknown artifact kind " ++ P.runtime.repr (.str kind)))

theorem caseType_of_visible {tenant id : Uuid} {ct : CaseType}
    (h : visibleType P tenant id = .ok ct) : P.caseType id = some ct := by
  unfold visibleType at h
  split at h
  · rename_i x hx
    rw [← Except.ok.inj h]
    exact (Option.filter_eq_some_iff.mp hx).1
  · cases h

theorem kind_of_check {kind : String} {u : Unit} (h : checkKind P kind = .ok u) :
    kind = "case_type" := by
  unfold checkKind at h
  split at h
  · cases h
  · split at h
    · rename_i hmem
      exact List.mem_singleton.mp hmem
    · cases h

/-- what `start` is asked for; `id` is the id the new row draws -/
structure Start where
  id : Uuid
  tenantId : Uuid
  kind : String := "case_type"
  baselineId : Uuid
  candidateId : Uuid
  strategy : String
  percent : Int := 0
  actor : Option String := none

def Start.row (q : Start) (strategy : Strategy) (percent : Int) (name : String) : Rollout where
  id := q.id
  tenantId := q.tenantId
  artifactKind := q.kind
  artifactName := name
  baselineId := q.baselineId
  candidateId := q.candidateId
  strategy := strategy
  percent := percent
  state := .requested
  openKey := some (openKeyOf q.tenantId q.kind name)
  requestedBy := q.actor

def start (rows : List Rollout) (q : Start) : Except Refused Rollout :=
  (checkKind P q.kind).bind fun _ =>
  (strategyOf q.strategy).bind fun strategy =>
  (checkPercent strategy (some q.percent)).bind fun percent =>
  if q.baselineId = q.candidateId then
    .error (.rollout "the baseline and the candidate are the same version")
  else
    (visibleType P q.tenantId q.baselineId).bind fun base =>
    (visibleType P q.tenantId q.candidateId).bind fun cand =>
    if base.name ≠ cand.name then
      .error (.rollout ("a rollout moves customers between two versions of ONE case type; " ++
        P.runtime.repr (.str base.name) ++ " and " ++ P.runtime.repr (.str cand.name) ++
        " are different case types"))
    else
      match openFor rows q.tenantId q.kind base.name with
      | some existing => .error (.locked existing)
      | none =>
        -- the primary key of the table
        if rows.any fun r => r.id = q.id then .error .integrity
        else .ok (q.row strategy percent base.name)

theorem start_ok {rows : List Rollout} {q : Start} {r : Rollout} (h : start P rows q = .ok r) :
    ∃ strategy percent base cand,
      P.caseType q.baselineId = some base ∧ P.caseType q.candidateId = some cand ∧
      base.name = cand.name ∧ q.kind = "case_type" ∧ q.baselineId ≠ q.candidateId ∧
      openFor rows q.tenantId q.kind base.name = none ∧ (∀ x ∈ rows, x.id ≠ q.id) ∧
      r = q.row strategy percent base.name := by
  obtain ⟨_, hkind, h⟩ := Base.exists_of_bind_ok h
  obtain ⟨strategy, -, h⟩ := Base.exists_of_bind_ok h
  obtain ⟨percent, -, h⟩ := Base.exists_of_bind_ok h
  split at h
  · cases h
  · rename_i hne
    obtain ⟨base, hbase, h⟩ := Base.exists_of_bind_ok h
    obtain ⟨cand, hcand, h⟩ := Base.exists_of_bind_ok h
    split at h
    · cases h
    · rename_i hname
      split at h
      · cases h
      · rename_i hopen
        split at h
        · cases h
        · rename_i hid
          refine ⟨strategy, percent, base, cand, caseType_of_visible P hbase,
            caseType_of_visible P hcand, not_not.mp hname, kind_of_check P hkind, hne, hopen, ?_,
            (Except.ok.inj h).symm⟩
          intro x hx hxid
          exact hid (List.any_eq_true.mpr ⟨x, hx, decide_eq_true hxid⟩)

def close (r : Rollout) (state : State) (actor : Option String) : Except Refused Rollout :=
  if r.state.isOpen then
    .ok { r with
      state := state
      openKey := none
      closedBy := actor
      percent := if state = .promoted then 100 else 0 }
  else .error (.rollout ("this rollout is already " ++ r.state.text))

def promote (r : Rollout) (actor : Option String) : Except Refused Rollout :=
  if r.state = .requested then
    .error (.rollout "a rollout nobody has approved cannot be promoted; approve it first")
  else close r .promoted actor

def rollback (r : Rollout) (actor : Option String) : Except Refused Rollout :=
  close r .rolledBack actor

def sameActor (a b : Option String) : Bool :=
  a.getD "" ≠ "" && b.getD "" ≠ "" && norm P a = norm P b

/-- the strategy requested, unless the approver names another -/
def overridden (r : Rollout) (strategy : Option String) : Except Refused Strategy :=
  match strategy with
  | none => .ok r.strategy
  | some text => strategyOf text

def approve (r : Rollout) (actor strategy : Option String) (percent : Option Int) :
    Except Refused Rollout :=
  if r.state ≠ .requested then
    .error (.rollout ("this rollout is " ++ r.state.text ++ ", not awaiting approval"))
  else if sameActor P r.requestedBy actor then
    .error (.permission ("A rollout must be approved by somebody other than the person who " ++
      "requested it."))
  else
    (overridden r strategy).bind fun strategy =>
    (checkPercent strategy (some (percent.getD r.percent))).bind fun percent =>
    let r := { r with strategy := strategy, percent := percent, approvedBy := actor }
    if strategy = .immediate then
      promote { r with state := .rolling, percent := 100 } actor
    else
      .ok { r with
        state :=
          if 0 < percent ∨ strategy = .percentage ∨ strategy = .blueGreen then .rolling
          else .dormant }

def setPercent (r : Rollout) (percent : Int) : Except Refused Rollout :=
  if r.state ≠ .dormant ∧ r.state ≠ .rolling then
    .error (.rollout ("this rollout is " ++ r.state.text ++
      "; only an approved, open rollout can be changed"))
  else
    (checkPercent r.strategy (some percent)).bind fun percent =>
    .ok { r with
      percent := percent
      state :=
        if r.strategy = .flag then (if percent = 0 then .dormant else .rolling) else r.state }

/-- `set_policy`, for the targeting -/
def setPolicy (r : Rollout) (targeting : Option Targeting) : Except Refused Rollout :=
  if r.state.isOpen then .ok { r with targeting := targeting }
  else .error (.rollout ("this rollout is " ++ r.state.text ++
    "; a closed rollout's policy is history"))

/-! ## requests -/

/-- `get` -/
def getRow (rows : List Rollout) (id tenant : Uuid) : Except Refused Rollout :=
  match rows.find? fun r => r.id = id && r.tenantId = tenant with
  | some r => .ok r
  | none => .error (.lookup "no such rollout")

def store (rows : List Rollout) (r : Rollout) : List Rollout :=
  rows.map fun x => if x.id = r.id then r else x

inductive Op where
  | start (q : Start)
  | approve (tenant id : Uuid) (actor strategy : Option String) (percent : Option Int)
  | setPercent (tenant id : Uuid) (percent : Int)
  | setPolicy (tenant id : Uuid) (targeting : Option Targeting)
  | promote (tenant id : Uuid) (actor : Option String)
  | rollback (tenant id : Uuid) (actor : Option String)
  /-- `newId` is the id of the row that replaces it -/
  | supersede (tenant id newId candidateId : Uuid) (strategy : String) (percent : Int)
      (actor : Option String)

/-- a row changed by `f` -/
def change (rows : List Rollout) (tenant id : Uuid) (f : Rollout → Except Refused Rollout) :
    Except Refused (List Rollout) :=
  (getRow rows id tenant).bind fun r => (f r).map (store rows)

def Rollout.successor (r : Rollout) (newId candidateId : Uuid) (strategy : String) (percent : Int)
    (actor : Option String) : Start where
  id := newId
  tenantId := r.tenantId
  kind := r.artifactKind
  baselineId := r.baselineId
  candidateId := candidateId
  strategy := strategy
  percent := percent
  actor := actor

def supersede (rows : List Rollout) (r : Rollout) (newId candidateId : Uuid) (strategy : String)
    (percent : Int) (actor : Option String) : Except Refused (List Rollout) :=
  (close r .superseded actor).bind fun closed =>
  (start P (store rows closed) (r.successor newId candidateId strategy percent actor)).map
    fun new => new :: store rows { closed with supersededBy := some new.id }

def perform (rows : List Rollout) : Op → Except Refused (List Rollout)
  | .start q => (start P rows q).map (· :: rows)
  | .approve tenant id actor strategy percent =>
    change rows tenant id fun r => approve P r actor strategy percent
  | .setPercent tenant id percent => change rows tenant id fun r => setPercent r percent
  | .setPolicy tenant id targeting => change rows tenant id fun r => setPolicy r targeting
  | .promote tenant id actor => change rows tenant id fun r => promote r actor
  | .rollback tenant id actor => change rows tenant id fun r => rollback r actor
  | .supersede tenant id newId candidateId strategy percent actor =>
    (getRow rows id tenant).bind fun r =>
      supersede P rows r newId candidateId strategy percent actor

def step (rows : List Rollout) (op : Op) : List Rollout :=
  match perform P rows op with
  | .ok rows => rows
  | .error _ => rows

end Rollouts
