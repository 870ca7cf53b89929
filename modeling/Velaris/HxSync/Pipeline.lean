import Velaris.Py.Identifiers
import Velaris.Py.Runtime
import Mathlib.Algebra.Group.Int.Defs
import Mathlib.Data.List.Sort
import Mathlib.Logic.Function.Basic

/-!
# The warehouse sync

`case_service/hxsync/pipeline.py`, for one destination.  Any number of runs go side by side with any
number of transactions on the cases; a step is what happens between two points where another of them
can come in.

* `Case`, `Destination`   the rows; a case carries the number of the commit that wrote it;
* `inDestination`, `extract`  `_scope_cases_to_destination`, and the selection of a run;
* `shipCase`   the consent gate, the redactions and the transforms;
* `Phase`, `Act`, `step`   `run_sync` from one point to the next, and the transactions.
-/

namespace HxSync

open Py

/-- `CaseInstanceModel`, as far as a run reads it -/
structure Case where
  id : Uuid
  tenantId : Option Uuid := none
  isDeleted : Bool := false
  caseNumber : String := ""
  caseTypeId : Option Uuid := none
  status : String := ""
  priority : String := ""
  createdBy : Option String := none
  createdAt : Option Int := none
  updatedAt : Int := 0
  resolvedAt : Option Int := none
  currentStageId : Option Uuid := none
  /-- the commit that has made this content visible -/
  commit : Nat := 0
  deriving DecidableEq

structure Destination where
  tenantId : Option String := none
  consentGated : Bool := false
  lastSyncedAt : Option Int := none
  lastSyncStatus : String := "never"

/-- `resolve_tenant`, `strict_case_reads` and the texts of times -/
structure Env where
  runtime : Runtime
  resolveTenant : String → Option Uuid
  strictCaseReads : Bool

variable (E : Env)

/-- `_scope_cases_to_destination` -/
def inDestination (dest : Destination) (c : Case) : Bool :=
  match dest.tenantId.filter (· ≠ "") with
  | none => true
  | some tenant =>
    match E.resolveTenant tenant with
    | none => false
    | some resolved =>
      if E.strictCaseReads then c.tenantId = some resolved
      else c.tenantId = some resolved || c.tenantId.isNone

/-- the rows that are asked for, with the watermark a run has read -/
def wanted (dest : Destination) (watermark : Option Int) (c : Case) : Bool :=
  !c.isDeleted && watermark.all (· < c.updatedAt) && inDestination E dest c

def extract (dest : Destination) (watermark : Option Int) (cases : List Case) : List Case :=
  (cases.filter (wanted E dest watermark)).insertionSort fun a b => a.updatedAt ≤ b.updatedAt

def caseToRow (c : Case) : Dict :=
  let text : Option String → Value := fun t => (t.map Value.str).getD .none
  let time : Option Int → Value := fun t => (t.map fun t => .str (E.runtime.isoformat t)).getD .none
  [("id", .str (uuidText c.id)), ("case_number", .str c.caseNumber),
    ("case_type_id", text (c.caseTypeId.map uuidText)), ("status", .str c.status),
    ("priority", .str c.priority), ("created_by", text c.createdBy),
    ("created_at", time c.createdAt), ("updated_at", time (some c.updatedAt)),
    ("resolved_at", time c.resolvedAt), ("current_stage_id", text (c.currentStageId.map uuidText))]

/-- what a run takes from elsewhere: the answer of the consent gate, `apply_redaction`, and
`apply_transforms`, which may fail -/
structure Shipping where
  allowed : Case → Bool
  redact : Dict → Dict
  transform : Dict → Option Dict

def shipCase (dest : Destination) (ship : Shipping) (c : Case) : Option Dict :=
  if dest.consentGated && !ship.allowed c then none
  else ship.transform (ship.redact (caseToRow E c))

/-! ## the state -/

/-- where a run is; `begun` and `selected` count the commits there were -/
inductive Phase where
  | idle
  /-- `dest` is loaded -/
  | started (watermark : Option Int) (begun : Nat)
  | extracted (watermark : Option Int) (begun selected : Nat) (cases : List Case)
  /-- `now` is taken -/
  | stamped (watermark : Option Int) (begun selected : Nat) (cases : List Case) (now : Int)

structure State where
  clock : Int := 0
  cases : List Case := []
  commits : Nat := 0
  written : Nat → Option Case := fun _ => none
  dest : Destination := {}
  runs : Nat → Phase := fun _ => .idle
  pushed : List (Case × Dict) := []
  withheld : List Case := []

def State.setRun (s : State) (r : Nat) (phase : Phase) : State :=
  { s with runs := Function.update s.runs r phase }

inductive Act where
  | tick (d : Nat)
  /-- a transaction writes a case, which is stamped now -/
  | write (t : Nat) (c : Case)
  | commit (t : Nat)
  | rollback (t : Nat)
  | start (r : Nat)
  | extract (r : Nat)
  | takeNow (r : Nat)
  /-- everything is pushed, and the run commits -/
  | succeed (r : Nat) (ship : Shipping)
  | fail (r : Nat)

def step (s : State) : Act → State
  | .tick d => { s with clock := s.clock + d }
  | .write t c =>
    { s with written := Function.update s.written t (some { c with updatedAt := s.clock }) }
  | .commit t =>
    match s.written t with
    | none => s
    | some c =>
      { s with
        cases := s.cases.filter (·.id ≠ c.id) ++ [{ c with commit := s.commits + 1 }]
        commits := s.commits + 1
        written := Function.update s.written t none }
  | .rollback t => { s with written := Function.update s.written t none }
  | .start r =>
    match s.runs r with
    | .idle => s.setRun r (.started s.dest.lastSyncedAt s.commits)
    | _ => s
  | .extract r =>
    match s.runs r with
    | .started watermark begun =>
      s.setRun r (.extracted watermark begun s.commits (extract E s.dest watermark s.cases))
    | _ => s
  | .takeNow r =>
    match s.runs r with
    | .extracted watermark begun selected cases =>
      s.setRun r (.stamped watermark begun selected cases s.clock)
    | _ => s
  | .succeed r ship =>
    match s.runs r with
    | .stamped _ _ _ cases now =>
      { s with
        dest := { s.dest with
          lastSyncedAt := some now
          lastSyncStatus := "success" }
        pushed := s.pushed ++ cases.filterMap fun c => (shipCase E s.dest ship c).map (c, ·)
        withheld := s.withheld ++ cases.filter fun c => (shipCase E s.dest ship c).isNone
        runs := Function.update s.runs r .idle }
    | _ => s
  | .fail r =>
    match s.runs r with
    | .idle => s
    | _ => { s with dest := { s.dest with lastSyncStatus := "error" } }.setRun r .idle

end HxSync
