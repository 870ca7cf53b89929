import Velaris.Base.Table
import Velaris.Py.Runtime
import Velaris.Py.Text
import Mathlib.Data.Rat.Floor

/-!
# SLA clocks

`case_service/core/sla_tracker.py`: the rows of `case_sla_instances`, and the operations on them.

* `parseIso8601Duration`   the durations of a policy;
* `startSla`, `pauseSla`, `resumeSla`, `checkSla`, `checkSlaWithCalendar`, `evaluateAllSlas`,
  `cancelSlasForCase`.

An operation that raises leaves no change: its transaction is rolled back.  `scan` is the order in
which the database returns rows.  Times are in microseconds.  An id is what `_new_uuid` made.
-/

namespace Sla
open Py Base

inductive Failure where
  | valueError (message : String)
  | multipleResultsFound
  | integrityError
  | calendarError
  deriving DecidableEq

/-! ## durations -/

/-- `(?:(\d+)X)?` for a letter: the digits that are found, and the rest of the text -/
def component (letter : Char) (s : List Char) : Option (List Char) × List Char :=
  let digits := s.takeWhile fun c => (decimal? c).isSome
  let rest := s.dropWhile fun c => (decimal? c).isSome
  if digits ≠ [] ∧ rest.head? = some letter then (some digits, rest.tail) else (none, s)

/-- `(?:(\d+(?:\.\d+)?)S)?`: the digits before and after the point, and the rest -/
def secondsComponent (s : List Char) : Option (List Char × List Char) × List Char :=
  let digits := s.takeWhile fun c => (decimal? c).isSome
  let rest := s.dropWhile fun c => (decimal? c).isSome
  let decimals := rest.tail.takeWhile fun c => (decimal? c).isSome
  let after := rest.tail.dropWhile fun c => (decimal? c).isSome
  if digits ≠ [] ∧ rest.head? = some 'S' then (some (digits, []), rest.tail)
  else if digits ≠ [] ∧ rest.head? = some '.' ∧ decimals ≠ [] ∧ after.head? = some 'S' then
    (some (digits, decimals), after.tail)
  else (none, s)

/-- the components of `_DURATION_RE` -/
structure Components where
  years : Option (List Char)
  months : Option (List Char)
  days : Option (List Char)
  hours : Option (List Char) := none
  minutes : Option (List Char) := none
  seconds : Option (List Char × List Char) := none

/-- `_DURATION_RE.match` -/
def matchDuration (text : String) : Option Components :=
  match text.toList with
  | 'P' :: s =>
    let y := component 'Y' s
    let mo := component 'M' y.2
    let d := component 'D' mo.2
    let date : Components := { years := y.1, months := mo.1, days := d.1 }
    let ended := fun r => decide (r = [] ∨ r = ['\n'])
    match d.2 with
    | 'T' :: t =>
      let h := component 'H' t
      let mi := component 'M' h.2
      let sec := secondsComponent mi.2
      if ended sec.2 then
        some { date with hours := h.1, minutes := mi.1, seconds := sec.1 }
      else none
    | r => if ended r then some date else none
  | _ => none

/-- `int(m.group(i) or 0)` -/
def count (digits : Option (List Char)) : Except Failure Int :=
  match digits with
  | none => .ok 0
  | some ds =>
    match intText 10 (String.ofList ds) with
    | some n => .ok n
    | none =>
      let n := ds.length
      .error (.valueError (s!"Exceeds the limit (4300 digits) for integer string conversion: " ++
        s!"value has {n} digits; use sys.set_int_max_str_digits() to increase the limit"))

def decimalsValue (ds : List Char) : Nat := ds.foldl (fun n c => n * 10 + (decimal? c).getD 0) 0

/-- `float(m.group(6) or 0)` seconds, to the microsecond a `timedelta` rounds them to -/
def secondsValue (s : Option (List Char × List Char)) : Int :=
  match s with
  | none => 0
  | some (whole, decimals) =>
    let micros : ℚ := (decimalsValue whole + (decimalsValue decimals : ℚ) / 10 ^ decimals.length) *
      1000000
    let low := micros.floor
    let rest := micros - low
    if rest < 1 / 2 then low else if 1 / 2 < rest then low + 1 else if low % 2 = 0 then low else low + 1

def parseIso8601Duration (R : Runtime) (duration : String) : Except Failure Int :=
  match matchDuration duration with
  | none => .error (.valueError ("Invalid ISO 8601 duration: " ++ R.repr (.str duration)))
  | some m => do
    let years ← count m.years
    let months ← count m.months
    let dayCount ← count m.days
    let hours ← count m.hours
    let minutes ← count m.minutes
    return days (years * 365 + months * 30 + dayCount) + seconds (hours * 3600) +
      seconds (minutes * 60) + secondsValue m.seconds

/-! ## rows -/

inductive Status where
  | onTrack
  | atRisk
  | paused
  | breached
  | cancelled
  deriving DecidableEq

/-- the clock runs, or may be made to run again -/
def Status.active (s : Status) : Bool := s ∈ [Status.onTrack, .atRisk, .paused]

structure Instance where
  id : Uuid
  caseId : Uuid
  slaPolicyId : String
  targetId : String
  status : Status
  startedAt : Int
  goalAt : Int
  deadlineAt : Int
  pausedAt : Option Int := none
  pausedDurationSeconds : Int := 0
  breachedAt : Option Int := none
  deriving DecidableEq

abbrev Table := List Instance

/-- `repo.update_sla_instance`: the values of a row are set by its id -/
def updateInstance (id : Uuid) (values : Instance → Instance) (t : Table) : Table :=
  t.map fun r => if r.id = id then values r else r

/-- `repo.create_sla_instance` -/
def createInstance (row : Instance) (t : Table) : Except Failure Table :=
  if row.id ∈ t.map (·.id) then .error .integrityError else .ok (t ++ [row])

def scalarOneOrNone : List Instance → Except Failure (Option Instance)
  | [] => .ok none
  | [r] => .ok (some r)
  | _ => .error .multipleResultsFound

def ofPolicy (caseId : Uuid) (slaPolicyId : String) (r : Instance) : Bool :=
  r.caseId = caseId && r.slaPolicyId = slaPolicyId

/-! ## operations -/

/-- the part of an `SLAPolicy` that starting one reads -/
structure Policy where
  id : String
  goalDuration : String
  deadlineDuration : String
  scope : String := "case"

variable (R : Runtime) (scan : Scan Instance)

def startSla (id caseId : Uuid) (slaPolicy : Policy) (targetId : String) (now : Int) (t : Table) :
    Except Failure Table := do
  let goal ← parseIso8601Duration R slaPolicy.goalDuration
  let deadline ← parseIso8601Duration R slaPolicy.deadlineDuration
  createInstance
    { id, caseId, slaPolicyId := slaPolicy.id, targetId, status := .onTrack, startedAt := now,
      goalAt := now + goal, deadlineAt := now + deadline } t

def pauseSla (caseId : Uuid) (slaPolicyId : String) (now : Int) (t : Table) :
    Except Failure (Table × Bool) := do
  let rows := t.filter fun r => ofPolicy caseId slaPolicyId r && r.status ∈ [Status.onTrack, .atRisk]
  match ← scalarOneOrNone (scan.order rows) with
  | none => return (t, false)
  | some sla =>
    return (updateInstance sla.id (fun r => { r with status := .paused, pausedAt := some now }) t, true)

/-- `int(td.total_seconds())` -/
def totalSeconds (td : Int) : Int := td.tdiv 1000000

def resumeSla (caseId : Uuid) (slaPolicyId : String) (now : Int) (t : Table) :
    Except Failure (Table × Bool) := do
  let rows := t.filter fun r => ofPolicy caseId slaPolicyId r && r.status = .paused
  match ← scalarOneOrNone (scan.order rows) with
  | none => return (t, false)
  | some sla =>
    let pausedSecs := (sla.pausedAt.map fun pausedAt => totalSeconds (now - pausedAt)).getD 0
    let shift := seconds pausedSecs
    return (updateInstance sla.id (fun r =>
      { r with status := .onTrack, pausedAt := none,
               pausedDurationSeconds := sla.pausedDurationSeconds + pausedSecs,
               goalAt := sla.goalAt + shift, deadlineAt := sla.deadlineAt + shift }) t, true)

inductive Checked where
  | notFound
  | stopped (status : Status) (slaPolicyId : String)
  | running (status : Status) (slaPolicyId : String) (remainingSeconds : Option Int)
      (elapsedSeconds goalAt deadlineAt : Int)
  deriving DecidableEq

def statusAt (sla : Instance) (now : Int) : Status :=
  if sla.deadlineAt ≤ now then .breached else if sla.goalAt ≤ now then .atRisk else sla.status

def crossThresholds (sla : Instance) (now : Int) (t : Table) : Table :=
  let newStatus := statusAt sla now
  if newStatus ≠ sla.status then
    updateInstance sla.id (fun r =>
      { r with status := newStatus, breachedAt := if newStatus = .breached then some now else none }) t
  else t

/-- the shape of both checks; `elapsed` is the time elapsed of a clock, in microseconds, and
`remaining` what is reported of the time that is left -/
def checkBy (elapsed : Instance → Except Failure Int) (remaining : Instance → Int → Option Int)
    (caseId : Uuid) (slaPolicyId : String) (now : Int) (t : Table) :
    Except Failure (Table × Checked) := do
  match ← scalarOneOrNone (scan.order (t.filter (ofPolicy caseId slaPolicyId))) with
  | none => return (t, .notFound)
  | some sla =>
    if sla.status ∈ [Status.paused, .breached] then return (t, .stopped sla.status slaPolicyId)
    else
      let e ← elapsed sla
      return (crossThresholds sla now t,
        .running (statusAt sla now) slaPolicyId (remaining sla e) (totalSeconds e) sla.goalAt
          sla.deadlineAt)

def wallElapsed (now : Int) (sla : Instance) : Int :=
  now - sla.startedAt - seconds sla.pausedDurationSeconds

def checkSla (caseId : Uuid) (slaPolicyId : String) (now : Int) (t : Table) :
    Except Failure (Table × Checked) :=
  checkBy scan (fun sla => .ok (wallElapsed now sla))
    (fun sla elapsed =>
      let total := sla.deadlineAt - sla.startedAt
      some (totalSeconds (max 0 (total - elapsed - seconds sla.pausedDurationSeconds))))
    caseId slaPolicyId now t

/-- `calendar` is `business_seconds_between` of the calendar that is given -/
def elapsedWith (calendar : Option (Int → Int → Except Failure Int)) (now : Int) (sla : Instance) :
    Except Failure Int :=
  match calendar with
  | some between => (between sla.startedAt now).map (· - seconds sla.pausedDurationSeconds)
  | none => .ok (wallElapsed now sla)

def checkSlaWithCalendar (calendar : Option (Int → Int → Except Failure Int)) (caseId : Uuid)
    (slaPolicyId : String) (now : Int) (t : Table) : Except Failure (Table × Checked) :=
  checkBy scan (elapsedWith calendar now) (fun _ _ => none) caseId slaPolicyId now t

/-- the loop of `evaluate_all_slas` over the rows that it read -/
def evaluateRows (caseId : Uuid) (now : Int) : List Instance → Table →
    Except Failure (Table × List Checked)
  | [], t => .ok (t, [])
  | sla :: rows, t => do
    let checked ← checkSla scan caseId sla.slaPolicyId now t
    let rest ← evaluateRows caseId now rows checked.1
    return (rest.1, checked.2 :: rest.2)

def evaluateAllSlas (caseId : Uuid) (now : Int) (t : Table) :
    Except Failure (Table × List Checked) :=
  evaluateRows scan caseId now (scan.order (t.filter (·.caseId = caseId))) t

def cancelSlasForCase (caseId : Uuid) (t : Table) : Table × Nat :=
  let rows := scan.order (t.filter fun r => r.caseId = caseId && r.status.active)
  (rows.foldl (fun t sla => updateInstance sla.id (fun r => { r with status := .cancelled }) t) t,
    rows.length)

end Sla
