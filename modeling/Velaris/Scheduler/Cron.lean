import Velaris.Base.Clock
import Velaris.Py.Runtime
import Velaris.Py.Text
import Mathlib.Data.List.Dedup
import Mathlib.Data.List.Sort

/-!
# Cron expressions

`case_service/scheduler/cron.py`: the five fields, and the next firing.

* `parse`   `CronExpression(…)`: a macro or five fields, each a list of values, ranges, steps;
* `dayMatches`   the day-of-month and day-of-week rule;
* `nextAfter`   the search on the wall clock, and the conversion back to an instant.

Instants and wall clock readings are in microseconds, from 1970-01-01T00:00.  `lower` is
`str.lower`; `zones` are the zones that `ZoneInfo` knows.
-/

namespace Scheduler
open Py Base

inductive Failure where
  | cronError (message : String)
  | valueError
  | overflowError
  deriving DecidableEq

/-! ## fields -/

def BOUNDS : List (Nat × Nat) := [(0, 59), (0, 23), (1, 31), (1, 12), (0, 6)]

def MONTHS : List (String × Nat) :=
  [("jan", 1), ("feb", 2), ("mar", 3), ("apr", 4), ("may", 5), ("jun", 6), ("jul", 7), ("aug", 8),
    ("sep", 9), ("oct", 10), ("nov", 11), ("dec", 12)]

def DAYS : List (String × Nat) :=
  [("sun", 0), ("mon", 1), ("tue", 2), ("wed", 3), ("thu", 4), ("fri", 5), ("sat", 6)]

def MACROS : List (String × String) :=
  [("@yearly", "0 0 1 1 *"), ("@annually", "0 0 1 1 *"), ("@monthly", "0 0 1 * *"),
    ("@weekly", "0 0 * * 0"), ("@daily", "0 0 * * *"), ("@midnight", "0 0 * * *"),
    ("@hourly", "0 * * * *")]

/-- How far ahead to look before giving up. -/
def SEARCH_DAYS : Nat := 1500

def otherDigits : List (Nat × Nat) :=
  [(0xb2, 0xb3), (0xb9, 0xb9), (0x1369, 0x1371), (0x19da, 0x19da), (0x2070, 0x2070),
    (0x2074, 0x2079), (0x2080, 0x2089), (0x2460, 0x2468), (0x2474, 0x247c), (0x2488, 0x2490),
    (0x24ea, 0x24ea), (0x24f5, 0x24fd), (0x24ff, 0x24ff), (0x2776, 0x277e), (0x2780, 0x2788),
    (0x278a, 0x2792), (0x10a40, 0x10a43), (0x10e60, 0x10e68), (0x11052, 0x1105a),
    (0x1f100, 0x1f10a)]

/-- `s.isdigit()` -/
def isdigit (s : List Char) : Bool :=
  !s.isEmpty && s.all fun c => (decimal? c).isSome ||
    otherDigits.any fun r => r.1 ≤ c.toNat && c.toNat ≤ r.2

/-- `a, _, b = s.partition(c)` -/
def partition (c : Char) (s : List Char) : List Char × List Char :=
  (s.takeWhile (· ≠ c), (s.dropWhile (· ≠ c)).drop 1)

section
variable (lower : String → String)

/-- `s.strip().lower()` -/
def token (s : List Char) : List Char := (lower (String.ofList (strip s))).toList

def value (names : List (String × Nat)) (low high : Nat) (raw : List Char) :
    Except Failure Nat :=
  let tok := token lower raw
  let text := String.ofList tok
  match names.lookup text with
  | some n => .ok n
  | none =>
    if text = "7" ∧ high = 6 then .ok 0
    else if isdigit (tok.dropWhile (· = '-')) = false then
      .error (.cronError ("'" ++ text ++ "' is not a number."))
    else
      match intText 10 text with
      | none => .error .valueError
      | some v =>
        if low ≤ v ∧ v ≤ high then .ok v.toNat
        else .error (.cronError s!"'{text}' is outside {low}-{high}.")

/-- the step after the slash of a part, and 1 where there is none -/
def stepOf (part : List Char) : Except Failure Nat :=
  let raw := (partition '/' part).2
  let text := String.ofList raw
  let refused := Failure.cronError ("'" ++ text ++ "' is not a step.")
  if '/' ∉ part then .ok 1
  else if isdigit raw = false then .error refused
  else
    match intText 10 text with
    | none => .error .valueError
    | some n => if n < 1 then .error refused else .ok n.toNat

/-- `range(start, end + 1, step)` -/
def rangeOf (start stop step : Nat) : List Nat := List.range' start ((stop - start) / step + 1) step

def parsePart (names : List (String × Nat)) (low high index : Nat) (raw part : List Char) :
    Except Failure (List Nat) :=
  let part := token lower part
  let field := index + 1
  if part = [] then .error (.cronError s!"Empty value in field {field}.")
  else do
    let step ← stepOf part
    let span := (partition '/' part).1
    if span = ['*'] ∨ span = [] then return rangeOf low high step
    else if '-' ∈ span.drop 1 ∨ (span.head? ≠ some '-' ∧ '-' ∈ span) then
      let dashed := partition '-' span
      let start ← value lower names low high dashed.1
      let stop ← value lower names low high dashed.2
      if stop < start then
        .error (.cronError ("'" ++ String.ofList raw ++ "' has a range that runs backwards."))
      else return rangeOf start stop step
    else
      let start ← value lower names low high span
      return rangeOf start start step

/-- `_parse_field`: a set, as the list of its elements -/
def parseField (raw : List Char) (index : Nat) : Except Failure (List Nat) :=
  let names := if index = 3 then MONTHS else if index = 4 then DAYS else []
  let bounds := (BOUNDS[index]?).getD (0, 0)
  let field := index + 1
  do
    let parts ← (raw.splitOn ',').mapM (parsePart lower names bounds.1 bounds.2 index raw)
    let out := parts.flatten
    -- both 0 and 7 mean Sunday
    let out := if index = 4 ∧ 7 ∈ out then 0 :: out.filter (· ≠ 7) else out
    if out = [] then .error (.cronError s!"Field {field} matches nothing.") else return out

end

structure CronExpression where
  raw : String
  minutes : List Nat
  hours : List Nat
  doms : List Nat
  months : List Nat
  dows : List Nat
  domRestricted : Bool
  dowRestricted : Bool

/-- `CronExpression(expression)` -/
def parse (R : Runtime) (lower : String → String) (expression : String) :
    Except Failure CronExpression :=
  let raw := strip expression.toList
  let raw := ((MACROS.lookup (lower (String.ofList raw))).map (·.toList)).getD raw
  let fields := (raw.splitOnP isSpace).filter (· ≠ [])
  match fields with
  | [minute, hour, dom, month, dow] => do
    let minutes ← parseField lower minute 0
    let hours ← parseField lower hour 1
    let doms ← parseField lower dom 2
    let months ← parseField lower month 3
    let dows ← parseField lower dow 4
    return { raw := String.ofList raw, minutes, hours, doms, months, dows,
             domRestricted := strip dom ≠ ['*'], dowRestricted := strip dow ≠ ['*'] }
  | _ =>
    let n := fields.length
    .error (.cronError ("A schedule needs five fields — minute hour day-of-month month " ++
      "day-of-week — or a macro such as @daily. " ++ s!"Got {n}: " ++ R.repr (.str expression)))

/-! ## days -/

def EPOCH : Int := 719163

def DAYS_IN_MONTH (month : Nat) : Nat :=
  if month = 2 then 28 else if month = 4 ∨ month = 6 ∨ month = 9 ∨ month = 11 then 30 else 31

def DAYS_BEFORE_MONTH (month : Nat) : Nat :=
  ((List.range month).filter (0 < ·)).foldl (fun n m => n + DAYS_IN_MONTH m) 0

def monthDay (ordinal : Nat) : Nat × Nat :=
  let n := (ordinal - 1) % 146097
  let n100 := n / 36524
  let n := n % 36524
  let n4 := n / 1461
  let n := n % 1461
  let n1 := n / 365
  let n := n % 365
  if n1 = 4 ∨ n100 = 4 then (12, 31)
  else
    let leap := if n1 = 3 ∧ (n4 ≠ 24 ∨ n100 = 3) then 1 else 0
    let month := (n + 50) / 32
    let preceding := DAYS_BEFORE_MONTH month + if 2 < month then leap else 0
    if n < preceding then
      let month' := month - 1
      let preceding' := preceding - (DAYS_IN_MONTH month' + if month' = 2 then leap else 0)
      (month', n - preceding' + 1)
    else (month, n - preceding + 1)

/-- `day.weekday()`, Monday is 0; `day` is the number of days from 1970-01-01 -/
def weekday (day : Int) : Nat := ((day + EPOCH + 6) % 7).toNat

namespace CronExpression

def dayMatches (expr : CronExpression) (day : Int) : Bool :=
  let md := monthDay (day + EPOCH).toNat
  if md.1 ∉ expr.months then false
  else
    let inDom := decide (md.2 ∈ expr.doms)
    let inDow := decide ((weekday day + 1) % 7 ∈ expr.dows)
    if expr.domRestricted && expr.dowRestricted then inDom || inDow     -- the Vixie rule
    else if expr.domRestricted then inDom
    else if expr.dowRestricted then inDow
    else true

end CronExpression

/-! ## the next firing -/

/-- `sorted(s)` -/
def sorted (s : List Nat) : List Nat := s.dedup.insertionSort (· ≤ ·)

def minuteOf (day : Int) (hour minute : Nat) : Int :=
  days day + seconds (3600 * hour) + seconds (60 * minute)

/-- a reading or an instant, where it is within the years a `datetime` has -/
def datetime (t : Int) : Except Failure Int :=
  if days (1 - EPOCH) ≤ t ∧ t < days (3652060 - EPOCH) then .ok t else .error .overflowError

/-- `t.date()` -/
def dateOf (t : Int) : Int := t / days 1

namespace CronExpression

variable (expr : CronExpression)

/-- the minutes of a day, in the order of the two loops -/
def slots (day : Int) : List Int :=
  (sorted expr.hours).flatMap fun hour => (sorted expr.minutes).map (minuteOf day hour)

def noFiring : Failure :=
  .cronError ("'" ++ expr.raw ++ "' has no firing time in the next four years — check the " ++
    "day-of-month and month together (there is no 30th of February).")

/-- the search from a day on, with the number of days that are left to look at -/
def search (cursor : Int) : Nat → Nat → Except Failure Int
  | 0, _ => .error expr.noFiring
  | left + 1, offset => do
    let t ← datetime (cursor + days offset)
    let day := dateOf t
    let found := if expr.dayMatches day then (expr.slots day).find? (cursor ≤ ·) else none
    match found with
    | some candidate => return candidate
    | none => search cursor left (offset + 1)

def cursorAt (zone : Zone) (after : Int) : Int :=
  zone.wall after - zone.wall after % seconds 60 + seconds 60

/-- `next_after`, in a zone -/
def nextIn (zone : Zone) (after : Int) : Except Failure Int := do
  let _ ← datetime (zone.wall after)
  let cursor ← datetime (cursorAt zone after)
  let candidate ← search expr cursor SEARCH_DAYS 0
  datetime (zone.instant candidate)

end CronExpression

def loadTimezone (zones : String → Option Zone) (name : String) : Except Failure Zone :=
  match zones (if name = "" then "UTC" else name) with
  | some zone => .ok zone
  | none => .error (.cronError ("Unknown timezone '" ++ name ++ "'."))

def CronExpression.nextAfter (zones : String → Option Zone) (expr : CronExpression) (after : Int)
    (tz : String) : Except Failure Int := do
  let zone ← loadTimezone zones tz
  expr.nextIn zone after

end Scheduler
