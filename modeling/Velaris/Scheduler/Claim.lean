import Velaris.Base.Table
import Velaris.Scheduler.NextAfter

/-!
# Claiming the schedules that are due

`case_service/scheduler/service.py`: `claim_due`.  Other workers commit between the statements of a
claim: `meanwhile n` is what the table has become before the statement with `n` rows to go.

`next_firing_later_iff`: when the next firing, and with it the `next_run_at` that a claim leaves, is
in the future.
-/

namespace Scheduler
open Py Base

/-- A firing this far behind is a missed window, not a late run. -/
def MISSED_WINDOW : Int := seconds (30 * 60)

inductive Status where
  | draft
  | active
  | disabled
  deriving DecidableEq

structure Schedule where
  id : Uuid
  cron : String
  timezone : String
  status : Status
  nextRunAt : Option Int
  lastStatus : Option String := none
  lastError : Option String := none
  deriving DecidableEq

structure Host extends Runtime where
  lower : String → String
  zones : String → Option Zone

variable (H : Host)

def Schedule.due (now : Int) (row : Schedule) : Bool :=
  row.status = .active && row.nextRunAt.any (· ≤ now)

/-- `CronExpression(row.cron).next_after(now, row.timezone)` -/
def Schedule.following (row : Schedule) (now : Int) : Except Failure Int := do
  let expr ← parse H.toRuntime H.lower row.cron
  expr.nextAfter H.zones now row.timezone

/-- a stored expression that no longer resolves must not spin: park it -/
def park (row : Schedule) (message : String) (db : List Schedule) : List Schedule :=
  db.map fun r =>
    if r.id = row.id then
      { r with status := .disabled, nextRunAt := none, lastStatus := some "error",
               lastError := some message }
    else r

def Schedule.unclaimed (row r : Schedule) : Bool :=
  r.id = row.id && r.nextRunAt = row.nextRunAt && r.status = .active

def Schedule.missed (row : Schedule) (now : Int) : Bool :=
  row.nextRunAt.any fun dueAt => MISSED_WINDOW < now - dueAt

def claimRows (now : Int) (meanwhile : Nat → List Schedule → List Schedule) :
    List Schedule → List Schedule → Except Failure (List Schedule × List (Schedule × Bool))
  | db, [] => .ok (db, [])
  | db, row :: rows =>
    let db := meanwhile rows.length db
    match row.following H now with
    | .error (.cronError message) => claimRows now meanwhile (park row message db) rows
    | .error e => .error e
    | .ok following => do
      let advance := fun r : Schedule => { r with nextRunAt := some following }
      let won := (db.filter row.unclaimed).map fun r => (advance r, row.missed now)
      let after ← claimRows now meanwhile
        (db.map fun r => if row.unclaimed r then advance r else r) rows
      return (after.1, if won.length = 1 then won ++ after.2 else after.2)

def claimDue (scan : Scan Schedule) (now : Int) (limit : Nat)
    (meanwhile : Nat → List Schedule → List Schedule) (db : List Schedule) :
    Except Failure (List Schedule × List (Schedule × Bool)) :=
  let due := scan.order (db.filter (·.due now))
  let rows := due.insertionSort fun r s => r.nextRunAt.getD 0 ≤ s.nextRunAt.getD 0
  claimRows H now meanwhile db (rows.take limit)

/-! ## what is claimed -/

variable {H}

theorem claimRows_claimed {now : Int} {meanwhile : Nat → List Schedule → List Schedule}
    {db rows db' : List Schedule} {claimed : List (Schedule × Bool)}
    (h : claimRows H now meanwhile db rows = .ok (db', claimed)) :
    ∀ p ∈ claimed, ∃ row ∈ rows, p.1.id = row.id ∧
      ∃ following, row.following H now = .ok following ∧ p.1.nextRunAt = some following := by
  induction rows generalizing db db' claimed with
  | nil =>
    cases h
    intro p hp
    cases hp
  | cons row rows ih =>
    have hlater : ∀ {db db' claimed}, claimRows H now meanwhile db rows = .ok (db', claimed) →
        ∀ p ∈ claimed, ∃ r ∈ row :: rows, p.1.id = r.id ∧
          ∃ following, r.following H now = .ok following ∧ p.1.nextRunAt = some following := by
      intro db db' claimed hrest p hp
      obtain ⟨r, hr, hspec⟩ := ih hrest p hp
      exact ⟨r, List.mem_cons_of_mem row hr, hspec⟩
    simp only [claimRows] at h
    split at h
    · exact hlater h
    · cases h
    · next following hfollowing =>
      obtain ⟨after, hafter, h⟩ := exists_of_bind_ok h
      cases h
      intro p hp
      split at hp
      · rcases List.mem_append.mp hp with hp | hp
        · obtain ⟨r, hr, rfl⟩ := List.mem_map.mp hp
          have hun := (List.mem_filter.mp hr).2
          simp only [Schedule.unclaimed, Bool.and_eq_true, decide_eq_true_eq] at hun
          exact ⟨row, List.mem_cons_self, hun.1.1, following, hfollowing, rfl⟩
        · exact hlater hafter p hp
      · exact hlater hafter p hp

theorem claimDue_claimed {scan : Scan Schedule} {now : Int} {limit : Nat}
    {meanwhile : Nat → List Schedule → List Schedule} {db db' : List Schedule}
    {claimed : List (Schedule × Bool)}
    (h : claimDue H scan now limit meanwhile db = .ok (db', claimed)) :
    ∀ p ∈ claimed, ∃ row ∈ db, row.due now ∧ p.1.id = row.id ∧
      ∃ following, row.following H now = .ok following ∧ p.1.nextRunAt = some following := by
  intro p hp
  obtain ⟨row, hrow, hspec⟩ := claimRows_claimed h p hp
  have hdue := (List.mem_insertionSort _).mp (List.mem_of_mem_take hrow)
  obtain ⟨hdb, hdue⟩ := List.mem_filter.mp ((scan.perm _).mem_iff.mp hdue)
  exact ⟨row, hdb, hdue, hspec⟩

variable (H)

/-- `next_after` is later than the instant it is asked about, and a claimed schedule has a
`next_run_at` that is not due, exactly when the expression is ahead in its zone -/
theorem next_firing_later_iff (now : Int) :
    (∀ text expr tz zone next, parse H.toRuntime H.lower text = .ok expr →
      loadTimezone H.zones tz = .ok zone → expr.nextAfter H.zones now tz = .ok next →
        (now < next ↔ expr.Ahead zone now)) ∧
    (∀ (expr : CronExpression) (zone : Zone), zone.Separated →
      (expr.Ahead zone now ↔ ∀ m, expr.Matches m → CronExpression.cursorAt zone now ≤ m →
        ¬ zone.PassedBefore now m)) ∧
    ∀ scan limit meanwhile db db' claimed,
      claimDue H scan now limit meanwhile db = .ok (db', claimed) →
      ∀ p ∈ claimed, ∃ row ∈ db, p.1.id = row.id ∧
        ∃ expr zone next, parse H.toRuntime H.lower row.cron = .ok expr ∧
          loadTimezone H.zones row.timezone = .ok zone ∧ p.1.nextRunAt = some next ∧
          (now < next ↔ expr.Ahead zone now) := by
  refine ⟨?_, fun expr zone hzone => CronExpression.Ahead.iff_of_separated hzone, ?_⟩
  · intro text expr tz zone next hparse hzone hnext
    obtain ⟨zone', hzone', hin⟩ := exists_of_bind_ok hnext
    obtain rfl : zone = zone' := Except.ok.inj (hzone.symm.trans hzone')
    exact CronExpression.nextIn_later_iff (parse_onClock hparse) hin
  · intro scan limit meanwhile db db' claimed hclaim p hp
    obtain ⟨row, hdb, -, hid, next, hfollowing, hnext⟩ := claimDue_claimed hclaim p hp
    obtain ⟨expr, hparse, hafter⟩ := exists_of_bind_ok hfollowing
    obtain ⟨zone, hzone, hin⟩ := exists_of_bind_ok hafter
    exact ⟨row, hdb, hid, expr, zone, next, hparse, hzone, hnext,
      CronExpression.nextIn_later_iff (parse_onClock hparse) hin⟩

/-! ## the night the clocks go back -/

/-- Berlin in 2026: an hour ahead, and two from 29 March to 25 October -/
def berlin : Zone where
  first := seconds 3600
  changes := [(seconds 1774746000, seconds 7200), (seconds 1792890000, seconds 3600)]
  ascending := by simp [Ascending, seconds]

/-- a host that knows one zone, for texts without capitals -/
def berlinHost : Host where
  toRuntime := .silent
  lower := id
  zones := fun name => if name = "Europe/Berlin" then some berlin else none

def quarterly (now : Int) : Schedule where
  id := 1
  cron := "*/15 * * * *"
  timezone := "Europe/Berlin"
  status := .active
  nextRunAt := some now

/-- 2026-10-25T02:00 for the second time -/
def secondPass : Int := seconds 1792890000

def asRead : Scan Schedule := ⟨id, fun _ => .refl _⟩

theorem second_pass_following :
    (quarterly secondPass).following berlinHost secondPass = .ok (seconds 1792887300) := by
  decide +kernel

def reclaimed : Schedule := { quarterly secondPass with nextRunAt := some (seconds 1792887300) }

theorem second_pass_claimed :
    claimDue berlinHost asRead secondPass 20 (fun _ db => db) [quarterly secondPass] =
      .ok ([reclaimed], [(reclaimed, false)]) := by
  decide +kernel

/-- the firing found is 02:15 of the first pass, and the schedule that was claimed is still due -/
theorem second_pass_fires_early :
    (¬ ∀ (H : Host) (now : Int) (row : Schedule) (next : Int),
      row.following H now = .ok next → now < next) ∧
    ¬ ∀ (H : Host) (scan : Scan Schedule) (now : Int) (limit : Nat)
        (meanwhile : Nat → List Schedule → List Schedule) (db db' : List Schedule)
        (claimed : List (Schedule × Bool)),
        claimDue H scan now limit meanwhile db = .ok (db', claimed) →
        ∀ p ∈ claimed, p.1.due now = false := by
  constructor
  · intro h
    have hlate := h berlinHost secondPass (quarterly secondPass) _ second_pass_following
    exact absurd hlate (by decide)
  · intro h
    have hclaimed := h _ _ _ _ _ _ _ _ second_pass_claimed _ List.mem_cons_self
    exact absurd hclaimed (by decide)

/-- 2026-10-24T14:00, and the nightly job at half past two -/
def afternoon : Int := seconds 1792843200

def nightly : String := "30 2 * * *"

/-- the night's firing is later, at half past two of the first pass -/
theorem nightly_is_ahead :
    ∃ expr zone next, parse berlinHost.toRuntime berlinHost.lower nightly = .ok expr ∧
      loadTimezone berlinHost.zones "Europe/Berlin" = .ok zone ∧
      expr.nextAfter berlinHost.zones afternoon "Europe/Berlin" = .ok next ∧
      afternoon < next ∧ expr.Ahead zone afternoon := by
  have hrun : { quarterly afternoon with cron := nightly }.following berlinHost afternoon =
      .ok (seconds 1792888200) := by decide +kernel
  obtain ⟨expr, hparse, hnext⟩ := exists_of_bind_ok hrun
  have hzone : loadTimezone berlinHost.zones "Europe/Berlin" = .ok berlin := rfl
  have hlater : afternoon < seconds 1792888200 := by decide
  refine ⟨expr, berlin, _, hparse, hzone, hnext, hlater, ?_⟩
  exact ((next_firing_later_iff berlinHost afternoon).1 nightly expr "Europe/Berlin" berlin _
    hparse hzone hnext).mp hlater

end Scheduler
