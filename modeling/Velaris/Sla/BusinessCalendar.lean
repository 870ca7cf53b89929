import Velaris.Base.Clock
import Velaris.Scheduler.Cron
import Mathlib.Data.Finset.Dedup
import Mathlib.Data.Finset.Order

/-!
# Business calendars

`case_service/core/business_calendar.py`: adding a duration that only runs in business hours, and
measuring one.

* `nextWorkStart`, `addBusinessDuration`, `businessSecondsBetween`   the source's functions;
* `Lawful`   what is added is what is measured, and additions add up;
* `Paced`   the days on which a step of the loops lands on the next work day;
* `lawful_iff_paced`  the calendars that are lawful are those that are paced.

A moment is a reading of the wall clock, in microseconds from 1970-01-01T00:00, and a day is a
number of days from then.
-/

namespace Sla
open Py Base
open Scheduler (weekday dateOf)

structure BusinessCalendar where
  workDays : List Int := [1, 2, 3, 4, 5]
  workStartHour : Nat := 9
  workEndHour : Nat := 17
  /-- the days whose dates the texts are -/
  holidays : List Int := []
  starts_before : workStartHour < workEndHour
  ends_by : workEndHour ≤ 24
  works : ∃ w ∈ workDays, 1 ≤ w ∧ w ≤ 7

/-- `day.isoweekday()`: Monday is 1 -/
def isoweekday (day : Int) : Int := weekday day + 1

/-- `dt.hour` -/
def hourOf (dt : Int) : Int := dt % days 1 / seconds 3600

def atHour (day : Int) (hour : Nat) : Int := days day + seconds (3600 * hour)

/-- `dt.replace(hour=0, minute=0, second=0)`, which keeps the microseconds -/
def midnight (dt : Int) : Int := atHour (dateOf dt) 0 + dt % seconds 1

namespace BusinessCalendar

def twentyFourSeven : BusinessCalendar where
  workDays := [1, 2, 3, 4, 5, 6, 7]
  workStartHour := 0
  workEndHour := 24
  holidays := []
  starts_before := by decide
  ends_by := by decide
  works := ⟨1, by decide⟩

section
variable (cal : BusinessCalendar)

def isWorkDay (d : Int) : Bool :=
  if isoweekday d ∉ cal.workDays then false
  else if d ∈ cal.holidays then false
  else true

def isWorkTime (dt : Int) : Bool :=
  if !cal.isWorkDay (dateOf dt) then false
  else decide (cal.workStartHour ≤ hourOf dt ∧ hourOf dt < cal.workEndHour)

/-- the loop of `_next_work_start` over days, with the steps that are left -/
def skip : Nat → Int → Int
  | 0, candidate => candidate
  | left + 1, candidate =>
    if !cal.isWorkDay (dateOf candidate) then skip left (candidate + days 1) else candidate

def nextWorkStart (dt : Int) : Int :=
  let candidate := atHour (dateOf dt) cal.workStartHour
  let candidate :=
    if candidate ≤ dt then atHour (dateOf (candidate + days 1)) cal.workStartHour else candidate
  cal.skip 365 candidate

/-- `day_end` of both loops -/
def dayEnd (current : Int) : Int :=
  if 24 ≤ cal.workEndHour then atHour (dateOf current) 0 + days 1
  else atHour (dateOf current) cal.workEndHour

/-- the loop of `add_business_duration` -/
def addLoop : Nat → Int → Int → Option Int
  | 0, current, remaining => if remaining ≤ 0 then some current else none
  | fuel + 1, current, remaining =>
    if remaining ≤ 0 then some current
    else if !cal.isWorkDay (dateOf current) then addLoop fuel (cal.nextWorkStart current) remaining
    else
      let available := cal.dayEnd current - current
      if available ≤ 0 then addLoop fuel (cal.nextWorkStart (current + days 1)) remaining
      else if remaining ≤ available then addLoop fuel (current + remaining) 0
      else
        addLoop fuel (cal.nextWorkStart (midnight current + days 1)) (remaining - available)

def addBusinessDuration (fuel : Nat) (start duration : Int) : Option Int :=
  if duration ≤ 0 then some start
  else
    let current := if !cal.isWorkTime start then cal.nextWorkStart start else start
    cal.addLoop fuel current duration

/-- the loop of `business_seconds_between` -/
def betweenLoop (stop : Int) : Nat → Int → Int → Option Int
  | 0, current, total => if current < stop then none else some total
  | fuel + 1, current, total =>
    if current < stop then
      if !cal.isWorkDay (dateOf current) then
        betweenLoop stop fuel (cal.nextWorkStart (current + days 1)) total
      else
        let dayEnd := cal.dayEnd current
        let dayEnd := if stop < dayEnd then stop else dayEnd
        let available := dayEnd - current
        let total := if 0 < available then total + available else total
        betweenLoop stop fuel (cal.nextWorkStart (midnight current + days 1)) total
    else some total

def businessSecondsBetween (fuel : Nat) (start stop : Int) : Option Int :=
  if stop ≤ start then some 0
  else
    let current := if !cal.isWorkTime start then cal.nextWorkStart start else start
    cal.betweenLoop stop fuel current 0

/-- `add_business_duration(start, d)` returns `t` -/
def Adds (start d t : Int) : Prop := ∃ fuel, cal.addBusinessDuration fuel start d = some t

/-- `business_seconds_between(start, stop)` returns `d` -/
def Measures (start stop d : Int) : Prop :=
  ∃ fuel, cal.businessSecondsBetween fuel start stop = some d

/-- addition and measurement are inverse and additive, and plain where every hour counts -/
structure Lawful : Prop where
  inverse : ∀ start d, 0 < d → ∃ t, cal.Adds start d t ∧ cal.Measures start t d
  additive : ∀ start d₁ d₂, 0 < d₁ → 0 < d₂ →
    ∃ t u, cal.Adds start d₁ t ∧ cal.Adds t d₂ u ∧ cal.Adds start (d₁ + d₂) u
  plain : cal = twentyFourSeven → ∀ start d, 0 < d → cal.Adds start d (start + d)

/-- how many days in a row are looked at: a calendar that is open all day only steps from a day off
to the day after it -/
def reach : Nat := if cal.workStartHour = 0 ∧ cal.workEndHour = 24 then 367 else 366

/-- a day that starts at midnight has a day off after it, and no work day is too far away -/
structure Paced : Prop where
  apart : cal.workStartHour = 0 → ∀ d, cal.isWorkDay d = true → cal.isWorkDay (d + 1) = false
  near : ∀ d, ∃ i < cal.reach, cal.isWorkDay (d + (i : Nat)) = true

end

/-! ## days and hours -/

section
variable {cal : BusinessCalendar}

@[simp] theorem days_eq (n : Int) : days n = 86400000000 * n := by
  unfold days seconds
  omega

theorem atHour_eq (d : Int) (h : Nat) : atHour d h = 86400000000 * d + 3600000000 * h := by
  unfold atHour seconds
  rw [days_eq]
  omega

theorem dateOf_le (t : Int) : atHour (dateOf t) 0 ≤ t := by
  rw [atHour_eq]
  simp only [dateOf, days_eq]
  omega

theorem lt_dateOf (t : Int) : t < atHour (dateOf t + 1) 0 := by
  rw [atHour_eq]
  simp only [dateOf, days_eq]
  omega

theorem dateOf_of_mem {t d : Int} (hd : atHour d 0 ≤ t) (ht : t < atHour (d + 1) 0) :
    dateOf t = d := by
  rw [atHour_eq] at hd ht
  simp only [dateOf, days_eq]
  omega

theorem dateOf_atHour {d : Int} {h : Nat} (hh : h < 24) : dateOf (atHour d h) = d := by
  apply dateOf_of_mem
  · simp only [atHour_eq]; omega
  · simp only [atHour_eq]; omega

theorem start_lt (cal : BusinessCalendar) : cal.workStartHour < 24 :=
  lt_of_lt_of_le cal.starts_before cal.ends_by

theorem dayEnd_eq (t : Int) : cal.dayEnd t = atHour (dateOf t) cal.workEndHour := by
  unfold dayEnd
  split
  · rename_i hend
    have h24 : cal.workEndHour = 24 := le_antisymm cal.ends_by hend
    rw [h24, atHour_eq, atHour_eq, days_eq]
    omega
  · rfl

theorem isWorkTime_iff (t : Int) :
    cal.isWorkTime t = true ↔ cal.isWorkDay (dateOf t) = true ∧
      atHour (dateOf t) cal.workStartHour ≤ t ∧ t < atHour (dateOf t) cal.workEndHour := by
  have hle := dateOf_le t
  have hlt := lt_dateOf t
  unfold isWorkTime
  cases hday : cal.isWorkDay (dateOf t) with
  | false => simp
  | true =>
    simp only [Bool.not_true, Bool.false_eq_true, if_false, decide_eq_true_eq, true_and]
    simp only [atHour_eq, hourOf, days_eq, seconds] at hle hlt ⊢
    omega

theorem isWorkTime_false {t d : Int} (hd : atHour d 0 ≤ t) (ht : t < atHour (d + 1) 0)
    (h : cal.isWorkDay d = true → t < atHour d cal.workStartHour ∨ atHour d cal.workEndHour ≤ t) :
    ¬ cal.isWorkTime t = true := by
  rw [isWorkTime_iff, dateOf_of_mem hd ht]
  rintro ⟨hday, hstart, hend⟩
  rcases h hday with h | h <;> omega

/-! ## the next start of work -/

def firstDay (cal : BusinessCalendar) (dt : Int) : Int :=
  if atHour (dateOf dt) cal.workStartHour ≤ dt then dateOf dt + 1 else dateOf dt

theorem skip_spec (cal : BusinessCalendar) (n : Nat) (d : Int) : ∃ k ≤ n,
    (∀ j < k, cal.isWorkDay (d + (j : Nat)) = false) ∧
    (k = n ∨ cal.isWorkDay (d + (k : Nat)) = true) ∧
    cal.skip n (atHour d cal.workStartHour) = atHour (d + (k : Nat)) cal.workStartHour := by
  induction n generalizing d with
  | zero => exact ⟨0, le_rfl, by simp, Or.inl rfl, by simp [skip]⟩
  | succ n ih =>
    unfold skip
    rw [dateOf_atHour cal.start_lt]
    cases hday : cal.isWorkDay d with
    | true => exact ⟨0, by omega, by simp, Or.inr (by simpa using hday), by simp⟩
    | false =>
      obtain ⟨k, hk, hoff, hon, heq⟩ := ih (d + 1)
      have hshift : ∀ j : Nat, d + 1 + (j : Int) = d + ((j + 1 : Nat) : Int) := by
        intro j; omega
      refine ⟨k + 1, by omega, ?_, ?_, ?_⟩
      · intro j hj
        cases j with
        | zero => simpa using hday
        | succ j => rw [← hshift]; exact hoff j (by omega)
      · rw [← hshift]
        exact hon.imp (by omega) id
      · have hnext : atHour d cal.workStartHour + days 1 = atHour (d + 1) cal.workStartHour := by
          rw [days_eq, atHour_eq, atHour_eq]; omega
        rw [← hshift, ← heq, ← hnext]
        rfl

theorem nextWorkStart_eq (dt : Int) :
    cal.nextWorkStart dt = cal.skip 365 (atHour (cal.firstDay dt) cal.workStartHour) := by
  have hnext : dateOf (atHour (dateOf dt) cal.workStartHour + days 1) = dateOf dt + 1 := by
    have h24 := cal.start_lt
    apply dateOf_of_mem
    · simp only [atHour_eq, days_eq]; omega
    · simp only [atHour_eq, days_eq]; omega
  unfold nextWorkStart firstDay
  dsimp only
  rw [hnext]
  split <;> rfl

theorem lt_firstDay (cal : BusinessCalendar) (dt : Int) :
    dt < atHour (cal.firstDay dt) cal.workStartHour := by
  have hlt := lt_dateOf dt
  unfold firstDay
  split
  · simp only [atHour_eq] at hlt ⊢; omega
  · omega

theorem lt_nextWorkStart (cal : BusinessCalendar) (dt : Int) : dt < cal.nextWorkStart dt := by
  obtain ⟨k, -, -, -, heq⟩ := skip_spec cal 365 (cal.firstDay dt)
  have hlt := lt_firstDay cal dt
  rw [nextWorkStart_eq, heq]
  simp only [atHour_eq] at hlt ⊢
  omega

/-! ## a calendar that is paced -/

/-- the next start of work is on a work day, and there is no work from the first day on that is
looked at -/
theorem Paced.onto (h : cal.Paced) (dt : Int)
    (hoff : cal.reach = 367 → cal.isWorkDay (cal.firstDay dt - 1) = false) :
    cal.isWorkTime (cal.nextWorkStart dt) = true ∧
      ∀ u, atHour (cal.firstDay dt) 0 ≤ u → u < cal.nextWorkStart dt →
        ¬ cal.isWorkTime u = true := by
  obtain ⟨k, hk, hskipped, hlast, heq⟩ := skip_spec cal 365 (cal.firstDay dt)
  rw [nextWorkStart_eq, heq]
  generalize cal.firstDay dt = d at *
  have hon : cal.isWorkDay (d + (k : Nat)) = true := by
    rcases hlast with rfl | hon
    · by_contra hlast
      have hnone : ∀ i ≤ 365, ¬ cal.isWorkDay (d + (i : Nat)) = true := by
        intro i hi
        rcases Nat.lt_or_eq_of_le hi with hlt | rfl
        · simp [hskipped i hlt]
        · exact hlast
      by_cases hreach : cal.reach = 367
      · obtain ⟨i, hi, hwork⟩ := h.near (d - 1)
        cases i with
        | zero =>
          have hzero : d - 1 + ((0 : Nat) : Int) = d - 1 := by simp
          rw [hzero, hoff hreach] at hwork
          exact Bool.false_ne_true hwork
        | succ i =>
          have hshift : d - 1 + ((i + 1 : Nat) : Int) = d + (i : Nat) := by omega
          exact hnone i (by omega) (hshift ▸ hwork)
      · obtain ⟨i, hi, hwork⟩ := h.near d
        have hreach' : cal.reach = 366 := by
          unfold reach at hreach ⊢
          split <;> simp_all
        exact hnone i (by omega) hwork
    · exact hon
  have hstart := cal.starts_before
  have h24 := cal.start_lt
  constructor
  · rw [isWorkTime_iff, dateOf_atHour h24]
    refine ⟨hon, le_rfl, ?_⟩
    simp only [atHour_eq]
    omega
  · intro u hu hlt
    have hle := dateOf_le u
    have hlt' := lt_dateOf u
    refine isWorkTime_false hle hlt' fun hwork => Or.inl ?_
    have hday : dateOf u = d + (k : Nat) := by
      by_contra hne
      have hbefore : (dateOf u - d).toNat < k := by
        simp only [atHour_eq] at hu hle hlt hlt'
        omega
      have hback : d + ((dateOf u - d).toNat : Int) = dateOf u := by
        simp only [atHour_eq] at hu hlt'
        omega
      have := hskipped _ hbefore
      rw [hback, hwork] at this
      exact Bool.false_ne_true this.symm
    rw [hday]
    exact hlt

/-- from a time off work, the next start of work comes with no work before it -/
theorem Paced.arrive (h : cal.Paced) {dt : Int} (hdt : ¬ cal.isWorkTime dt = true) :
    cal.isWorkTime (cal.nextWorkStart dt) = true ∧
      ∀ u, dt ≤ u → u < cal.nextWorkStart dt → ¬ cal.isWorkTime u = true := by
  have hle := dateOf_le dt
  have hlt := lt_dateOf dt
  have hidle : ∀ u, dt ≤ u → u < atHour (cal.firstDay dt) 0 → ¬ cal.isWorkTime u = true := by
    intro u hu hlt'
    unfold firstDay at hlt'
    split at hlt'
    · rename_i hpast
      refine isWorkTime_false (le_trans hle hu) hlt' fun hwork => Or.inr ?_
      by_contra hend
      exact hdt ((isWorkTime_iff dt).mpr ⟨hwork, hpast, by omega⟩)
    · omega
  have honto := h.onto dt fun hreach => by
    unfold reach at hreach
    split at hreach
    · rename_i hall
      have hfirst : cal.firstDay dt = dateOf dt + 1 := by
        unfold firstDay
        rw [hall.1, if_pos hle]
      rw [hfirst, add_sub_cancel_right]
      by_contra hwork
      refine hdt ((isWorkTime_iff dt).mpr ⟨by simpa using hwork, by rw [hall.1]; exact hle, ?_⟩)
      rw [hall.2]
      simp only [atHour_eq] at hlt ⊢
      omega
    · omega
  refine ⟨honto.1, fun u hu hlt' => ?_⟩
  rcases lt_or_ge u (atHour (cal.firstDay dt) 0) with hbefore | hafter
  · exact hidle u hu hbefore
  · exact honto.2 u hafter hlt'

theorem firstDay_morrow (cal : BusinessCalendar) (t : Int) :
    cal.firstDay (midnight t + days 1)
    = if cal.workStartHour = 0 then dateOf t + 2 else dateOf t + 1 := by
  have hmod : 0 ≤ t % seconds 1 ∧ t % seconds 1 < 1000000 := by
    unfold seconds
    omega
  have hday : dateOf (midnight t + days 1) = dateOf t + 1 := by
    unfold midnight
    apply dateOf_of_mem
    · simp only [atHour_eq, days_eq]; omega
    · simp only [atHour_eq, days_eq]; omega
  unfold firstDay
  rw [hday]
  unfold midnight
  simp only [atHour_eq, days_eq]
  split <;> split <;> omega

theorem lt_morrow (t : Int) : t < midnight t + days 1 := by
  have hlt := lt_dateOf t
  have hmod : 0 ≤ t % seconds 1 := by
    unfold seconds
    omega
  unfold midnight
  simp only [atHour_eq, days_eq] at hlt ⊢
  omega

/-- the next start of work after a work day comes with no work before it -/
theorem Paced.advance (h : cal.Paced) {t : Int} (ht : cal.isWorkDay (dateOf t) = true) :
    cal.isWorkTime (cal.nextWorkStart (midnight t + days 1)) = true ∧
      cal.dayEnd t ≤ cal.nextWorkStart (midnight t + days 1) ∧
      ∀ u, cal.dayEnd t ≤ u → u < cal.nextWorkStart (midnight t + days 1) →
        ¬ cal.isWorkTime u = true := by
  have hfirst := firstDay_morrow cal t
  have hend := cal.ends_by
  have honto := h.onto (midnight t + days 1) fun hreach => by
    unfold reach at hreach
    split at hreach
    · rename_i hall
      have hback : dateOf t + 2 - 1 = dateOf t + 1 := by omega
      rw [hfirst, if_pos hall.1, hback]
      exact h.apart hall.1 _ ht
    · omega
  refine ⟨honto.1, ?_, fun u hu hlt => ?_⟩
  · have hlater := lt_nextWorkStart cal (midnight t + days 1)
    have hmod : 0 ≤ t % seconds 1 := by
      unfold seconds
      omega
    rw [dayEnd_eq]
    unfold midnight at hlater ⊢
    simp only [atHour_eq, days_eq] at hlater ⊢
    omega
  · rcases lt_or_ge u (atHour (cal.firstDay (midnight t + days 1)) 0) with hbefore | hafter
    · rw [dayEnd_eq] at hu
      rcases lt_or_ge u (atHour (dateOf t + 1) 0) with htoday | hmorrow
      · refine isWorkTime_false ?_ htoday fun _ => Or.inr hu
        simp only [atHour_eq] at hu ⊢
        omega
      · by_cases hzero : cal.workStartHour = 0
        · rw [hfirst, if_pos hzero] at hbefore
          refine isWorkTime_false hmorrow ?_ fun hwork => ?_
          · rw [add_assoc]
            exact hbefore
          · rw [h.apart hzero _ ht] at hwork
            exact absurd hwork Bool.false_ne_true
        · rw [hfirst, if_neg hzero] at hbefore
          omega
    · exact honto.2 u hafter hlt

/-! ## adding and measuring on a paced calendar -/

theorem isWorkTime_of_mem {t u : Int} (ht : cal.isWorkTime t = true) (htu : t ≤ u)
    (hu : u < cal.dayEnd t) : cal.isWorkTime u = true := by
  obtain ⟨hday, hstart, -⟩ := (isWorkTime_iff t).mp ht
  rw [dayEnd_eq] at hu
  have hend := cal.ends_by
  have hdate : dateOf u = dateOf t := by
    apply dateOf_of_mem
    · exact le_trans (dateOf_le t) htu
    · simp only [atHour_eq] at hu ⊢
      omega
  rw [isWorkTime_iff, hdate]
  exact ⟨hday, le_trans hstart htu, hu⟩

theorem lt_dayEnd {t : Int} (ht : cal.isWorkTime t = true) : t < cal.dayEnd t := by
  rw [dayEnd_eq]
  exact ((isWorkTime_iff t).mp ht).2.2

theorem addLoop_succ (fuel : Nat) {current remaining : Int}
    (hcurrent : cal.isWorkTime current = true) (hremaining : 0 < remaining) :
    cal.addLoop (fuel + 1) current remaining =
      if remaining ≤ cal.dayEnd current - current then cal.addLoop fuel (current + remaining) 0
      else cal.addLoop fuel (cal.nextWorkStart (midnight current + days 1))
        (remaining - (cal.dayEnd current - current)) := by
  have hday := ((isWorkTime_iff current).mp hcurrent).1
  have hend := lt_dayEnd hcurrent
  rw [addLoop, if_neg (by omega), hday]
  dsimp only
  rw [if_neg (by simp), if_neg (by omega)]

@[simp] theorem addLoop_zero (fuel : Nat) (current : Int) :
    cal.addLoop fuel current 0 = some current := by
  cases fuel <;> simp [addLoop]

theorem Paced.addLoop (h : cal.Paced) (fuel : Nat) {current remaining : Int}
    (hcurrent : cal.isWorkTime current = true) (hremaining : 0 < remaining)
    (hfuel : remaining ≤ fuel) : ∃ t, cal.addLoop fuel current remaining = some t ∧
      Reaches (fun u => cal.isWorkTime u = true) current remaining t := by
  induction fuel generalizing current remaining with
  | zero => omega
  | succ fuel ih =>
    have hend := lt_dayEnd hcurrent
    have hrest : ∀ u, current ≤ u → u < cal.dayEnd current → cal.isWorkTime u = true :=
      fun u => isWorkTime_of_mem hcurrent
    rw [addLoop_succ fuel hcurrent hremaining]
    split
    · rename_i henough
      refine ⟨_, addLoop_zero _ _, Reaches.of_all hremaining fun u hu hlt => ?_⟩
      exact hrest u hu (by omega)
    · obtain ⟨hnext, hle, hidle⟩ := h.advance ((isWorkTime_iff current).mp hcurrent).1
      have hleft : 0 < remaining - (cal.dayEnd current - current) := by omega
      obtain ⟨t, ht, hreach⟩ := ih hnext hleft (by omega)
      refine ⟨t, ht, ?_⟩
      have hday : elapsed (fun u => cal.isWorkTime u = true) current (cal.dayEnd current)
          = cal.dayEnd current - current := elapsed_of_all (le_of_lt hend) hrest
      have hall := Reaches.after (le_of_lt hend) hday (hreach.of_idle hle hidle)
      rwa [add_sub_cancel] at hall

theorem Paced.adds (h : cal.Paced) (start : Int) {d : Int} (hd : 0 < d) :
    ∃ t, cal.Adds start d t ∧ Reaches (fun u => cal.isWorkTime u = true) start d t := by
  have hfuel : d ≤ (d.toNat : Int) := by omega
  by_cases hstart : cal.isWorkTime start = true
  · obtain ⟨t, ht, hreach⟩ := h.addLoop d.toNat hstart hd hfuel
    refine ⟨t, ⟨d.toNat, ?_⟩, hreach⟩
    simpa [addBusinessDuration, hd.not_ge, hstart] using ht
  · obtain ⟨hnext, hidle⟩ := h.arrive hstart
    obtain ⟨t, ht, hreach⟩ := h.addLoop d.toNat hnext hd hfuel
    refine ⟨t, ⟨d.toNat, ?_⟩, hreach.of_idle (le_of_lt (lt_nextWorkStart cal start)) hidle⟩
    simpa [addBusinessDuration, hd.not_ge, hstart] using ht

theorem Paced.betweenLoop (h : cal.Paced) (stop : Int) (fuel : Nat) {current : Int} (total : Int)
    (hcurrent : cal.isWorkTime current = true) (hfuel : stop - current ≤ fuel) :
    cal.betweenLoop stop fuel current total =
      some (total + elapsed (fun u => cal.isWorkTime u = true) current stop) := by
  induction fuel generalizing current total with
  | zero =>
    have hover : stop ≤ current := by omega
    simp [BusinessCalendar.betweenLoop, hover.not_gt, elapsed_of_le hover]
  | succ fuel ih =>
    by_cases hlt : current < stop
    · have hday := ((isWorkTime_iff current).mp hcurrent).1
      have hend := lt_dayEnd hcurrent
      obtain ⟨hnext, hle, hidle⟩ := h.advance hday
      have hrest : ∀ u, current ≤ u → u < cal.dayEnd current → cal.isWorkTime u = true :=
        fun u => isWorkTime_of_mem hcurrent
      rw [BusinessCalendar.betweenLoop, if_pos hlt, hday]
      dsimp only
      rw [if_neg (by simp), ih _ hnext (by omega), ← elapsed_of_idle hle hidle]
      congr 1
      split
      · rename_i hcut
        rw [if_pos (by omega), elapsed_of_le (le_of_lt hcut),
          elapsed_of_all (le_of_lt hlt) fun u hu hu' => hrest u hu (by omega)]
        omega
      · rename_i hcut
        rw [if_pos (by omega), elapsed_add (le_of_lt hend) (not_lt.mp hcut),
          elapsed_of_all (le_of_lt hend) hrest]
        omega
    · have hover : stop ≤ current := not_lt.mp hlt
      rw [BusinessCalendar.betweenLoop, if_neg hlt, elapsed_of_le hover, add_zero]

theorem Paced.measures (h : cal.Paced) (start stop : Int) :
    cal.Measures start stop (elapsed (fun u => cal.isWorkTime u = true) start stop) := by
  refine ⟨(stop - start).toNat, ?_⟩
  unfold businessSecondsBetween
  by_cases hover : stop ≤ start
  · rw [if_pos hover, elapsed_of_le hover]
  · rw [if_neg hover]
    by_cases hstart : cal.isWorkTime start = true
    · simpa [hstart] using h.betweenLoop stop (stop - start).toNat 0 hstart (by omega)
    · obtain ⟨hnext, hidle⟩ := h.arrive hstart
      have hlater := lt_nextWorkStart cal start
      have hloop := h.betweenLoop stop (stop - start).toNat 0 hnext (by omega)
      rw [← elapsed_of_idle (le_of_lt hlater) hidle] at hloop
      simpa [hstart] using hloop

/-! ## the loops in general -/

theorem addLoop_step (cal : BusinessCalendar) (current : Int) {remaining : Int}
    (hremaining : 0 < remaining) :
    ∃ c r, current ≤ c ∧
      ∀ fuel, cal.addLoop (fuel + 1) current remaining = cal.addLoop fuel c r := by
  have hnext : ∀ dt, current ≤ dt → current ≤ cal.nextWorkStart dt :=
    fun dt hdt => le_trans hdt (le_of_lt (lt_nextWorkStart cal dt))
  simp only [BusinessCalendar.addLoop, hremaining.not_ge, if_false]
  cases cal.isWorkDay (dateOf current) with
  | false => exact ⟨_, remaining, hnext _ le_rfl, fun fuel => by simp⟩
  | true =>
    simp only [Bool.not_true, Bool.false_eq_true, if_false]
    split
    · exact ⟨_, _, hnext _ (by simp), fun fuel => rfl⟩
    · split
      · exact ⟨_, _, by omega, fun fuel => rfl⟩
      · exact ⟨_, _, hnext _ (le_of_lt (lt_morrow current)), fun fuel => rfl⟩

theorem addLoop_none {current remaining : Int} (hremaining : 0 < remaining) :
    cal.addLoop 0 current remaining = none := by
  simp [BusinessCalendar.addLoop, hremaining]

theorem addLoop_done (fuel : Nat) (current : Int) {remaining : Int} (hremaining : remaining ≤ 0) :
    cal.addLoop fuel current remaining = some current := by
  cases fuel <;> simp [BusinessCalendar.addLoop, hremaining]

theorem addLoop_unique {m n : Nat} {current remaining t u : Int}
    (ht : cal.addLoop m current remaining = some t)
    (hu : cal.addLoop n current remaining = some u) : t = u := by
  rcases le_or_gt remaining 0 with hdone | hremaining
  · rw [addLoop_done _ _ hdone] at ht hu
    exact Option.some.inj (ht.symm.trans hu)
  · induction m generalizing n current remaining with
    | zero => rw [addLoop_none hremaining] at ht; cases ht
    | succ m ih =>
      cases n with
      | zero => rw [addLoop_none hremaining] at hu; cases hu
      | succ n =>
        obtain ⟨c, r, -, hstep⟩ := addLoop_step cal current hremaining
        rw [hstep] at ht hu
        rcases le_or_gt r 0 with hdone | hrest
        · rw [addLoop_done _ _ hdone] at ht hu
          exact Option.some.inj (ht.symm.trans hu)
        · exact ih ht hu hrest

theorem Adds.unique {start d t u : Int} (ht : cal.Adds start d t) (hu : cal.Adds start d u) :
    t = u := by
  obtain ⟨m, ht⟩ := ht
  obtain ⟨n, hu⟩ := hu
  unfold addBusinessDuration at ht hu
  dsimp only at ht hu
  split at ht
  · simp_all
  · rw [if_neg ‹_›] at hu
    exact addLoop_unique ht hu

theorem addLoop_le {fuel : Nat} {current remaining t : Int}
    (ht : cal.addLoop fuel current remaining = some t) : current ≤ t := by
  rcases le_or_gt remaining 0 with hdone | hremaining
  · rw [addLoop_done _ _ hdone] at ht
    exact le_of_eq (Option.some.inj ht)
  · induction fuel generalizing current remaining with
    | zero => rw [addLoop_none hremaining] at ht; cases ht
    | succ fuel ih =>
      obtain ⟨c, r, hle, hstep⟩ := addLoop_step cal current hremaining
      rw [hstep] at ht
      rcases le_or_gt r 0 with hdone | hrest
      · rw [addLoop_done _ _ hdone] at ht
        exact le_trans hle (le_of_eq (Option.some.inj ht))
      · exact le_trans hle (ih ht hrest)

theorem adds_within {t d : Int} (ht : cal.isWorkTime t = true) (hd : 0 < d)
    (hle : d ≤ cal.dayEnd t - t) : cal.Adds t d (t + d) := by
  refine ⟨1, ?_⟩
  have hloop := addLoop_succ 0 ht hd
  rw [if_pos hle, addLoop_zero] at hloop
  simpa [addBusinessDuration, hd.not_ge, ht] using hloop

theorem adds_after {t d : Int} (ht : ¬ cal.isWorkTime t = true)
    (hnext : cal.isWorkTime (cal.nextWorkStart t) = true) (hd : 0 < d)
    (hle : d ≤ cal.dayEnd (cal.nextWorkStart t) - cal.nextWorkStart t) :
    cal.Adds t d (cal.nextWorkStart t + d) := by
  refine ⟨1, ?_⟩
  have hloop := addLoop_succ 0 hnext hd
  rw [if_pos hle, addLoop_zero] at hloop
  simpa [addBusinessDuration, hd.not_ge, ht] using hloop

/-! ## the next start of work, where it is near and where it is far -/

theorem firstDay_le (cal : BusinessCalendar) (dt : Int) :
    atHour (cal.firstDay dt) cal.workStartHour ≤ cal.nextWorkStart dt := by
  obtain ⟨k, -, -, -, heq⟩ := skip_spec cal 365 (cal.firstDay dt)
  rw [nextWorkStart_eq, heq]
  simp only [atHour_eq]
  omega

theorem nextWorkStart_near {dt : Int} (h : cal.isWorkDay (cal.firstDay dt) = true) :
    cal.nextWorkStart dt = atHour (cal.firstDay dt) cal.workStartHour := by
  have h24 := cal.start_lt
  rw [nextWorkStart_eq, skip, dateOf_atHour h24, h]
  rfl

theorem nextWorkStart_far (dt : Int)
    (h : ∀ j ≤ 365, cal.isWorkDay (cal.firstDay dt + (j : Nat)) = false) :
    cal.nextWorkStart dt = atHour (cal.firstDay dt + 365) cal.workStartHour := by
  obtain ⟨k, hk, -, hlast, heq⟩ := skip_spec cal 365 (cal.firstDay dt)
  rw [nextWorkStart_eq, heq]
  rcases hlast with rfl | hwork
  · rfl
  · rw [h k hk] at hwork
    exact absurd hwork Bool.false_ne_true

theorem firstDay_start (d : Int) : cal.firstDay (atHour d cal.workStartHour) = d + 1 := by
  unfold firstDay
  rw [dateOf_atHour cal.start_lt, if_pos le_rfl]

theorem isWorkTime_start {d : Int} (h : cal.isWorkDay d = true) :
    cal.isWorkTime (atHour d cal.workStartHour) = true := by
  have hstart := cal.starts_before
  rw [isWorkTime_iff, dateOf_atHour cal.start_lt]
  refine ⟨h, le_rfl, ?_⟩
  simp only [atHour_eq]
  omega

theorem exists_workDay (cal : BusinessCalendar) (d : Int) :
    ∃ k : Nat, cal.isWorkDay (d + (k : Nat)) = true := by
  obtain ⟨w, hw, hw1, hw7⟩ := cal.works
  obtain ⟨m, hm⟩ := cal.holidays.toFinset.exists_le
  have hafter : ∀ x ∈ cal.holidays, x ≤ m := fun x hx => hm x (by simpa using hx)
  let b := max d (m + 1)
  let x := b + (w - isoweekday b) % 7
  have hb : d ≤ b ∧ m + 1 ≤ b := ⟨le_max_left _ _, le_max_right _ _⟩
  have hx : b ≤ x := by
    show b ≤ b + (w - isoweekday b) % 7
    omega
  have hday : isoweekday x = w := by
    show isoweekday (b + (w - isoweekday b) % 7) = w
    simp only [isoweekday, weekday, Scheduler.EPOCH]
    omega
  refine ⟨(x - d).toNat, ?_⟩
  have hback : d + ((x - d).toNat : Int) = x := by omega
  rw [hback]
  unfold isWorkDay
  rw [hday, if_neg (by simpa using hw), if_neg fun hx' => by have := hafter x hx'; omega]

/-! ## when the calendar is lawful -/

/-- a day at midnight with a work day after it: what runs over the end of the day skips the next -/
theorem Lawful.apart (h : cal.Lawful) (hzero : cal.workStartHour = 0) (d : Int)
    (hd : cal.isWorkDay d = true) : cal.isWorkDay (d + 1) = false := by
  by_contra hmorrow
  have hmorrow : cal.isWorkDay (d + 1) = true := by simpa using hmorrow
  have hend := cal.starts_before
  have h24 := cal.ends_by
  have hdate : dateOf (atHour d 0) = d := dateOf_atHour (by decide)
  have hstart : cal.isWorkTime (atHour d 0) = true := by
    have := isWorkTime_start hd
    rwa [hzero] at this
  have hday := lt_dayEnd hstart
  have hover : cal.dayEnd (atHour d 0) = atHour d cal.workEndHour := by rw [dayEnd_eq, hdate]
  obtain ⟨t, u, ht, hu, htu⟩ := h.additive (atHour d 0) (cal.dayEnd (atHour d 0) - atHour d 0) 1
    (by omega) one_pos
  have ht' := ht.unique (adds_within hstart (by omega) le_rfl)
  rw [add_sub_cancel, hover] at ht'
  -- from the end of the day, one step ends in the next day
  have hnext : cal.isWorkTime (atHour (d + 1) 0) = true := by
    have := isWorkTime_start hmorrow
    rwa [hzero] at this
  have hlast : cal.Adds t 1 (atHour (d + 1) 0 + 1) := by
    have hlt := lt_dayEnd hnext
    by_cases hall : cal.workEndHour = 24
    · have hte : t = atHour (d + 1) 0 := by
        rw [ht', hall]
        simp only [atHour_eq]
        omega
      rw [hte]
      exact adds_within hnext one_pos (by omega)
    · have htd : dateOf t = d := by rw [ht', dateOf_atHour (by omega)]
      have hfirst : cal.firstDay t = d + 1 := by
        unfold firstDay
        rw [htd, hzero, if_pos]
        rw [ht']
        simp only [atHour_eq]
        omega
      have heq : cal.nextWorkStart t = atHour (d + 1) 0 := by
        rw [nextWorkStart_near (by rwa [hfirst]), hfirst, hzero]
      have hoff : ¬ cal.isWorkTime t = true := by
        rw [isWorkTime_iff, htd, ht']
        rintro ⟨-, -, hlt⟩
        exact lt_irrefl _ hlt
      have hafter := adds_after hoff (by rwa [heq]) one_pos (by rw [heq]; omega)
      rwa [heq] at hafter
  -- at once, the step goes to the day after
  obtain ⟨fuel, hfuel⟩ := htu
  unfold addBusinessDuration at hfuel
  rw [if_neg (by omega), hstart] at hfuel
  dsimp only at hfuel
  rw [if_neg (by simp)] at hfuel
  cases fuel with
  | zero =>
    rw [addLoop_none (by omega)] at hfuel
    cases hfuel
  | succ fuel =>
    rw [addLoop_succ fuel hstart (by omega), if_neg (by omega)] at hfuel
    have hle := le_trans (firstDay_le cal _) (addLoop_le hfuel)
    rw [firstDay_morrow, if_pos hzero, hdate, hzero, hu.unique hlast] at hle
    simp only [atHour_eq] at hle
    omega

/-- where the search stops on the day before a work day, adding goes on to that work day, and
measuring to the one after it -/
theorem Lawful.landing (h : cal.Lawful) {start e : Int} (hstart : ¬ cal.isWorkTime start = true)
    (hnext : cal.nextWorkStart start = atHour e cal.workStartHour)
    (he : cal.isWorkDay e = false) : cal.isWorkDay (e + 1) = false := by
  by_contra hmorrow
  have hmorrow : cal.isWorkDay (e + 1) = true := by simpa using hmorrow
  obtain ⟨t, ht, fuel, hfuel⟩ := h.inverse start 1 one_pos
  have heq : cal.nextWorkStart (atHour e cal.workStartHour)
      = atHour (e + 1) cal.workStartHour := by
    rw [nextWorkStart_near (by rwa [firstDay_start]), firstDay_start]
  have hdate : dateOf (atHour e cal.workStartHour) = e := dateOf_atHour cal.start_lt
  have hwork := isWorkTime_start hmorrow
  have hlt := lt_dayEnd hwork
  have ht' : t = atHour (e + 1) cal.workStartHour + 1 := by
    refine ht.unique ⟨2, ?_⟩
    have hloop := addLoop_succ 0 hwork one_pos
    rw [if_pos (by omega), addLoop_zero] at hloop
    simpa [addBusinessDuration, hstart, hnext, BusinessCalendar.addLoop, hdate, he, heq] using hloop
  have hstop : start < t := by
    have := lt_nextWorkStart cal start
    rw [hnext] at this
    rw [ht']
    simp only [atHour_eq] at this ⊢
    omega
  unfold businessSecondsBetween at hfuel
  rw [if_neg hstop.not_ge] at hfuel
  simp only [hstart, hnext, Bool.not_false, if_true] at hfuel
  have hfirst : atHour e cal.workStartHour < t := by
    rw [ht']
    simp only [atHour_eq]
    omega
  cases fuel with
  | zero => simp [BusinessCalendar.betweenLoop, hfirst] at hfuel
  | succ fuel =>
    have hday : atHour e cal.workStartHour + days 1 = atHour (e + 1) cal.workStartHour := by
      simp only [atHour_eq, days_eq]
      omega
    have hpast : t ≤ cal.nextWorkStart (atHour (e + 1) cal.workStartHour) := by
      have := firstDay_le cal (atHour (e + 1) cal.workStartHour)
      rw [firstDay_start] at this
      rw [ht']
      simp only [atHour_eq] at this ⊢
      omega
    rw [BusinessCalendar.betweenLoop, if_pos hfirst, hdate, he, hday] at hfuel
    dsimp only at hfuel
    rw [if_pos (by simp)] at hfuel
    cases fuel <;> simp [BusinessCalendar.betweenLoop, hpast.not_gt] at hfuel

/-- a longer way to the next work day than a search goes -/
theorem Lawful.near (h : cal.Lawful) (d : Int) :
    ∃ i < cal.reach, cal.isWorkDay (d + (i : Nat)) = true := by
  by_contra hnone
  push Not at hnone
  have hreach : 366 ≤ cal.reach := by
    unfold reach
    split <;> omega
  have hex := exists_workDay cal d
  -- the next work day, and the day from which a search stops just before it
  let k := Nat.find hex
  have hwork : cal.isWorkDay (d + (k : Nat)) = true := Nat.find_spec hex
  have hoff : ∀ j < k, cal.isWorkDay (d + (j : Nat)) = false := fun j hj => by
    simpa using Nat.find_min hex hj
  have hk : cal.reach ≤ k := by
    by_contra hlt
    exact hnone k (by omega) hwork
  let f := d + (k : Int) - 366
  have hgap : ∀ j ≤ 365, cal.isWorkDay (f + (j : Nat)) = false := fun j hj => by
    have hback : f + (j : Nat) = d + ((k - 366 + j : Nat) : Int) := by
      show d + (k : Int) - 366 + (j : Int) = _
      omega
    rw [hback]
    exact hoff _ (by omega)
  have hlast : f + 365 + 1 = d + (k : Nat) := by
    show d + (k : Int) - 366 + 365 + 1 = _
    omega
  have hmiss : ∀ start, ¬ cal.isWorkTime start = true → cal.firstDay start = f → False := by
    intro start hstart hfirst
    have hnext := nextWorkStart_far start (by rwa [hfirst])
    rw [hfirst] at hnext
    have hno := h.landing hstart hnext (hgap 365 le_rfl)
    rw [hlast, hwork] at hno
    exact Bool.false_ne_true hno.symm
  have hbefore := cal.starts_before
  have hends := cal.ends_by
  have hshift : f - 1 + 1 = f := by omega
  by_cases hend : cal.workEndHour = 24
  · by_cases hzero : cal.workStartHour = 0
    -- open all day: from midnight of the day off before
    · have hall : cal.reach = 367 := by
        unfold reach
        rw [if_pos ⟨hzero, hend⟩]
      have hprev : cal.isWorkDay (f - 1) = false := by
        have hback : f - 1 = d + ((k - 367 : Nat) : Int) := by
          show d + (k : Int) - 366 - 1 = _
          omega
        rw [hback]
        exact hoff _ (by omega)
      have hdate : dateOf (atHour (f - 1) 0) = f - 1 := dateOf_atHour (by decide)
      refine hmiss (atHour (f - 1) 0) ?_ ?_
      · rw [isWorkTime_iff, hdate, hprev]
        simp
      · unfold firstDay
        rw [hdate, hzero, if_pos le_rfl, hshift]
    -- from midnight of the day
    · have hdate : dateOf (atHour f 0) = f := dateOf_atHour (by decide)
      have hlt : ¬ atHour f cal.workStartHour ≤ atHour f 0 := by
        simp only [atHour_eq]
        omega
      refine hmiss (atHour f 0) ?_ ?_
      · rw [isWorkTime_iff, hdate]
        exact fun hin => hlt hin.2.1
      · unfold firstDay
        rw [hdate, if_neg hlt]
  -- from the end of the day before
  · have hdate : dateOf (atHour (f - 1) cal.workEndHour) = f - 1 := dateOf_atHour (by omega)
    refine hmiss (atHour (f - 1) cal.workEndHour) ?_ ?_
    · rw [isWorkTime_iff, hdate]
      exact fun hin => lt_irrefl _ hin.2.2
    · unfold firstDay
      rw [hdate, if_pos, hshift]
      simp only [atHour_eq]
      omega

theorem Paced.lawful (h : cal.Paced) : cal.Lawful where
  inverse start d hd := by
    obtain ⟨t, ht, hreach⟩ := h.adds start hd
    refine ⟨t, ht, ?_⟩
    have hmeasured := h.measures start t
    rwa [hreach.spent] at hmeasured
  additive start d₁ d₂ hd₁ hd₂ := by
    obtain ⟨t, ht, hreach⟩ := h.adds start hd₁
    obtain ⟨u, hu, hreach'⟩ := h.adds t hd₂
    obtain ⟨v, hv, hsum⟩ := h.adds start (add_pos hd₁ hd₂)
    have huv : u = v := (hreach.trans hreach').unique hsum
    exact ⟨t, u, ht, hu, huv ▸ hv⟩
  plain hcal := by
    have hoff : cal.isWorkDay (0 + 1) = false := by
      subst hcal
      exact h.apart rfl 0 (by decide)
    subst hcal
    exact absurd hoff (by decide)

/-- addition and measurement agree where a day that starts at midnight has a day off after it, and
the next work day is never more than a year of steps away -/
theorem lawful_iff_paced (cal : BusinessCalendar) : cal.Lawful ↔ cal.Paced :=
  ⟨fun h => ⟨h.apart, h.near⟩, Paced.lawful⟩

/-- thirty hours on the calendar that is always open end after fifty-four -/
theorem twentyFourSeven_skips :
    twentyFourSeven.Adds (atHour 0 12) (seconds (3600 * 30)) (atHour 0 12 + seconds (3600 * 54)) ∧
      ¬ ∀ cal : BusinessCalendar, cal.Lawful := by
  have hadds : twentyFourSeven.Adds (atHour 0 12) (seconds (3600 * 30))
      (atHour 0 12 + seconds (3600 * 54)) := ⟨2, by decide +kernel⟩
  refine ⟨hadds, fun h => ?_⟩
  have hplain := (h twentyFourSeven).plain rfl (atHour 0 12) (seconds (3600 * 30)) (by decide)
  exact absurd (hplain.unique hadds) (by decide)

end
end BusinessCalendar
end Sla
