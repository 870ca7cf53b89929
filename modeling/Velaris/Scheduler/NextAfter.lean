import Velaris.Scheduler.Cron
import Velaris.Base.Traverse
import Mathlib.Data.Int.LeastGreatest

/-!
# The firing that `next_after` finds

* `Matches`   the wall clock minutes of an expression;
* `search_spec`   the search finds the first of them from the cursor on;
* `Ahead`   that first minute is read as an instant after the one asked about.

`nextIn_later_iff`: what is found is later exactly when it is ahead.  `Ahead.iff_of_separated`: in a
zone whose changes are separated, when no minute of the expression is left that the clock had passed
before it was set back.  `next_after_earliest_iff`: in a zone without changes what is found is the
earliest minute, exactly where the search stays within the years that a `datetime` has.
-/

namespace Scheduler
open Py Base

/-! ## what a parsed expression holds -/

theorem le_of_mem_rangeOf {start stop step x : Nat} (h : x ∈ rangeOf start stop step) :
    x ≤ max start stop := by
  obtain ⟨i, hi, rfl⟩ := List.mem_range'.mp h
  have hmul : step * i ≤ stop - start :=
    le_trans (Nat.mul_le_mul_left step (Nat.le_of_lt_succ hi)) (Nat.mul_div_le _ _)
  omega

section
variable {lower : String → String} {low high index : Nat} {raw part : List Char}

theorem value_le {v : Nat} (h : value lower [] low high raw = .ok v) : v ≤ high := by
  simp only [value, List.lookup_nil] at h
  split at h
  · cases h
    exact Nat.zero_le _
  · split at h
    · cases h
    · split at h
      · cases h
      · next n hn =>
        split at h
        · next hle =>
          cases h
          omega
        · cases h

theorem parsePart_le {xs : List Nat} (hlow : low ≤ high)
    (h : parsePart lower [] low high index raw part = .ok xs) : ∀ x ∈ xs, x ≤ high := by
  intro x hx
  simp only [parsePart] at h
  split at h
  · cases h
  · obtain ⟨step, -, h⟩ := exists_of_bind_ok h
    split at h
    · cases h
      exact le_trans (le_of_mem_rangeOf hx) (max_le hlow (le_refl high))
    · split at h
      · obtain ⟨start, hstart, h⟩ := exists_of_bind_ok h
        obtain ⟨stop, hstop, h⟩ := exists_of_bind_ok h
        split at h
        · cases h
        · cases h
          exact le_trans (le_of_mem_rangeOf hx) (max_le (value_le hstart) (value_le hstop))
      · obtain ⟨start, hstart, h⟩ := exists_of_bind_ok h
        cases h
        exact le_trans (le_of_mem_rangeOf hx) (max_le (value_le hstart) (value_le hstart))

theorem parseField_le {xs : List Nat} (hindex : index < 2) (hlow : low ≤ high)
    (hbounds : BOUNDS[index]? = some (low, high)) (h : parseField lower raw index = .ok xs) :
    ∀ x ∈ xs, x ≤ high := by
  have h3 : index ≠ 3 := by omega
  have h4 : index ≠ 4 := by omega
  simp only [parseField, hbounds, if_neg h3, if_neg h4, Option.getD_some] at h
  obtain ⟨parts, hparts, h⟩ := exists_of_bind_ok h
  simp only [h4, false_and, if_false] at h
  split at h
  · cases h
  · cases h
    intro x hx
    obtain ⟨ys, hys, hxy⟩ := List.mem_flatten.mp hx
    obtain ⟨part, -, hpart⟩ := mem_left_of_forall₂ (forall₂_of_mapM_ok hparts) hys
    exact parsePart_le hlow hpart x hxy

end

def CronExpression.OnClock (expr : CronExpression) : Prop :=
  (∀ h ∈ expr.hours, h ≤ 23) ∧ ∀ m ∈ expr.minutes, m ≤ 59

theorem parse_onClock {R : Runtime} {lower : String → String} {text : String}
    {expr : CronExpression} (h : parse R lower text = .ok expr) : expr.OnClock := by
  simp only [parse] at h
  split at h
  · obtain ⟨minutes, hminutes, h⟩ := exists_of_bind_ok h
    obtain ⟨hours, hhours, h⟩ := exists_of_bind_ok h
    obtain ⟨doms, -, h⟩ := exists_of_bind_ok h
    obtain ⟨months, -, h⟩ := exists_of_bind_ok h
    obtain ⟨dows, -, h⟩ := exists_of_bind_ok h
    cases h
    exact ⟨parseField_le (by decide) (by decide) rfl hhours,
      parseField_le (by decide) (by decide) rfl hminutes⟩
  · cases h

/-! ## the minutes of a day -/

namespace CronExpression

/-- the minutes that the expression names on the wall clock -/
def Matches (expr : CronExpression) (m : Int) : Prop :=
  ∃ day hour minute, expr.dayMatches day ∧ hour ∈ expr.hours ∧ minute ∈ expr.minutes ∧
    m = minuteOf day hour minute

end CronExpression

theorem mem_sorted {s : List Nat} {x : Nat} : x ∈ sorted s ↔ x ∈ s := by
  rw [sorted, List.mem_insertionSort, List.mem_dedup]

theorem sorted_pairwise (s : List Nat) : (sorted s).Pairwise (· < ·) := by
  have hle : (sorted s).Pairwise (· ≤ ·) := List.pairwise_insertionSort (· ≤ ·) s.dedup
  have hne : (sorted s).Pairwise (· ≠ ·) :=
    (List.perm_insertionSort (· ≤ ·) s.dedup).nodup_iff.mpr (List.nodup_dedup s)
  exact (hle.and hne).imp fun h => lt_of_le_of_ne h.1 h.2

theorem dateOf_minuteOf {day : Int} {hour minute : Nat} (hh : hour ≤ 23) (hm : minute ≤ 59) :
    dateOf (minuteOf day hour minute) = day := by
  simp only [dateOf, minuteOf, days, seconds]
  omega

theorem dateOf_add_days (t : Int) (n : Nat) : dateOf (t + days n) = dateOf t + n := by
  simp only [dateOf, days, seconds]
  omega

theorem dateOf_mono {s t : Int} (h : s ≤ t) : dateOf s ≤ dateOf t :=
  Int.ediv_le_ediv (by decide) h

theorem datetime_eq {s t : Int} (h : datetime s = .ok t) : s = t := by
  rw [datetime] at h
  split at h
  · cases h
    rfl
  · cases h

namespace CronExpression

variable {expr : CronExpression}

theorem mem_slots {day m : Int} :
    m ∈ expr.slots day ↔
      ∃ hour ∈ expr.hours, ∃ minute ∈ expr.minutes, m = minuteOf day hour minute := by
  simp only [slots, List.mem_flatMap, List.mem_map, mem_sorted, eq_comm (a := m)]

theorem slots_pairwise (hexpr : expr.OnClock) (day : Int) :
    (expr.slots day).Pairwise (· ≤ ·) := by
  refine List.pairwise_flatMap.mpr ⟨fun hour _ => ?_, ?_⟩
  · refine List.pairwise_map.mpr ((sorted_pairwise expr.minutes).imp fun {m m'} hlt => ?_)
    simp only [minuteOf, seconds]
    omega
  · refine (sorted_pairwise expr.hours).imp fun {h h'} hlt x hx y hy => ?_
    obtain ⟨m, hm, rfl⟩ := List.mem_map.mp hx
    obtain ⟨m', hm', rfl⟩ := List.mem_map.mp hy
    have hminute := hexpr.2 m (mem_sorted.mp hm)
    simp only [minuteOf, seconds]
    omega

/-! ## the search -/

theorem find?_le {xs : List Int} (hxs : xs.Pairwise (· ≤ ·)) {p : Int → Bool} {c : Int}
    (h : xs.find? p = some c) {x : Int} (hx : x ∈ xs) (hp : p x) : c ≤ x := by
  obtain ⟨-, as, bs, rfl, has⟩ := List.find?_eq_some_iff_append.mp h
  obtain ⟨-, hcbs, -⟩ := List.pairwise_append.mp hxs
  rcases List.mem_append.mp hx with hx | hx
  · have hno := has x hx
    rw [hp] at hno
    cases hno
  · rcases List.mem_cons.mp hx with rfl | hx
    · exact le_refl x
    · exact (List.pairwise_cons.mp hcbs).1 x hx

theorem found_spec (hexpr : expr.OnClock) {cursor day c : Int}
    (h : (if expr.dayMatches day then (expr.slots day).find? (cursor ≤ ·) else none) = some c) :
    expr.Matches c ∧ dateOf c = day ∧ cursor ≤ c ∧
      ∀ m, expr.Matches m → cursor ≤ m → dateOf m = day → c ≤ m := by
  split at h
  · next hday =>
    have hle := List.find?_some h
    obtain ⟨hour, hhour, minute, hminute, rfl⟩ := mem_slots.mp (List.mem_of_find?_eq_some h)
    refine ⟨⟨day, hour, minute, hday, hhour, hminute, rfl⟩,
      dateOf_minuteOf (hexpr.1 _ hhour) (hexpr.2 _ hminute), of_decide_eq_true hle, ?_⟩
    intro m hm hcm hdate
    obtain ⟨day', hour', minute', -, hh', hm', rfl⟩ := hm
    rw [dateOf_minuteOf (hexpr.1 _ hh') (hexpr.2 _ hm')] at hdate
    rw [hdate] at hcm ⊢
    exact find?_le (slots_pairwise hexpr day) h (mem_slots.mpr ⟨hour', hh', minute', hm', rfl⟩)
      (decide_eq_true hcm)
  · cases h

theorem found_none (hexpr : expr.OnClock) {cursor day : Int}
    (h : (if expr.dayMatches day then (expr.slots day).find? (cursor ≤ ·) else none) = none)
    {m : Int} (hm : expr.Matches m) (hcm : cursor ≤ m) : dateOf m ≠ day := by
  intro hdate
  obtain ⟨day', hour, minute, hday, hhour, hminute, rfl⟩ := hm
  rw [dateOf_minuteOf (hexpr.1 _ hhour) (hexpr.2 _ hminute)] at hdate
  rw [hdate] at hday hcm
  rw [if_pos hday, List.find?_eq_none] at h
  exact h _ (mem_slots.mpr ⟨hour, hhour, minute, hminute, rfl⟩) (decide_eq_true hcm)

theorem search_spec (hexpr : expr.OnClock) {cursor c : Int} {left offset : Nat}
    (hbefore : ∀ m, expr.Matches m → cursor ≤ m → dateOf cursor + offset ≤ dateOf m)
    (h : expr.search cursor left offset = .ok c) :
    expr.Matches c ∧ cursor ≤ c ∧ ∀ m, expr.Matches m → cursor ≤ m → c ≤ m := by
  induction left generalizing offset with
  | zero => cases h
  | succ left ih =>
    rw [search] at h
    obtain ⟨t, ht, h⟩ := exists_of_bind_ok h
    have hday : dateOf t = dateOf cursor + offset := by
      rw [← datetime_eq ht]
      exact dateOf_add_days cursor offset
    simp only [hday] at h
    split at h
    · next c' hfound =>
      cases h
      obtain ⟨hc, hdate, hle, hleast⟩ := found_spec hexpr hfound
      refine ⟨hc, hle, fun m hm hcm => ?_⟩
      by_contra hlt
      -- an earlier minute would be of the same day
      have hsame : dateOf m = dateOf cursor + offset :=
        le_antisymm (hdate ▸ dateOf_mono (le_of_lt (not_le.mp hlt))) (hbefore m hm hcm)
      exact hlt (hleast m hm hcm hsame)
    · next hnone =>
      refine ih (fun m hm hcm => ?_) h
      have hne := found_none hexpr hnone hm hcm
      have hge := hbefore m hm hcm
      omega

/-! ## later than the instant asked about -/

/-- the first minute of the expression from the cursor on is read as a later instant -/
def Ahead (expr : CronExpression) (zone : Zone) (after : Int) : Prop :=
  ∀ m, expr.Matches m → cursorAt zone after ≤ m → zone.instant m ≤ after →
    ∃ m', expr.Matches m' ∧ cursorAt zone after ≤ m' ∧ m' < m ∧ after < zone.instant m'

theorem wall_lt_cursorAt (zone : Zone) (after : Int) : zone.wall after < cursorAt zone after := by
  simp only [cursorAt, seconds]
  omega

theorem ahead_of_not_passedBefore {zone : Zone} {after : Int}
    (h : ∀ m, expr.Matches m → cursorAt zone after ≤ m → ¬ zone.PassedBefore after m) :
    expr.Ahead zone after := by
  intro m hm hcm hle
  have hlt := lt_of_lt_of_le (wall_lt_cursorAt zone after) hcm
  exact absurd (Zone.passedBefore_of_instant_le hlt hle) (h m hm hcm)

/-- in a zone with separated changes the minutes that come too early are those which the clock had
passed before it was set back -/
theorem Ahead.iff_of_separated {zone : Zone} (hzone : zone.Separated) {after : Int} :
    expr.Ahead zone after ↔
      ∀ m, expr.Matches m → cursorAt zone after ≤ m → ¬ zone.PassedBefore after m := by
  refine ⟨fun h m hm hcm hpassed => ?_, ahead_of_not_passedBefore⟩
  have hearly : ∀ m', cursorAt zone after ≤ m' → zone.PassedBefore after m' →
      zone.instant m' ≤ after := fun m' hcm' hpassed' =>
    Zone.instant_le_of_passedBefore hzone (lt_of_lt_of_le (wall_lt_cursorAt zone after) hcm') hpassed'
  obtain ⟨m', -, hcm', hlt, hlater⟩ := h m hm hcm (hearly m hcm hpassed)
  obtain ⟨change, hchange, hle, hpast⟩ := hpassed
  have hpassed' : zone.PassedBefore after m' := ⟨change, hchange, hle, lt_trans hlt hpast⟩
  exact absurd (hearly m' hcm' hpassed') (not_le.mpr hlater)

theorem nextIn_later_iff (hexpr : expr.OnClock) {zone : Zone} {after next : Int}
    (h : expr.nextIn zone after = .ok next) : after < next ↔ expr.Ahead zone after := by
  obtain ⟨_, -, h⟩ := exists_of_bind_ok h
  obtain ⟨cursor, hcursor, hsearch⟩ := exists_of_bind_ok h
  obtain ⟨c, hc, hnext⟩ := exists_of_bind_ok hsearch
  obtain rfl : cursorAt zone after = cursor := datetime_eq hcursor
  obtain rfl : zone.instant c = next := datetime_eq hnext
  obtain ⟨hmatches, hcc, hleast⟩ := search_spec hexpr (fun m _ hm => by simpa using dateOf_mono hm) hc
  constructor
  · intro hlater m hm hcm hle
    have hne : c ≠ m := fun he => absurd hlater (not_lt.mpr (he ▸ hle))
    exact ⟨c, hmatches, hcc, lt_of_le_of_ne (hleast m hm hcm) hne, hlater⟩
  · intro hahead
    by_contra hnot
    obtain ⟨m', hm', hcm', hlt, -⟩ := hahead c hmatches hcc (not_lt.mp hnot)
    exact absurd (hleast m' hm' hcm') (not_le.mpr hlt)

end CronExpression

/-! ## the earliest firing -/

/-- within the years that a `datetime` has -/
def InYears (t : Int) : Prop := days (1 - EPOCH) ≤ t ∧ t < days (3652060 - EPOCH)

instance (t : Int) : Decidable (InYears t) := inferInstanceAs (Decidable (_ ∧ _))

theorem datetime_of_inYears {t : Int} (h : InYears t) : datetime t = .ok t := if_pos h

theorem inYears_of_datetime {s t : Int} (h : datetime s = .ok t) : InYears s := by
  rw [datetime] at h
  split at h
  · next hs => exact hs
  · cases h

theorem datetime_ne_cronError {t : Int} {message : String} :
    datetime t ≠ .error (.cronError message) := by
  rw [datetime]
  split <;> exact fun h => nomatch h

theorem inYears_iff_of_dateOf {s t : Int} (h : dateOf s = dateOf t) : InYears s ↔ InYears t := by
  simp only [dateOf, InYears, days, seconds, EPOCH] at h ⊢
  omega

theorem inYears_between {s t u : Int} (hs : InYears s) (hu : InYears u) (hst : dateOf s ≤ dateOf t)
    (htu : dateOf t ≤ dateOf u) : InYears t := by
  simp only [dateOf, InYears, days, seconds, EPOCH] at hs hu hst htu ⊢
  omega

namespace CronExpression

/-- a minute of the expression after an instant, on one of the days that are looked at -/
def Due (expr : CronExpression) (zone : Zone) (after m : Int) : Prop :=
  expr.Matches m ∧ after < zone.instant m ∧
    dateOf m < dateOf (cursorAt zone after) + (SEARCH_DAYS : Int)

def FirstDue (expr : CronExpression) (zone : Zone) (after m : Int) : Prop :=
  expr.Due zone after m ∧ ∀ m', expr.Due zone after m' → m ≤ m'

/-- the least minute that is due is given back, and no such minute is a `CronError` -/
structure Earliest (expr : CronExpression) (zones : String → Option Zone) (tz : String)
    (zone : Zone) (after : Int) : Prop where
  found : ∀ m, expr.FirstDue zone after m → expr.nextAfter zones after tz = .ok (zone.instant m)
  none : (∀ m, ¬ expr.Due zone after m) →
    ∃ message, expr.nextAfter zones after tz = .error (.cronError message)

/-- the clock, the minute after it, and the firing or else the last day that is looked at are within
the years that a `datetime` has -/
structure WithinYears (expr : CronExpression) (zone : Zone) (after : Int) : Prop where
  wall : InYears (zone.wall after)
  cursor : InYears (cursorAt zone after)
  firing : ∀ m, expr.FirstDue zone after m → InYears m ∧ InYears (zone.instant m)
  last : (∀ m, ¬ expr.Due zone after m) →
    InYears (cursorAt zone after + days ((SEARCH_DAYS : Int) - 1))

variable {expr : CronExpression} {cursor : Int}

theorem search_succ {left offset : Nat} (ht : InYears (cursor + days offset)) :
    expr.search cursor (left + 1) offset =
      match (if expr.dayMatches (dateOf cursor + offset) then
        (expr.slots (dateOf cursor + offset)).find? (cursor ≤ ·) else none) with
      | some candidate => .ok candidate
      | none => expr.search cursor left (offset + 1) := by
  rw [search, datetime_of_inYears ht, ← dateOf_add_days]
  rfl

theorem search_eq_ok (hexpr : expr.OnClock) (hcursor : InYears cursor) {m : Int}
    (hm : expr.Matches m) (hcm : cursor ≤ m) (hyears : InYears m)
    (hleast : ∀ m', expr.Matches m' → cursor ≤ m' → m ≤ m') {left offset : Nat}
    (hoffset : dateOf cursor + offset ≤ dateOf m)
    (hleft : dateOf m < dateOf cursor + offset + left) :
    expr.search cursor left offset = .ok m := by
  induction left generalizing offset with
  | zero => omega
  | succ left ih =>
    have hday : dateOf (cursor + days offset) = dateOf cursor + offset :=
      dateOf_add_days cursor offset
    rw [search_succ (inYears_between hcursor hyears (by omega) (by omega))]
    split
    · next c hfound =>
      obtain ⟨hc, hdate, hcc, hcleast⟩ := found_spec hexpr hfound
      have hle := hleast c hc hcc
      have hmono := dateOf_mono hle
      rw [le_antisymm (hcleast m hm hcm (by omega)) hle]
    · next hnone =>
      have hne := found_none hexpr hnone hm hcm
      exact ih (by omega) (by omega)

theorem search_eq_noFiring (hexpr : expr.OnClock) (hcursor : InYears cursor) {left offset : Nat}
    (hnone : ∀ m, expr.Matches m → cursor ≤ m → dateOf cursor + offset + left ≤ dateOf m)
    (hlast : left ≠ 0 → InYears (cursor + days ((offset : Int) + left - 1))) :
    expr.search cursor left offset = .error expr.noFiring := by
  induction left generalizing offset with
  | zero => rfl
  | succ left ih =>
    have hday : dateOf (cursor + days offset) = dateOf cursor + offset :=
      dateOf_add_days cursor offset
    have hlater : dateOf (cursor + days offset) ≤
        dateOf (cursor + days ((offset : Int) + (left + 1 : Nat) - 1)) := by
      refine dateOf_mono ?_
      simp only [days, seconds]
      omega
    rw [search_succ (inYears_between hcursor (hlast (Nat.succ_ne_zero left)) (by omega) hlater)]
    split
    · next c hfound =>
      obtain ⟨hc, hdate, hcc, -⟩ := found_spec hexpr hfound
      have hlate := hnone c hc hcc
      omega
    · refine ih (fun m hm hcm => ?_) fun _ => ?_
      · have hlate := hnone m hm hcm
        omega
      · rw [show ((offset + 1 : Nat) : Int) + left - 1 = offset + (left + 1 : Nat) - 1 by omega]
        exact hlast (Nat.succ_ne_zero left)

theorem inYears_of_search (hexpr : expr.OnClock) {c : Int} {left offset : Nat}
    (h : expr.search cursor left offset = .ok c) : InYears c := by
  induction left generalizing offset with
  | zero => cases h
  | succ left ih =>
    obtain ⟨t, ht, -⟩ := exists_of_bind_ok h
    rw [search_succ (inYears_of_datetime ht)] at h
    split at h
    · next c' hfound =>
      cases h
      have hdate := (found_spec hexpr hfound).2.1
      rw [← dateOf_add_days] at hdate
      exact (inYears_iff_of_dateOf hdate).mpr (inYears_of_datetime ht)
    · exact ih h

theorem inYears_of_noFiring {message : String} {left offset : Nat} (hleft : left ≠ 0)
    (h : expr.search cursor left offset = .error (.cronError message)) :
    InYears (cursor + days ((offset : Int) + left - 1)) := by
  induction left generalizing offset with
  | zero => exact absurd rfl hleft
  | succ left ih =>
    cases ht : datetime (cursor + days offset) with
    | error f =>
      rw [search, ht] at h
      cases h
      exact absurd ht datetime_ne_cronError
    | ok t =>
      rw [search_succ (inYears_of_datetime ht)] at h
      split at h
      · cases h
      · rcases Nat.eq_zero_or_pos left with rfl | hpos
        · simpa using inYears_of_datetime ht
        · have hlast := ih (by omega) h
          rwa [show ((offset + 1 : Nat) : Int) + left - 1 = offset + (left + 1 : Nat) - 1 by omega]
            at hlast

/-! in a zone whose offset never changes -/

section
variable {offset after m : Int}

theorem Matches.whole (h : expr.Matches m) : m % seconds 60 = 0 := by
  obtain ⟨day, hour, minute, -, -, -, rfl⟩ := h
  simp only [minuteOf, days, seconds]
  omega

theorem lt_instant_iff (h : expr.Matches m) :
    after < (Zone.fixed offset).instant m ↔ cursorAt (Zone.fixed offset) after ≤ m := by
  have hwhole := h.whole
  rw [Zone.instant_fixed, cursorAt, Zone.wall_fixed]
  simp only [seconds] at hwhole ⊢
  omega

theorem exists_firstDue (h : ∃ m, expr.Due (Zone.fixed offset) after m) :
    ∃ m, expr.FirstDue (Zone.fixed offset) after m := by
  have hbelow : ∀ m, expr.Due (Zone.fixed offset) after m →
      cursorAt (Zone.fixed offset) after ≤ m := fun m hm => (lt_instant_iff hm.1).mp hm.2.1
  classical
  obtain ⟨m, hm, hleast⟩ := Int.exists_least_of_bdd ⟨_, hbelow⟩ h
  exact ⟨m, hm, hleast⟩

/-- no minute of the expression from the cursor on is before the first that is due -/
theorem FirstDue.le (h : expr.FirstDue (Zone.fixed offset) after m) {m' : Int}
    (hm' : expr.Matches m') (hcm' : cursorAt (Zone.fixed offset) after ≤ m') : m ≤ m' := by
  by_contra hlt
  have hmono := dateOf_mono (le_of_lt (not_le.mp hlt))
  exact hlt (h.2 m' ⟨hm', (lt_instant_iff hm').mpr hcm', lt_of_le_of_lt hmono h.1.2.2⟩)

variable {zones : String → Option Zone} {tz : String}

theorem nextAfter_eq (expr : CronExpression)
    (hzone : loadTimezone zones tz = .ok (Zone.fixed offset)) :
    expr.nextAfter zones after tz = expr.nextIn (Zone.fixed offset) after := by
  rw [nextAfter, hzone]
  rfl

theorem nextIn_eq (expr : CronExpression) {zone : Zone} (hwall : InYears (zone.wall after))
    (hcursor : InYears (cursorAt zone after)) :
    expr.nextIn zone after = (expr.search (cursorAt zone after) SEARCH_DAYS 0).bind
      fun c => datetime (zone.instant c) := by
  rw [nextIn, datetime_of_inYears hwall, datetime_of_inYears hcursor]
  rfl

theorem nextIn_overflow {zone : Zone}
    (h : ¬ (InYears (zone.wall after) ∧ InYears (cursorAt zone after))) :
    expr.nextIn zone after = .error .overflowError := by
  rw [nextIn]
  by_cases hwall : InYears (zone.wall after)
  · have hcursor : datetime (cursorAt zone after) = .error .overflowError :=
      if_neg fun hcursor => h ⟨hwall, hcursor⟩
    rw [datetime_of_inYears hwall, hcursor]
    rfl
  · have hover : datetime (zone.wall after) = .error .overflowError := if_neg hwall
    rw [hover]
    rfl

theorem Earliest.ne_overflowError (hzone : loadTimezone zones tz = .ok (Zone.fixed offset))
    (h : expr.Earliest zones tz (Zone.fixed offset) after) :
    expr.nextIn (Zone.fixed offset) after ≠ .error .overflowError := by
  intro hover
  rw [← expr.nextAfter_eq hzone] at hover
  by_cases hdue : ∃ m, expr.Due (Zone.fixed offset) after m
  · obtain ⟨m, hm⟩ := exists_firstDue hdue
    rw [h.found m hm] at hover
    cases hover
  · obtain ⟨message, hmessage⟩ := h.none (not_exists.mp hdue)
    rw [hmessage] at hover
    cases hover

theorem withinYears_of_horizon (hafter : InYears after) (hwall : InYears (after + offset))
    (hinstants : InYears (after + days 1502)) (hreadings : InYears (after + offset + days 1502)) :
    expr.WithinYears (Zone.fixed offset) after := by
  have hcursor : after + offset < cursorAt (Zone.fixed offset) after ∧
      cursorAt (Zone.fixed offset) after ≤ after + offset + seconds 60 := by
    rw [cursorAt, Zone.wall_fixed]
    simp only [seconds]
    omega
  refine ⟨hwall, ?_, fun m hm => ?_, fun _ => ?_⟩
  · simp only [InYears, days, seconds, EPOCH] at hwall hreadings hcursor ⊢
    omega
  · have hlow := hm.1.2.1
    have hhigh := hm.1.2.2
    rw [Zone.instant_fixed] at hlow ⊢
    simp only [InYears, dateOf, SEARCH_DAYS, days, seconds, EPOCH] at *
    omega
  · simp only [InYears, SEARCH_DAYS, days, seconds, EPOCH] at *
    omega

theorem firing_of_search (hexpr : expr.OnClock)
    (hfirst : expr.FirstDue (Zone.fixed offset) after m) {c : Int}
    (h : expr.search (cursorAt (Zone.fixed offset) after) SEARCH_DAYS 0 = .ok c) : c = m := by
  obtain ⟨hc, hcc, hleast⟩ := search_spec hexpr (fun m' _ hm' => by simpa using dateOf_mono hm') h
  have hcm := (lt_instant_iff hfirst.1.1).mp hfirst.1.2.1
  exact le_antisymm (hleast m hfirst.1.1 hcm) (hfirst.le hc hcc)

/-- the least minute that is due is what `next_after` gives, and `CronError` says that none is,
exactly where the search stays within the years that a `datetime` has -/
theorem next_after_earliest_iff {R : Runtime} {lower : String → String} {text : String}
    (hparse : parse R lower text = .ok expr)
    (hzone : loadTimezone zones tz = .ok (Zone.fixed offset)) :
    expr.Earliest zones tz (Zone.fixed offset) after ↔
      expr.WithinYears (Zone.fixed offset) after := by
  have hexpr := parse_onClock hparse
  constructor
  · intro h
    have hclock : InYears ((Zone.fixed offset).wall after) ∧
        InYears (cursorAt (Zone.fixed offset) after) := by
      by_contra hout
      exact h.ne_overflowError hzone (nextIn_overflow hout)
    have heq := (expr.nextAfter_eq hzone).trans (expr.nextIn_eq hclock.1 hclock.2)
    refine ⟨hclock.1, hclock.2, fun m hm => ?_, fun hdue => ?_⟩
    · have hfound := heq.symm.trans (h.found m hm)
      obtain ⟨c, hc, hinstant⟩ := exists_of_bind_ok hfound
      obtain rfl := firing_of_search hexpr hm hc
      exact ⟨inYears_of_search hexpr hc, inYears_of_datetime hinstant⟩
    · obtain ⟨message, hmessage⟩ := h.none hdue
      rw [heq] at hmessage
      cases hc : expr.search (cursorAt (Zone.fixed offset) after) SEARCH_DAYS 0 with
      | ok c =>
        rw [hc] at hmessage
        exact absurd hmessage datetime_ne_cronError
      | error f =>
        rw [hc] at hmessage
        cases hmessage
        have hlast := inYears_of_noFiring (by decide) hc
        rwa [show ((0 : Nat) : Int) + SEARCH_DAYS - 1 = SEARCH_DAYS - 1 by omega] at hlast
  · intro h
    have heq := (expr.nextAfter_eq hzone).trans (expr.nextIn_eq h.wall h.cursor)
    obtain ⟨message, hmessage⟩ : ∃ message, expr.noFiring = .cronError message := ⟨_, rfl⟩
    refine ⟨fun m hm => ?_, fun hdue => ⟨message, ?_⟩⟩
    · obtain ⟨hyears, hinstant⟩ := h.firing m hm
      have hcm := (lt_instant_iff hm.1.1).mp hm.1.2.1
      have hmono := dateOf_mono hcm
      have hdays := hm.1.2.2
      rw [heq, search_eq_ok hexpr h.cursor hm.1.1 hcm hyears (fun m' hm' => hm.le hm')
        (by omega) (by omega)]
      exact datetime_of_inYears hinstant
    · rw [heq, search_eq_noFiring hexpr h.cursor (fun m hm hcm => ?_) fun _ => ?_]
      · rw [hmessage]
        rfl
      · by_contra hearly
        refine hdue m ⟨hm, (lt_instant_iff hm).mpr hcm, ?_⟩
        omega
      · rw [show ((0 : Nat) : Int) + SEARCH_DAYS - 1 = SEARCH_DAYS - 1 by omega]
        exact h.last hdue

end

end CronExpression

def utcOnly (name : String) : Option Zone := if name = "UTC" then some (Zone.fixed 0) else none

/-- 2026-11-20T04:57, and six in the morning -/
theorem daily_earliest :
    ∃ expr, parse .silent id "0 6 * * *" = .ok expr ∧
      expr.Earliest utcOnly "UTC" (Zone.fixed 0) (seconds 1795150620) ∧
      expr.nextAfter utcOnly (seconds 1795150620) "UTC" = .ok (seconds 1795154400) := by
  have hrun : ((parse .silent id "0 6 * * *").bind fun expr =>
      expr.nextAfter utcOnly (seconds 1795150620) "UTC") = .ok (seconds 1795154400) := by
    decide +kernel
  obtain ⟨expr, hparse, hnext⟩ := exists_of_bind_ok hrun
  refine ⟨expr, hparse, (CronExpression.next_after_earliest_iff hparse rfl).mpr ?_, hnext⟩
  refine CronExpression.withinYears_of_horizon ?_ ?_ ?_ ?_ <;> decide

/-- a 30th of February is looked for beyond the last day there is, which is no `CronError` -/
theorem february_overflows :
    ∃ expr, parse .silent id "0 0 30 2 *" = .ok expr ∧
      ¬ expr.Earliest utcOnly "UTC" (Zone.fixed 0) (days (3652059 - EPOCH)) := by
  have hrun : ((parse .silent id "0 0 30 2 *").map fun expr =>
      decide (expr.nextIn (Zone.fixed 0) (days (3652059 - EPOCH)) = .error .overflowError)) =
        .ok true := by
    decide +kernel
  obtain ⟨expr, hparse, hover⟩ := exists_of_map_ok hrun
  exact ⟨expr, hparse, fun h => h.ne_overflowError rfl (of_decide_eq_true hover)⟩

end Scheduler
