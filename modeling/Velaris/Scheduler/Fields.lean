import Velaris.Base.Table
import Velaris.Scheduler.NextAfter

/-!
# What the fields of a cron expression say

* `numeral`, `spanOf`   a token and a part of a field as the grammar reads them: a Sunday at the end
    of a range is day 7;
* `Span.Covers`   the values of a part, day 7 being day 0;
* `Meant`   an accepted field holds the values of its parts, a field of the grammar is
    accepted, and every other is a `CronError`.

`cron_fields_iff`: fields are meant so exactly where no range ends on a Sunday that the code takes
for the first day, and no number is reached that `int` does not read.
-/

namespace Scheduler
open Py Base

/-! ## the grammar -/

inductive Refusal where
  | ungrammatical
  /-- digits that `int` does not read -/
  | unreadable
  deriving DecidableEq

def Failure.refusal : Failure → Refusal
  | .cronError _ => .ungrammatical
  | _ => .unreadable

/-- the values `start`, `start + step`, … up to `stop` -/
structure Span where
  start : Nat
  stop : Nat
  step : Nat
  deriving DecidableEq

/-- both 0 and 7 mean Sunday -/
def dayOf (high n : Nat) : Nat := if high = 6 then n % 7 else n

def Span.Covers (high : Nat) (s : Span) (x : Nat) : Prop :=
  ∃ k, s.start + k * s.step ≤ s.stop ∧ x = dayOf high (s.start + k * s.step)

section
variable (lower : String → String) (names : List (String × Nat)) (low high : Nat)

def numeral (raw : List Char) : Except Refusal Nat :=
  let text := String.ofList (token lower raw)
  match names.lookup text with
  | some n => .ok n
  | none =>
    if text = "7" ∧ high = 6 then .ok 7
    else if isdigit ((token lower raw).dropWhile (· = '-')) = false then .error .ungrammatical
    else
      match intText 10 text with
      | none => .error .unreadable
      | some v => if low ≤ v ∧ v ≤ high then .ok v.toNat else .error .ungrammatical

def stepSize (part : List Char) : Except Refusal Nat :=
  let raw := (partition '/' part).2
  if '/' ∉ part then .ok 1
  else if isdigit raw = false then .error .ungrammatical
  else
    match intText 10 (String.ofList raw) with
    | none => .error .unreadable
    | some n => if n < 1 then .error .ungrammatical else .ok n.toNat

/-- the days of a range: Sunday is the last day of a week that has begun, and else the first -/
def weekSpan (first last step : Nat) (sunday : Prop) [Decidable sunday] : Except Refusal Span :=
  let stop := if high = 6 ∧ sunday ∧ 1 ≤ first then 7 else last
  let start := if high = 6 ∧ first = 7 ∧ stop < 7 then 0 else first
  if stop < start then .error .ungrammatical else .ok ⟨start, stop, step⟩

def spanOf (part : List Char) : Except Refusal Span :=
  let part := token lower part
  if part = [] then .error .ungrammatical
  else do
    let step ← stepSize part
    let span := (partition '/' part).1
    if span = ['*'] ∨ span = [] then return ⟨low, high, step⟩
    else if '-' ∈ span.drop 1 then
      let dashed := partition '-' span
      let first ← numeral lower names low high dashed.1
      let last ← numeral lower names low high dashed.2
      weekSpan high first last step (String.ofList (token lower dashed.2) = "sun")
    else
      let n ← numeral lower names low high span
      return ⟨n, n, step⟩

end

/-! ## the code's reading of a part -/

/-- a range that ends on Sunday and begins on another day -/
def Span.ToSunday (high : Nat) (s : Span) : Prop :=
  high = 6 ∧ 1 ≤ s.start ∧ s.start < 7 ∧ s.stop = 7

def Span.WholeWeek (high : Nat) (s : Span) : Prop := high = 6 ∧ s.start = 0 ∧ s.stop = 7

instance (high : Nat) (s : Span) : Decidable (s.ToSunday high) :=
  inferInstanceAs (Decidable (_ ∧ _))

instance (high : Nat) (s : Span) : Decidable (s.WholeWeek high) :=
  inferInstanceAs (Decidable (_ ∧ _))

structure Named (names : List (String × Nat)) (high : Nat) : Prop where
  le : ∀ name n, names.lookup name = some n → n ≤ high
  sunday : high = 6 → names.lookup "sun" = some 0

section
variable {lower : String → String} {names : List (String × Nat)} {low high : Nat}
  {raw part : List Char}

theorem value_cases (lower : String → String) (low : Nat) (raw : List Char)
    (hn : Named names high) :
    (∃ n, numeral lower names low high raw = .ok n ∧ (n ≤ high ∨ high = 6 ∧ n = 7) ∧
      value lower names low high raw = .ok (if high = 6 ∧ n = 7 then 0 else n)) ∨
    ∃ r f, numeral lower names low high raw = .error r ∧
      value lower names low high raw = .error f ∧ f.refusal = r := by
  have hsmall : ∀ {n}, n ≤ high → ¬ (high = 6 ∧ n = 7) := by omega
  have hnumber : ∀ {n}, n ≤ high → (n ≤ high ∨ high = 6 ∧ n = 7) ∧
      (Except.ok n : Except Failure Nat) = .ok (if high = 6 ∧ n = 7 then 0 else n) :=
    fun hle => ⟨Or.inl hle, by rw [if_neg (hsmall hle)]⟩
  cases hlookup : names.lookup (String.ofList (token lower raw)) with
  | some n =>
    simp only [numeral, value, hlookup]
    exact Or.inl ⟨n, rfl, hnumber (hn.le _ n hlookup)⟩
  | none =>
    simp only [numeral, value, hlookup]
    by_cases h7 : String.ofList (token lower raw) = "7" ∧ high = 6
    · simp only [if_pos h7]
      exact Or.inl ⟨7, rfl, Or.inr ⟨h7.2, rfl⟩, by rw [if_pos ⟨h7.2, rfl⟩]⟩
    · simp only [if_neg h7]
      cases hdigits : isdigit ((token lower raw).dropWhile (· = '-')) with
      | false => exact Or.inr ⟨_, _, rfl, rfl, rfl⟩
      | true =>
        cases hv : intText 10 (String.ofList (token lower raw)) with
        | none => exact Or.inr ⟨_, _, rfl, rfl, rfl⟩
        | some v =>
          by_cases hle : (low : Int) ≤ v ∧ v ≤ high
          · simp only [if_pos hle]
            exact Or.inl ⟨_, rfl, hnumber (by omega)⟩
          · simp only [if_neg hle]
            exact Or.inr ⟨_, _, rfl, rfl, rfl⟩

theorem numeral_sun (hn : Named names high) (h6 : high = 6)
    (htext : String.ofList (token lower raw) = "sun") :
    numeral lower names low high raw = .ok 0 := by
  simp only [numeral, htext, hn.sunday h6]

theorem step_cases (part : List Char) :
    (∃ n, 0 < n ∧ stepSize part = .ok n ∧ stepOf part = .ok n) ∨
    ∃ r f, stepSize part = .error r ∧ stepOf part = .error f ∧ f.refusal = r := by
  simp only [stepSize, stepOf]
  by_cases hslash : '/' ∈ part
  · simp only [not_true_eq_false, if_false, hslash]
    cases hdigits : isdigit (partition '/' part).2 with
    | false => exact Or.inr ⟨_, _, rfl, rfl, rfl⟩
    | true =>
      cases hv : intText 10 (String.ofList (partition '/' part).2) with
      | none => exact Or.inr ⟨_, _, rfl, rfl, rfl⟩
      | some v =>
        by_cases hlt : v < 1
        · simp only [if_pos hlt]
          exact Or.inr ⟨_, _, rfl, rfl, rfl⟩
        · simp only [if_neg hlt]
          exact Or.inl ⟨v.toNat, by omega, rfl, rfl⟩
  · simp only [if_pos hslash]
    exact Or.inl ⟨1, one_pos, rfl, rfl⟩

theorem mem_rangeOf {start stop step x : Nat} (hstep : 0 < step) (hle : start ≤ stop) :
    x ∈ rangeOf start stop step ↔ ∃ k, start + k * step ≤ stop ∧ x = start + k * step := by
  rw [rangeOf, List.mem_range']
  constructor
  · rintro ⟨k, hk, rfl⟩
    have hmul := (Nat.le_div_iff_mul_le hstep).mp (Nat.le_of_lt_succ hk)
    exact ⟨k, by omega, by rw [Nat.mul_comm]⟩
  · rintro ⟨k, hk, rfl⟩
    refine ⟨k, Nat.lt_succ_of_le ((Nat.le_div_iff_mul_le hstep).mpr (by omega)), ?_⟩
    rw [Nat.mul_comm]

/-- what the code takes of a part whose span is `s` -/
def Taken (high : Nat) (s : Span) (got : Except Failure (List Nat)) : Prop :=
  (s.ToSunday high ∧ ∃ message, got = .error (.cronError message)) ∨
  ¬ s.ToSunday high ∧ ∃ xs, got = .ok xs ∧ xs ≠ [] ∧
    ∀ x, x ∈ xs ↔ if s.WholeWeek high then x = 0 else s.Covers high x

theorem taken_of_lt {start stop step : Nat} (hstep : 0 < step) (hle : start ≤ stop)
    (hlt : stop ≤ high) : Taken high ⟨start, stop, step⟩ (.ok (rangeOf start stop step)) := by
  have hday : ∀ {n}, n ≤ stop → dayOf high n = n := by
    intro n hn
    rw [dayOf]
    split
    · exact Nat.mod_eq_of_lt (by omega)
    · rfl
  refine Or.inr ⟨fun h => ?_, _, rfl, by simp [rangeOf], fun x => ?_⟩
  · obtain ⟨h6, -, -, hstop⟩ := h
    simp only at hstop
    omega
  · rw [if_neg fun h => by obtain ⟨h6, -, hstop⟩ := h; simp only at hstop; omega,
      mem_rangeOf hstep hle]
    refine exists_congr fun k => and_congr_right fun hk => ?_
    rw [hday hk]

theorem taken_single {n step : Nat} (hstep : 0 < step) (hn : n ≤ high ∨ high = 6 ∧ n = 7) :
    Taken high ⟨n, n, step⟩ (.ok (rangeOf (if high = 6 ∧ n = 7 then 0 else n)
      (if high = 6 ∧ n = 7 then 0 else n) step)) := by
  split
  · next h7 =>
    obtain ⟨h6, rfl⟩ := h7
    refine Or.inr ⟨fun h => absurd h.2.2.1 (lt_irrefl 7), [0], by simp [rangeOf], by simp, ?_⟩
    intro x
    rw [if_neg fun h => nomatch h.2.1]
    refine List.mem_singleton.trans ?_
    constructor
    · rintro rfl
      exact ⟨0, by simp, by simp [dayOf, h6]⟩
    · rintro ⟨k, hk, rfl⟩
      have hk0 : k * step = 0 := by
        simp only at hk
        omega
      simp only [hk0, dayOf, if_pos h6]
  · next h7 => exact taken_of_lt hstep le_rfl (hn.resolve_right h7)

theorem taken_to_seven {first step : Nat} {message : String} (h6 : high = 6) (hstep : 0 < step)
    (hfirst : first ≤ 7) :
    Taken high ⟨first, 7, step⟩ (if 0 < (if high = 6 ∧ first = 7 then 0 else first) then
        .error (.cronError message)
      else .ok (rangeOf (if high = 6 ∧ first = 7 then 0 else first) 0 step)) := by
  rcases Nat.eq_zero_or_pos first with rfl | hpos
  · refine Or.inr ⟨fun h => absurd h.2.1 (by simp), [0], by simp [rangeOf], by simp, fun x => ?_⟩
    rw [if_pos ⟨h6, rfl, rfl⟩, List.mem_singleton]
  · by_cases h7 : first = 7
    · have htaken := @taken_single high first step hstep (Or.inr ⟨h6, h7⟩)
      simpa [h6, h7] using htaken
    · refine Or.inl ⟨⟨h6, hpos, by simp only; omega, rfl⟩, message, ?_⟩
      have hstart : (if high = 6 ∧ first = 7 then 0 else first) = first := if_neg fun h => h7 h.2
      rw [hstart, if_pos hpos]

theorem taken_range (hn : Named names high) {step first last : Nat} {message : String}
    {rawLast : List Char} (hstep : 0 < step)
    (hlast : numeral lower names low high rawLast = .ok last)
    (hle : first ≤ high ∨ high = 6 ∧ first = 7) (hle' : last ≤ high ∨ high = 6 ∧ last = 7) :
    (∃ s, weekSpan high first last step (String.ofList (token lower rawLast) = "sun") = .ok s ∧
      Taken high s (if (if high = 6 ∧ last = 7 then 0 else last) <
          (if high = 6 ∧ first = 7 then 0 else first) then .error (.cronError message)
        else .ok (rangeOf (if high = 6 ∧ first = 7 then 0 else first)
          (if high = 6 ∧ last = 7 then 0 else last) step))) ∨
    (weekSpan high first last step (String.ofList (token lower rawLast) = "sun") =
        .error .ungrammatical ∧
      (if high = 6 ∧ last = 7 then 0 else last) < if high = 6 ∧ first = 7 then 0 else first) := by
  -- the range goes up to Sunday, or its ends are the days that the code takes
  by_cases hup : high = 6 ∧ (last = 7 ∨ String.ofList (token lower rawLast) = "sun" ∧ 1 ≤ first)
  · obtain ⟨h6, hup⟩ := hup
    have hspan : weekSpan high first last step (String.ofList (token lower rawLast) = "sun") =
        .ok ⟨first, 7, step⟩ := by
      have hstop : (if high = 6 ∧ String.ofList (token lower rawLast) = "sun" ∧ 1 ≤ first then 7
          else last) = 7 := by
        split
        · rfl
        · next hnot => exact hup.resolve_right fun h => hnot ⟨h6, h⟩
      simp only [weekSpan, hstop, lt_irrefl, and_false, if_false]
      rw [if_neg (by omega)]
    have hzero : (if high = 6 ∧ last = 7 then 0 else last) = 0 := by
      split
      · rfl
      · next hnot =>
        have hsun := (hup.resolve_left fun h => hnot ⟨h6, h⟩).1
        exact Except.ok.inj (hlast.symm.trans (numeral_sun hn h6 hsun))
    refine Or.inl ⟨_, hspan, ?_⟩
    rw [hzero]
    exact taken_to_seven h6 hstep (by omega)
  · have hlt : ¬ (high = 6 ∧ last = 7) := fun h => hup ⟨h.1, Or.inl h.2⟩
    have hsun : ¬ (high = 6 ∧ String.ofList (token lower rawLast) = "sun" ∧ 1 ≤ first) :=
      fun h => hup ⟨h.1, Or.inr h.2⟩
    have hstart : (if high = 6 ∧ first = 7 ∧ last < 7 then 0 else first) =
        if high = 6 ∧ first = 7 then 0 else first := if_congr (by omega) rfl rfl
    simp only [weekSpan, if_neg hsun, hstart, if_neg hlt]
    by_cases hback : last < if high = 6 ∧ first = 7 then 0 else first
    · exact Or.inr ⟨if_pos hback, hback⟩
    · refine Or.inl ⟨_, if_neg hback, ?_⟩
      rw [if_neg hback]
      exact taken_of_lt hstep (not_lt.mp hback) (by omega)

theorem dash_iff {span : List Char} :
    ('-' ∈ span.drop 1 ∨ span.head? ≠ some '-' ∧ '-' ∈ span) ↔ '-' ∈ span.drop 1 := by
  refine or_iff_left_of_imp fun h => ?_
  cases span with
  | nil => exact h.2
  | cons c span =>
    have hne : '-' ≠ c := fun he => h.1 (by rw [he]; rfl)
    exact (List.mem_cons.mp h.2).resolve_left hne

theorem part_cases (hn : Named names high) (hlow : low ≤ high) (index : Nat) :
    (∃ s, spanOf lower names low high part = .ok s ∧
      Taken high s (parsePart lower names low high index raw part)) ∨
    ∃ r f, spanOf lower names low high part = .error r ∧
      parsePart lower names low high index raw part = .error f ∧ f.refusal = r := by
  simp only [spanOf, parsePart, dash_iff, bind, Except.bind, pure, Except.pure]
  by_cases hempty : token lower part = []
  · simp only [if_pos hempty]
    exact Or.inr ⟨_, _, rfl, rfl, rfl⟩
  simp only [if_neg hempty]
  rcases step_cases (token lower part) with ⟨step, hpos, hs, hc⟩ | ⟨r, f, hs, hc, hf⟩
  swap
  · simp only [hs, hc]
    exact Or.inr ⟨_, _, rfl, rfl, hf⟩
  simp only [hs, hc]
  generalize (partition '/' (token lower part)).1 = span
  by_cases hstar : span = ['*'] ∨ span = []
  · simp only [if_pos hstar]
    exact Or.inl ⟨_, rfl, taken_of_lt hpos hlow le_rfl⟩
  simp only [if_neg hstar]
  by_cases hdash : '-' ∈ span.drop 1
  · simp only [if_pos hdash]
    rcases value_cases lower low (partition '-' span).1 hn with
      ⟨first, hfirst, hle, hgot⟩ | ⟨r, f, hfirst, hgot, hf⟩
    swap
    · simp only [hfirst, hgot]
      exact Or.inr ⟨_, _, rfl, rfl, hf⟩
    rcases value_cases lower low (partition '-' span).2 hn with
      ⟨last, hlast, hle', hgot'⟩ | ⟨r, f, hlast, hgot', hf⟩
    swap
    · simp only [hfirst, hgot, hlast, hgot']
      exact Or.inr ⟨_, _, rfl, rfl, hf⟩
    simp only [hfirst, hgot, hlast, hgot']
    rcases taken_range hn hpos hlast hle hle' with ⟨s, hspan, htaken⟩ | ⟨hspan, hback⟩
    · exact Or.inl ⟨s, hspan, htaken⟩
    · refine Or.inr ⟨_, _, hspan, if_pos hback, rfl⟩
  · simp only [if_neg hdash]
    rcases value_cases lower low span hn with ⟨n, hnum, hle, hgot⟩ | ⟨r, f, hnum, hgot, hf⟩
    · simp only [hnum, hgot]
      exact Or.inl ⟨_, rfl, taken_single hpos hle⟩
    · simp only [hnum, hgot]
      exact Or.inr ⟨_, _, rfl, rfl, hf⟩

end

/-! ## fields -/

def namesOf (index : Nat) : List (String × Nat) :=
  if index = 3 then MONTHS else if index = 4 then DAYS else []

def boundsOf (index : Nat) : Nat × Nat := (BOUNDS[index]?).getD (0, 0)

theorem boundsOf_of_le {index : Nat} (h : 5 ≤ index) : boundsOf index = (0, 0) := by
  rw [boundsOf, List.getElem?_eq_none (by exact h)]
  rfl

theorem low_le_high : ∀ index, (boundsOf index).1 ≤ (boundsOf index).2
  | 0 | 1 | 2 | 3 | 4 => by decide
  | n + 5 => by rw [boundsOf_of_le (by omega)]

theorem high_eq_six : ∀ {index}, (boundsOf index).2 = 6 ↔ index = 4
  | 0 | 1 | 2 | 3 | 4 => by decide
  | n + 5 => by
    rw [boundsOf_of_le (by omega)]
    simp

theorem named_of_index (index : Nat) : Named (namesOf index) (boundsOf index).2 := by
  refine ⟨fun name n h => ?_, fun h6 => by rw [high_eq_six.mp h6]; rfl⟩
  have hmem := mem_of_lookup h
  rw [namesOf] at hmem
  split at hmem
  · next h3 =>
    rw [h3]
    exact (show ∀ p ∈ MONTHS, p.2 ≤ 12 by decide) _ hmem
  · split at hmem
    · next h4 =>
      rw [h4]
      exact (show ∀ p ∈ DAYS, p.2 ≤ 6 by decide) _ hmem
    · cases hmem

section
variable (lower : String → String) (index : Nat)

def readPart (part : List Char) : Except Refusal Span :=
  spanOf lower (namesOf index) (boundsOf index).1 (boundsOf index).2 part

def AcceptsPart (part : List Char) : Prop :=
  ∃ s, readPart lower index part = .ok s ∧ ¬ s.ToSunday (boundsOf index).2

def AcceptsField (raw : List Char) : Prop := ∀ part ∈ raw.splitOn ',', AcceptsPart lower index part

/-- a number is reached that `int` does not read -/
def Trips (raw : List Char) : Prop :=
  ∃ before part after, raw.splitOn ',' = before ++ part :: after ∧
    (∀ p ∈ before, AcceptsPart lower index p) ∧ readPart lower index part = .error .unreadable

def Lists (raw : List Char) (x : Nat) : Prop :=
  ∃ part ∈ raw.splitOn ',', ∃ s, readPart lower index part = .ok s ∧ s.Covers (boundsOf index).2 x

def Grammatical (raw : List Char) : Prop :=
  ∀ part ∈ raw.splitOn ',', ∃ s, readPart lower index part = .ok s

structure Meant (raw : List Char) : Prop where
  accepted : ∀ out, parseField lower raw index = .ok out →
    Grammatical lower index raw ∧ ∀ x, x ∈ out ↔ Lists lower index raw x
  grammatical : Grammatical lower index raw → ∃ out, parseField lower raw index = .ok out
  refused : ∀ f, parseField lower raw index = .error f → ∃ message, f = .cronError message

/-- the days of a week from Sunday to Sunday are listed without it -/
def Covered (raw : List Char) : Prop :=
  ∀ part ∈ raw.splitOn ',', ∀ s, readPart lower index part = .ok s →
    s.WholeWeek (boundsOf index).2 → ∀ x, s.Covers (boundsOf index).2 x → x = 0 ∨
      ∃ part' ∈ raw.splitOn ',', ∃ s', readPart lower index part' = .ok s' ∧
        ¬ s'.WholeWeek (boundsOf index).2 ∧ s'.Covers (boundsOf index).2 x

variable {lower index} {raw part : List Char}

theorem read_cases (lower : String → String) (index : Nat) (raw part : List Char) :
    (∃ s, readPart lower index part = .ok s ∧ Taken (boundsOf index).2 s
      (parsePart lower (namesOf index) (boundsOf index).1 (boundsOf index).2 index raw part)) ∨
    ∃ r f, readPart lower index part = .error r ∧
      parsePart lower (namesOf index) (boundsOf index).1 (boundsOf index).2 index raw part =
        .error f ∧ f.refusal = r :=
  part_cases (named_of_index index) (low_le_high index) index

theorem accepts_iff : AcceptsPart lower index part ↔ ∃ xs, parsePart lower (namesOf index)
    (boundsOf index).1 (boundsOf index).2 index raw part = .ok xs := by
  rcases read_cases lower index raw part with ⟨s, hs, htaken⟩ | ⟨r, f, hr, hf, -⟩
  · rcases htaken with ⟨hsunday, message, hgot⟩ | ⟨hnot, xs, hgot, -⟩
    · refine iff_of_false (fun h => ?_) fun h => ?_
      · obtain ⟨s', hs', hnot⟩ := h
        cases hs.symm.trans hs'
        exact hnot hsunday
      · obtain ⟨xs, hxs⟩ := h
        cases hgot.symm.trans hxs
    · exact iff_of_true ⟨s, hs, hnot⟩ ⟨xs, hgot⟩
  · refine iff_of_false (fun h => ?_) fun h => ?_
    · obtain ⟨s', hs', -⟩ := h
      cases hr.symm.trans hs'
    · obtain ⟨xs, hxs⟩ := h
      cases hf.symm.trans hxs

theorem taken_of_accepted {xs : List Nat} (h : parsePart lower (namesOf index) (boundsOf index).1
    (boundsOf index).2 index raw part = .ok xs) :
    ∃ s, readPart lower index part = .ok s ∧ xs ≠ [] ∧ ∀ x, x ∈ xs ↔
      if s.WholeWeek (boundsOf index).2 then x = 0 else s.Covers (boundsOf index).2 x := by
  rcases read_cases lower index raw part with ⟨s, hs, htaken⟩ | ⟨r, f, -, hf, -⟩
  · rcases htaken with ⟨-, message, hgot⟩ | ⟨-, xs', hgot, hne, hmem⟩
    · cases hgot.symm.trans h
    · cases hgot.symm.trans h
      exact ⟨s, hs, hne, hmem⟩
  · cases hf.symm.trans h

theorem ne_seven {s : Span} {x : Nat} (h6 : index = 4)
    (h : if s.WholeWeek (boundsOf index).2 then x = 0 else s.Covers (boundsOf index).2 x) :
    x ≠ 7 := by
  split at h
  · omega
  · obtain ⟨k, -, rfl⟩ := h
    rw [dayOf, if_pos (high_eq_six.mpr h6)]
    omega

theorem parseField_error {before after : List (List Char)} {f : Failure}
    (hsplit : raw.splitOn ',' = before ++ part :: after)
    (hbefore : ∀ p ∈ before, AcceptsPart lower index p)
    (hf : parsePart lower (namesOf index) (boundsOf index).1 (boundsOf index).2 index raw part =
      .error f) : parseField lower raw index = .error f := by
  have hparts := mapM_error_iff.mpr
    ⟨before, part, after, hsplit, fun p hp => accepts_iff.mp (hbefore p hp), hf⟩
  show ((raw.splitOn ',').mapM (parsePart lower (namesOf index) (boundsOf index).1
    (boundsOf index).2 index raw) >>= _) = _
  rw [hparts]
  rfl

/-- an accepted field holds the days that its parts are taken for, and a refused one fails as its
first part does that fails -/
theorem parseField_cases (lower : String → String) (index : Nat) (raw : List Char) :
    (AcceptsField lower index raw ∧ ∃ out, parseField lower raw index = .ok out ∧
      ∀ x, x ∈ out ↔ ∃ part ∈ raw.splitOn ',', ∃ s, readPart lower index part = .ok s ∧
        if s.WholeWeek (boundsOf index).2 then x = 0 else s.Covers (boundsOf index).2 x) ∨
    ∃ before part after f, raw.splitOn ',' = before ++ part :: after ∧
      (∀ p ∈ before, AcceptsPart lower index p) ∧
      parsePart lower (namesOf index) (boundsOf index).1 (boundsOf index).2 index raw part =
        .error f ∧ parseField lower raw index = .error f := by
  cases hparts : (raw.splitOn ',').mapM
      (parsePart lower (namesOf index) (boundsOf index).1 (boundsOf index).2 index raw) with
  | error f =>
    obtain ⟨before, part, after, hsplit, hbefore, hf⟩ := mapM_error_iff.mp hparts
    have hbefore := fun p hp => accepts_iff.mpr (hbefore p hp)
    exact Or.inr ⟨before, part, after, f, hsplit, hbefore, hf, parseField_error hsplit hbefore hf⟩
  | ok xss =>
    have hall := forall₂_of_mapM_ok hparts
    have haccepts : AcceptsField lower index raw := fun part hpart => by
      obtain ⟨xs, -, hxs⟩ := mem_right_of_forall₂ hall hpart
      exact accepts_iff.mpr ⟨xs, hxs⟩
    have hmem : ∀ x, x ∈ xss.flatten ↔ ∃ part ∈ raw.splitOn ',', ∃ s,
        readPart lower index part = .ok s ∧
          if s.WholeWeek (boundsOf index).2 then x = 0 else s.Covers (boundsOf index).2 x := by
      intro x
      rw [List.mem_flatten]
      constructor
      · rintro ⟨xs, hxs, hx⟩
        obtain ⟨part, hpart, hgot⟩ := mem_left_of_forall₂ hall hxs
        obtain ⟨s, hs, -, hmem⟩ := taken_of_accepted hgot
        exact ⟨part, hpart, s, hs, (hmem x).mp hx⟩
      · rintro ⟨part, hpart, s, hs, hx⟩
        obtain ⟨xs, hxs, hgot⟩ := mem_right_of_forall₂ hall hpart
        obtain ⟨s', hs', -, hmem⟩ := taken_of_accepted hgot
        cases hs.symm.trans hs'
        exact ⟨xs, hxs, (hmem x).mpr hx⟩
    have hseven : ¬ (index = 4 ∧ 7 ∈ xss.flatten) := by
      rintro ⟨h4, h7⟩
      obtain ⟨-, -, s, -, hx⟩ := (hmem 7).mp h7
      exact ne_seven h4 hx rfl
    have hne : xss.flatten ≠ [] := by
      obtain ⟨part, hpart⟩ := List.exists_mem_of_ne_nil _ (List.splitOn_ne_nil ',' raw)
      obtain ⟨xs, hxs, hgot⟩ := mem_right_of_forall₂ hall hpart
      obtain ⟨-, -, hxne, -⟩ := taken_of_accepted hgot
      obtain ⟨x, hx⟩ := List.exists_mem_of_ne_nil _ hxne
      exact List.ne_nil_of_mem (List.mem_flatten_of_mem hxs hx)
    refine Or.inl ⟨haccepts, xss.flatten, ?_, hmem⟩
    show ((raw.splitOn ',').mapM (parsePart lower (namesOf index) (boundsOf index).1
      (boundsOf index).2 index raw) >>= fun parts =>
        if (if index = 4 ∧ 7 ∈ parts.flatten then 0 :: parts.flatten.filter (· ≠ 7)
          else parts.flatten) = [] then _ else _) = _
    rw [hparts]
    show (if (if index = 4 ∧ 7 ∈ xss.flatten then 0 :: xss.flatten.filter (· ≠ 7)
      else xss.flatten) = [] then _ else _) = _
    simp only [if_neg hseven, if_neg hne]
    rfl

theorem not_accepts_of_unreadable (h : readPart lower index part = .error .unreadable) :
    ¬ AcceptsPart lower index part := by
  rintro ⟨s, hs, -⟩
  cases h.symm.trans hs

theorem cronError_of_refusal {f : Failure} (h : f.refusal = .ungrammatical) :
    ∃ message, f = .cronError message := by
  cases f with
  | cronError message => exact ⟨message, rfl⟩
  | valueError => cases h
  | overflowError => cases h

theorem Trips.error (h : Trips lower index raw) :
    ∃ f, parseField lower raw index = .error f ∧ f.refusal = .unreadable := by
  obtain ⟨before, part, after, hsplit, hbefore, hpart⟩ := h
  rcases read_cases lower index raw part with ⟨s, hs, -⟩ | ⟨r, f, hr, hf, hrefusal⟩
  · cases hpart.symm.trans hs
  · cases hpart.symm.trans hr
    exact ⟨f, parseField_error hsplit hbefore hf, hrefusal⟩

theorem AcceptsField.not_trips (h : AcceptsField lower index raw) : ¬ Trips lower index raw := by
  rintro ⟨before, part, after, hsplit, -, hpart⟩
  exact not_accepts_of_unreadable hpart (h part (by rw [hsplit]; simp))

theorem exists_ok_iff : (∃ out, parseField lower raw index = .ok out) ↔
    AcceptsField lower index raw := by
  rcases parseField_cases lower index raw with ⟨haccepts, out, hout, -⟩ | h
  · exact iff_of_true ⟨out, hout⟩ haccepts
  · obtain ⟨before, part, after, f, hsplit, -, hf, herror⟩ := h
    refine iff_of_false (fun h => ?_) fun h => ?_
    · obtain ⟨out, hout⟩ := h
      cases herror.symm.trans hout
    · obtain ⟨xs, hxs⟩ := (@accepts_iff lower index raw part).mp (h part (by rw [hsplit]; simp))
      cases hf.symm.trans hxs

theorem cronError_of_not_trips (htrips : ¬ Trips lower index raw) {f : Failure}
    (h : parseField lower raw index = .error f) : ∃ message, f = .cronError message := by
  rcases parseField_cases lower index raw with ⟨-, out, hout, -⟩ | hfail
  · cases h.symm.trans hout
  · obtain ⟨before, part, after, f', hsplit, hbefore, hf, herror⟩ := hfail
    cases h.symm.trans herror
    rcases read_cases lower index raw part with ⟨s, -, htaken⟩ | ⟨r, f', hr, hf', hrefusal⟩
    · rcases htaken with ⟨-, message, hgot⟩ | ⟨-, xs, hgot, -⟩
      · cases hf.symm.trans hgot
        exact ⟨message, rfl⟩
      · cases hf.symm.trans hgot
    · cases hf.symm.trans hf'
      cases r with
      | ungrammatical => exact cronError_of_refusal hrefusal
      | unreadable => exact absurd ⟨before, part, after, hsplit, hbefore, hr⟩ htrips

def NoneToSunday (lower : String → String) (index : Nat) (raw : List Char) : Prop :=
  ∀ part ∈ raw.splitOn ',', ∀ s, readPart lower index part = .ok s →
    ¬ s.ToSunday (boundsOf index).2

theorem acceptsField_iff :
    AcceptsField lower index raw ↔ Grammatical lower index raw ∧ NoneToSunday lower index raw := by
  constructor
  · intro h
    refine ⟨fun part hpart => ?_, fun part hpart s hs => ?_⟩
    · obtain ⟨s, hs, -⟩ := h part hpart
      exact ⟨s, hs⟩
    · obtain ⟨s', hs', hnot⟩ := h part hpart
      cases hs.symm.trans hs'
      exact hnot
  · intro h part hpart
    obtain ⟨s, hs⟩ := h.1 part hpart
    exact ⟨s, hs, h.2 part hpart s hs⟩

theorem mem_iff_lists (hcovered : Covered lower index raw) {x : Nat} :
    (∃ part ∈ raw.splitOn ',', ∃ s, readPart lower index part = .ok s ∧
      if s.WholeWeek (boundsOf index).2 then x = 0 else s.Covers (boundsOf index).2 x) ↔
      Lists lower index raw x := by
  constructor
  · rintro ⟨part, hpart, s, hs, hx⟩
    refine ⟨part, hpart, s, hs, ?_⟩
    split at hx
    · next hweek =>
      exact ⟨0, by rw [hweek.2.1]; simp, by rw [hx, hweek.2.1]; simp [dayOf]⟩
    · exact hx
  · rintro ⟨part, hpart, s, hs, hx⟩
    by_cases hweek : s.WholeWeek (boundsOf index).2
    · rcases hcovered part hpart s hs hweek x hx with rfl | ⟨part', hpart', s', hs', hnot, hx'⟩
      · exact ⟨part, hpart, s, hs, by rw [if_pos hweek]⟩
      · exact ⟨part', hpart', s', hs', by rwa [if_neg hnot]⟩
    · exact ⟨part, hpart, s, hs, by rwa [if_neg hweek]⟩

theorem meant_iff : Meant lower index raw ↔ ¬ Trips lower index raw ∧
    (Grammatical lower index raw → NoneToSunday lower index raw ∧ Covered lower index raw) := by
  constructor
  · intro h
    refine ⟨fun htrips => ?_, fun hgrammar => ?_⟩
    · obtain ⟨f, hf, hrefusal⟩ := htrips.error
      obtain ⟨message, rfl⟩ := h.refused f hf
      cases hrefusal
    · have haccepts := exists_ok_iff.mp (h.grammatical hgrammar)
      refine ⟨(acceptsField_iff.mp haccepts).2, fun part hpart s hs hweek x hx => ?_⟩
      rcases parseField_cases lower index raw with ⟨-, out, hout, hmem⟩ | hfail
      · have hlisted := (hmem x).mp (((h.accepted out hout).2 x).mpr ⟨part, hpart, s, hs, hx⟩)
        obtain ⟨part', hpart', s', hs', hx'⟩ := hlisted
        split at hx'
        · exact Or.inl hx'
        · next hnot => exact Or.inr ⟨part', hpart', s', hs', hnot, hx'⟩
      · obtain ⟨-, -, -, f, -, -, -, herror⟩ := hfail
        obtain ⟨out, hout⟩ := exists_ok_iff.mpr haccepts
        cases herror.symm.trans hout
  · rintro ⟨htrips, hmeant⟩
    refine ⟨fun out hout => ?_, fun hgrammar => ?_, fun f => cronError_of_not_trips htrips⟩
    · have hgrammar := (acceptsField_iff.mp (exists_ok_iff.mp ⟨out, hout⟩)).1
      refine ⟨hgrammar, fun x => ?_⟩
      rcases parseField_cases lower index raw with ⟨-, out', hout', hmem⟩ | hfail
      · cases hout.symm.trans hout'
        exact (hmem x).trans (mem_iff_lists (hmeant hgrammar).2)
      · obtain ⟨-, -, -, f, -, -, -, herror⟩ := hfail
        cases herror.symm.trans hout
    · exact exists_ok_iff.mpr (acceptsField_iff.mpr ⟨hgrammar, (hmeant hgrammar).1⟩)

end

/-! ## expressions -/

def Proper {α : Type} (x : Except Failure α) : Prop :=
  (∃ v, x = .ok v) ∨ ∃ message, x = .error (.cronError message)

section
variable (R : Runtime) (lower : String → String)

/-- the texts between the blanks of an expression, or of what a macro stands for -/
def fieldsOf (expression : String) : List (List Char) :=
  let raw := strip expression.toList
  let raw := ((MACROS.lookup (lower (String.ofList raw))).map (·.toList)).getD raw
  (raw.splitOnP isSpace).filter (· ≠ [])

/-- the first field that is not accepted trips, of the fields from the `index`th on -/
def TripsFrom : Nat → List (List Char) → Prop
  | _, [] => False
  | index, raw :: fields =>
    Trips lower index raw ∨ AcceptsField lower index raw ∧ TripsFrom (index + 1) fields

variable {lower} {index : Nat} {raw : List Char}

theorem proper_bind {β : Type} {k : List Nat → Except Failure β} {later : Prop}
    (hk : ∀ out, Proper (k out) ↔ ¬ later) :
    Proper (parseField lower raw index >>= k) ↔
      ¬ (Trips lower index raw ∨ AcceptsField lower index raw ∧ later) := by
  cases hfield : parseField lower raw index with
  | ok out =>
    have haccepts := exists_ok_iff.mp ⟨out, hfield⟩
    refine (hk out).trans (not_congr ?_)
    simp [haccepts, haccepts.not_trips]
  | error f =>
    have hnot : ¬ AcceptsField lower index raw := fun h => by
      obtain ⟨out, hout⟩ := exists_ok_iff.mpr h
      cases hfield.symm.trans hout
    simp only [hnot, false_and, or_false]
    constructor
    · rintro (⟨v, hv⟩ | ⟨message, hmessage⟩) htrips
      · cases hv
      · obtain ⟨f', hf', hrefusal⟩ := htrips.error
        cases hmessage
        cases hfield.symm.trans hf'
        cases hrefusal
    · intro htrips
      obtain ⟨message, rfl⟩ := cronError_of_not_trips htrips hfield
      exact Or.inr ⟨message, rfl⟩

theorem proper_parse_iff (expression : String) :
    Proper (parse R lower expression) ↔
      ((fieldsOf lower expression).length = 5 →
        ¬ TripsFrom lower 0 (fieldsOf lower expression)) := by
  dsimp only [parse]
  split
  · next minute hour dom month dow hfields =>
    rw [show fieldsOf lower expression = [minute, hour, dom, month, dow] from hfields]
    refine Iff.trans ?_ (forall_prop_of_true rfl).symm
    refine proper_bind fun minutes => proper_bind fun hours => proper_bind fun doms => ?_
    refine proper_bind fun months => proper_bind fun dows => ?_
    exact iff_of_true (Or.inl ⟨_, rfl⟩) not_false
  · next hnot =>
    refine iff_of_true (Or.inr ⟨_, rfl⟩) fun hlength => ?_
    have hnot : ∀ a b c d e, fieldsOf lower expression = [a, b, c, d, e] → False := hnot
    generalize fieldsOf lower expression = fields at hnot hlength
    obtain _ | ⟨a, _ | ⟨b, _ | ⟨c, _ | ⟨d, _ | ⟨e, _ | ⟨f, rest⟩⟩⟩⟩⟩⟩ := fields
    case cons.cons.cons.cons.cons.nil => exact absurd rfl (hnot a b c d e)
    all_goals simp at hlength

end

/-- the values of a field are those of its grammar, and an expression is constructed or a
`CronError`, exactly where no number is reached that `int` does not read, no range ends on a Sunday
but begins on another day, and a range from Sunday to Sunday adds no day to the others -/
theorem cron_fields_iff (lower : String → String) :
    (∀ index raw, Meant lower index raw ↔ ¬ Trips lower index raw ∧
      (Grammatical lower index raw → NoneToSunday lower index raw ∧ Covered lower index raw)) ∧
    ∀ (R : Runtime) (expression : String), Proper (parse R lower expression) ↔
      ((fieldsOf lower expression).length = 5 → ¬ TripsFrom lower 0 (fieldsOf lower expression)) :=
  ⟨fun _ _ => meant_iff, fun R => proper_parse_iff R⟩

/-- the days 0-7 are Sunday alone, the days 5-7 are refused, and two as a superscript is no
`CronError` -/
theorem fields_misread :
    ¬ Meant id 4 "0-7".toList ∧ ¬ Meant id 4 "5-7".toList ∧
      ¬ Proper (parse .silent id "² 0 * * *") := by
  refine ⟨fun h => ?_, fun h => ?_, fun h => ?_⟩
  · have hmonday : Lists id 4 "0-7".toList 1 :=
      ⟨"0-7".toList, by decide +kernel, ⟨0, 7, 1⟩, by decide +kernel, 1, by decide, by decide⟩
    have hlisted := ((h.accepted [0] (by decide +kernel)).2 1).mpr hmonday
    exact absurd hlisted (by decide)
  · have hgrammar : Grammatical id 4 "5-7".toList := by
      intro part hpart
      obtain rfl : part = "5-7".toList :=
        (show ∀ p ∈ "5-7".toList.splitOn ',', p = "5-7".toList by decide +kernel) part hpart
      exact ⟨⟨5, 7, 1⟩, by decide +kernel⟩
    obtain ⟨out, hout⟩ := h.grammatical hgrammar
    have hback : parseField id "5-7".toList 4 =
        .error (.cronError "'5-7' has a range that runs backwards.") := by decide +kernel
    cases hback.symm.trans hout
  · have hraises : (parse .silent id "² 0 * * *").map (fun _ => ()) = .error .valueError := by
      decide +kernel
    rcases h with ⟨expr, h⟩ | ⟨message, h⟩ <;> rw [h] at hraises <;> cases hraises

end Scheduler
