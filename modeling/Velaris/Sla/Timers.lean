import Velaris.Sla.Tracker
import Velaris.Base.Traverse

/-!
# Timers of the workflow engine

`ProcessWorkflow._parse_iso_duration` of `helix_engine/temporal/workflows`, and where it agrees with
`parse_iso8601_duration` of the SLA tracker.

* `search`   `re.search(r'(\d+)X', value)`;
* `parseIsoDuration`   the engine's parser;
* `parsed`   the parser of the SLA tracker, with what a `timedelta` cannot hold refused;
* `search_match`   what the engine finds in a duration of the SLA tracker;
* `intText_decimals`   `int` of decimal digits, of any script.
-/

namespace Sla
open Py Base

/-! ## `timedelta` -/

/-- the magnitude of the days of a `timedelta` -/
def maxDays : Int := 999999999

inductive Raised where
  | failed (f : Failure)
  | overflowError
  deriving DecidableEq

/-- a `timedelta` of so many microseconds -/
def timedelta (micros : Int) : Except Raised Int :=
  if -(days maxDays) ≤ micros ∧ micros < days (maxDays + 1) then .ok micros
  else .error .overflowError

/-- `parse_iso8601_duration` -/
def parsed (R : Runtime) (duration : String) : Except Raised Int :=
  match parseIso8601Duration R duration with
  | .error f => .error (.failed f)
  | .ok micros => timedelta micros

/-! ## the engine -/

/-- `re.search(r'(\d+)X', value)`: the digits of the first match -/
def search (letter : Char) : List Char → Option (List Char)
  | [] => none
  | c :: s => (component letter (c :: s)).1 <|> search letter s

/-- `int(match.group(1))`, and 0 where there is no match -/
def found (letter : Char) (value : String) : Except Raised Int :=
  match count (search letter value.toList) with
  | .error f => .error (.failed f)
  | .ok n => .ok n

/-- `ProcessWorkflow._parse_iso_duration` -/
def parseIsoDuration (value : String) : Except Raised Int := do
  let dayCount ← found 'D' value
  let hours ← found 'H' value
  let minutes ← found 'M' value
  let secs ← found 'S' value
  let totalSeconds := dayCount * 86400 + hours * 3600 + minutes * 60 + secs
  if 0 < totalSeconds then timedelta (seconds totalSeconds) else timedelta (seconds 60)

/-! ## what a search finds in a duration -/

def Decimals (ds : List Char) : Prop := ∀ c ∈ ds, (decimal? c).isSome = true

theorem decimal?_toNat {c : Char} {d : Nat} (h : decimal? c = some d) :
    d < 10 ∧ (c.toNat < 128 → c.toNat = 48 + d) := by
  obtain ⟨z, hz, rfl⟩ := Option.map_eq_some_iff.mp h
  have hrange := List.find?_some hz
  have hmem := List.mem_of_find?_eq_some hz
  have hzero : ∀ z ∈ zeros, z = 48 ∨ 128 ≤ z := by decide +kernel
  simp only [decide_eq_true_eq] at hrange
  obtain rfl | hz := hzero z hmem
  · omega
  · omega

theorem not_decimal {c : Char} (h : c.toNat < 48 ∨ 58 ≤ c.toNat ∧ c.toNat < 128) :
    (decimal? c).isSome = false := by
  cases hd : decimal? c with
  | none => rfl
  | some d =>
    have := decimal?_toNat hd
    omega

theorem decimals_takeWhile (s : List Char) : Decimals (s.takeWhile fun c => (decimal? c).isSome) :=
  List.all_eq_true.mp (List.all_takeWhile (p := fun c => (decimal? c).isSome))

theorem span_block {ds : List Char} {x : Char} (rest : List Char) (h : Decimals ds)
    (hx : (decimal? x).isSome = false) :
    (ds ++ x :: rest).takeWhile (fun c => (decimal? c).isSome) = ds ∧
      (ds ++ x :: rest).dropWhile (fun c => (decimal? c).isSome) = x :: rest := by
  rw [List.takeWhile_append_of_pos h, List.dropWhile_append_of_pos h]
  simp [hx]

theorem eq_block {s : List Char} {x : Char}
    (h : (s.dropWhile fun c => (decimal? c).isSome).head? = some x) :
    s = s.takeWhile (fun c => (decimal? c).isSome) ++
      x :: (s.dropWhile fun c => (decimal? c).isSome).tail := by
  rw [List.cons_head?_tail (Option.mem_def.mpr h), List.takeWhile_append_dropWhile]

theorem component_block (letter : Char) {x : Char} {ds : List Char} (rest : List Char) (h : Decimals ds)
    (hx : (decimal? x).isSome = false) :
    component letter (ds ++ x :: rest) =
      if ds ≠ [] ∧ x = letter then (some ds, rest) else (none, ds ++ x :: rest) := by
  obtain ⟨h1, h2⟩ := span_block rest h hx
  simp only [component, h1, h2, List.head?_cons, List.tail_cons, Option.some.injEq]

theorem search_block (letter : Char) {x : Char} {ds : List Char} (rest : List Char) (h : Decimals ds)
    (hx : (decimal? x).isSome = false) :
    search letter (ds ++ x :: rest) =
      if ds ≠ [] ∧ x = letter then some ds else search letter rest := by
  induction ds with
  | nil =>
    have hnone := component_block letter rest h hx
    rw [List.nil_append] at hnone
    rw [List.nil_append, search, hnone]
    simp
  | cons c ds ih =>
    have hsome := component_block letter rest h hx
    rw [List.cons_append] at hsome
    rw [List.cons_append, search, hsome]
    by_cases hletter : x = letter
    · simp [hletter]
    · rw [ih fun e he => h e (List.mem_cons_of_mem c he)]
      simp [hletter]

theorem search_component (letter : Char) {other : Char} (ho : (decimal? other).isSome = false)
    (s : List Char) :
    search letter s = ((if other = letter then (component other s).1 else none) <|>
      search letter (component other s).2) := by
  by_cases h : s.takeWhile (fun c => (decimal? c).isSome) ≠ [] ∧
      (s.dropWhile fun c => (decimal? c).isSome).head? = some other
  · have hs := eq_block h.2
    have hc : component other s = (some _, _) := if_pos h
    rw [hc]
    conv_lhs => rw [hs]
    rw [search_block _ _ (decimals_takeWhile s) ho]
    by_cases hletter : other = letter
    · simp [hletter, h.1]
    · simp [hletter]
  · have hc : component other s = (none, s) := if_neg h
    rw [hc]
    simp

/-- the digits right before the `S` -/
def lastDigits (s : List Char × List Char) : List Char := if s.2 = [] then s.1 else s.2

theorem search_secondsComponent {letter : Char} (hpoint : '.' ≠ letter) (s : List Char) :
    search letter s = ((if 'S' = letter then (secondsComponent s).1.map lastDigits else none) <|>
      search letter (secondsComponent s).2) := by
  have hS : (decimal? 'S').isSome = false := not_decimal (by decide)
  have hp : (decimal? '.').isSome = false := not_decimal (by decide)
  let rest := s.dropWhile fun c => (decimal? c).isSome
  by_cases h1 : s.takeWhile (fun c => (decimal? c).isSome) ≠ [] ∧ rest.head? = some 'S'
  · have hc : secondsComponent s = (some (_, []), rest.tail) := if_pos h1
    rw [hc]
    conv_lhs => rw [eq_block h1.2, search_block _ _ (decimals_takeWhile s) hS]
    by_cases hl : 'S' = letter
    · subst hl
      simp [lastDigits, h1.1]
    · simp [hl, rest]
  · by_cases h2 : s.takeWhile (fun c => (decimal? c).isSome) ≠ [] ∧ rest.head? = some '.' ∧
        rest.tail.takeWhile (fun c => (decimal? c).isSome) ≠ [] ∧
        (rest.tail.dropWhile fun c => (decimal? c).isSome).head? = some 'S'
    · have hc : secondsComponent s = (some (_, _), _) := (if_neg h1).trans (if_pos h2)
      rw [hc]
      conv_lhs =>
        rw [eq_block h2.2.1, search_block _ _ (decimals_takeWhile s) hp, if_neg fun h => hpoint h.2,
          eq_block h2.2.2.2, search_block _ _ (decimals_takeWhile _) hS]
      by_cases hl : 'S' = letter
      · subst hl
        simp [lastDigits, h2.2.2.1, rest]
      · simp [hl, rest]
    · have hc : secondsComponent s = (none, s) := (if_neg h1).trans (if_neg h2)
      rw [hc]
      simp

theorem search_ended (letter : Char) {s : List Char} (h : s = [] ∨ s = ['\n']) :
    search letter s = none := by
  have hd : (decimal? '\n').isSome = false := not_decimal (by decide)
  obtain rfl | rfl := h
  · rfl
  · have := @search_block letter '\n' [] [] (fun _ h => nomatch h) hd
    rw [List.nil_append] at this
    rw [this]
    rfl

theorem search_cons (letter : Char) {x : Char} (hx : (decimal? x).isSome = false) (s : List Char) :
    search letter (x :: s) = search letter s := by
  have := @search_block letter x [] s (fun _ h => nomatch h) hx
  rw [List.nil_append] at this
  rw [this]
  simp

theorem search_match {text : String} {m : Components} (hm : matchDuration text = some m) :
    search 'D' text.toList = m.days ∧ search 'H' text.toList = m.hours ∧
      search 'M' text.toList = (m.months <|> m.minutes) ∧
      search 'S' text.toList = m.seconds.map lastDigits := by
  have hd : ∀ x ∈ ['P', 'Y', 'M', 'D', 'T', 'H'], (decimal? x).isSome = false := by
    intro x hx
    simp only [List.mem_cons, List.not_mem_nil, or_false] at hx
    rcases hx with rfl | rfl | rfl | rfl | rfl | rfl <;> exact not_decimal (by decide)
  unfold matchDuration at hm
  split at hm
  · rename_i s hs
    rw [hs]
    dsimp only at hm
    have date (letter : Char) := search_cons letter (hd 'P' (by simp)) s
    have step1 (letter : Char) := search_component letter (hd 'Y' (by simp)) s
    have step2 (letter : Char) :=
      search_component letter (hd 'M' (by simp)) (component 'Y' s).2
    have step3 (letter : Char) :=
      search_component letter (hd 'D' (by simp)) (component 'M' (component 'Y' s).2).2
    split at hm
    · rename_i t ht
      have h0 (letter : Char) := search_cons letter (hd 'T' (by simp)) t
      have h1 (letter : Char) := search_component letter (hd 'H' (by simp)) t
      have h2 (letter : Char) :=
        search_component letter (hd 'M' (by simp)) (component 'H' t).2
      split at hm
      · rename_i hend
        rw [← Option.some.inj hm]
        have h3 (letter : Char) (hl : '.' ≠ letter) :=
          search_secondsComponent hl (component 'M' (component 'H' t).2).2
        have hnone (letter : Char) := search_ended letter (of_decide_eq_true hend)
        simp [date, step1, step2, step3, ht, h0, h1, h2, h3, hnone]
      · exact nomatch hm
    · split at hm
      · rename_i hend
        rw [← Option.some.inj hm]
        have hnone (letter : Char) := search_ended letter (of_decide_eq_true hend)
        simp [date, step1, step2, step3, hnone]
      · exact nomatch hm
  · exact nomatch hm

/-! ## the lengths agree -/

theorem foldl_digits (ds : List Char) (f : Char → Nat) (hf : ∀ c ∈ ds, f c = (decimal? c).getD 0)
    (n : Nat) : ds.foldl (fun n c => n * 10 + f c) n =
      ds.foldl (fun n c => n * 10 + (decimal? c).getD 0) n := by
  induction ds generalizing n with
  | nil => rfl
  | cons c ds ih =>
    rw [List.foldl_cons, List.foldl_cons, hf c List.mem_cons_self,
      ih fun e he => hf e (List.mem_cons_of_mem c he)]

def ascii (c : Char) : Char := Char.ofNat (0x30 + (decimal? c).getD 0)

theorem ascii_isDigit {c : Char} {d : Nat} (h : decimal? c = some d) :
    (ascii c).isDigit = true ∧ (ascii c).toNat - 48 = d := by
  have hd := (decimal?_toNat h).1
  have hall : ∀ d < 10, (Char.ofNat (0x30 + d)).isDigit = true ∧
      (Char.ofNat (0x30 + d)).toNat - 48 = d := by
    decide +kernel
  unfold ascii
  rw [h]
  exact hall d hd

theorem toAscii_decimals {ds : List Char} (h : Decimals ds) : toAscii ds = ds.map ascii := by
  unfold toAscii
  split
  · rename_i hall
    have hself : ∀ c ∈ ds, ascii c = c := by
      intro c hc
      obtain ⟨d, hd⟩ := Option.isSome_iff_exists.mp (h c hc)
      have hlow := of_decide_eq_true (List.all_eq_true.mp hall c hc)
      rw [ascii, hd, Option.getD_some, ← (decimal?_toNat hd).2 hlow, Char.ofNat_toNat]
    rw [List.map_congr_left hself, List.map_id']
  · refine List.map_congr_left fun c hc => ?_
    obtain ⟨d, hd⟩ := Option.isSome_iff_exists.mp (h c hc)
    simp [ascii, hd]

theorem map_ascii_isDigit {ds : List Char} (h : Decimals ds) :
    ∀ c ∈ ds.map ascii, c.isDigit = true := by
  intro c hc
  obtain ⟨e, he, rfl⟩ := List.mem_map.mp hc
  obtain ⟨d, hd⟩ := Option.isSome_iff_exists.mp (h e he)
  exact (ascii_isDigit hd).1

theorem intText_ascii {ds : List Char} (h : Decimals ds) :
    intText 10 (String.ofList ds) = (magnitude 10 (ds.map ascii)).map Int.ofNat := by
  have hdigit := map_ascii_isDigit h
  have hblank : ∀ c ∈ ds.map ascii, isBlank c = false := fun c hc =>
    isBlank_of_isDigit (hdigit c hc)
  unfold intText
  rw [String.toList_ofList, toAscii_decimals h, dropWhile_of_forall hblank, rstrip_of_forall hblank]
  split
  · rename_i hs
    have := hdigit '+' (by rw [hs]; exact List.mem_cons_self)
    exact absurd this (by decide)
  · rename_i hs
    have := hdigit '-' (by rw [hs]; exact List.mem_cons_self)
    exact absurd this (by decide)
  · rfl

theorem intText_decimals {ds : List Char} (h : Decimals ds) (hne : ds ≠ [])
    (hmax : ds.length ≤ MAX_STR_DIGITS) :
    intText 10 (String.ofList ds) = some (decimalsValue ds : Int) := by
  have hlength : ((ds.map ascii).filter (· ≠ '_')).length ≤ MAX_STR_DIGITS := by
    have := List.length_filter_le (· ≠ '_') (ds.map ascii)
    rw [List.length_map] at this
    omega
  have hvalue : magnitude 10 (ds.map ascii) = some (decimalsValue ds) := by
    unfold magnitude
    rw [if_neg (by decide), if_neg (by omega),
      digits_of_isDigit 0 (map_ascii_isDigit h) false (.inr (by simpa using hne)), List.foldl_map]
    refine congrArg some (foldl_digits ds _ (fun c hc => ?_) 0)
    obtain ⟨d, hd⟩ := Option.isSome_iff_exists.mp (h c hc)
    rw [(ascii_isDigit hd).2, hd]
    rfl
  rw [intText_ascii h, hvalue]
  rfl

theorem secondsValue_whole (ds : List Char) :
    secondsValue (some (ds, [])) = seconds (decimalsValue ds) := by
  have hm : ((decimalsValue ds : ℚ) + (decimalsValue [] : ℚ) / 10 ^ ([] : List Char).length) *
      1000000 = ((decimalsValue ds * 1000000 : Int) : ℚ) := by
    simp [decimalsValue]
  unfold secondsValue
  simp only [hm, Rat.floor_intCast, sub_self]
  rw [if_pos (by norm_num)]
  rfl

theorem component_decimals {letter : Char} {s ds : List Char}
    (h : (component letter s).1 = some ds) : Decimals ds ∧ ds ≠ [] := by
  unfold component at h
  dsimp only at h
  split at h
  · rename_i hd
    rw [← Option.some.inj h]
    exact ⟨decimals_takeWhile s, hd.1⟩
  · exact nomatch h

theorem secondsComponent_decimals {s ds : List Char} (h : (secondsComponent s).1 = some (ds, [])) :
    Decimals ds ∧ ds ≠ [] := by
  unfold secondsComponent at h
  dsimp only at h
  split at h
  · rename_i hd
    rw [← (Prod.mk.inj (Option.some.inj h)).1]
    exact ⟨decimals_takeWhile s, hd.1⟩
  · split at h
    · rename_i hd
      rw [← (Prod.mk.inj (Option.some.inj h)).1]
      exact ⟨decimals_takeWhile s, hd.1⟩
    · exact nomatch h

structure Matched (m : Components) : Prop where
  years : ∀ ds, m.years = some ds → Decimals ds ∧ ds ≠ []
  days : ∀ ds, m.days = some ds → Decimals ds ∧ ds ≠ []
  hours : ∀ ds, m.hours = some ds → Decimals ds ∧ ds ≠ []
  minutes : ∀ ds, m.minutes = some ds → Decimals ds ∧ ds ≠ []
  seconds : ∀ ds, m.seconds = some (ds, []) → Decimals ds ∧ ds ≠ []

theorem matched {text : String} {m : Components} (hm : matchDuration text = some m) :
    Matched m := by
  unfold matchDuration at hm
  split at hm
  · dsimp only at hm
    split at hm
    · split at hm
      · rw [← Option.some.inj hm]
        exact ⟨fun _ => component_decimals, fun _ => component_decimals,
          fun _ => component_decimals, fun _ => component_decimals,
          fun _ => secondsComponent_decimals⟩
      · exact nomatch hm
    · split at hm
      · rw [← Option.some.inj hm]
        exact ⟨fun _ => component_decimals, fun _ => component_decimals, fun _ h => (nomatch h),
          fun _ h => (nomatch h), fun _ h => (nomatch h)⟩
      · exact nomatch hm
  · exact nomatch hm

theorem count_nonneg {digits : Option (List Char)}
    (h : ∀ ds, digits = some ds → Decimals ds ∧ ds ≠ []) {n : Int} (hn : count digits = .ok n) :
    0 ≤ n := by
  cases digits with
  | none =>
    have : n = 0 := (Except.ok.inj hn).symm
    omega
  | some ds =>
    unfold count at hn
    dsimp only at hn
    rw [intText_ascii (h ds rfl).1] at hn
    cases hk : magnitude 10 (ds.map ascii) with
    | none =>
      rw [hk] at hn
      exact nomatch hn
    | some k =>
      rw [hk] at hn
      have : (k : Int) = n := Except.ok.inj hn
      omega

theorem parsed_ok {R : Runtime} {text : String} {m : Components} {micros : Int}
    (hm : matchDuration text = some m) (hp : parsed R text = .ok micros) :
    ∃ years months dayCount hours minutes,
      (count m.years = .ok years ∧ count m.months = .ok months ∧ count m.days = .ok dayCount ∧
        count m.hours = .ok hours ∧ count m.minutes = .ok minutes) ∧
      micros = days (years * 365 + months * 30 + dayCount) + seconds (hours * 3600) +
        seconds (minutes * 60) + secondsValue m.seconds ∧
      micros < days (maxDays + 1) := by
  unfold parsed parseIso8601Duration at hp
  rw [hm] at hp
  dsimp only at hp
  split at hp
  · exact nomatch hp
  · rename_i total htotal
    obtain ⟨years, hyears, htotal⟩ := exists_of_bind_ok htotal
    obtain ⟨months, hmonths, htotal⟩ := exists_of_bind_ok htotal
    obtain ⟨dayCount, hdays, htotal⟩ := exists_of_bind_ok htotal
    obtain ⟨hours, hhours, htotal⟩ := exists_of_bind_ok htotal
    obtain ⟨minutes, hminutes, htotal⟩ := exists_of_bind_ok htotal
    have htotal := Except.ok.inj htotal
    unfold timedelta at hp
    split at hp
    · rename_i hrange
      have hp := Except.ok.inj hp
      subst hp
      exact ⟨years, months, dayCount, hours, minutes, ⟨hyears, hmonths, hdays, hhours, hminutes⟩,
        htotal.symm, hrange.2⟩
    · exact nomatch hp

/-- no months, and seconds without a point that `int` reads -/
structure Plain (m : Components) : Prop where
  months : m.months = none
  seconds : ∀ s, m.seconds = some s → s.2 = [] ∧ s.1.length ≤ MAX_STR_DIGITS

theorem count_plain {m : Components} (hd : Matched m) (hplain : Plain m) :
    ∃ n : Nat, count (m.seconds.map lastDigits) = .ok (n : Int) ∧
      secondsValue m.seconds = seconds n := by
  cases hs : m.seconds with
  | none => exact ⟨0, rfl, rfl⟩
  | some s =>
    obtain ⟨ds, decimals⟩ := s
    obtain ⟨rfl, hmax⟩ := hplain.seconds _ hs
    obtain ⟨hdec, hne⟩ := hd.seconds ds hs
    refine ⟨decimalsValue ds, ?_, secondsValue_whole ds⟩
    show count (some ds) = _
    unfold count
    dsimp only
    rw [intText_decimals hdec hne hmax]

/-- in a duration of years, days, hours, minutes and whole seconds the engine leaves out the years,
and waits a minute where nothing is left -/
theorem parseIsoDuration_of_plain (R : Runtime) {text : String} {m : Components} {micros : Int}
    (hm : matchDuration text = some m) (hplain : Plain m) (hp : parsed R text = .ok micros) :
    ∃ years, count m.years = .ok years ∧
      parseIsoDuration text = .ok (if micros = days (365 * years) then seconds 60
        else micros - days (365 * years)) := by
  have hd := matched hm
  obtain ⟨hD, hH, hM, hS⟩ := search_match hm
  obtain ⟨years, months, dayCount, hours, minutes, hcounts, hmicros, hmax⟩ := parsed_ok hm hp
  obtain ⟨hyears, hmonths, hdays, hhours, hminutes⟩ := hcounts
  obtain ⟨n, hn, hvalue⟩ := count_plain hd hplain
  rw [hplain.months] at hM hmonths
  have h0 : months = 0 := (Except.ok.inj hmonths).symm
  have hy0 := count_nonneg hd.years hyears
  have hd0 := count_nonneg hd.days hdays
  have hh0 := count_nonneg hd.hours hhours
  have hm0 := count_nonneg hd.minutes hminutes
  refine ⟨years, hyears, ?_⟩
  have hread : parseIsoDuration text =
      if 0 < dayCount * 86400 + hours * 3600 + minutes * 60 + (n : Int) then
        timedelta (seconds (dayCount * 86400 + hours * 3600 + minutes * 60 + n))
      else timedelta (seconds 60) := by
    have hM : search 'M' text.toList = m.minutes := hM
    unfold parseIsoDuration found
    rw [hD, hH, hM, hS, hdays, hhours, hminutes, hn]
    rfl
  have hrest : micros - days (365 * years) =
      seconds (dayCount * 86400 + hours * 3600 + minutes * 60 + n) := by
    rw [hmicros, h0, hvalue]
    simp only [days, seconds]
    omega
  have hshort : days (365 * years) ≥ 0 ∧ days maxDays ≥ 0 := by
    simp only [days, seconds, maxDays]
    omega
  rw [hread]
  by_cases hpos : 0 < dayCount * 86400 + hours * 3600 + minutes * 60 + (n : Int)
  · have hs : 0 < seconds (dayCount * 86400 + hours * 3600 + minutes * 60 + n) := by
      simp only [seconds]
      omega
    rw [if_pos hpos, if_neg (by omega), hrest, timedelta, if_pos (by omega)]
  · have hs : seconds (dayCount * 86400 + hours * 3600 + minutes * 60 + n) = 0 := by
      simp only [seconds]
      omega
    rw [if_neg hpos, if_pos (by omega)]
    decide

theorem parseIsoDuration_of_plain_shift : ∃ years, count none = .ok years ∧
    parseIsoDuration "P1DT2H30S" = .ok (if days 1 + seconds 7230 = days (365 * years)
      then seconds 60 else days 1 + seconds 7230 - days (365 * years)) :=
  parseIsoDuration_of_plain Runtime.silent
    (m := ⟨none, none, some ['1'], some ['2'], none, some (['3', '0'], [])⟩) rfl
    ⟨rfl, fun _ h => by
      rw [← Option.some.inj h]
      decide +kernel⟩
    (by decide +kernel)

/-- a duration of nothing is a minute for the engine -/
theorem parseIsoDuration_differs :
    ¬ ∀ (R : Runtime) (text : String) (micros : Int), parsed R text = .ok micros →
      parseIsoDuration text = .ok micros := by
  intro h
  have hzero := h Runtime.silent "PT0S" 0 (by decide +kernel)
  have hminute : parseIsoDuration "PT0S" = .ok (seconds 60) := by decide +kernel
  rw [hminute] at hzero
  exact absurd (Except.ok.inj hzero) (by decide)

end Sla
