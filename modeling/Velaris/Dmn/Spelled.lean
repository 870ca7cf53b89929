import Velaris.Dmn.Cell
import Velaris.Feel.Test

/-!
# Literals and lists of the FEEL subset, as the import reads them

* `datum?`   a value as FEEL sees it;
* `num_append`   a numeral is what `_NUM` matches;
* `datum_of_literal`   `literal` gives the datum that is spelled;
* `Splits`   the parts a text is scanned as;
* `splitTopLevel_items` those of a list are its items.
-/

namespace Dmn
open Py Feel

variable {L : Library}

def datum? : Value → Option Datum
  | .none => some .null
  | .bool b => some (.boolean b)
  | .int n => some (.number n)
  | .float q => some (.number q)
  | .str s => some (.string s)
  | .list _ | .dict _ => none

/-! ## numerals -/

theorem isDecimal_of_isDigit {c : Char} (h : c.isDigit = true) : isDecimal c = true := by
  obtain ⟨h1, h2⟩ := isDigit_toNat h
  have : c.toNat < 48 + 10 := by omega
  simp [isDecimal, decimal?, zeros, h1, this]

theorem isDecimal_point : isDecimal '.' = false := by decide +kernel

theorem isSpace_of_isDigit {c : Char} (h : c.isDigit = true) : isSpace c = false := by
  obtain ⟨h1, h2⟩ := isDigit_toNat h
  have hn : ∀ n : Nat, 48 ≤ n → n ≤ 57 → (let m := n; (9 ≤ m && m ≤ 13) || (28 ≤ m && m ≤ 32) ||
      m == 0x85 || m == 0xa0 || m == 0x1680 || (0x2000 ≤ m && m ≤ 0x200a) || m == 0x2028 ||
      m == 0x2029 || m == 0x202f || m == 0x205f || m == 0x3000) = false := by
    intro n hn1 hn2
    simp
    omega
  exact hn c.toNat h1 h2

def spaces : List Nat :=
  [9, 10, 11, 12, 13, 28, 29, 30, 31, 32, 0x85, 0xa0, 0x1680, 0x2000, 0x2001, 0x2002, 0x2003, 0x2004,
    0x2005, 0x2006, 0x2007, 0x2008, 0x2009, 0x200a, 0x2028, 0x2029, 0x202f, 0x205f, 0x3000]

theorem isDecimal_of_isSpace {c : Char} (h : isSpace c = true) : isDecimal c = false := by
  have hmem : c.toNat ∈ spaces := by
    simp only [isSpace, Bool.or_eq_true, Bool.and_eq_true, decide_eq_true_eq, beq_iff_eq] at h
    simp only [spaces, List.mem_cons, List.not_mem_nil, or_false]
    omega
  have hnone : ∀ n ∈ spaces, zeros.find? (fun z => z ≤ n ∧ n < z + 10) = none := by
    decide +kernel
  have := hnone c.toNat hmem
  simp only [isDecimal, decimal?, Option.isSome_map]
  rw [this]
  rfl

/-- a text that does not continue a numeral before it -/
def Stops (s : List Char) : Prop :=
  s.takeWhile isDecimal = [] ∧ ∀ t, s = '.' :: t → t.takeWhile isDecimal = []

theorem stops_nil : Stops [] := ⟨rfl, fun _ h => nomatch h⟩

theorem stops_cons {c : Char} (h : isDecimal c = false) (hpoint : c ≠ '.') (s : List Char) :
    Stops (c :: s) :=
  ⟨by simp [h], fun t ht => absurd (List.cons.inj ht).1 hpoint⟩

theorem stops_dots (s : List Char) : Stops ('.' :: '.' :: s) := by
  refine ⟨by simp [isDecimal_point], fun t ht => ?_⟩
  rw [← (List.cons.inj ht).2]
  simp [isDecimal_point]

theorem stops_blank {w s : List Char} (hw : Blank w) (hs : Stops s) : Stops (w ++ s) := by
  cases w with
  | nil => exact hs
  | cons c w =>
    refine stops_cons (isDecimal_of_isSpace hw.head) (fun h => ?_) (w ++ s)
    have := hw.head
    rw [h] at this
    exact absurd this (by decide)

theorem dropWhile_of_takeWhile {p : Char → Bool} {s : List Char} (h : s.takeWhile p = []) :
    s.dropWhile p = s := by
  have := List.takeWhile_append_dropWhile (p := p) (l := s)
  rwa [h] at this

theorem unsigned_append {x s : List Char} (hx : Feel.Unsigned x) (hs : Stops s) :
    unsigned (x ++ s) = some (x, s) := by
  obtain ⟨whole, fraction, rfl, hne, hw, hf⟩ := hx
  have hwhole : ∀ c ∈ whole, isDecimal c = true := fun c hc => isDecimal_of_isDigit (hw c hc)
  unfold unsigned
  simp only [List.append_assoc]
  rw [List.takeWhile_append_of_pos hwhole, List.dropWhile_append_of_pos hwhole]
  obtain rfl | ⟨ds, rfl, hds, hd⟩ := hf
  · rw [List.nil_append, hs.1, dropWhile_of_takeWhile hs.1, List.append_nil, if_neg hne]
    split
    · rename_i rest
      rw [if_pos (hs.2 rest rfl)]
    · rfl
  · have hdec : ∀ c ∈ ds, isDecimal c = true := fun c hc => isDecimal_of_isDigit (hd c hc)
    have htake : (ds ++ s).takeWhile isDecimal = ds := by
      rw [List.takeWhile_append_of_pos hdec, hs.1, List.append_nil]
    have hdrop : (ds ++ s).dropWhile isDecimal = s := by
      rw [List.dropWhile_append_of_pos hdec, dropWhile_of_takeWhile hs.1]
    simp [isDecimal_point, htake, hdrop, hne, hds]

theorem num_append {x s : List Char} (hx : Numeral x) (hs : Stops s) :
    num (x ++ s) = some (x, s) := by
  cases hx with
  | plus hu =>
    have hfirst : ∀ t, x ++ s ≠ '-' :: t := by
      obtain ⟨whole, fraction, rfl, hne, hw, -⟩ := hu
      intro t ht
      obtain ⟨c, whole, rfl⟩ := List.exists_cons_of_ne_nil hne
      have hc := hw c List.mem_cons_self
      rw [List.cons_append, List.cons_append] at ht
      rw [(List.cons.inj ht).1] at hc
      exact absurd hc (by decide)
    have := unsigned_append hu hs
    unfold num
    split
    · exact absurd (by assumption) (hfirst _)
    · exact this
  | minus hu =>
    rw [List.cons_append, num, unsigned_append hu hs]
    rfl

/-! ## `int` of a numeral -/

theorem magnitude_of_isDigit {ds : List Char} (h : ∀ c ∈ ds, c.isDigit = true) (hne : ds ≠ [])
    {n : Nat} (hn : magnitude 10 ds = some n) : n = natOf ds := by
  unfold magnitude at hn
  rw [if_neg (by decide)] at hn
  split at hn
  · exact nomatch hn
  · rw [digits_of_isDigit 0 h false (.inr hne)] at hn
    exact (Option.some.inj hn).symm

/-- `int` of a text without white space -/
def bareInt : List Char → Option Int
  | '+' :: cs => (magnitude 10 cs).map Int.ofNat
  | '-' :: cs => (magnitude 10 cs).map fun n => -(n : Int)
  | cs => (magnitude 10 cs).map Int.ofNat

theorem intText_of_plain {x : List Char} (h : ∀ c ∈ x, isBlank c = false ∧ c.toNat < 128) :
    intText 10 (String.ofList x) = bareInt x := by
  have hascii : toAscii x = x := by
    rw [toAscii, if_pos]
    exact List.all_eq_true.mpr fun c hc => decide_eq_true (h c hc).2
  have hb : ∀ c ∈ x, isBlank c = false := fun c hc => (h c hc).1
  unfold intText
  rw [String.toList_ofList, hascii, dropWhile_of_forall hb, rstrip_of_forall hb]
  rfl

theorem plain_of_isDigit {c : Char} (h : c.isDigit = true) : isBlank c = false ∧ c.toNat < 128 :=
  ⟨isBlank_of_isDigit h, by have := (isDigit_toNat h).2; omega⟩

theorem numeral_digits {x : List Char} (h : Numeral x) (hpoint : '.' ∉ x) :
    ∃ ds, ds ≠ [] ∧ (∀ c ∈ ds, c.isDigit = true) ∧ (x = ds ∨ x = '-' :: ds) := by
  have hwhole : ∀ {t : List Char}, Feel.Unsigned t → '.' ∉ t →
      t ≠ [] ∧ ∀ c ∈ t, c.isDigit = true := by
    intro t ht hp
    obtain ⟨whole, fraction, rfl, hne, hw, hf⟩ := ht
    obtain rfl | ⟨ds, rfl, -, -⟩ := hf
    · rw [List.append_nil]
      exact ⟨hne, hw⟩
    · exact absurd (by simp) hp
  cases h with
  | plus hu => exact ⟨x, (hwhole hu hpoint).1, (hwhole hu hpoint).2, .inl rfl⟩
  | @minus t hu =>
    have hp : '.' ∉ t := fun hmem => hpoint (List.mem_cons_of_mem '-' hmem)
    exact ⟨t, (hwhole hu hp).1, (hwhole hu hp).2, .inr rfl⟩

theorem int_of_numeral {float : List Char → ℚ} {x : List Char} (hx : Numeral x) (hpoint : '.' ∉ x)
    {n : Int} (hn : intText 10 (String.ofList x) = some n) : (n : ℚ) = value float x := by
  obtain ⟨ds, hne, hd, hcases⟩ := numeral_digits hx hpoint
  obtain ⟨c, ds, rfl⟩ := List.exists_cons_of_ne_nil hne
  have hc := hd c List.mem_cons_self
  have hminus : c ≠ '-' := fun he => by
    rw [he] at hc
    exact absurd hc (by decide)
  have hplus : c ≠ '+' := fun he => by
    rw [he] at hc
    exact absurd hc (by decide)
  have hvalue : value float (c :: ds) = natOf (c :: ds) := by
    obtain rfl | rfl := hcases
    · rw [value, if_neg hpoint]
      exact fun cs he => hminus (List.cons.inj he).1
    · rw [value, if_neg fun h => hpoint (List.mem_cons_of_mem '-' h)]
      exact fun cs he => hminus (List.cons.inj he).1
  obtain rfl | rfl := hcases
  · rw [intText_of_plain fun e he => plain_of_isDigit (hd e he)] at hn
    unfold bareInt at hn
    split at hn
    · exact absurd (List.cons.inj ‹_›).1 hplus
    · exact absurd (List.cons.inj ‹_›).1 hminus
    · obtain ⟨m, hm, rfl⟩ := Option.map_eq_some_iff.mp hn
      rw [hvalue, magnitude_of_isDigit hd hne hm]
      rfl
  · have hplain : ∀ e ∈ '-' :: c :: ds, isBlank e = false ∧ e.toNat < 128 := by
      intro e he
      obtain rfl | he := List.mem_cons.mp he
      · decide
      · exact plain_of_isDigit (hd e he)
    rw [intText_of_plain hplain] at hn
    cases hm : magnitude 10 (c :: ds) with
    | none => simp [bareInt, hm] at hn
    | some m =>
      have hn : -(m : Int) = n := by simpa [bareInt, hm] using hn
      rw [value, if_neg hpoint, ← hn, magnitude_of_isDigit hd hne hm]
      push_cast
      rfl

/-! ## literals -/

theorem keyword_cases {x : List Char} {d : Datum} (h : keyword x = some d) :
    (x = ['t', 'r', 'u', 'e'] ∧ d = .boolean true) ∨
      (x = ['f', 'a', 'l', 's', 'e'] ∧ d = .boolean false) ∨
      (x = ['n', 'u', 'l', 'l'] ∧ d = .null) := by
  unfold keyword at h
  split at h
  · exact .inl ⟨‹_›, (Option.some.inj h).symm⟩
  · split at h
    · exact .inr (.inl ⟨‹_›, (Option.some.inj h).symm⟩)
    · split at h
      · exact .inr (.inr ⟨‹_›, (Option.some.inj h).symm⟩)
      · exact nomatch h

theorem numeral_chars {x : List Char} (h : Numeral x) :
    x ≠ [] ∧ ∀ c ∈ x, c.isDigit = true ∨ c = '-' ∨ c = '.' := by
  have hu : ∀ {t : List Char}, Feel.Unsigned t →
      t ≠ [] ∧ ∀ c ∈ t, c.isDigit = true ∨ c = '-' ∨ c = '.' := by
    intro t ht
    obtain ⟨whole, fraction, rfl, hne, hw, hf⟩ := ht
    refine ⟨by simp [hne], fun c hc => ?_⟩
    obtain hc | hc := List.mem_append.mp hc
    · exact .inl (hw c hc)
    · obtain rfl | ⟨ds, rfl, -, hd⟩ := hf
      · exact absurd hc List.not_mem_nil
      · obtain rfl | hc := List.mem_cons.mp hc
        · exact .inr (.inr rfl)
        · exact .inl (hd c hc)
  cases h with
  | plus h => exact hu h
  | minus h =>
    refine ⟨List.cons_ne_nil _ _, fun c hc => ?_⟩
    obtain rfl | hc := List.mem_cons.mp hc
    · exact .inr (.inl rfl)
    · exact (hu h).2 c hc

/-- the characters the parts of a cell are told apart by -/
def marks : List Char :=
  ['\"', '\'', '[', ']', '(', ')', ',', '<', '>', '!', '=', 't', 'f', 'n', 'N']

theorem numeral_char {c : Char} (h : c.isDigit = true ∨ c = '-' ∨ c = '.') :
    isSpace c = false ∧ c ∉ marks := by
  obtain h | rfl | rfl := h
  · refine ⟨isSpace_of_isDigit h, fun hm => ?_⟩
    have hmarks : marks.all (!·.isDigit) = true := by decide
    have := List.all_eq_true.mp hmarks c hm
    rw [h] at this
    exact absurd this (by decide)
  · decide
  · decide

theorem solid_of_numeral {x : List Char} (h : Numeral x) : Solid x := by
  obtain ⟨hne, hall⟩ := numeral_chars h
  exact solid_of_forall hne fun c hc => (numeral_char (hall c hc)).1

theorem solid_of_spells {float : List Char → ℚ} {x : List Char} {d : Datum}
    (h : Spells float x d) : Solid x := by
  cases h with
  | string hs => exact solid_between _ (by decide) (by decide)
  | word hk =>
    obtain ⟨rfl, -⟩ | ⟨rfl, -⟩ | ⟨rfl, -⟩ := keyword_cases hk
    all_goals exact solid_of_forall (by simp) (not_isSpace_of_all (by decide))
  | number hn => exact solid_of_numeral hn

theorem quoted_string (s : List Char) : quoted ('\"' :: s ++ ['\"']) = true := by
  have hlast : ('\"' :: s ++ ['\"']).getLast? = some '\"' := List.getLast?_concat
  simp only [quoted, hlast]
  simp

theorem quoted_of_head {c : Char} (h1 : c ≠ '\"') (h2 : c ≠ '\'') (s : List Char) :
    quoted (c :: s) = false := by
  simp [quoted, h1, h2]

theorem literal_string (L : Library) {s : List Char} :
    literal L ('\"' :: s ++ ['\"']) = .ok (.str (String.ofList s)) := by
  have hsolid : Solid ('\"' :: s ++ ['\"']) := solid_between s (by decide) (by decide)
  unfold literal
  simp only [strip_solid hsolid, quoted_string, if_true]
  simp

theorem literal_numeral (L : Library) {x : List Char} (hx : Numeral x) :
    literal L x =
      if '.' ∈ x then .ok (.float (L.float x))
      else
        match intText 10 (String.ofList x) with
        | some n => .ok (.int n)
        | none => .error .valueError := by
  obtain ⟨hne, hall⟩ := numeral_chars hx
  have hsolid := solid_of_numeral hx
  have hnum : num x = some (x, []) := by simpa using num_append hx stops_nil
  obtain ⟨c, y, rfl⟩ := List.exists_cons_of_ne_nil hne
  have hc := hall c List.mem_cons_self
  have hmark : ∀ m ∈ marks, c ≠ m := fun m hm he =>
    (numeral_char hc).2 (he ▸ hm)
  have hq : quoted (c :: y) = false := quoted_of_head (hmark _ (by decide)) (hmark _ (by decide)) y
  have hword : ∀ m z, m ∈ marks → c :: y ≠ m :: z := fun m z hm he =>
    hmark m hm (List.cons.inj he).1
  unfold literal
  simp only [strip_solid hsolid, hq, hnum]
  rw [if_neg (by decide), if_neg (hword _ _ (by decide)), if_neg (hword _ _ (by decide)),
    if_neg (hword _ _ (by decide))]
  exact if_pos (by simp)

theorem datum_of_literal {x : List Char} {d : Datum} {v : Value} (hx : Spells L.float x d)
    (h : literal L x = .ok v) : datum? v = some d := by
  cases hx with
  | string hs =>
    rw [literal_string] at h
    rw [← Except.ok.inj h]
    rfl
  | word hk =>
    obtain ⟨rfl, rfl⟩ | ⟨rfl, rfl⟩ | ⟨rfl, rfl⟩ := keyword_cases hk
    all_goals
      rw [← Except.ok.inj h]
      rfl
  | number hn =>
    rw [literal_numeral L hn] at h
    split at h
    · rename_i hpoint
      rw [← Except.ok.inj h, value_of_point hpoint]
      rfl
    · rename_i hpoint
      split at h
      · rename_i n hint
        rw [← Except.ok.inj h, ← int_of_numeral hn hpoint hint]
        rfl
      · exact nomatch h

/-! ## the parts of a list -/

def Bare (c : Char) : Prop :=
  c ≠ '\"' ∧ c ≠ '\'' ∧ c ≠ '[' ∧ c ≠ '(' ∧ c ≠ ']' ∧ c ≠ ')' ∧ c ≠ ','

theorem step_bare {s : Scan} (hq : s.quote = none) {c : Char} (hc : Bare c) :
    s.step c = s.push c := by
  obtain ⟨h1, h2, h3, h4, h5, h6, h7⟩ := hc
  simp [Scan.step, hq, h1, h2, h3, h4, h5, h6, h7]

theorem scan_bare {x : List Char} (hx : ∀ c ∈ x, Bare c) (s : Scan) (hq : s.quote = none) :
    x.foldl Scan.step s = { s with current := s.current ++ x } := by
  induction x generalizing s with
  | nil => simp
  | cons c x ih =>
    rw [List.foldl_cons, step_bare hq (hx c List.mem_cons_self),
      ih (fun e he => hx e (List.mem_cons_of_mem c he)) (s.push c) hq]
    simp [Scan.push]

theorem scan_quoted {x : List Char} (hx : ∀ c ∈ x, c ≠ '\"') (s : Scan)
    (hq : s.quote = some '\"') : x.foldl Scan.step s = { s with current := s.current ++ x } := by
  induction x generalizing s with
  | nil => simp
  | cons c x ih =>
    have hstep : s.step c = s.push c := by
      simp [Scan.step, hq, hx c List.mem_cons_self, Scan.push]
    rw [List.foldl_cons, hstep, ih (fun e he => hx e (List.mem_cons_of_mem c he)) (s.push c) hq]
    simp [Scan.push]

theorem scan_string {y : List Char} (hy : ∀ c ∈ y, c ≠ '\"') (s : Scan) (hq : s.quote = none) :
    ('\"' :: y ++ ['\"']).foldl Scan.step s =
      { s with current := s.current ++ ('\"' :: y ++ ['\"']) } := by
  have hopen : s.step '\"' = { s.push '\"' with quote := some '\"' } := by
    simp [Scan.step, hq]
  have hinner : ('\"' :: y).foldl Scan.step s =
      { s with quote := some '\"', current := s.current ++ '\"' :: y } := by
    rw [List.foldl_cons, hopen, scan_quoted hy _ rfl]
    simp [Scan.push]
  rw [List.foldl_append, hinner]
  simp [Scan.step, Scan.push, ← hq]

theorem bare_of_isSpace {c : Char} (h : isSpace c = true) : Bare c := by
  refine ⟨?_, ?_, ?_, ?_, ?_, ?_, ?_⟩ <;>
  · intro he
    rw [he] at h
    exact absurd h (by decide)

theorem inString_ne_quote {c : Char} (h : inString c = true) : c ≠ '\"' := fun he => by
  rw [he] at h
  exact absurd h (by decide)

theorem scan_spells {float : List Char → ℚ} {x : List Char} {d : Datum} (hx : Spells float x d)
    (s : Scan) (hq : s.quote = none) :
    x.foldl Scan.step s = { s with current := s.current ++ x } := by
  cases hx with
  | string hs => exact scan_string (fun c hc => inString_ne_quote (hs c hc)) s hq
  | word hk =>
    refine scan_bare (fun c hc => ?_) s hq
    obtain ⟨rfl, -⟩ | ⟨rfl, -⟩ | ⟨rfl, -⟩ := keyword_cases hk
    all_goals
      revert c
      simp [Bare]
  | number hn =>
    refine scan_bare (fun c hc => ?_) s hq
    have hm := (numeral_char ((numeral_chars hn).2 c hc)).2
    refine ⟨?_, ?_, ?_, ?_, ?_, ?_, ?_⟩ <;>
    · intro he
      rw [he] at hm
      exact absurd (by decide) hm

theorem scan_comma (s : Scan) (hq : s.quote = none) (hd : s.depth = 0) :
    s.step ',' = { s with parts := s.parts ++ [s.current], current := [] } := by
  simp [Scan.step, hq, hd]

/-- a text that is scanned, after white space, as these parts; an empty part is none -/
def Splits (xs : List Char) (texts : List (List Char)) : Prop :=
  ∀ parts cur, Blank cur → ∃ before last,
    xs.foldl Scan.step ⟨parts, 0, none, cur⟩ = ⟨parts ++ before, 0, none, last⟩ ∧
      ((before ++ [last]).map strip).filter (· ≠ []) = texts

theorem splitTopLevel_of_splits {xs : List Char} {texts : List (List Char)}
    (h : Splits xs texts) : splitTopLevel xs = texts := by
  obtain ⟨before, last, hfold, htexts⟩ := h [] [] blank_nil
  unfold splitTopLevel
  rw [hfold]
  exact htexts

theorem splits_one {v x w : List Char} (hv : Blank v) (hx : Solid x) (hw : Blank w)
    (hscan : ∀ s : Scan, s.quote = none → s.depth = 0 →
      x.foldl Scan.step s = { s with current := s.current ++ x }) : Splits (v ++ x ++ w) [x] := by
  intro parts cur hcur
  refine ⟨[], cur ++ v ++ x ++ w, ?_, ?_⟩
  · rw [List.foldl_append, List.foldl_append,
      scan_bare (fun c hc => bare_of_isSpace (hv c hc)) _ rfl, hscan _ rfl rfl,
      scan_bare (fun c hc => bare_of_isSpace (hw c hc)) _ rfl]
    simp
  · rw [List.nil_append, List.map_singleton, strip_pad (hcur.append hv) hw hx]
    simp [hx.ne_nil]

theorem splits_comma {xs ys : List Char} {texts texts' : List (List Char)} (hx : Splits xs texts)
    (hy : Splits ys texts') : Splits (xs ++ ',' :: ys) (texts ++ texts') := by
  intro parts cur hcur
  obtain ⟨before, last, hfold, htexts⟩ := hx parts cur hcur
  obtain ⟨before', last', hfold', htexts'⟩ := hy (parts ++ before ++ [last]) [] blank_nil
  refine ⟨before ++ last :: before', last', ?_, ?_⟩
  · rw [List.foldl_append, List.foldl_cons, hfold, scan_comma _ rfl rfl, hfold']
    simp
  · have happ : before ++ last :: before' ++ [last'] = (before ++ [last]) ++ (before' ++ [last']) := by
      simp
    rw [← htexts, ← htexts', happ, List.map_append, List.filter_append]

theorem splits_items {float : List Char → ℚ} {xs : List Char} {ds : List Datum}
    (h : Items float xs ds) : ∃ texts, List.Forall₂ (Spells float) texts ds ∧ Splits xs texts := by
  induction h with
  | @one v x w d hv hx hw =>
    exact ⟨[x], .cons hx .nil, splits_one hv (solid_of_spells hx) hw fun s hq _ =>
      scan_spells hx s hq⟩
  | @more v x w xs d ds hv hx hw _ ih =>
    obtain ⟨texts, htexts, hsplits⟩ := ih
    have hone := splits_one hv (solid_of_spells hx) hw fun s hq _ => scan_spells hx s hq
    exact ⟨x :: texts, .cons hx htexts, splits_comma hone hsplits⟩

theorem splitTopLevel_items {float : List Char → ℚ} {xs : List Char} {ds : List Datum}
    (h : Items float xs ds) : List.Forall₂ (Spells float) (splitTopLevel xs) ds := by
  obtain ⟨texts, htexts, hsplits⟩ := splits_items h
  rw [splitTopLevel_of_splits hsplits]
  exact htexts

end Dmn
