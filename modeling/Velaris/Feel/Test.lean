import Velaris.Py.Blank
import Mathlib.Data.List.TakeWhile
import Mathlib.Data.List.Sort
import Mathlib.Data.List.Range

/-!
# FEEL unary tests

The cells of a decision table, in the subset of FEEL that simple tables are written in.

* `Datum`, `Kind`   the values a cell speaks of, and their types;
* `Test`, `Test.holds` what a cell may say of the value of its column, and when that is so;
* `read`   the test a text spells; a string with an escape in it is not in the subset;
* `Spelled`   the same as a grammar, and `spelled_of_read`.

A number with a decimal point is what `float` makes of it.

The rows of a decision table are numbered in the order they are written in, and `hit i` says that
the `i`-th matches.

* `HitPolicy.Selects`   the row a policy selects; where it leaves the answer open, none is;
* `selects_find`   without an order of the outputs, the first row that matches;
* `selects_of_best`   with one, a row none outranks.
-/

namespace Feel
open Py

inductive Datum where
  | number (q : ℚ)
  | string (s : String)
  | boolean (b : Bool)
  | null
  deriving DecidableEq

inductive Kind where
  | number
  | string
  | boolean
  | null

def Datum.kind : Datum → Kind
  | .number _ => .number
  | .string _ => .string
  | .boolean _ => .boolean
  | .null => .null

/-- the order of two data; booleans, nulls and data of two kinds have none -/
def Datum.order : Datum → Datum → Option Ordering
  | .number p, .number q => some (compareOfLessAndEq p q)
  | .string s, .string t => some (compareOfLessAndEq s t)
  | _, _ => none

inductive Rel where
  | lt
  | le
  | gt
  | ge
  deriving DecidableEq

def Rel.accepts : Rel → Ordering → Bool
  | .lt, o => o == .lt
  | .le, o => o != .gt
  | .gt, o => o == .gt
  | .ge, o => o != .lt

/-- `r.between v d`: the value `v` is in the relation `r` to `d` -/
def Rel.between (r : Rel) (v d : Datum) : Bool := (v.order d).any r.accepts

/-- what a cell says; a bound is `open` where it is left out of the range -/
inductive Test where
  | any
  | equals (d : Datum)
  | differs (d : Datum)
  | compare (r : Rel) (d : Datum)
  | range (openLow : Bool) (low high : ℚ) (openHigh : Bool)
  | oneOf (ds : List Datum)
  | noneOf (ds : List Datum)
  deriving DecidableEq

def Test.holds : Test → Datum → Bool
  | .any, _ => true
  | .equals d, v => v = d
  | .differs d, v => v ≠ d
  | .compare r d, v => r.between v d
  | .range openLow low high openHigh, v =>
    (if openLow then Rel.gt else Rel.ge).between v (.number low) &&
      (if openHigh then Rel.lt else Rel.le).between v (.number high)
  | .oneOf ds, v => v ∈ ds
  | .noneOf ds, v => v ∉ ds

/-! ## reading a literal -/

/-- the characters a string may hold: no quote, no line break -/
def inString (c : Char) : Bool := c ≠ '\"' && !(10 ≤ c.toNat && c.toNat ≤ 13)

def plain (c : Char) : Bool := c ≠ '\\' && inString c

/-- a decimal number without its sign, and what follows it -/
def unsigned (cs : List Char) : Option (List Char × List Char) :=
  let whole := cs.takeWhile Char.isDigit
  if whole = [] then none
  else
    match cs.dropWhile Char.isDigit with
    | '.' :: d :: rest =>
      if d.isDigit then
        some (whole ++ '.' :: (d :: rest).takeWhile Char.isDigit,
          (d :: rest).dropWhile Char.isDigit)
      else some (whole, '.' :: d :: rest)
    | rest => some (whole, rest)

def numeral : List Char → Option (List Char × List Char)
  | '-' :: cs => (unsigned cs).map fun p => ('-' :: p.1, p.2)
  | cs => unsigned cs

def natOf (cs : List Char) : Nat := cs.foldl (fun n c => n * 10 + (c.toNat - 48)) 0

def value (float : List Char → ℚ) (text : List Char) : ℚ :=
  if '.' ∈ text then float text
  else
    match text with
    | '-' :: cs => -(natOf cs : ℚ)
    | cs => natOf cs

theorem value_of_point {float : List Char → ℚ} {text : List Char} (h : '.' ∈ text) :
    value float text = float text := by
  unfold value
  rw [if_pos h]

def keyword (word : List Char) : Option Datum :=
  if word = ['t', 'r', 'u', 'e'] then some (.boolean true)
  else if word = ['f', 'a', 'l', 's', 'e'] then some (.boolean false)
  else if word = ['n', 'u', 'l', 'l'] then some .null
  else none

section
variable (float : List Char → ℚ)

def literal : List Char → Option (Datum × List Char)
  | '\"' :: cs =>
    match cs.dropWhile plain with
    | '\"' :: rest => some (.string (String.ofList (cs.takeWhile plain)), rest)
    | _ => none
  | cs =>
    match keyword (cs.takeWhile Char.isAlpha) with
    | some d => some (d, cs.dropWhile Char.isAlpha)
    | none => (numeral cs).map fun p => (.number (value float p.1), p.2)

/-! ## reading a cell -/

def skip (cs : List Char) : List Char := cs.dropWhile isSpace

/-- literals with commas between them; the first argument bounds their number -/
def items : Nat → List Char → Option (List Datum × List Char)
  | 0, _ => none
  | n + 1, cs =>
    (literal float (skip cs)).bind fun p =>
      match skip p.2 with
      | ',' :: rest => (items n rest).map fun q => (p.1 :: q.1, q.2)
      | rest => some ([p.1], rest)

def any? : List Char → Option Test
  | [] => some .any
  | '-' :: rest => if skip rest = [] then some .any else none
  | _ => none

def noneOf? : List Char → Option Test
  | 'n' :: 'o' :: 't' :: rest =>
    match skip rest with
    | '(' :: rest =>
      (items float rest.length rest).bind fun p =>
        match p.2 with
        | ')' :: rest => if skip rest = [] then some (.noneOf p.1) else none
        | _ => none
    | _ => none
  | _ => none

def operator : List Char → Option ((Datum → Test) × List Char)
  | '<' :: '=' :: cs => some (.compare .le, cs)
  | '>' :: '=' :: cs => some (.compare .ge, cs)
  | '<' :: cs => some (.compare .lt, cs)
  | '>' :: cs => some (.compare .gt, cs)
  | '!' :: '=' :: cs => some (.differs, cs)
  | '=' :: cs => some (.equals, cs)
  | _ => none

def compare? (cs : List Char) : Option Test :=
  (operator cs).bind fun o =>
    (literal float (skip o.2)).bind fun p => if skip p.2 = [] then some (o.1 p.1) else none

def lowBound : Char → Option Bool
  | '[' => some false
  | '(' | ']' => some true
  | _ => none

def highBound : Char → Option Bool
  | ']' => some false
  | ')' | '[' => some true
  | _ => none

def range? : List Char → Option Test
  | [] => none
  | b :: cs =>
    (lowBound b).bind fun openLow =>
      (numeral (skip cs)).bind fun low =>
        match skip low.2 with
        | '.' :: '.' :: cs =>
          (numeral (skip cs)).bind fun high =>
            match skip high.2 with
            | e :: rest =>
              (highBound e).bind fun openHigh =>
                if skip rest = [] then
                  some (.range openLow (value float low.1) (value float high.1) openHigh)
                else none
            | [] => none
        | _ => none

def list? (cs : List Char) : Option Test :=
  (items float cs.length cs).bind fun p =>
    match p with
    | ([d], []) => some (.equals d)
    | (ds, []) => some (.oneOf ds)
    | _ => none

/-- the test a cell spells -/
def read (cell : List Char) : Option Test :=
  let cs := skip cell
  any? cs <|> noneOf? float cs <|> compare? float cs <|> range? float cs <|> list? float cs

end

/-! ## the grammar -/

/-- a decimal number without its sign: digits, and digits after a point -/
def Unsigned (text : List Char) : Prop :=
  ∃ whole fraction, text = whole ++ fraction ∧ whole ≠ [] ∧ (∀ c ∈ whole, c.isDigit = true) ∧
    (fraction = [] ∨ ∃ ds, fraction = '.' :: ds ∧ ds ≠ [] ∧ ∀ c ∈ ds, c.isDigit = true)

inductive Numeral : List Char → Prop
  | plus {text : List Char} : Unsigned text → Numeral text
  | minus {text : List Char} : Unsigned text → Numeral ('-' :: text)

variable {float : List Char → ℚ}

inductive Spells (float : List Char → ℚ) : List Char → Datum → Prop
  | string {s : List Char} : (∀ c ∈ s, inString c = true) →
      Spells float ('\"' :: s ++ ['\"']) (.string (String.ofList s))
  | word {s : List Char} {d : Datum} : keyword s = some d → Spells float s d
  | number {text : List Char} : Numeral text → Spells float text (.number (value float text))

inductive Items (float : List Char → ℚ) : List Char → List Datum → Prop
  | one {v x w : List Char} {d : Datum} : Blank v → Spells float x d → Blank w →
      Items float (v ++ x ++ w) [d]
  | more {v x w xs : List Char} {d : Datum} {ds : List Datum} : Blank v → Spells float x d →
      Blank w → Items float xs ds → Items float (v ++ x ++ w ++ ',' :: xs) (d :: ds)

inductive Sign : List Char → (Datum → Test) → Prop
  | le : Sign ['<', '='] (.compare .le)
  | ge : Sign ['>', '='] (.compare .ge)
  | lt : Sign ['<'] (.compare .lt)
  | gt : Sign ['>'] (.compare .gt)
  | ne : Sign ['!', '='] .differs
  | eq : Sign ['='] .equals

inductive Spelled (float : List Char → ℚ) : List Char → Test → Prop
  | blank {w : List Char} : Blank w → Spelled float w .any
  | dash {v w : List Char} : Blank v → Blank w → Spelled float (v ++ ['-'] ++ w) .any
  | equals {xs : List Char} {d : Datum} : Items float xs [d] → Spelled float xs (.equals d)
  | oneOf {xs : List Char} {d e : Datum} {ds : List Datum} : Items float xs (d :: e :: ds) →
      Spelled float xs (.oneOf (d :: e :: ds))
  | noneOf {u v xs w : List Char} {ds : List Datum} : Blank u → Blank v → Items float xs ds →
      Blank w → Spelled float (u ++ (['n', 'o', 't'] ++ v ++ '(' :: xs ++ [')']) ++ w) (.noneOf ds)
  | compare {u o v x w : List Char} {f : Datum → Test} {d : Datum} : Blank u → Sign o f →
      Blank v → Spells float x d → Blank w → Spelled float (u ++ (o ++ v ++ x) ++ w) (f d)
  | range {t u v w y z low high : List Char} {b e : Char} {openLow openHigh : Bool} : Blank t →
      lowBound b = some openLow → Blank u → Numeral low → Blank v → Blank w → Numeral high →
      Blank y → highBound e = some openHigh → Blank z →
      Spelled float (t ++ (b :: u ++ low ++ v ++ ['.', '.'] ++ w ++ high ++ y ++ [e]) ++ z)
        (.range openLow (value float low) (value float high) openHigh)

/-! ## what is read is spelled -/

theorem skip_eq (cs : List Char) : ∃ w, Blank w ∧ cs = w ++ skip cs :=
  ⟨cs.takeWhile isSpace, fun c hc => by simpa using List.mem_takeWhile_imp hc,
    List.takeWhile_append_dropWhile.symm⟩

theorem blank_of_skip {cs : List Char} (h : skip cs = []) : Blank cs := by
  obtain ⟨w, hw, he⟩ := skip_eq cs
  rw [h, List.append_nil] at he
  exact he ▸ hw

theorem inString_of_plain {c : Char} (h : plain c = true) : inString c = true :=
  (Bool.and_eq_true_iff.mp h).2

theorem unsigned_spec {cs : List Char} {p : List Char × List Char} (h : unsigned cs = some p) :
    cs = p.1 ++ p.2 ∧ Unsigned p.1 := by
  have hall : ∀ c ∈ cs.takeWhile Char.isDigit, c.isDigit = true :=
    fun c hc => List.mem_takeWhile_imp hc
  have hcs := List.takeWhile_append_dropWhile (p := Char.isDigit) (l := cs)
  unfold unsigned at h
  simp only at h
  split at h
  · exact nomatch h
  · rename_i hne
    have hwhole : Unsigned (cs.takeWhile Char.isDigit) :=
      ⟨_, [], (List.append_nil _).symm, hne, hall, .inl rfl⟩
    split at h
    · rename_i d rest hrest
      rw [hrest] at hcs
      split at h
      · rename_i hd
        obtain rfl := Option.some.inj h
        refine ⟨?_, _, _, rfl, hne, hall, .inr ⟨_, rfl, ?_, fun c hc => ?_⟩⟩
        · rw [List.append_assoc, List.cons_append, List.takeWhile_append_dropWhile, hcs]
        · simp [hd]
        · exact List.mem_takeWhile_imp hc
      · obtain rfl := Option.some.inj h
        exact ⟨hcs.symm, hwhole⟩
    · obtain rfl := Option.some.inj h
      exact ⟨hcs.symm, hwhole⟩

theorem numeral_spec {cs : List Char} {p : List Char × List Char} (h : numeral cs = some p) :
    cs = p.1 ++ p.2 ∧ Numeral p.1 := by
  unfold numeral at h
  split at h
  · obtain ⟨q, hq, rfl⟩ := Option.map_eq_some_iff.mp h
    obtain ⟨he, hu⟩ := unsigned_spec hq
    exact ⟨by rw [he]; rfl, .minus hu⟩
  · obtain ⟨he, hu⟩ := unsigned_spec h
    exact ⟨he, .plus hu⟩

theorem literal_spec {cs : List Char} {p : Datum × List Char} (h : literal float cs = some p) :
    ∃ x, cs = x ++ p.2 ∧ Spells float x p.1 := by
  unfold literal at h
  split at h
  · rename_i cs
    split at h
    · rename_i rest hrest
      obtain rfl := Option.some.inj h
      have hcs := List.takeWhile_append_dropWhile (p := plain) (l := cs)
      rw [hrest] at hcs
      exact ⟨'\"' :: cs.takeWhile plain ++ ['\"'], by simp [hcs],
        .string fun c hc => inString_of_plain (List.mem_takeWhile_imp hc)⟩
    · exact nomatch h
  · split at h
    · rename_i d hd
      obtain rfl := Option.some.inj h
      exact ⟨_, List.takeWhile_append_dropWhile.symm, .word hd⟩
    · obtain ⟨q, hq, rfl⟩ := Option.map_eq_some_iff.mp h
      obtain ⟨he, hn⟩ := numeral_spec hq
      exact ⟨q.1, he, .number hn⟩

theorem items_spec (n : Nat) {cs : List Char} {p : List Datum × List Char}
    (h : items float n cs = some p) : ∃ xs, cs = xs ++ p.2 ∧ Items float xs p.1 := by
  induction n generalizing cs p with
  | zero => exact absurd h (by simp [items])
  | succ n ih =>
    rw [items] at h
    obtain ⟨q, hq, h⟩ := Option.bind_eq_some_iff.mp h
    obtain ⟨x, hx, hd⟩ := literal_spec hq
    obtain ⟨v, hv, hcs⟩ := skip_eq cs
    obtain ⟨w, hw, hrest⟩ := skip_eq q.2
    split at h
    · rename_i rest hcomma
      obtain ⟨r, hr, rfl⟩ := Option.map_eq_some_iff.mp h
      obtain ⟨xs, hxs, hitems⟩ := ih hr
      refine ⟨v ++ x ++ w ++ ',' :: xs, ?_, .more hv hd hw hitems⟩
      rw [hcs, hx, hrest, hcomma, hxs]
      simp
    · obtain rfl := Option.some.inj h
      refine ⟨v ++ x ++ w, ?_, .one hv hd hw⟩
      conv_lhs => rw [hcs, hx, hrest]
      simp

theorem any_spec {v cs : List Char} {t : Test} (hv : Blank v) (h : any? cs = some t) :
    Spelled float (v ++ cs) t := by
  unfold any? at h
  split at h
  · obtain rfl := Option.some.inj h
    rw [List.append_nil]
    exact .blank hv
  · split at h
    · rename_i hrest
      obtain rfl := Option.some.inj h
      have : Spelled float _ .any := .dash hv (blank_of_skip hrest)
      simpa using this
    · exact nomatch h
  · exact nomatch h

theorem noneOf_spec {u cs : List Char} {t : Test} (hu : Blank u) (h : noneOf? float cs = some t) :
    Spelled float (u ++ cs) t := by
  unfold noneOf? at h
  split at h
  · rename_i rest
    obtain ⟨v, hv, hrest⟩ := skip_eq rest
    split at h
    · rename_i inner hopen
      obtain ⟨p, hp, h⟩ := Option.bind_eq_some_iff.mp h
      obtain ⟨xs, hxs, hitems⟩ := items_spec _ hp
      split at h
      · rename_i w hclose
        split at h
        · rename_i hw
          obtain rfl := Option.some.inj h
          have := Spelled.noneOf hu hv hitems (blank_of_skip hw)
          rw [hrest, hopen, hxs, hclose]
          simpa using this
        · exact nomatch h
      · exact nomatch h
    · exact nomatch h
  · exact nomatch h

theorem operator_spec {cs : List Char} {p : (Datum → Test) × List Char}
    (h : operator cs = some p) : ∃ o, cs = o ++ p.2 ∧ Sign o p.1 := by
  unfold operator at h
  split at h
  · obtain rfl := Option.some.inj h
    exact ⟨_, rfl, .le⟩
  · obtain rfl := Option.some.inj h
    exact ⟨_, rfl, .ge⟩
  · obtain rfl := Option.some.inj h
    exact ⟨_, rfl, .lt⟩
  · obtain rfl := Option.some.inj h
    exact ⟨_, rfl, .gt⟩
  · obtain rfl := Option.some.inj h
    exact ⟨_, rfl, .ne⟩
  · obtain rfl := Option.some.inj h
    exact ⟨_, rfl, .eq⟩
  · exact nomatch h

theorem compare_spec {u cs : List Char} {t : Test} (hu : Blank u)
    (h : compare? float cs = some t) : Spelled float (u ++ cs) t := by
  unfold compare? at h
  obtain ⟨p, hp, h⟩ := Option.bind_eq_some_iff.mp h
  obtain ⟨o, ho, hsign⟩ := operator_spec hp
  obtain ⟨v, hv, hrest⟩ := skip_eq p.2
  obtain ⟨q, hq, h⟩ := Option.bind_eq_some_iff.mp h
  obtain ⟨x, hx, hd⟩ := literal_spec hq
  split at h
  · rename_i hw
    obtain rfl := Option.some.inj h
    have := Spelled.compare hu hsign hv hd (blank_of_skip hw)
    rw [ho, hrest, hx]
    simpa using this
  · exact nomatch h

theorem range_spec {t cs : List Char} {test : Test} (ht : Blank t)
    (h : range? float cs = some test) : Spelled float (t ++ cs) test := by
  unfold range? at h
  split at h
  · exact nomatch h
  · rename_i b cs
    obtain ⟨openLow, hb, h⟩ := Option.bind_eq_some_iff.mp h
    obtain ⟨low, hlow, h⟩ := Option.bind_eq_some_iff.mp h
    obtain ⟨u, hu, hcs⟩ := skip_eq cs
    obtain ⟨elow, nlow⟩ := numeral_spec hlow
    obtain ⟨v, hv, hdots⟩ := skip_eq low.2
    split at h
    · rename_i rest hrest
      obtain ⟨high, hhigh, h⟩ := Option.bind_eq_some_iff.mp h
      obtain ⟨w, hw, hr⟩ := skip_eq rest
      obtain ⟨ehigh, nhigh⟩ := numeral_spec hhigh
      obtain ⟨y, hy, hend⟩ := skip_eq high.2
      split at h
      · rename_i e z he
        obtain ⟨openHigh, hbound, h⟩ := Option.bind_eq_some_iff.mp h
        split at h
        · rename_i hz
          obtain rfl := Option.some.inj h
          have : Spelled float _ _ := .range ht hb hu nlow hv hw nhigh hy hbound (blank_of_skip hz)
          rw [hcs, elow, hdots, hrest, hr, ehigh, hend, he]
          simpa using this
        · exact nomatch h
      · exact nomatch h
    · exact nomatch h

theorem Items.pad {v xs : List Char} {ds : List Datum} (hv : Blank v) (h : Items float xs ds) :
    Items float (v ++ xs) ds := by
  cases h with
  | one hu hd hw => simpa using Items.one (hv.append hu) hd hw
  | more hu hd hw hrest => simpa using Items.more (hv.append hu) hd hw hrest

theorem list_spec {v cs : List Char} {t : Test} (hv : Blank v) (h : list? float cs = some t) :
    Spelled float (v ++ cs) t := by
  unfold list? at h
  obtain ⟨p, hp, h⟩ := Option.bind_eq_some_iff.mp h
  obtain ⟨xs, hxs, hitems⟩ := items_spec _ hp
  obtain ⟨ds, rest⟩ := p
  split at h
  · rename_i d he
    obtain ⟨rfl, rfl⟩ := Prod.mk.inj he
    obtain rfl := Option.some.inj h
    rw [hxs, List.append_nil]
    exact .equals (hitems.pad hv)
  · rename_i ds' hds he
    obtain ⟨rfl, rfl⟩ := Prod.mk.inj he
    obtain rfl := Option.some.inj h
    rw [hxs, List.append_nil]
    cases hitems with
    | one hu hd hw => exact absurd rfl (hds _)
    | more hu hd hw hrest =>
      cases hrest with
      | one hu' hd' hw' => exact .oneOf ((Items.more hu hd hw (.one hu' hd' hw')).pad hv)
      | more hu' hd' hw' hrest' => exact .oneOf ((Items.more hu hd hw (.more hu' hd' hw' hrest')).pad hv)
  · exact nomatch h

theorem or_eq_some {α : Type} {a b : Option α} {x : α} (h : (a <|> b) = some x) :
    a = some x ∨ b = some x := by
  cases a with
  | none => exact .inr h
  | some y => exact .inl h

theorem spelled_of_read {cell : List Char} {t : Test} (h : read float cell = some t) :
    Spelled float cell t := by
  obtain ⟨w, hw, he⟩ := skip_eq cell
  rw [he]
  obtain h | h := or_eq_some h
  · exact any_spec hw h
  obtain h | h := or_eq_some h
  · exact noneOf_spec hw h
  obtain h | h := or_eq_some h
  · exact compare_spec hw h
  obtain h | h := or_eq_some h
  · exact range_spec hw h
  · exact list_spec hw h

end Feel

namespace Feel

variable {O : Type} [DecidableEq O]

/-- a policy with what it looks at: the outputs of the rows, and for `priority` their declared
order -/
inductive HitPolicy (O : Type) where
  | unique
  | first
  | any (output : Nat → O)
  | priority (values : List O) (output : Nat → O)

/-- the row `p` selects of the first `n`, by what the hits are; `none` stands for no row -/
def HitPolicy.Selects (p : HitPolicy O) (n : Nat) (hit : Nat → Bool) : Option Nat → Prop
  | none => ∀ i < n, hit i = false
  | some i =>
    i < n ∧ hit i = true ∧
      match p with
      | .unique => ∀ j < n, hit j = true → j = i
      | .first => ∀ j < i, hit j = false
      | .any output => ∀ j < n, hit j = true → output j = output i
      | .priority values output => values.Nodup ∧
          ∀ j < n, hit j = true → values.idxOf (output i) ≤ values.idxOf (output j)

variable {p : HitPolicy O} {n : Nat} {hit : Nat → Bool}

theorem find_range_eq_none : (List.range n).find? hit = none ↔ ∀ i < n, hit i = false := by
  simp [List.find?_eq_none]

theorem le_of_find {α : Type} {R : α → α → Prop} (hrefl : ∀ a, R a a) {l : List α}
    (hl : l.Pairwise R) {f : α → Bool} {a : α} (h : l.find? f = some a) :
    ∀ b ∈ l, f b = true → R a b := by
  obtain ⟨_, before, after, rfl, hbefore⟩ := List.find?_eq_some_iff_append.mp h
  intro b hb hf
  obtain hb | hb := List.mem_append.mp hb
  · have := hbefore b hb
    rw [hf] at this
    exact nomatch this
  · obtain rfl | hb := List.mem_cons.mp hb
    · exact hrefl b
    · exact (List.pairwise_cons.mp (List.pairwise_append.mp hl).2.1).1 b hb

theorem find_range_eq_some {i : Nat} (h : (List.range n).find? hit = some i) :
    i < n ∧ hit i = true ∧ ∀ j < i, hit j = false := by
  have hn := List.mem_range.mp (List.mem_of_find?_eq_some h)
  refine ⟨hn, List.find?_some h, fun j hj => ?_⟩
  have hle : (List.range n).Pairwise (· ≤ ·) := List.pairwise_le_range
  cases hhit : hit j with
  | false => rfl
  | true =>
    have := le_of_find le_refl hle h j (List.mem_range.mpr (hj.trans hn)) hhit
    exact absurd hj this.not_gt

theorem selects_find (hp : ∀ values output, p ≠ .priority values output)
    (h : ∃ r, p.Selects n hit r) : p.Selects n hit ((List.range n).find? hit) := by
  cases hf : (List.range n).find? hit with
  | none => exact find_range_eq_none.mp hf
  | some i =>
    obtain ⟨hn, hi, hbefore⟩ := find_range_eq_some hf
    refine ⟨hn, hi, ?_⟩
    obtain ⟨r, hr⟩ := h
    cases r with
    | none =>
      have := hr i hn
      rw [hi] at this
      exact nomatch this
    | some k =>
      obtain ⟨_, hk, hr⟩ := hr
      cases p with
      | unique =>
        intro j hj hhit
        rw [hr j hj hhit, hr i hn hi]
      | first => exact hbefore
      | any output =>
        intro j hj hhit
        rw [hr j hj hhit, hr i hn hi]
      | priority values output => exact absurd rfl (hp values output)

theorem selects_of_best {values : List O} {output : Nat → O} {i : Nat} (hn : i < n)
    (hi : hit i = true) (hbest : ∀ j < n, hit j = true →
      values.idxOf (output i) ≤ values.idxOf (output j))
    (h : ∃ r, (HitPolicy.priority values output).Selects n hit r) :
    (HitPolicy.priority values output).Selects n hit (some i) := by
  obtain ⟨r, hr⟩ := h
  cases r with
  | none =>
    have := hr i hn
    rw [hi] at this
    exact nomatch this
  | some k => exact ⟨hn, hi, hr.2.2.1, hbest⟩

end Feel
