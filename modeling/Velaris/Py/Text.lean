import Velaris.Py.Value
import Mathlib.Algebra.Group.Nat.Defs
import Mathlib.Algebra.Group.Int.Defs

/-!
# Numbers and identifiers in texts

* `intText`   `int(text, base)`;
* `toInt`   `int(v)` of a value;
* `iter`   `iter(v)`;
* `slice`   `xs[:n]`;
* `uuid`   `uuid.UUID(text)`, and `uuidText`, its `str`.

`none` stands for the `ValueError` or `TypeError` Python raises.
-/

namespace Py

/-- `xs[:n]` -/
def slice {α : Type} (n : Int) (xs : List α) : List α :=
  xs.take (if 0 ≤ n then n.toNat else (xs.length + n).toNat)

/-! ## `int` -/

def zeros : List Nat :=
  [0x30, 0x660, 0x6f0, 0x7c0, 0x966, 0x9e6, 0xa66, 0xae6, 0xb66, 0xbe6, 0xc66, 0xce6, 0xd66, 0xde6,
    0xe50, 0xed0, 0xf20, 0x1040, 0x1090, 0x17e0, 0x1810, 0x1946, 0x19d0, 0x1a80, 0x1a90, 0x1b50,
    0x1bb0, 0x1c40, 0x1c50, 0xa620, 0xa8d0, 0xa900, 0xa9d0, 0xa9f0, 0xaa50, 0xabf0, 0xff10, 0x104a0,
    0x10d30, 0x11066, 0x110f0, 0x11136, 0x111d0, 0x112f0, 0x11450, 0x114d0, 0x11650, 0x116c0,
    0x11730, 0x118e0, 0x11950, 0x11c50, 0x11d50, 0x11da0, 0x16a60, 0x16ac0, 0x16b50, 0x1d7ce,
    0x1d7d8, 0x1d7e2, 0x1d7ec, 0x1d7f6, 0x1e140, 0x1e2f0, 0x1e950, 0x1fbf0]

/-- `unicodedata.decimal(c)` -/
def decimal? (c : Char) : Option Nat :=
  (zeros.find? fun z => z ≤ c.toNat ∧ c.toNat < z + 10).map (c.toNat - ·)

/-- the text `int` reads: where it is not all ASCII, every digit and every blank is made so -/
def toAscii (s : List Char) : List Char :=
  if s.all (·.toNat < 128) then s
  else s.map fun c =>
    match decimal? c with
    | some d => Char.ofNat (0x30 + d)
    | none => if isSpace c then ' ' else c

/-- the blanks `int` skips -/
def isBlank (c : Char) : Bool := c == ' ' || (9 ≤ c.toNat && c.toNat ≤ 13)

def digit? (base : Nat) (c : Char) : Option Nat :=
  let n := c.toNat
  let d := if 48 ≤ n ∧ n ≤ 57 then n - 48
    else if 65 ≤ n ∧ n ≤ 90 then n - 55
    else if 97 ≤ n ∧ n ≤ 122 then n - 87
    else base
  if d < base then some d else none

/-- digits with single underscores between them; `after` says that a digit was just read -/
def digits (base : Nat) : Nat → Bool → List Char → Option Nat
  | acc, after, [] => if after then some acc else none
  | acc, after, '_' :: cs => if after then digits base acc false cs else none
  | acc, _, c :: cs => (digit? base c).bind fun d => digits base (acc * base + d) true cs

/-- the text after `0x`, and after the underscore that may follow it -/
def afterMark : List Char → List Char
  | '0' :: c :: '_' :: cs => if c = 'x' ∨ c = 'X' then cs else '0' :: c :: '_' :: cs
  | '0' :: c :: cs => if c = 'x' ∨ c = 'X' then cs else '0' :: c :: cs
  | cs => cs

/-- `sys.int_info.default_max_str_digits`, for bases that are no power of two -/
def MAX_STR_DIGITS : Nat := 4300

def magnitude (base : Nat) (cs : List Char) : Option Nat :=
  if base = 16 then digits 16 0 false (afterMark cs)
  else if MAX_STR_DIGITS < (cs.filter (· ≠ '_')).length then none
  else digits base 0 false cs

/-- `int(text, base)` -/
def intText (base : Nat) (text : String) : Option Int :=
  match rstrip isBlank ((toAscii text.toList).dropWhile isBlank) with
  | '+' :: cs => (magnitude base cs).map Int.ofNat
  | '-' :: cs => (magnitude base cs).map fun n => -(n : Int)
  | cs => (magnitude base cs).map Int.ofNat

/-- `int(v)` -/
def Value.toInt : Value → Option Int
  | .bool b => some (if b then 1 else 0)
  | .int n => some n
  | .float q => some (q.num.tdiv q.den)
  | .str s => intText 10 s
  | .none | .list _ | .dict _ => Option.none

/-- `iter(v)`: the elements of a list, the keys of a dictionary, the characters of a string -/
def Value.iter : Value → Option (List Value)
  | .list xs => some xs
  | .dict items => some (items.map fun p => .str p.1)
  | .str s => some (s.toList.map fun c => .str (String.singleton c))
  | .none | .bool _ | .int _ | .float _ => Option.none

/-! ## `int` of digits -/

theorem isDigit_toNat {c : Char} (h : c.isDigit = true) : 48 ≤ c.toNat ∧ c.toNat ≤ 57 := by
  simp only [Char.isDigit, Bool.and_eq_true, decide_eq_true_eq] at h
  exact ⟨h.1, h.2⟩

theorem digits_of_isDigit (acc : Nat) {ds : List Char} (h : ∀ c ∈ ds, c.isDigit = true)
    (after : Bool) (hne : after = true ∨ ds ≠ []) :
    digits 10 acc after ds = some (ds.foldl (fun n c => n * 10 + (c.toNat - 48)) acc) := by
  induction ds generalizing acc after with
  | nil =>
    obtain rfl | hne := hne
    · rfl
    · exact absurd rfl hne
  | cons c ds ih =>
    obtain ⟨h1, h2⟩ := isDigit_toNat (h c List.mem_cons_self)
    have hd : digit? 10 c = some (c.toNat - 48) := by
      simp only [digit?, h1, h2, and_self, if_true]
      rw [if_pos (by omega)]
    have hc : c ≠ '_' := fun he => by
      rw [he] at h1 h2
      exact absurd h2 (by decide)
    rw [digits.eq_def]
    split
    · exact nomatch ‹c :: ds = []›
    · rename_i he
      exact absurd (List.cons.inj he).1 hc
    · rename_i he
      obtain ⟨rfl, rfl⟩ := List.cons.inj he
      rw [hd]
      exact ih _ (fun e he => h e (List.mem_cons_of_mem c he)) true
        (.inl rfl)

theorem isBlank_of_isDigit {c : Char} (h : c.isDigit = true) : isBlank c = false := by
  obtain ⟨h1, h2⟩ := isDigit_toNat h
  have hne : c ≠ ' ' := fun he => by
    rw [he] at h1
    exact absurd h1 (by decide)
  simp only [isBlank, Bool.or_eq_false_iff, beq_eq_false_iff_ne, Bool.and_eq_false_iff,
    decide_eq_false_iff_not]
  exact ⟨hne, .inr (by omega)⟩

theorem dropWhile_of_forall {p : Char → Bool} {s : List Char} (h : ∀ c ∈ s, p c = false) :
    s.dropWhile p = s := by
  cases s with
  | nil => rfl
  | cons c s => rw [List.dropWhile_cons_of_neg (by simp [h c List.mem_cons_self])]

theorem rstrip_of_forall {p : Char → Bool} {s : List Char} (h : ∀ c ∈ s, p c = false) :
    rstrip p s = s := by
  rw [rstrip, dropWhile_of_forall fun c hc => h c (List.mem_reverse.mp hc), List.reverse_reverse]

/-! ## `uuid.UUID` -/

/-- `s.replace(needle, "")`; the number says how much of an occurrence is still to be left out -/
def remove (needle : List Char) : Nat → List Char → List Char
  | _, [] => []
  | n + 1, _ :: cs => remove needle n cs
  | 0, c :: cs =>
    if needle.isPrefixOf (c :: cs) then remove needle (needle.length - 1) cs
    else c :: remove needle 0 cs

/-- `uuid.UUID(text)` -/
def uuid (text : String) : Option Uuid :=
  let braces := fun c => c = '{' ∨ c = '}'
  let bare := remove "uuid:".toList 0 (remove "urn:".toList 0 text.toList)
  let hex := (rstrip (braces ·) (bare.dropWhile (braces ·))).filter (· ≠ '-')
  if hex.length = 32 then
    (intText 16 (String.ofList hex)).bind fun n =>
      if 0 ≤ n ∧ n < 2 ^ 128 then some n.toNat else none
  else none

/-- `str(u)` -/
def uuidText (u : Uuid) : String :=
  let hex := (List.range 32).map fun i => Nat.digitChar (u / 16 ^ (31 - i) % 16)
  String.ofList (hex.take 8 ++ '-' :: (hex.drop 8).take 4 ++ '-' :: (hex.drop 12).take 4 ++
    '-' :: (hex.drop 16).take 4 ++ '-' :: hex.drop 20)

end Py
