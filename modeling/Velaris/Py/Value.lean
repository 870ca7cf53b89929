import Mathlib.Data.Rat.Defs
import Mathlib.Data.List.Basic
import Mathlib.Order.Defs.LinearOrder

/-!
# Python values as they come out of JSON

`Py.Value` has the values that JSON text and a JSON column give: `None`, booleans, integers,
floats, strings, lists and dictionaries.  A float is its exact rational value (a stored float is
finite).  A dictionary is its list of items in insertion order, with distinct keys.

* `Value.eq`   the `==` operator: `True == 1 == 1.0`, lists by position, dictionaries by key;
* `Value.cmp`   what `<`, `<=`, `>`, `>=` compare: numbers with numbers, strings with strings,
    lists by their first difference; `none` where Python raises `TypeError`;
* `Value.same`   equality of the written values (`1` and `1.0` differ), which is the equality of
    their `repr` texts; it decides the equality of the Lean type;
* `asSet`   `set(xs)` of a list, which raises on a list or dictionary inside it;
* `Atom`   what a value without parts is to `==`: `eq_iff_atom`, `setEq_iff_atom`.
-/

namespace Py

/-- the exceptions the modelled code catches by their class -/
inductive Err where
  | typeError
  deriving DecidableEq

inductive Value where
  | none
  | bool (b : Bool)
  | int (n : Int)
  | float (q : ℚ)
  | str (s : String)
  | list (xs : List Value)
  | dict (items : List (String × Value))

namespace Value

instance : Inhabited Value := ⟨.none⟩

/-! ## equality of the written values -/

mutual

def same : Value → Value → Bool
  | .none, .none => true
  | .bool a, .bool b => a == b
  | .int a, .int b => a == b
  | .float a, .float b => a == b
  | .str a, .str b => a == b
  | .list xs, .list ys => sameList xs ys
  | .dict xs, .dict ys => sameItems xs ys
  | _, _ => false

def sameList : List Value → List Value → Bool
  | [], [] => true
  | x :: xs, y :: ys => same x y && sameList xs ys
  | _, _ => false

def sameItems : List (String × Value) → List (String × Value) → Bool
  | [], [] => true
  | (k, x) :: xs, (l, y) :: ys => k == l && same x y && sameItems xs ys
  | _, _ => false

end

mutual

theorem same_iff : ∀ a b : Value, same a b = true ↔ a = b
  | .none, b | .bool _, b | .int _, b | .float _, b | .str _, b => by cases b <;> simp [same]
  | .list xs, b => by cases b <;> simp [same, sameList_iff xs]
  | .dict xs, b => by cases b <;> simp [same, sameItems_iff xs]

theorem sameList_iff : ∀ xs ys : List Value, sameList xs ys = true ↔ xs = ys
  | [], ys => by cases ys <;> simp [sameList]
  | x :: xs, ys => by cases ys <;> simp [sameList, same_iff x, sameList_iff xs]

theorem sameItems_iff : ∀ xs ys : List (String × Value), sameItems xs ys = true ↔ xs = ys
  | [], ys => by cases ys <;> simp [sameItems]
  | (k, x) :: xs, ys => by
    cases ys with
    | nil => simp [sameItems]
    | cons y ys =>
      obtain ⟨l, y⟩ := y
      simp [sameItems, same_iff x, sameItems_iff xs]

end

instance : DecidableEq Value := fun a b => decidable_of_iff _ (same_iff a b)

/-! ## the operators -/

/-- the number a value is, where it is one (`True` is 1) -/
def num? : Value → Option ℚ
  | .bool b => some (if b then 1 else 0)
  | .int n => some n
  | .float q => some q
  | _ => .none

mutual

/-- `a == b` -/
def eq : Value → Value → Bool
  | .none, .none => true
  | .str a, .str b => a == b
  | .list xs, .list ys => eqList xs ys
  | .dict xs, .dict ys => xs.length == ys.length && eqItems xs ys
  | a, b =>
    match a.num?, b.num? with
    | some p, some q => p == q
    | _, _ => false

def eqList : List Value → List Value → Bool
  | [], [] => true
  | x :: xs, y :: ys => eq x y && eqList xs ys
  | _, _ => false

def eqItems : List (String × Value) → List (String × Value) → Bool
  | [], _ => true
  | (k, v) :: xs, ys =>
    (match ys.lookup k with
    | some w => eq v w
    | .none => false) && eqItems xs ys

end

mutual

/-- the order `<` and `>` read; `none` where they raise `TypeError` -/
def cmp : Value → Value → Option Ordering
  | .str a, .str b => some (compareOfLessAndEq a b)
  | .list xs, .list ys => cmpList xs ys
  | a, b =>
    match a.num?, b.num? with
    | some p, some q => some (compareOfLessAndEq p q)
    | _, _ => .none

def cmpList : List Value → List Value → Option Ordering
  | [], [] => some .eq
  | [], _ :: _ => some .lt
  | _ :: _, [] => some .gt
  | x :: xs, y :: ys => if eq x y then cmpList xs ys else cmp x y

end

/-- `bool(v)` -/
def truthy : Value → Bool
  | .none => false
  | .bool b => b
  | .int n => n != 0
  | .float q => q != 0
  | .str s => s != ""
  | .list xs => !xs.isEmpty
  | .dict xs => !xs.isEmpty

def hashable : Value → Bool
  | .list _ | .dict _ => false
  | _ => true

/-- `x in xs` for a list or a set `xs` -/
def elem (x : Value) (xs : List Value) : Bool := xs.any (eq x)

/-- `set(xs)`, as the list of its elements -/
def mkSet (xs : List Value) : Except Err (List Value) :=
  if xs.all hashable then .ok xs else .error .typeError

/-- `s <= t` of two sets -/
def subset (s t : List Value) : Bool := s.all (elem · t)

/-- `s == t` of two sets -/
def setEq (s t : List Value) : Bool := subset s t && subset t s

end Value

/-! ## values without parts -/

/-- a value without parts, up to `==` -/
inductive Atom where
  | null
  | number (q : ℚ)
  | text (s : String)

namespace Value

def atom : Value → Option Atom
  | .none => some .null
  | .bool b => some (.number (if b then 1 else 0))
  | .int n => some (.number n)
  | .float q => some (.number q)
  | .str s => some (.text s)
  | .list _ | .dict _ => Option.none

theorem hashable_iff {v : Value} : v.hashable = true ↔ ∃ k, v.atom = some k := by
  cases v <;> simp [hashable, atom]

theorem eq_iff_atom {v w : Value} {k : Atom} (h : w.atom = some k) :
    v.eq w = true ↔ v.atom = some k := by
  cases w with
  | none | bool _ | int _ | float _ | str _ =>
    rw [atom, Option.some.injEq] at h
    rw [← h]
    cases v <;> simp [eq, atom, num?]
  | list _ | dict _ => cases h

theorem eq_iff_atom' {v w : Value} {k : Atom} (h : v.atom = some k) :
    v.eq w = true ↔ w.atom = some k := by
  cases v with
  | none | bool _ | int _ | float _ | str _ =>
    rw [atom, Option.some.injEq] at h
    rw [← h]
    cases w <;> simp [eq, atom, num?] <;> exact eq_comm
  | list _ | dict _ => cases h

theorem elem_iff_atom {v : Value} {xs : List Value} {k : Atom} (h : v.atom = some k) :
    v.elem xs = true ↔ some k ∈ xs.map atom := by
  rw [elem, List.any_eq_true, List.mem_map]
  exact exists_congr fun w => and_congr_right fun _ => eq_iff_atom' h

theorem subset_iff_atom {xs ys : List Value} (h : xs.all hashable = true) :
    subset xs ys = true ↔ xs.map atom ⊆ ys.map atom := by
  rw [subset, List.all_eq_true]
  constructor
  · intro hsub k hk
    obtain ⟨x, hx, rfl⟩ := List.mem_map.mp hk
    obtain ⟨k, hk⟩ := hashable_iff.mp (List.all_eq_true.mp h x hx)
    rw [hk]
    exact (elem_iff_atom hk).mp (hsub x hx)
  · intro hsub x hx
    obtain ⟨k, hk⟩ := hashable_iff.mp (List.all_eq_true.mp h x hx)
    rw [elem_iff_atom hk, ← hk]
    exact hsub (List.mem_map.mpr ⟨x, hx, rfl⟩)

theorem setEq_iff_atom {xs ys : List Value} (hxs : xs.all hashable = true)
    (hys : ys.all hashable = true) :
    setEq xs ys = true ↔ ∀ k, k ∈ xs.map atom ↔ k ∈ ys.map atom := by
  rw [setEq, Bool.and_eq_true, subset_iff_atom hxs, subset_iff_atom hys]
  constructor
  · intro h k
    exact ⟨fun hk => h.1 hk, fun hk => h.2 hk⟩
  · intro h
    exact ⟨fun k hk => (h k).mp hk, fun k hk => (h k).mpr hk⟩

theorem eqList_map_atom {xs ys : List Value} (hxs : xs.all hashable = true)
    (h : eqList xs ys = true) : ys.map atom = xs.map atom := by
  induction xs generalizing ys with
  | nil =>
    cases ys with
    | nil => rfl
    | cons y ys => cases h
  | cons x xs ih =>
    cases ys with
    | nil => cases h
    | cons y ys =>
      rw [List.all_cons, Bool.and_eq_true] at hxs
      rw [eqList, Bool.and_eq_true] at h
      obtain ⟨k, hk⟩ := hashable_iff.mp hxs.1
      rw [List.map_cons, List.map_cons, ih hxs.2 h.2, hk, (eq_iff_atom' hk).mp h.1]

theorem eqList_self {xs : List Value} (hxs : xs.all hashable = true) : eqList xs xs = true := by
  induction xs with
  | nil => rfl
  | cons x xs ih =>
    rw [List.all_cons, Bool.and_eq_true] at hxs
    obtain ⟨k, hk⟩ := hashable_iff.mp hxs.1
    rw [eqList, (eq_iff_atom hk).mpr hk, ih hxs.2]
    rfl

end Value

/-! ## strings -/

/-- the characters `str.strip()` removes -/
def isSpace (c : Char) : Bool :=
  let n := c.toNat
  (9 ≤ n && n ≤ 13) || (28 ≤ n && n ≤ 32) || n == 0x85 || n == 0xa0 || n == 0x1680 ||
    (0x2000 ≤ n && n ≤ 0x200a) || n == 0x2028 || n == 0x2029 || n == 0x202f || n == 0x205f ||
    n == 0x3000

/-- `s.rstrip(...)` of the characters `p` accepts -/
def rstrip (p : Char → Bool) (s : List Char) : List Char := (s.reverse.dropWhile p).reverse

/-- `s.strip()` -/
def strip (s : List Char) : List Char := rstrip isSpace (s.dropWhile isSpace)

/-- `needle in hay` for two strings -/
def substr (needle hay : List Char) : Bool := hay.tails.any needle.isPrefixOf

/-! ## identifiers and time -/

/-- a uuid, as the 128-bit number its hexadecimal text spells; the texts are ordered alike -/
abbrev Uuid := Nat

/-- `timedelta(seconds=n)`, in microseconds -/
def seconds (n : Int) : Int := n * 1000000

/-- `timedelta(days=n)` -/
def days (n : Int) : Int := seconds (86400 * n)

end Py
