import Velaris.Py.Value

/-!
# Values with tuples

`Value` is what JSON spells.  A `Native` value is what a program makes of it: it tells a tuple from
a list, which are never equal, and of which only the tuple can be hashed.

* `ofValue`   a value as it was read;
* `tupled`   a value whose lists stand for tuples;
* `eq`, `cmp`, `hashable`, `elem`   the operators, which on `ofValue` are those of `Value`.
-/

namespace Py

inductive Native where
  | none
  | bool (b : Bool)
  | int (n : Int)
  | float (q : ℚ)
  | str (s : String)
  | list (xs : List Native)
  | tuple (xs : List Native)
  | dict (items : List (String × Native))

namespace Native

/-! ## the operators -/

def num? : Native → Option ℚ
  | .bool b => some (if b then 1 else 0)
  | .int n => some n
  | .float q => some q
  | _ => Option.none

mutual

/-- `a == b` -/
def eq : Native → Native → Bool
  | .none, .none => true
  | .str a, .str b => a == b
  | .list xs, .list ys => eqList xs ys
  | .tuple xs, .tuple ys => eqList xs ys
  | .dict xs, .dict ys => xs.length == ys.length && eqItems xs ys
  | a, b =>
    match a.num?, b.num? with
    | some p, some q => p == q
    | _, _ => false

def eqList : List Native → List Native → Bool
  | [], [] => true
  | x :: xs, y :: ys => eq x y && eqList xs ys
  | _, _ => false

def eqItems : List (String × Native) → List (String × Native) → Bool
  | [], _ => true
  | (k, v) :: xs, ys =>
    (match ys.lookup k with
    | some w => eq v w
    | Option.none => false) && eqItems xs ys

end

mutual

/-- the order `<` and `>` read; `none` where they raise `TypeError` -/
def cmp : Native → Native → Option Ordering
  | .str a, .str b => some (compareOfLessAndEq a b)
  | .list xs, .list ys => cmpList xs ys
  | .tuple xs, .tuple ys => cmpList xs ys
  | a, b =>
    match a.num?, b.num? with
    | some p, some q => some (compareOfLessAndEq p q)
    | _, _ => Option.none

def cmpList : List Native → List Native → Option Ordering
  | [], [] => some .eq
  | [], _ :: _ => some .lt
  | _ :: _, [] => some .gt
  | x :: xs, y :: ys => if eq x y then cmpList xs ys else cmp x y

end

mutual

def hashable : Native → Bool
  | .list _ | .dict _ => false
  | .tuple xs => hashableAll xs
  | _ => true

def hashableAll : List Native → Bool
  | [] => true
  | x :: xs => hashable x && hashableAll xs

end

/-- `x in xs` -/
def elem (x : Native) (xs : List Native) : Bool := xs.any (eq x)

/-- `set(xs)`, as the list of its elements -/
def mkSet (xs : List Native) : Except Err (List Native) :=
  if xs.all hashable then .ok xs else .error .typeError

def subset (s t : List Native) : Bool := s.all (elem · t)

def setEq (s t : List Native) : Bool := subset s t && subset t s

/-! ## reading a value -/

def str? : Native → Option String
  | .str s => some s
  | _ => Option.none

/-- `bool(v)` -/
def truthy : Native → Bool
  | .none => false
  | .bool b => b
  | .int n => n != 0
  | .float q => q != 0
  | .str s => s != ""
  | .list xs => !xs.isEmpty
  | .tuple xs => !xs.isEmpty
  | .dict items => !items.isEmpty

/-- `list(v)`; `none` where it raises `TypeError` -/
def items? : Native → Option (List Native)
  | .str s => some (s.toList.map fun c => .str (String.ofList [c]))
  | .list xs => some xs
  | .tuple xs => some xs
  | .dict items => some (items.map fun i => .str i.1)
  | _ => Option.none

/-! ## values as they were read -/

mutual

def ofValue : Value → Native
  | .none => .none
  | .bool b => .bool b
  | .int n => .int n
  | .float q => .float q
  | .str s => .str s
  | .list xs => .list (ofValues xs)
  | .dict items => .dict (ofItems items)

def ofValues : List Value → List Native
  | [] => []
  | x :: xs => ofValue x :: ofValues xs

def ofItems : List (String × Value) → List (String × Native)
  | [] => []
  | (k, v) :: items => (k, ofValue v) :: ofItems items

end

mutual

def tupled : Value → Native
  | .list xs => .tuple (tupledAll xs)
  | .none => .none
  | .bool b => .bool b
  | .int n => .int n
  | .float q => .float q
  | .str s => .str s
  | .dict items => .dict (ofItems items)

def tupledAll : List Value → List Native
  | [] => []
  | x :: xs => tupled x :: tupledAll xs

end

@[simp] theorem ofValues_eq (xs : List Value) : ofValues xs = xs.map ofValue := by
  induction xs with
  | nil => rfl
  | cons x xs ih => rw [ofValues, ih]; rfl

@[simp] theorem tupledAll_eq (xs : List Value) : tupledAll xs = xs.map tupled := by
  induction xs with
  | nil => rfl
  | cons x xs ih => rw [tupledAll, ih]; rfl

@[simp] theorem num?_ofValue (v : Value) : (ofValue v).num? = v.num? := by
  cases v <;> rfl

theorem length_ofItems (items : List (String × Value)) : (ofItems items).length = items.length := by
  induction items with
  | nil => rfl
  | cons item items ih => rw [ofItems, List.length_cons, List.length_cons, ih]

theorem lookup_ofItems (k : String) (items : List (String × Value)) :
    (ofItems items).lookup k = (items.lookup k).map ofValue := by
  induction items with
  | nil => rfl
  | cons item items ih =>
    obtain ⟨l, v⟩ := item
    rw [ofItems, List.lookup_cons, List.lookup_cons, ih]
    cases k == l <;> rfl

mutual

theorem eq_ofValue : ∀ a b : Value, eq (ofValue a) (ofValue b) = a.eq b
  | .none, b | .bool _, b | .int _, b | .float _, b | .str _, b => by
    cases b <;> simp [ofValue, eq, Value.eq, num?, Value.num?]
  | .list xs, b => by
    cases b with
    | list ys => simpa [ofValue, eq, Value.eq] using eqList_ofValue xs ys
    | none | bool _ | int _ | float _ | str _ | dict _ =>
      simp [ofValue, eq, Value.eq, num?, Value.num?]
  | .dict xs, b => by
    cases b with
    | dict ys => simp [ofValue, eq, Value.eq, length_ofItems, eqItems_ofValue xs ys]
    | none | bool _ | int _ | float _ | str _ | list _ =>
      simp [ofValue, eq, Value.eq, num?, Value.num?]

theorem eqList_ofValue : ∀ xs ys : List Value,
    eqList (xs.map ofValue) (ys.map ofValue) = Value.eqList xs ys
  | [], [] => rfl
  | [], y :: ys => rfl
  | x :: xs, [] => rfl
  | x :: xs, y :: ys => by
    simp [eqList, Value.eqList, eq_ofValue x y, eqList_ofValue xs ys]

theorem eqItems_ofValue : ∀ xs ys : List (String × Value),
    eqItems (ofItems xs) (ofItems ys) = Value.eqItems xs ys
  | [], ys => rfl
  | (k, v) :: xs, ys => by
    rw [ofItems, eqItems, Value.eqItems, eqItems_ofValue xs ys, lookup_ofItems]
    cases ys.lookup k with
    | none => rfl
    | some w => simp [eq_ofValue v w]

end

mutual

theorem cmp_ofValue : ∀ a b : Value, cmp (ofValue a) (ofValue b) = a.cmp b
  | .none, b | .bool _, b | .int _, b | .float _, b | .str _, b | .dict _, b => by
    cases b <;> simp [ofValue, cmp, Value.cmp, num?, Value.num?]
  | .list xs, b => by
    cases b with
    | list ys => simpa [ofValue, cmp, Value.cmp] using cmpList_ofValue xs ys
    | none | bool _ | int _ | float _ | str _ | dict _ =>
      simp [ofValue, cmp, Value.cmp, num?, Value.num?]

theorem cmpList_ofValue : ∀ xs ys : List Value,
    cmpList (xs.map ofValue) (ys.map ofValue) = Value.cmpList xs ys
  | [], [] => rfl
  | [], y :: ys => rfl
  | x :: xs, [] => rfl
  | x :: xs, y :: ys => by
    simp [cmpList, Value.cmpList, eq_ofValue x y, cmp_ofValue x y, cmpList_ofValue xs ys]

end

@[simp] theorem hashable_ofValue (v : Value) : (ofValue v).hashable = v.hashable := by
  cases v <;> rfl

theorem elem_ofValue (v : Value) (xs : List Value) :
    elem (ofValue v) (xs.map ofValue) = v.elem xs := by
  unfold elem Value.elem
  rw [List.any_map]
  congr 1
  funext w
  exact eq_ofValue v w

theorem mkSet_ofValue (xs : List Value) :
    mkSet (xs.map ofValue) = (Value.mkSet xs).map (·.map ofValue) := by
  have hall : (xs.map ofValue).all hashable = xs.all Value.hashable := by
    rw [List.all_map]
    congr 1
    funext v
    exact hashable_ofValue v
  unfold mkSet Value.mkSet
  rw [hall]
  split <;> rfl

theorem subset_ofValue (xs ys : List Value) :
    subset (xs.map ofValue) (ys.map ofValue) = Value.subset xs ys := by
  unfold subset Value.subset
  rw [List.all_map]
  congr 1
  funext v
  exact elem_ofValue v ys

theorem setEq_ofValue (xs ys : List Value) :
    setEq (xs.map ofValue) (ys.map ofValue) = Value.setEq xs ys := by
  unfold setEq Value.setEq
  rw [subset_ofValue, subset_ofValue]

theorem tupled_scalar {v : Value} (h : v.hashable = true) : tupled v = ofValue v := by
  cases v <;> first | rfl | cases h

end Native
end Py
