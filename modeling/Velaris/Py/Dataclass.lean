import Velaris.Base.Table
import Velaris.Base.Traverse
import Velaris.Py.Value

/-!
# Python dataclass instances and enum members

`Obj C M` has the values a dataclass field may hold, over a set `C` of dataclasses and a set `M`
of enum members: the JSON values, tuples, members and instances.  The fields of an instance are
the list of their names and values, in the order of the class.

* `Obj.jsonSafe`   the JSON value of an object: instances as dictionaries, members by their
    `value`, tuples as lists;
* `Obj.ofValue`   a JSON value read as an object;
* `Classes`   the names, the fields and the defaults of the dataclasses;
* `Classes.construct` the call `cls(**kwargs)`;
* `Obj.Plain`   the objects that come back from JSON as they were.
-/

namespace Py

inductive Obj (C M : Type) where
  | none
  | bool (b : Bool)
  | int (n : Int)
  | float (q : ℚ)
  | str (s : String)
  | member (m : M)
  | list (xs : List (Obj C M))
  | tuple (xs : List (Obj C M))
  | dict (items : List (String × Obj C M))
  | inst (cls : C) (fields : List (String × Obj C M))

namespace Obj

variable {C M : Type}

instance : Inhabited (Obj C M) := ⟨.none⟩

def ofOption : Option String → Obj C M
  | some s => .str s
  | .none => .none

def strs (xs : List String) : Obj C M := .list (xs.map .str)

/-- `getattr(o, field)` of an instance -/
def attr (field : String) : Obj C M → Option (Obj C M)
  | .inst _ fields => fields.lookup field
  | _ => .none

/-! ## to JSON and back -/

section
variable (value : M → Value)

mutual

/-- the recursion over dataclasses, enums, dictionaries and sequences; `asdict` has turned the
instances inside an instance into dictionaries already, which is what the recursion does too -/
def jsonSafe : Obj C M → Value
  | .none => .none
  | .bool b => .bool b
  | .int n => .int n
  | .float q => .float q
  | .str s => .str s
  | .member m => value m
  | .list xs => .list (jsonSafeList xs)
  | .tuple xs => .list (jsonSafeList xs)
  | .dict items => .dict (jsonSafeItems items)
  | .inst _ fields => .dict (jsonSafeItems fields)

def jsonSafeList : List (Obj C M) → List Value
  | [] => []
  | x :: xs => jsonSafe x :: jsonSafeList xs

def jsonSafeItems : List (String × Obj C M) → List (String × Value)
  | [] => []
  | (k, x) :: xs => (k, jsonSafe x) :: jsonSafeItems xs

end

end

mutual

def ofValue : Value → Obj C M
  | .none => .none
  | .bool b => .bool b
  | .int n => .int n
  | .float q => .float q
  | .str s => .str s
  | .list xs => .list (ofValues xs)
  | .dict items => .dict (ofItems items)

def ofValues : List Value → List (Obj C M)
  | [] => []
  | x :: xs => ofValue x :: ofValues xs

def ofItems : List (String × Value) → List (String × Obj C M)
  | [] => []
  | (k, x) :: xs => (k, ofValue x) :: ofItems xs

end

theorem jsonSafeItems_eq (value : M → Value) (items : List (String × Obj C M)) :
    jsonSafeItems value items = items.map fun i => (i.1, jsonSafe value i.2) := by
  induction items with
  | nil => rfl
  | cons i items ih => rw [jsonSafeItems, ih, List.map_cons]

theorem jsonSafeList_eq (value : M → Value) (xs : List (Obj C M)) :
    jsonSafeList value xs = xs.map (jsonSafe value) := by
  induction xs with
  | nil => rfl
  | cons x xs ih => rw [jsonSafeList, ih, List.map_cons]

theorem ofValues_eq (xs : List Value) : (ofValues xs : List (Obj C M)) = xs.map ofValue := by
  induction xs with
  | nil => rfl
  | cons x xs ih => rw [ofValues, ih, List.map_cons]

/-! ## the objects JSON gives back -/

/-- the object is what JSON text says: no member, tuple or instance is in it -/
def Plain (o : Obj C M) : Prop := ∀ value : M → Value, ofValue (o.jsonSafe value) = o

theorem plain_none : Plain (.none : Obj C M) := fun _ => rfl

theorem plain_str (s : String) : Plain (.str s : Obj C M) := fun _ => rfl

theorem plain_ofOption (s : Option String) : Plain (ofOption s : Obj C M) := by
  cases s with
  | none => exact plain_none
  | some s => exact plain_str s

theorem plain_strs (xs : List String) : Plain (strs xs : Obj C M) := by
  intro value
  rw [strs, jsonSafe, jsonSafeList_eq, ofValue, ofValues_eq, List.map_map, List.map_map]
  rfl

end Obj

/-! ## dataclasses -/

/-- the fields of a class come with their default, where they have one -/
structure Classes (C M : Type) where
  name : C → String
  fields : C → List (String × Option (Obj C M))
  nodup : ∀ c, ((fields c).map Prod.fst).Nodup

namespace Classes

variable {C M : Type} (T : Classes C M)

def fieldNames (c : C) : List String := (T.fields c).map Prod.fst

def fieldValue (kwargs : List (String × Obj C M)) (f : String × Option (Obj C M)) :
    Option (String × Obj C M) :=
  match kwargs.lookup f.1, f.2 with
  | some v, _ => some (f.1, v)
  | none, some d => some (f.1, d)
  | none, none => none

/-- `cls(**kwargs)`; `none` where Python raises `TypeError` for a name the class does not have,
or for a field without a value -/
def construct (c : C) (kwargs : List (String × Obj C M)) : Option (Obj C M) :=
  if kwargs.all fun i => i.1 ∈ T.fieldNames c then
    ((T.fields c).mapM (fieldValue kwargs)).map (.inst c)
  else none

variable {T}

theorem mapM_fieldValue {kwargs items : List (String × Obj C M)}
    {fields : List (String × Option (Obj C M))} (hf : fields.map Prod.fst = items.map Prod.fst)
    (hk : ∀ i ∈ items, kwargs.lookup i.1 = some i.2) :
    fields.mapM (fieldValue kwargs) = some items := by
  induction items generalizing fields with
  | nil =>
    rw [List.map_eq_nil_iff.mp hf]
    rfl
  | cons i items ih =>
    cases fields with
    | nil => cases hf
    | cons f fields =>
      obtain ⟨hfi, hf⟩ := List.cons.inj hf
      have hi : fieldValue kwargs f = some i := by
        rw [fieldValue, hfi, hk i List.mem_cons_self]
      rw [List.mapM_cons, hi, ih hf fun j hj => hk j (List.mem_cons_of_mem _ hj)]
      rfl

theorem construct_all {c : C} {items : List (String × Obj C M)}
    (h : items.map Prod.fst = T.fieldNames c) : T.construct c items = some (.inst c items) := by
  have hall : items.all (fun i => i.1 ∈ T.fieldNames c) = true := by
    rw [List.all_eq_true]
    intro i hi
    rw [← h]
    exact decide_eq_true (List.mem_map_of_mem hi)
  have hn : (items.map Prod.fst).Nodup := h ▸ T.nodup c
  rw [construct, if_pos hall,
    mapM_fieldValue h.symm fun i hi => Base.lookup_of_mem_nodup hn hi]
  rfl

/-- the class called with some of its fields, the others having defaults -/
theorem construct_isSome {c : C} {kwargs : List (String × Obj C M)}
    (hk : ∀ i ∈ kwargs, i.1 ∈ T.fieldNames c)
    (hr : ∀ f ∈ T.fields c, f.2 = none → (kwargs.lookup f.1).isSome) :
    ∃ fields, T.construct c kwargs = some (.inst c fields) := by
  have hall : kwargs.all (fun i => i.1 ∈ T.fieldNames c) = true := by
    rw [List.all_eq_true]
    exact fun i hi => decide_eq_true (hk i hi)
  have hsome : ∀ f ∈ T.fields c, (fieldValue kwargs f).isSome := by
    intro f hf
    rw [fieldValue]
    cases hl : kwargs.lookup f.1 with
    | some v => rfl
    | none =>
      cases hd : f.2 with
      | some d => rfl
      | none =>
        have h := hr f hf hd
        rw [hl] at h
        cases h
  obtain ⟨fields, hfields⟩ := Base.exists_mapM hsome
  refine ⟨fields, ?_⟩
  rw [construct, if_pos hall, hfields]
  rfl

end Classes

end Py
