import Mathlib.Data.List.Perm.Basic
import Velaris.Base.Table
import Velaris.Base.Traverse
import Velaris.Py.Json
import Velaris.Py.Runtime

/-!
# The gate of a reorder

`hxevolve/gates.py`: the errors of a proposed definition that is not the current one with its stages
and steps moved.

* `validateReorder`   the gate;
* `Alike`   what it asks, without the dictionaries it goes through;
* `Lasts`   a dictionary by id has the last object of each id;
* `validateReorder_nil_iff`   the gate has no error exactly where the definitions are alike.
-/

namespace HxEvolve
open Py Base

/-! ## the gate -/

def STAGE_MUTABLE : List String := ["order", "steps", "stage_type"]

def STAGE_TYPES : List Value := [.str "linear", .str "parallel"]

/-- `_canon`; the texts are only compared -/
def canon (v : Value) : List Char := Json.text v.sortKeys

def object? : Value → Option Dict
  | .dict items => some items
  | _ => none

/-- the objects among what iterating over `d.get(key, [])` gives; a text gives its characters, and a
dictionary its keys -/
def objects : Option Value → Except Py.Err (List Dict)
  | none => .ok []
  | some (.list xs) => .ok (xs.filterMap object?)
  | some (.str _) | some (.dict _) => .ok []
  | some _ => .error .typeError

def idOf (s : Dict) : Value := Dict.get s "id"

/-- `d[k] = s` -/
def put (k : Value) (s : Dict) : List (Value × Dict) → List (Value × Dict)
  | [] => [(k, s)]
  | (l, t) :: d => if l.eq k then (l, s) :: d else (l, t) :: put k s d

def found (d : List (Value × Dict)) (k : Value) : Option Dict :=
  (d.find? fun item => item.1.eq k).map (·.2)

def byId (entries : List Dict) : Except Py.Err (List (Value × Dict)) :=
  if (entries.map idOf).all Value.hashable then
    .ok (entries.foldl (fun d s => put (idOf s) s d) [])
  else .error .typeError

def keys (d : List (Value × Dict)) : List Value := d.map (·.1)

/-- `sorted(xs)` of values no two of which are equal -/
def sorted (xs : List Value) : Except Py.Err (List Value) :=
  if xs.Pairwise fun a b => (Value.cmp a b).isSome then
    .ok (xs.insertionSort fun a b => Value.cmp a b ≠ some .gt)
  else .error .typeError

/-- `s ^ t` of two sets -/
def symmetricDifference (s t : List Value) : List Value :=
  s.filter (fun v => !v.elem t) ++ t.filter (fun v => !v.elem s)

def without (names : List String) (d : Dict) : Dict := d.filter fun item => item.1 ∉ names

variable (R : Runtime)

def changedKeys (current proposed : Dict) : List String :=
  let cur := without ["stages"] current
  let new := without ["stages"] proposed
  let touched := (cur.map (·.1)).filter fun k => (new.lookup k).map canon ≠ (cur.lookup k).map canon
  let added := (new.map (·.1)).filter fun k => (cur.lookup k).isNone
  (touched ++ added).insertionSort (· ≤ ·)

def restErrors (current proposed : Dict) : List String :=
  let cur := without ["stages"] current
  let new := without ["stages"] proposed
  if canon (.dict cur) = canon (.dict new) then []
  else
    ["A reorder may only touch stages — these keys changed: " ++
      R.repr (.list ((changedKeys current proposed).map .str))]

def stepErrors (tag : String) (cur new : Option Value) : Except Py.Err (List String) := do
  let curSteps ← objects cur
  let newSteps ← objects new
  let curById ← byId curSteps
  let newById ← byId newSteps
  if newById.length ≠ newSteps.length then return [tag ++ ": duplicate step ids"]
  else if !Value.setEq (keys curById) (keys newById) then
    let ids ← sorted (symmetricDifference (keys curById) (keys newById))
    return [tag ++ ": step ids must be identical (nothing added, removed or renamed): " ++
      R.repr (.list ids)]
  else
    return curById.flatMap fun item =>
      if (found newById item.1).map (fun t => canon (.dict t)) = some (canon (.dict item.2)) then []
      else
        [tag ++ ": step " ++ R.repr item.1 ++ " was modified — a reorder may only move steps, " ++
          "never change them"]

def stageType (cur new : Dict) : Value :=
  (new.lookup "stage_type").getD ((cur.lookup "stage_type").getD (.str "linear"))

def stageErrors (tag : String) (cur new : Dict) : Except Py.Err (List String) := do
  let fixed :=
    if canon (.dict (without STAGE_MUTABLE cur)) = canon (.dict (without STAGE_MUTABLE new)) then []
    else [tag ++ ": only step order, stage order and stage_type may change in a reorder"]
  let st := stageType cur new
  if !st.hashable then .error .typeError
  else
    let typed :=
      if st ∈ STAGE_TYPES then []
      else [tag ++ ": stage_type must be one of ['linear', 'parallel']"]
    let steps ← stepErrors R tag (cur.lookup "steps") (new.lookup "steps")
    return fixed ++ typed ++ steps

/-- `repr` of an id is the one of the key -/
def eachStage (newStages : List (Value × Dict)) (item : Value × Dict) :
    Except Py.Err (List String) :=
  match found newStages item.1 with
  | none => .error .typeError
  | some new => stageErrors R ("Stage " ++ R.repr item.1) item.2 new

def validateReorder (current : Dict) (proposed : Value) : Except Py.Err (List String) :=
  match proposed with
  | .dict proposed => do
    let rest := restErrors R current proposed
    let curStages ← byId (← objects (current.lookup "stages"))
    let newStagesList ← objects (proposed.lookup "stages")
    let newStages ← byId newStagesList
    let duplicate :=
      if newStages.length ≠ newStagesList.length then
        ["Duplicate stage ids in the proposed definition"]
      else []
    if !Value.setEq (keys curStages) (keys newStages) then
      let ids ← sorted (symmetricDifference (keys curStages) (keys newStages))
      return rest ++ duplicate ++
        ["Stage ids must be identical (a reorder never adds or removes stages): " ++
          R.repr (.list ids)]
    else
      let errors ← curStages.mapM (eachStage R newStages)
      return rest ++ duplicate ++ errors.flatten
  | _ => .ok ["Proposed definition is not an object"]

/-! ## what it asks -/

/-- an id, up to `==` -/
def key (s : Dict) : Option Atom := (idOf s).atom

def LastWith (xs : List Dict) (s : Dict) : Prop :=
  ∃ before after, xs = before ++ s :: after ∧ ∀ t ∈ after, key t ≠ key s

/-- how the gate compares two lists: the same ids, none twice in the second, and `Q` of the objects
with one id, the last one of the first list -/
def Paired (Q : Dict → Dict → Prop) (v w : Option Value) : Prop :=
  ∃ xs ys, objects v = .ok xs ∧ objects w = .ok ys ∧
    ((∀ s ∈ xs, (idOf s).hashable = true) ∧ ∀ s ∈ ys, (idOf s).hashable = true) ∧
    (ys.map key).Nodup ∧ (∀ k, k ∈ xs.map key ↔ k ∈ ys.map key) ∧
    ∀ s, LastWith xs s → ∀ t ∈ ys, key s = key t → Q s t

def SameObject (s t : Dict) : Prop := canon (.dict s) = canon (.dict t)

def SameFixed (s t : Dict) : Prop :=
  canon (.dict (without STAGE_MUTABLE s)) = canon (.dict (without STAGE_MUTABLE t))

def StageAlike (s t : Dict) : Prop :=
  SameFixed s t ∧ stageType s t ∈ STAGE_TYPES ∧
    Paired SameObject (s.lookup "steps") (t.lookup "steps")

def SameRest (current proposed : Dict) : Prop :=
  canon (.dict (without ["stages"] current)) = canon (.dict (without ["stages"] proposed))

def Alike (current proposed : Dict) : Prop :=
  SameRest current proposed ∧
    Paired StageAlike (current.lookup "stages") (proposed.lookup "stages")

/-! ## canonical texts -/

theorem canon_eq_iff {v w : Value} : canon v = canon w ↔ v.sortKeys = w.sortKeys :=
  ⟨fun h => Json.text_inj h, fun h => congrArg Json.text h⟩

theorem lookup_insertionSort (k : String) (items : List (String × Value)) :
    (items.insertionSort Value.keyLE).lookup k = items.lookup k := by
  have hinsert : ∀ (p : String × Value) (l : List (String × Value)),
      (l.orderedInsert Value.keyLE p).lookup k = (p :: l).lookup k := by
    intro p l
    induction l with
    | nil => rfl
    | cons b l ih =>
      rw [List.orderedInsert]
      split
      · rfl
      · rename_i hle
        have hne : ¬ (k = b.1 ∧ k = p.1) := fun h => hle (h.2.symm.trans h.1).le
        rw [List.lookup_cons, ih, List.lookup_cons, List.lookup_cons, List.lookup_cons]
        cases hb : k == b.1 with
        | false => rfl
        | true =>
          cases hp : k == p.1 with
          | false => rfl
          | true => exact absurd ⟨eq_of_beq hb, eq_of_beq hp⟩ hne
  induction items with
  | nil => rfl
  | cons p items ih =>
    rw [List.insertionSort_cons, hinsert, List.lookup_cons, List.lookup_cons, ih]

theorem lookup_sortKeysItems (k : String) (items : List (String × Value)) :
    (Value.sortKeysItems items).lookup k = (items.lookup k).map Value.sortKeys := by
  induction items with
  | nil => rfl
  | cons p items ih =>
    rw [Value.sortKeysItems, List.lookup_cons, List.lookup_cons, ih]
    cases k == p.1 <;> rfl

theorem lookup_of_canon {d e : Dict} (h : canon (.dict d) = canon (.dict e)) (k : String) :
    (d.lookup k).map canon = (e.lookup k).map canon := by
  have hitems : (Value.sortKeysItems d).insertionSort Value.keyLE =
      (Value.sortKeysItems e).insertionSort Value.keyLE := by
    have hdict := canon_eq_iff.mp h
    rw [Value.sortKeys, Value.sortKeys] at hdict
    exact Value.dict.inj hdict
  have hlookup := congrArg (List.lookup k) hitems
  rw [lookup_insertionSort, lookup_insertionSort, lookup_sortKeysItems,
    lookup_sortKeysItems] at hlookup
  have htext := congrArg (Option.map Json.text) hlookup
  rw [Option.map_map, Option.map_map] at htext
  exact htext

theorem atom_of_canon {v w : Value} (h : canon v = canon w) : v.atom = w.atom := by
  have hsorted := canon_eq_iff.mp h
  have hatom : ∀ u : Value, u.sortKeys.atom = u.atom := by
    intro u
    cases u <;> rfl
  rw [← hatom v, ← hatom w, hsorted]

theorem object_of_canon {v w : Value} (h : canon v = canon w) (hv : object? v = none) :
    object? w = none := by
  have hsorted := canon_eq_iff.mp h
  cases v with
  | dict _ => cases hv
  | none | bool _ | int _ | float _ | str _ | list _ =>
    cases w with
    | dict _ => cases hsorted
    | none | bool _ | int _ | float _ | str _ | list _ => rfl

theorem atom_get_of_canon {d e : Dict} {k : String}
    (h : (d.lookup k).map canon = (e.lookup k).map canon) :
    (Dict.get d k).atom = (Dict.get e k).atom := by
  unfold Dict.get
  cases hd : d.lookup k with
  | none =>
    cases he : e.lookup k with
    | none => rfl
    | some w =>
      rw [hd, he] at h
      cases h
  | some v =>
    cases he : e.lookup k with
    | none =>
      rw [hd, he] at h
      cases h
    | some w =>
      rw [hd, he] at h
      exact atom_of_canon (Option.some.inj h)

theorem key_of_sameObject {s t : Dict} (h : SameObject s t) : key s = key t :=
  atom_get_of_canon (lookup_of_canon h "id")

theorem lookup_without {names : List String} {k : String} (hk : k ∉ names) (d : Dict) :
    (without names d).lookup k = d.lookup k := by
  induction d with
  | nil => rfl
  | cons p d ih =>
    unfold without at ih ⊢
    by_cases hp : p.1 ∈ names
    · rw [List.filter_cons_of_neg (by simpa using hp), ih, List.lookup_cons]
      have hne : (k == p.1) = false := by
        simp only [beq_eq_false_iff_ne]
        rintro rfl
        exact hk hp
      rw [hne]
    · rw [List.filter_cons_of_pos (by simpa using hp), List.lookup_cons, List.lookup_cons, ih]

theorem key_of_sameFixed {s t : Dict} (h : SameFixed s t) : key s = key t := by
  have hlookup := lookup_of_canon h "id"
  have hid : "id" ∉ STAGE_MUTABLE := by decide
  rw [lookup_without hid, lookup_without hid] at hlookup
  exact atom_get_of_canon hlookup

/-! ## the dictionaries -/

structure Lasts (xs : List Dict) (d : List (Value × Dict)) : Prop where
  nodup : (d.map (·.1.atom)).Nodup
  hashable : ∀ i ∈ d, i.1.hashable = true
  items : ∀ i ∈ d, i.1.atom = key i.2 ∧ LastWith xs i.2
  covers : ∀ s ∈ xs, key s ∈ d.map (·.1.atom)

theorem map_put {k : Value} (hk : k.hashable = true) (s : Dict) (d : List (Value × Dict)) :
    k.atom ∈ d.map (·.1.atom) ∧ (put k s d).map (·.1.atom) = d.map (·.1.atom) ∨
      k.atom ∉ d.map (·.1.atom) ∧ (put k s d).map (·.1.atom) = d.map (·.1.atom) ++ [k.atom] := by
  obtain ⟨a, ha⟩ := Value.hashable_iff.mp hk
  induction d with
  | nil => exact Or.inr ⟨List.not_mem_nil, rfl⟩
  | cons i d ih =>
    have heq := Value.eq_iff_atom (v := i.1) ha
    rw [put, List.map_cons]
    by_cases hi : i.1.eq k = true
    · rw [if_pos hi]
      refine Or.inl ⟨?_, rfl⟩
      rw [ha, heq.mp hi]
      exact List.mem_cons_self
    · have hne : k.atom ≠ i.1.atom := fun h => hi (heq.mpr (h.symm.trans ha))
      rw [if_neg hi, List.map_cons, List.mem_cons, or_iff_right hne]
      rcases ih with ⟨hold, h⟩ | ⟨hnew, h⟩
      · exact Or.inl ⟨hold, congrArg _ h⟩
      · exact Or.inr ⟨hnew, congrArg _ h⟩

theorem mem_put {k : Value} (hk : k.hashable = true) {s : Dict} {d : List (Value × Dict)}
    (hd : (d.map (·.1.atom)).Nodup) {i : Value × Dict} (hi : i ∈ put k s d) :
    i ∈ d ∧ i.1.atom ≠ k.atom ∨ i.2 = s ∧ i.1.atom = k.atom := by
  obtain ⟨a, ha⟩ := Value.hashable_iff.mp hk
  induction d with
  | nil =>
    rcases List.mem_singleton.mp hi with rfl
    exact Or.inr ⟨rfl, rfl⟩
  | cons j d ih =>
    obtain ⟨hj, hd⟩ := List.nodup_cons.mp hd
    have heq := Value.eq_iff_atom (v := j.1) ha
    rw [put] at hi
    by_cases hjk : j.1.eq k = true
    · rw [if_pos hjk] at hi
      have hjatom : j.1.atom = k.atom := (heq.mp hjk).trans ha.symm
      rcases List.mem_cons.mp hi with rfl | hi
      · exact Or.inr ⟨rfl, hjatom⟩
      · refine Or.inl ⟨List.mem_cons_of_mem j hi, fun h => hj ?_⟩
        exact List.mem_map.mpr ⟨i, hi, h.trans hjatom.symm⟩
    · rw [if_neg hjk] at hi
      rcases List.mem_cons.mp hi with rfl | hi
      · exact Or.inl ⟨List.mem_cons_self, fun h => hjk (heq.mpr (h.trans ha))⟩
      · rcases ih hd hi with ⟨hmem, hne⟩ | hnew
        · exact Or.inl ⟨List.mem_cons_of_mem j hmem, hne⟩
        · exact Or.inr hnew

theorem Lasts.put {xs : List Dict} {d : List (Value × Dict)} (h : Lasts xs d) {s : Dict}
    (hs : (idOf s).hashable = true) : Lasts (xs ++ [s]) (put (idOf s) s d) := by
  refine ⟨?_, fun i hi => ?_, fun i hi => ?_, fun t ht => ?_⟩
  · rcases map_put hs s d with ⟨-, hmap⟩ | ⟨hnew, hmap⟩
    · rw [hmap]
      exact h.nodup
    · rw [hmap]
      exact h.nodup.append (List.nodup_singleton _) (List.disjoint_singleton.mpr hnew)
  · rcases mem_put hs h.nodup hi with ⟨hmem, -⟩ | ⟨-, hatom⟩
    · exact h.hashable i hmem
    · rw [Value.hashable_iff, hatom]
      exact Value.hashable_iff.mp hs
  · rcases mem_put hs h.nodup hi with ⟨hmem, hne⟩ | ⟨rfl, hatom⟩
    · obtain ⟨hid, before, after, rfl, hafter⟩ := h.items i hmem
      refine ⟨hid, before, after ++ [s], by simp, fun t ht => ?_⟩
      rcases List.mem_append.mp ht with ht | ht
      · exact hafter t ht
      · rw [List.mem_singleton.mp ht, ← hid]
        exact fun h => hne h.symm
    · exact ⟨hatom, xs, [], rfl, fun _ ht => absurd ht List.not_mem_nil⟩
  · have hids : key t ∈ d.map (·.1.atom) ∨ key t = (idOf s).atom := by
      rcases List.mem_append.mp ht with ht | ht
      · exact Or.inl (h.covers t ht)
      · exact Or.inr (congrArg key (List.mem_singleton.mp ht))
    rcases map_put hs s d with ⟨hold, hmap⟩ | ⟨-, hmap⟩
    · rw [hmap]
      exact hids.elim id fun h => h ▸ hold
    · rw [hmap, List.mem_append, List.mem_singleton]
      exact hids

theorem byId_ok {xs : List Dict} {d : List (Value × Dict)} :
    byId xs = .ok d → (∀ s ∈ xs, (idOf s).hashable = true) ∧ Lasts xs d := by
  intro h
  unfold byId at h
  split at h
  · rename_i hall
    rw [List.all_map, List.all_eq_true] at hall
    cases h
    refine ⟨hall, ?_⟩
    induction xs using List.reverseRecOn with
    | nil => exact ⟨List.nodup_nil, by simp, by simp, by simp⟩
    | append_singleton xs s ih =>
      rw [List.foldl_append]
      exact (ih fun t ht => hall t (List.mem_append_left _ ht)).put
        (hall s (List.mem_append_right _ (List.mem_singleton.mpr rfl)))
  · cases h

theorem exists_byId {xs : List Dict} (h : ∀ s ∈ xs, (idOf s).hashable = true) :
    ∃ d, byId xs = .ok d := by
  refine ⟨_, if_pos ?_⟩
  rw [List.all_map, List.all_eq_true]
  exact h

section
variable {xs ys : List Dict} {d e : List (Value × Dict)}

theorem Lasts.mem_map (h : Lasts xs d) (k : Option Atom) :
    k ∈ d.map (·.1.atom) ↔ k ∈ xs.map key := by
  constructor
  · intro hk
    obtain ⟨i, hi, rfl⟩ := List.mem_map.mp hk
    obtain ⟨hid, before, after, rfl, -⟩ := h.items i hi
    exact List.mem_map.mpr ⟨i.2, by simp, hid.symm⟩
  · intro hk
    obtain ⟨s, hs, rfl⟩ := List.mem_map.mp hk
    exact h.covers s hs

theorem Lasts.length_iff (h : Lasts xs d) : d.length = xs.length ↔ (xs.map key).Nodup := by
  have hsub : (d.map (·.1.atom)).Subperm (xs.map key) :=
    List.subperm_of_subset h.nodup fun k hk => (h.mem_map k).mp hk
  constructor
  · intro hlength
    refine (hsub.perm_of_length_le ?_).nodup_iff.mp h.nodup
    rw [List.length_map, List.length_map, hlength]
  · intro hnodup
    have hperm := (List.perm_ext_iff_of_nodup h.nodup hnodup).mpr h.mem_map
    simpa using hperm.length_eq

theorem Lasts.setEq_iff (hd : Lasts xs d) (he : Lasts ys e) :
    Value.setEq (keys d) (keys e) = true ↔ ∀ k, k ∈ xs.map key ↔ k ∈ ys.map key := by
  have hmap : ∀ d : List (Value × Dict), (keys d).map Value.atom = d.map (·.1.atom) := fun d => by
    rw [keys, List.map_map]
    rfl
  have hall : ∀ {xs d}, Lasts xs d → (keys d).all Value.hashable = true := fun h => by
    rw [keys, List.all_map, List.all_eq_true]
    exact h.hashable
  rw [Value.setEq_iff_atom (hall hd) (hall he), hmap, hmap]
  exact forall_congr' fun k => iff_congr (hd.mem_map k) (he.mem_map k)

theorem lastWith_inj {s t : Dict} (hs : LastWith xs s) (ht : LastWith xs t) (h : key s = key t) :
    s = t := by
  obtain ⟨as, bs, rfl, hbs⟩ := hs
  obtain ⟨as', bs', heq, hbs'⟩ := ht
  rcases List.append_eq_append_iff.mp heq with ⟨l, rfl, hl⟩ | ⟨l, rfl, hl⟩
  · cases l with
    | nil => exact (List.cons.inj hl).1
    | cons a l =>
      obtain ⟨rfl, rfl⟩ := List.cons.inj hl
      exact absurd h.symm (hbs t (by simp))
  · cases l with
    | nil => exact (List.cons.inj hl).1.symm
    | cons a l =>
      obtain ⟨rfl, rfl⟩ := List.cons.inj hl
      exact absurd h (hbs' s (by simp))

theorem lastWith_of_nodup (h : (xs.map key).Nodup) {s : Dict} (hs : s ∈ xs) : LastWith xs s := by
  obtain ⟨before, after, rfl⟩ := List.append_of_mem hs
  refine ⟨before, after, rfl, fun t ht heq => ?_⟩
  rw [List.map_append, List.map_cons] at h
  have hnew := (List.nodup_cons.mp (List.nodup_append.mp h).2.1).1
  exact hnew (List.mem_map.mpr ⟨t, ht, heq⟩)

theorem Lasts.mem_of_lastWith (h : Lasts xs d) {s : Dict} (hs : LastWith xs s) :
    ∃ k, (k, s) ∈ d ∧ k.atom = key s := by
  have hmem : s ∈ xs := by
    obtain ⟨before, after, rfl, -⟩ := hs
    simp
  obtain ⟨i, hi, hatom⟩ := List.mem_map.mp (h.covers s hmem)
  obtain ⟨hid, hlast⟩ := h.items i hi
  obtain rfl := lastWith_inj hlast hs (hid.symm.trans hatom)
  exact ⟨i.1, hi, hatom⟩

theorem Lasts.found_iff (h : Lasts xs d) {k : Value} (hk : k.hashable = true) {s : Dict} :
    found d k = some s ↔ LastWith xs s ∧ key s = k.atom := by
  obtain ⟨a, ha⟩ := Value.hashable_iff.mp hk
  have heq : ∀ i : Value × Dict, i.1.eq k = true ↔ i.1.atom = k.atom := fun i => by
    rw [Value.eq_iff_atom ha, ha]
  constructor
  · intro hfound
    obtain ⟨i, hi, rfl⟩ := Option.map_eq_some_iff.mp hfound
    obtain ⟨hid, hlast⟩ := h.items i (List.mem_of_find?_eq_some hi)
    have hik : i.1.eq k = true := List.find?_some (p := fun j : Value × Dict => j.1.eq k) hi
    exact ⟨hlast, hid.symm.trans ((heq i).mp hik)⟩
  · intro ⟨hlast, hid⟩
    obtain ⟨l, hl, hatom⟩ := h.mem_of_lastWith hlast
    refine Option.map_eq_some_iff.mpr ⟨(l, s), ?_, rfl⟩
    refine find?_eq_of_unique hl ((heq _).mpr (hatom.trans hid)) fun i hi hik => ?_
    exact List.inj_on_of_nodup_map h.nodup hi hl (((heq i).mp hik).trans (hatom.trans hid).symm)

/-- what is asked of two dictionaries, as it reads on the lists -/
theorem paired_iff {Q : Dict → Dict → Prop} (hd : Lasts xs d) (he : Lasts ys e) :
    (e.length = ys.length ∧ Value.setEq (keys d) (keys e) = true ∧
      ∀ i ∈ d, ∃ t, found e i.1 = some t ∧ Q i.2 t) ↔
    (ys.map key).Nodup ∧ (∀ k, k ∈ xs.map key ↔ k ∈ ys.map key) ∧
      ∀ s, LastWith xs s → ∀ t ∈ ys, key s = key t → Q s t := by
  rw [he.length_iff, hd.setEq_iff he]
  refine and_congr_right fun hnodup => and_congr_right fun hkeys => ⟨fun h s hs t ht hst => ?_,
    fun h i hi => ?_⟩
  · obtain ⟨k, hk, hatom⟩ := hd.mem_of_lastWith hs
    obtain ⟨t', hfound, hQ⟩ := h (k, s) hk
    have hlast := (he.found_iff (hd.hashable _ hk)).mp hfound
    have hsame := lastWith_inj hlast.1 (lastWith_of_nodup hnodup ht)
      (hlast.2.trans (hatom.trans hst))
    rw [← hsame]
    exact hQ
  · obtain ⟨hid, hlast⟩ := hd.items i hi
    have hmem : key i.2 ∈ ys.map key := (hkeys _).mp ((hd.mem_map _).mp
      (List.mem_map.mpr ⟨i, hi, hid⟩))
    obtain ⟨t, ht, hst⟩ := List.mem_map.mp hmem
    exact ⟨t, (he.found_iff (hd.hashable i hi)).mpr
      ⟨lastWith_of_nodup hnodup ht, hst.trans hid.symm⟩, h i.2 hlast t ht hst.symm⟩

end

/-! ## without errors -/

theorem bind_ok_iff {α β : Type} {x : Except Py.Err α} {g : α → Except Py.Err β} {b : β} :
    (x >>= g) = .ok b ↔ ∃ a, x = .ok a ∧ g a = .ok b := by
  constructor
  · exact exists_of_bind_ok
  · intro ⟨a, ha, hg⟩
    rw [ha]
    exact hg

theorem mapM_flatten_iff {α : Type} {f : α → Except Py.Err (List String)} {xs : List α} :
    (∃ es, xs.mapM f = .ok es ∧ es.flatten = []) ↔ ∀ x ∈ xs, f x = .ok [] := by
  constructor
  · intro ⟨es, hes, hflat⟩ x hx
    obtain ⟨e, he, hfe⟩ := mem_right_of_forall₂ (forall₂_of_mapM_ok hes) hx
    rw [hfe, List.flatten_eq_nil_iff.mp hflat e he]
  · intro h
    obtain ⟨es, hes⟩ := exists_mapM_ok fun x hx => ⟨[], h x hx⟩
    refine ⟨es, hes, List.flatten_eq_nil_iff.mpr fun e he => ?_⟩
    obtain ⟨x, hx, hfe⟩ := mem_left_of_forall₂ (forall₂_of_mapM_ok hes) he
    exact Except.ok.inj (hfe.symm.trans (h x hx))

theorem ite_nil_iff {p : Prop} [Decidable p] {e : String} : (if p then [] else [e]) = [] ↔ p := by
  split <;> simp_all

theorem paired_iff_dicts {Q : Dict → Dict → Prop} {v w : Option Value} :
    Paired Q v w ↔ ∃ xs, objects v = .ok xs ∧ ∃ ys, objects w = .ok ys ∧ ∃ d, byId xs = .ok d ∧
      ∃ e, byId ys = .ok e ∧ e.length = ys.length ∧ Value.setEq (keys d) (keys e) = true ∧
        ∀ i ∈ d, ∃ t, found e i.1 = some t ∧ Q i.2 t := by
  constructor
  · intro ⟨xs, ys, hv, hw, ⟨hxs, hys⟩, h⟩
    obtain ⟨d, hd⟩ := exists_byId hxs
    obtain ⟨e, he⟩ := exists_byId hys
    exact ⟨xs, hv, ys, hw, d, hd, e, he, (paired_iff (byId_ok hd).2 (byId_ok he).2).mpr h⟩
  · intro ⟨xs, hv, ys, hw, d, hd, e, he, h⟩
    have hd := byId_ok hd
    have he := byId_ok he
    exact ⟨xs, ys, hv, hw, ⟨hd.1, he.1⟩, (paired_iff hd.2 he.2).mp h⟩

theorem stepErrors_nil_iff (tag : String) (v w : Option Value) :
    stepErrors R tag v w = .ok [] ↔ Paired SameObject v w := by
  rw [paired_iff_dicts]
  simp only [stepErrors, bind_ok_iff]
  refine exists_congr fun xs => and_congr_right fun _ => exists_congr fun ys =>
    and_congr_right fun _ => exists_congr fun d => and_congr_right fun _ => exists_congr fun e =>
    and_congr_right fun _ => ?_
  by_cases hlength : e.length = ys.length
  swap
  · rw [if_pos hlength]
    exact iff_of_false (fun h => by cases h) fun h => hlength h.1
  rw [if_neg (not_not_intro hlength), and_iff_right hlength]
  cases hset : Value.setEq (keys d) (keys e) with
  | false =>
    refine iff_of_false (fun h => ?_) fun h => Bool.false_ne_true h.1
    obtain ⟨_, _, h⟩ := bind_ok_iff.mp h
    cases h
  | true =>
    rw [and_iff_right rfl]
    show Except.ok _ = Except.ok [] ↔ _
    rw [Except.ok.injEq, List.flatMap_eq_nil_iff]
    refine forall₂_congr fun i _ => ?_
    rw [ite_nil_iff, Option.map_eq_some_iff]
    exact exists_congr fun t => and_congr_right fun _ => eq_comm

theorem stageErrors_nil_iff (tag : String) (s t : Dict) :
    stageErrors R tag s t = .ok [] ↔ StageAlike s t := by
  unfold StageAlike
  rw [← stepErrors_nil_iff R tag]
  simp only [stageErrors]
  by_cases hst : (stageType s t).hashable = true
  swap
  · rw [if_pos (by simpa using hst)]
    refine iff_of_false (fun h => by cases h) fun h => hst ?_
    have hmem := h.2.1
    simp only [STAGE_TYPES, List.mem_cons, List.not_mem_nil, or_false] at hmem
    rcases hmem with h | h <;> rw [h] <;> rfl
  rw [if_neg (by simpa using hst), bind_ok_iff]
  constructor
  · intro ⟨steps, hsteps, h⟩
    have h := Except.ok.inj h
    rw [List.append_eq_nil_iff, List.append_eq_nil_iff, ite_nil_iff, ite_nil_iff] at h
    obtain ⟨⟨hfixed, htyped⟩, rfl⟩ := h
    exact ⟨hfixed, htyped, hsteps⟩
  · intro ⟨hfixed, htyped, hsteps⟩
    refine ⟨[], hsteps, congrArg Except.ok ?_⟩
    rw [List.append_eq_nil_iff, List.append_eq_nil_iff, ite_nil_iff, ite_nil_iff]
    exact ⟨⟨hfixed, htyped⟩, rfl⟩

theorem eachStage_nil_iff (e : List (Value × Dict)) (i : Value × Dict) :
    eachStage R e i = .ok [] ↔ ∃ t, found e i.1 = some t ∧ StageAlike i.2 t := by
  unfold eachStage
  cases hfound : found e i.1 with
  | none => exact iff_of_false (fun h => by cases h) fun ⟨_, h, _⟩ => by cases h
  | some t =>
    rw [stageErrors_nil_iff]
    exact ⟨fun h => ⟨t, rfl, h⟩, fun ⟨_, ht, h⟩ => Option.some.inj ht ▸ h⟩

theorem validateReorder_nil_iff (current proposed : Dict) :
    validateReorder R current (.dict proposed) = .ok [] ↔ Alike current proposed := by
  have hrest : restErrors R current proposed = [] ↔ SameRest current proposed := ite_nil_iff
  unfold Alike
  rw [paired_iff_dicts, ← hrest]
  simp only [validateReorder, bind_ok_iff]
  constructor
  · intro ⟨xs, hv, d, hd, ys, hw, e, he, h⟩
    cases hset : Value.setEq (keys d) (keys e) with
    | false =>
      rw [hset] at h
      obtain ⟨ids, -, h⟩ := bind_ok_iff.mp h
      have h := Except.ok.inj h
      simp at h
    | true =>
      rw [hset] at h
      obtain ⟨es, hes, h⟩ := bind_ok_iff.mp h
      have h := Except.ok.inj h
      rw [List.append_eq_nil_iff, List.append_eq_nil_iff] at h
      obtain ⟨⟨hrest, hdup⟩, hflat⟩ := h
      have hlength : e.length = ys.length := by
        by_contra hne
        rw [if_pos hne] at hdup
        cases hdup
      refine ⟨hrest, xs, hv, ys, hw, d, hd, e, he, hlength, hset, fun i hi => ?_⟩
      exact (eachStage_nil_iff R e i).mp (mapM_flatten_iff.mp ⟨es, hes, hflat⟩ i hi)
  · intro ⟨hrest, xs, hv, ys, hw, d, hd, e, he, hlength, hset, h⟩
    have heach : ∀ i ∈ d, eachStage R e i = .ok [] := fun i hi =>
      (eachStage_nil_iff R e i).mpr (h i hi)
    obtain ⟨es, hes, hflat⟩ := mapM_flatten_iff.mpr heach
    refine ⟨xs, hv, d, hd, ys, hw, e, he, ?_⟩
    rw [hset, if_neg (not_not_intro hlength), hrest]
    refine bind_ok_iff.mpr ⟨es, hes, ?_⟩
    rw [hflat]
    rfl

end HxEvolve
