import Velaris.Py.Value
import Mathlib.Data.List.Sort
import Mathlib.Data.String.Basic
import Mathlib.Algebra.BigOperators.Group.List.Lemmas
import Mathlib.Algebra.Ring.Nat
import Velaris.Py.Runtime
import Velaris.Py.Text

/-!
# JSON documents

A JSON text with sorted keys does not show the order of a dictionary's items.  `Doc` is a value with
that order taken out.

* `Value.sortKeys`   every dictionary with its items by key;
* `Doc`   a value whose dictionaries are sorted;
* `Value.doc`   the document of a value;
* `Value.printed`   `json.dumps(v, sort_keys=True)`, for texts with nothing to escape;
* `charBytes`, `textBytes`   the length of a character and of a string with `ensure_ascii`;
* `dumpedBytes`   `len(json.dumps(v, default=str).encode())`.
-/

namespace Py
namespace Value

def keyLE (p q : String × Value) : Prop := p.1 ≤ q.1

instance : DecidableRel keyLE := fun p q => inferInstanceAs (Decidable (p.1 ≤ q.1))

instance : IsTrans _ keyLE := ⟨fun p _ _ h h' => le_trans (a := p.1) h h'⟩

instance : Std.Total keyLE := ⟨fun p q => le_total p.1 q.1⟩

mutual

def sortKeys : Value → Value
  | .list xs => .list (sortKeysList xs)
  | .dict items => .dict ((sortKeysItems items).insertionSort keyLE)
  | v => v

def sortKeysList : List Value → List Value
  | [] => []
  | x :: xs => sortKeys x :: sortKeysList xs

def sortKeysItems : List (String × Value) → List (String × Value)
  | [] => []
  | (k, x) :: xs => (k, sortKeys x) :: sortKeysItems xs

end

theorem sortKeysItems_eq_map (items : List (String × Value)) :
    sortKeysItems items = items.map fun p => (p.1, sortKeys p.2) := by
  induction items with
  | nil => rfl
  | cons p items ih => rw [sortKeysItems, ih, List.map_cons]

mutual

theorem sortKeys_sortKeys : ∀ v : Value, sortKeys (sortKeys v) = sortKeys v
  | .none | .bool _ | .int _ | .float _ | .str _ => rfl
  | .list xs => congrArg Value.list (sortKeysList_sortKeysList xs)
  | .dict items => by
    have hsort := sortKeysItems_sortKeysItems items
    rw [sortKeysItems_eq_map (sortKeysItems items)] at hsort
    have hmap := List.map_insertionSort keyLE keyLE (fun p : String × Value => (p.1, sortKeys p.2))
      (sortKeysItems items) fun _ _ _ _ => Iff.rfl
    rw [sortKeys, sortKeys, sortKeysItems_eq_map, hmap, hsort,
      (List.pairwise_insertionSort keyLE _).insertionSort_eq]

theorem sortKeysList_sortKeysList :
    ∀ xs : List Value, sortKeysList (sortKeysList xs) = sortKeysList xs
  | [] => rfl
  | x :: xs => by
    rw [sortKeysList, sortKeysList, sortKeys_sortKeys x, sortKeysList_sortKeysList xs]

theorem sortKeysItems_sortKeysItems :
    ∀ items : List (String × Value), sortKeysItems (sortKeysItems items) = sortKeysItems items
  | [] => rfl
  | (k, x) :: items => by
    rw [sortKeysItems, sortKeysItems, sortKeys_sortKeys x, sortKeysItems_sortKeysItems items]

end

end Value

structure Doc where
  value : Value
  sorted : value.sortKeys = value

namespace Doc

instance : DecidableEq Doc := fun a b =>
  decidable_of_iff (a.value = b.value) ⟨fun h => by cases a; cases b; cases h; rfl, congrArg value⟩

end Doc

def Value.doc (v : Value) : Doc := ⟨v.sortKeys, v.sortKeys_sortKeys⟩

end Py

namespace Py
namespace Value

mutual

def printedAsIs : Value → String
  | .none => "null"
  | .bool b => if b then "true" else "false"
  | .int n => toString n
  | .float q => toString q.num ++ "/" ++ toString q.den
  | .str s => "\"" ++ s ++ "\""
  | .list xs => "[" ++ ", ".intercalate (printedList xs) ++ "]"
  | .dict items => "\x7b" ++ ", ".intercalate (printedItems items) ++ "\x7d"

def printedList : List Value → List String
  | [] => []
  | x :: xs => printedAsIs x :: printedList xs

def printedItems : List (String × Value) → List String
  | [] => []
  | (k, x) :: xs => ("\"" ++ k ++ "\": " ++ printedAsIs x) :: printedItems xs

end

def printed (v : Value) : String := printedAsIs v.sortKeys

end Value
end Py

namespace Py

/-- how many bytes `json.dumps` writes for a character of a string -/
def charBytes (c : Char) : Nat :=
  let n := c.toNat
  if c = '"' ∨ c = '\\' ∨ n = 8 ∨ n = 9 ∨ n = 10 ∨ n = 12 ∨ n = 13 then 2
  else if 32 ≤ n ∧ n ≤ 126 then 1
  else if n < 0x10000 then 6 else 12

def textBytes (s : String) : Nat := 2 + (s.toList.map charBytes).sum

variable (R : Runtime)

mutual

def dumpedBytes : Value → Nat
  | .none => 4
  | .bool b => if b then 4 else 5
  | .int n => (toString n).length
  | .float q => (R.repr (.float q)).length
  | .str s => textBytes s
  | .list xs => 2 + dumpedItems xs
  | .dict items => 2 + dumpedPairs items

/-- the elements, each but the last with `", "` behind it -/
def dumpedItems : List Value → Nat
  | [] => 0
  | [x] => dumpedBytes x
  | x :: xs => dumpedBytes x + 2 + dumpedItems xs

def dumpedPairs : List (String × Value) → Nat
  | [] => 0
  | [(k, x)] => textBytes k + 2 + dumpedBytes x
  | (k, x) :: items => textBytes k + 2 + dumpedBytes x + 2 + dumpedPairs items

end

theorem charBytes_digitChar {d : Nat} (hd : d < 16) : charBytes (Nat.digitChar d) = 1 := by
  have h : ∀ d : Fin 16, charBytes (Nat.digitChar d) = 1 := by decide
  exact h ⟨d, hd⟩

theorem textBytes_of_plain {s : String} (h : ∀ c ∈ s.toList, charBytes c = 1) :
    textBytes s = 2 + s.toList.length := by
  have hsum : s.toList.map charBytes = s.toList.map fun _ => 1 := List.map_congr_left h
  rw [textBytes, hsum, List.map_const', List.sum_replicate_nat, mul_one]

theorem textBytes_uuidText (u : Uuid) : textBytes (uuidText u) = 38 := by
  have hhex : ∀ c ∈ (List.range 32).map fun i => Nat.digitChar (u / 16 ^ (31 - i) % 16),
      charBytes c = 1 := by
    intro c hc
    obtain ⟨i, -, rfl⟩ := List.mem_map.mp hc
    exact charBytes_digitChar (Nat.mod_lt _ (by omega))
  have hlen : ((List.range 32).map fun i => Nat.digitChar (u / 16 ^ (31 - i) % 16)).length = 32 := by
    rw [List.length_map, List.length_range]
  rw [uuidText]
  generalize (List.range 32).map (fun i => Nat.digitChar (u / 16 ^ (31 - i) % 16)) = hex
    at hhex hlen ⊢
  rw [textBytes_of_plain]
  · simp [hlen]
  · intro c hc
    have hmem : c ∈ hex ∨ c = '-' := by
      simp only [String.toList_ofList, List.mem_append, List.mem_cons, or_assoc] at hc
      rcases hc with hc | hc | hc | hc | hc | hc | hc | hc | hc
      · exact Or.inl (List.mem_of_mem_take hc)
      · exact Or.inr hc
      · exact Or.inl (List.mem_of_mem_drop (List.mem_of_mem_take hc))
      · exact Or.inr hc
      · exact Or.inl (List.mem_of_mem_drop (List.mem_of_mem_take hc))
      · exact Or.inr hc
      · exact Or.inl (List.mem_of_mem_drop (List.mem_of_mem_take hc))
      · exact Or.inr hc
      · exact Or.inl (List.mem_of_mem_drop hc)
    rcases hmem with hmem | rfl
    · exact hhex c hmem
    · rfl

end Py
