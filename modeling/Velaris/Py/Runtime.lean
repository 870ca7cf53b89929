import Velaris.Base.Table
import Velaris.Py.Value
import Mathlib.Logic.Function.Basic
import Mathlib.Data.List.Basic

/-!
# Dictionaries, and what is left of the standard library

* `Dict.get`, `Dict.set`   `d.get(k)`, and `{**d, k: v}`;
* `Runtime`   the functions of the standard library that are parameters;
* `Runtime.str`   `str(v)`;
* `Hashing`   `hashlib` and `json` as parameters: a payload of type `π` has a canonical
    text in `γ`, and a text is digested, after the digest before it, in `δ`;
* `transcript`   digests that are the texts they digest: an injective instance.
-/

namespace Py

/-! ## dictionaries -/

abbrev Dict := List (String × Value)

namespace Dict

/-- `d.get(k)` -/
def get (d : Dict) (k : String) : Value := (d.lookup k).getD .none

/-- `k in d` -/
def has (d : Dict) (k : String) : Bool := (d.lookup k).isSome

/-- `{**d, k: v}` -/
def set (k : String) (v : Value) : Dict → Dict
  | [] => [(k, v)]
  | (l, w) :: d => if l = k then (k, v) :: d else (l, w) :: set k v d

/-- `d.update(new)` -/
def update (d new : Dict) : Dict := (new.map Prod.fst).foldl (fun d k => d.set k (new.get k)) d

theorem lookup_set (k l : String) (v : Value) (d : Dict) :
    (set k v d).lookup l = if l = k then some v else d.lookup l :=
  Base.lookup_of_put (set k v) rfl (fun _ _ _ => rfl) l d

theorem get_set (k l : String) (v : Value) (d : Dict) :
    (set k v d).get l = if l = k then v else get d l := by
  rw [get, lookup_set]
  split <;> rfl

theorem lookup_foldl_set (new : Dict) (k : String) (keys : List String) (d : Dict) :
    (keys.foldl (fun d l => d.set l (new.get l)) d).lookup k =
      if k ∈ keys then some (new.get k) else d.lookup k := by
  induction keys generalizing d with
  | nil => rfl
  | cons l keys ih =>
    rw [List.foldl_cons, ih, lookup_set]
    by_cases hmem : k ∈ keys
    · rw [if_pos hmem, if_pos (List.mem_cons_of_mem l hmem)]
    · rw [if_neg hmem]
      by_cases hk : k = l
      · rw [if_pos hk, if_pos (List.mem_cons.mpr (Or.inl hk)), hk]
      · rw [if_neg hk, if_neg fun h => (List.mem_cons.mp h).elim hk hmem]

theorem get_foldl_set (new : Dict) (k : String) (keys : List String) (d : Dict) :
    (keys.foldl (fun d l => d.set l (new.get l)) d).get k =
      if k ∈ keys then new.get k else d.get k := by
  rw [get, lookup_foldl_set]
  split <;> rfl

theorem lookup_update (d new : Dict) (k : String) :
    (d.update new).lookup k = if new.has k = true then some (new.get k) else d.lookup k := by
  rw [update, lookup_foldl_set]
  have hmem : k ∈ new.map Prod.fst ↔ new.has k = true := by
    rw [has, List.lookup_isSome_iff]
    constructor
    · intro h
      obtain ⟨i, hi, rfl⟩ := List.mem_map.mp h
      exact ⟨i, hi, beq_self_eq_true _⟩
    · intro h
      obtain ⟨i, hi, hk⟩ := h
      exact List.mem_map.mpr ⟨i, hi, (beq_iff_eq.mp hk).symm⟩
  exact if_congr hmem rfl rfl

end Dict

def Value.dict? : Value → Option Dict
  | .dict d => some d
  | _ => Option.none

/-- `a or b` -/
def Value.or (a b : Value) : Value := if a.truthy then a else b

/-! ## parameters -/

structure Runtime where
  /-- `repr(v)` -/
  repr : Value → String
  /-- `json.dumps(v, sort_keys=True, separators=(",", ":"), default=str)` -/
  dumps : Value → String
  /-- `hashlib.sha256(text.encode()).hexdigest()` -/
  sha256 : String → String
  /-- `datetime.fromisoformat(text)`, a time without a zone taken as UTC -/
  fromisoformat : String → Option Int
  /-- `t.isoformat()` -/
  isoformat : Int → String

/-- a runtime for runs on fixed inputs, where no text is printed or read -/
def Runtime.silent : Runtime where
  repr := fun _ => ""
  dumps := fun _ => ""
  sha256 := id
  fromisoformat := fun _ => none
  isoformat := fun _ => ""

/-- `str(v)` -/
def Runtime.str (R : Runtime) : Value → String
  | .str s => s
  | v => R.repr v

end Py

namespace Py

structure Hashing (π γ δ : Type) where
  /-- the digest before the first, `"0" * 64` -/
  genesis : δ
  /-- `json.dumps(payload, sort_keys=True, separators=(",", ":"), default=str)` -/
  canonical : π → γ
  /-- `hashlib.sha256((prev_hash + text).encode("utf-8")).hexdigest()` -/
  sha256 : δ → γ → δ

/-- no two payloads have one text, and no two texts one digest -/
structure Hashing.Injective {π γ δ : Type} (H : Hashing π γ δ) : Prop where
  canonical : Function.Injective H.canonical
  sha256 : ∀ prev, Function.Injective (H.sha256 prev)

def transcript (π : Type) : Hashing π π (List π) where
  genesis := []
  canonical := id
  sha256 := fun prev text => text :: prev

theorem transcript_injective (π : Type) : (transcript π).Injective where
  canonical := fun _ _ h => h
  sha256 := fun _ _ _ h => (List.cons.inj h).1

end Py
