import Velaris.Py.Runtime

/-!
# What is inside a value

* `At`   the value at the end of a path of keys and indices;
* `keys`   the keys at all depths of a value;
* `mem_keys_iff`   they are the ends of its paths;
* `Names`   one of some texts is in a value, at any depth, as a value or as a key;
* `texts`   all of them, in a list;
* `names_iff`   so it can be computed which values name one of the texts.
-/

namespace Py

inductive Step where
  | key (k : String)
  | index (i : Nat)

inductive At : Value → List Step → Value → Prop
  | here (v : Value) : At v [] v
  | key {items : Dict} {k : String} {x w : Value} {path : List Step} : (k, x) ∈ items →
      At x path w → At (.dict items) (.key k :: path) w
  | index {items : List Value} {i : Nat} {x w : Value} {path : List Step} :
      items[i]? = some x → At x path w → At (.list items) (.index i :: path) w

theorem at_dict_iff {items : Dict} {step : Step} {path : List Step} {w : Value} :
    At (.dict items) (step :: path) w ↔
      ∃ entry ∈ items, step = .key entry.1 ∧ At entry.2 path w := by
  constructor
  · intro h
    cases h with
    | key hmem h => exact ⟨_, hmem, rfl, h⟩
  · intro hx
    obtain ⟨entry, hmem, rfl, h⟩ := hx
    exact At.key hmem h

namespace Value

mutual

def keys : Value → List String
  | .list items => keysList items
  | .dict items => keysItems items
  | _ => []

def keysList : List Value → List String
  | [] => []
  | v :: items => keys v ++ keysList items

def keysItems : List (String × Value) → List String
  | [] => []
  | (key, v) :: items => key :: (keys v ++ keysItems items)

end

theorem mem_keysList {k : String} {items : List Value} :
    k ∈ keysList items ↔ ∃ v ∈ items, k ∈ keys v := by
  induction items with
  | nil => exact iff_of_false List.not_mem_nil fun h => by simp at h
  | cons v items ih => rw [keysList, List.mem_append, ih, List.exists_mem_cons_iff]

theorem mem_keysItems {k : String} {items : Dict} :
    k ∈ keysItems items ↔ ∃ entry ∈ items, k = entry.1 ∨ k ∈ keys entry.2 := by
  induction items with
  | nil => exact iff_of_false List.not_mem_nil fun h => by simp at h
  | cons entry items ih =>
    obtain ⟨key, v⟩ := entry
    rw [keysItems, List.mem_cons, List.mem_append, ih, List.exists_mem_cons_iff, or_assoc]

end Value

theorem mem_keys_of_at {v w : Value} {path : List Step} (h : At v path w) :
    ∀ {init : List Step} {k : String}, path = init ++ [.key k] → k ∈ v.keys := by
  induction h with
  | here v =>
    intro init k hpath
    exact absurd hpath.symm (by simp)
  | @key items l x w path hmem _ ih =>
    intro init k hpath
    apply Value.mem_keysItems.mpr
    cases init with
    | nil =>
      obtain ⟨hl, -⟩ := List.cons.inj hpath
      exact ⟨_, hmem, Or.inl (Step.key.inj hl).symm⟩
    | cons step init => exact ⟨_, hmem, Or.inr (ih (List.cons.inj hpath).2)⟩
  | @index items i x w path hget _ ih =>
    intro init k hpath
    apply Value.mem_keysList.mpr
    cases init with
    | nil => exact absurd (List.cons.inj hpath).1 (by simp)
    | cons step init =>
      exact ⟨_, List.mem_of_getElem? hget, ih (List.cons.inj hpath).2⟩

mutual

theorem exists_at {k : String} : ∀ v : Value, k ∈ v.keys → ∃ init w, At v (init ++ [.key k]) w
  | .list items, h => by
    obtain ⟨i, v, init, w, hget, hat⟩ := exists_at_item items h
    exact ⟨.index i :: init, w, At.index hget hat⟩
  | .dict items, h => exists_at_entry items h
  | .none, h | .bool _, h | .int _, h | .float _, h | .str _, h => absurd h List.not_mem_nil

theorem exists_at_item {k : String} : ∀ items : List Value, k ∈ Value.keysList items →
    ∃ (i : Nat) (v : Value) (init : List Step) (w : Value),
      items[i]? = some v ∧ At v (init ++ [.key k]) w
  | [], h => absurd h List.not_mem_nil
  | v :: items, h => by
    rcases List.mem_append.mp h with h | h
    · obtain ⟨init, w, hat⟩ := exists_at v h
      exact ⟨0, v, init, w, rfl, hat⟩
    · obtain ⟨i, x, init, w, hget, hat⟩ := exists_at_item items h
      exact ⟨i + 1, x, init, w, hget, hat⟩

theorem exists_at_entry {k : String} : ∀ items : List (String × Value),
    k ∈ Value.keysItems items → ∃ init w, At (.dict items) (init ++ [.key k]) w
  | [], h => absurd h List.not_mem_nil
  | (key, v) :: items, h => by
    rcases List.mem_cons.mp h with rfl | h
    · exact ⟨[], v, At.key List.mem_cons_self (At.here v)⟩
    · rcases List.mem_append.mp h with h | h
      · obtain ⟨init, w, hat⟩ := exists_at v h
        exact ⟨.key key :: init, w, At.key List.mem_cons_self hat⟩
      · obtain ⟨init, w, hat⟩ := exists_at_entry items h
        refine ⟨init, w, ?_⟩
        obtain ⟨step, rest, hpath⟩ :=
          List.exists_cons_of_ne_nil (List.append_ne_nil_of_right_ne_nil init
            (List.cons_ne_nil (Step.key k) []))
        rw [hpath] at hat ⊢
        obtain ⟨entry, hmem, hstep, hrest⟩ := at_dict_iff.mp hat
        exact at_dict_iff.mpr ⟨entry, List.mem_cons_of_mem _ hmem, hstep, hrest⟩

end

theorem mem_keys_iff {k : String} {v : Value} :
    k ∈ v.keys ↔ ∃ init w, At v (init ++ [.key k]) w := by
  constructor
  · exact exists_at v
  · intro hx
    obtain ⟨init, w, h⟩ := hx
    exact mem_keys_of_at h rfl

end Py

namespace Py

inductive Names (p : String → Prop) : Value → Prop where
  | text {text : String} : p text → Names p (.str text)
  | item {items : List Value} {v : Value} : v ∈ items → Names p v → Names p (.list items)
  | key {items : Dict} {entry : String × Value} : entry ∈ items → p entry.1 →
      Names p (.dict items)
  | value {items : Dict} {entry : String × Value} : entry ∈ items → Names p entry.2 →
      Names p (.dict items)

namespace Value

mutual

def texts : Value → List String
  | .str text => [text]
  | .list items => textsList items
  | .dict items => textsItems items
  | _ => []

def textsList : List Value → List String
  | [] => []
  | v :: items => texts v ++ textsList items

def textsItems : List (String × Value) → List String
  | [] => []
  | (key, v) :: items => key :: (texts v ++ textsItems items)

end

theorem mem_textsList {x : String} {items : List Value} :
    x ∈ textsList items ↔ ∃ v ∈ items, x ∈ texts v := by
  induction items with
  | nil => exact iff_of_false List.not_mem_nil fun h => by simp at h
  | cons v items ih => rw [textsList, List.mem_append, ih, List.exists_mem_cons_iff]

theorem mem_textsItems {x : String} {items : Dict} :
    x ∈ textsItems items ↔ ∃ entry ∈ items, x = entry.1 ∨ x ∈ texts entry.2 := by
  induction items with
  | nil => exact iff_of_false List.not_mem_nil fun h => by simp at h
  | cons entry items ih =>
    obtain ⟨key, v⟩ := entry
    rw [textsItems, List.mem_cons, List.mem_append, ih, List.exists_mem_cons_iff, or_assoc]

end Value

section
variable {p : String → Prop}

theorem names_str_iff {text : String} : Names p (.str text) ↔ p text := by
  constructor
  · intro h
    cases h
    assumption
  · exact Names.text

theorem not_names_none : ¬ Names p .none := fun h => by cases h

theorem names_dict_iff {items : Dict} :
    Names p (.dict items) ↔ ∃ entry ∈ items, p entry.1 ∨ Names p entry.2 := by
  constructor
  · intro h
    cases h with
    | key hmem h => exact ⟨_, hmem, Or.inl h⟩
    | value hmem h => exact ⟨_, hmem, Or.inr h⟩
  · intro hx
    obtain ⟨entry, hmem, h | h⟩ := hx
    · exact Names.key hmem h
    · exact Names.value hmem h

theorem exists_text {v : Value} (h : Names p v) : ∃ x ∈ v.texts, p x := by
  induction h with
  | text h => exact ⟨_, List.mem_singleton_self _, h⟩
  | item hmem _ ih =>
    obtain ⟨x, hx, hp⟩ := ih
    exact ⟨x, Value.mem_textsList.mpr ⟨_, hmem, hx⟩, hp⟩
  | key hmem h => exact ⟨_, Value.mem_textsItems.mpr ⟨_, hmem, Or.inl rfl⟩, h⟩
  | value hmem _ ih =>
    obtain ⟨x, hx, hp⟩ := ih
    exact ⟨x, Value.mem_textsItems.mpr ⟨_, hmem, Or.inr hx⟩, hp⟩

mutual

theorem names_of_text {x : String} (hp : p x) : ∀ v : Value, x ∈ v.texts → Names p v
  | .str text, h => Names.text (List.mem_singleton.mp h ▸ hp)
  | .list items, h => by
    obtain ⟨v, hmem, hv⟩ := names_of_item hp items h
    exact Names.item hmem hv
  | .dict items, h => names_dict_iff.mpr (names_of_entry hp items h)
  | .none, h | .bool _, h | .int _, h | .float _, h => absurd h List.not_mem_nil

theorem names_of_item {x : String} (hp : p x) :
    ∀ items : List Value, x ∈ Value.textsList items → ∃ v ∈ items, Names p v
  | [], h => absurd h List.not_mem_nil
  | v :: items, h => by
    rcases List.mem_append.mp h with h | h
    · exact ⟨v, List.mem_cons_self, names_of_text hp v h⟩
    · obtain ⟨w, hmem, hw⟩ := names_of_item hp items h
      exact ⟨w, List.mem_cons_of_mem _ hmem, hw⟩

theorem names_of_entry {x : String} (hp : p x) :
    ∀ items : List (String × Value), x ∈ Value.textsItems items →
      ∃ entry ∈ items, p entry.1 ∨ Names p entry.2
  | [], h => absurd h List.not_mem_nil
  | (key, v) :: items, h => by
    rcases List.mem_cons.mp h with rfl | h
    · exact ⟨_, List.mem_cons_self, Or.inl hp⟩
    · rcases List.mem_append.mp h with h | h
      · exact ⟨_, List.mem_cons_self, Or.inr (names_of_text hp v h)⟩
      · obtain ⟨entry, hmem, hn⟩ := names_of_entry hp items h
        exact ⟨entry, List.mem_cons_of_mem _ hmem, hn⟩

end

theorem names_iff {v : Value} : Names p v ↔ ∃ x ∈ v.texts, p x := by
  constructor
  · exact exists_text
  · intro hx
    obtain ⟨x, hmem, hp⟩ := hx
    exact names_of_text hp v hmem

instance [DecidablePred p] (v : Value) : Decidable (Names p v) :=
  decidable_of_iff (∃ x ∈ v.texts, p x) names_iff.symm

end
end Py
