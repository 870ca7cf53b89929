import Mathlib.Data.List.Basic

/-!
# Texts joined with a separator

* `eq_of_append_sep`   what stands before the first separator, and what stands after it;
* `eq_of_append_sep_last`   what stands before the last separator, and what stands after it;
* `intercalate_inj`   the parts between the separators;
* `mem_intercalate`   what is in the whole.
-/

namespace Base

variable {α : Type*} {s : α}

theorem eq_of_append_sep {a a' b b' : List α} (ha : s ∉ a) (ha' : s ∉ a')
    (h : a ++ s :: b = a' ++ s :: b') : a = a' ∧ b = b' := by
  induction a generalizing a' with
  | nil =>
    cases a' with
    | nil => exact ⟨rfl, (List.cons.inj h).2⟩
    | cons x a' =>
      have hx : s = x := (List.cons.inj h).1
      exact absurd (hx ▸ List.mem_cons_self) ha'
  | cons x a ih =>
    cases a' with
    | nil =>
      have hx : x = s := (List.cons.inj h).1
      exact absurd (hx ▸ List.mem_cons_self) ha
    | cons y a' =>
      obtain ⟨rfl, htail⟩ := List.cons.inj h
      have hrest := ih (fun hm => ha (List.mem_cons_of_mem x hm))
        (fun hm => ha' (List.mem_cons_of_mem x hm)) htail
      exact ⟨congrArg (x :: ·) hrest.1, hrest.2⟩

theorem eq_of_append_sep_last {a a' b b' : List α} (hb : s ∉ b) (hb' : s ∉ b')
    (h : a ++ s :: b = a' ++ s :: b') : a = a' ∧ b = b' := by
  have hrev : b.reverse ++ s :: a.reverse = b'.reverse ++ s :: a'.reverse := by
    simpa using congrArg List.reverse h
  have hparts := eq_of_append_sep (fun hm => hb (List.mem_reverse.mp hm))
    (fun hm => hb' (List.mem_reverse.mp hm)) hrev
  exact ⟨List.reverse_inj.mp hparts.2, List.reverse_inj.mp hparts.1⟩

theorem intercalate_inj [DecidableEq α] {xs ys : List (List α)} (hxs : ∀ x ∈ xs, s ∉ x)
    (hys : ∀ y ∈ ys, s ∉ y) (hx : xs ≠ []) (hy : ys ≠ [])
    (h : [s].intercalate xs = [s].intercalate ys) : xs = ys := by
  rw [← List.splitOn_intercalate s hxs hx, h, List.splitOn_intercalate s hys hy]

theorem mem_intercalate {xs : List (List α)} {a : α} (h : a ∈ [s].intercalate xs) :
    a = s ∨ ∃ x ∈ xs, a ∈ x := by
  induction xs with
  | nil => cases h
  | cons x xs ih =>
    cases xs with
    | nil =>
      right
      exact ⟨x, List.mem_cons_self, by simpa [List.intercalate] using h⟩
    | cons y ys =>
      have hsplit : [s].intercalate (x :: y :: ys) = x ++ s :: [s].intercalate (y :: ys) := by
        simp [List.intercalate]
      rw [hsplit, List.mem_append, List.mem_cons] at h
      rcases h with h | h | h
      · exact Or.inr ⟨x, List.mem_cons_self, h⟩
      · exact Or.inl h
      · rcases ih h with hs | ⟨z, hz, ha⟩
        · exact Or.inl hs
        · exact Or.inr ⟨z, List.mem_cons_of_mem x hz, ha⟩

end Base
