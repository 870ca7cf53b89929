import Mathlib.Data.List.Forall2
import Mathlib.Data.List.Basic

/-!
# A list taken through a partial function

* `exists_mapM`   where every element has a value, the list of the values is there;
* `forall₂_of_mapM`   it has the value of each element in its place;
* `mem_right_of_forall₂`   what an element is matched with;
* `exists_of_bind_ok`   the two steps of a computation that does not fail;
* `forall₂_of_mapM_ok`, `exists_mapM_ok`   a list taken through a function that may fail, and did not;
* `mapM_error_iff`   one that did fails as its first element that fails;
* `map_of_mapM_ok`   what can be told of the values from the elements;
* `allUntil`, `firstOf`   a conjunction and a search that stop early, and when they fail.
-/

namespace Base

variable {α β : Type} {f : α → Option β}

theorem exists_mapM {xs : List α} (h : ∀ x ∈ xs, (f x).isSome) : ∃ ys, xs.mapM f = some ys := by
  induction xs with
  | nil => exact ⟨[], rfl⟩
  | cons x xs ih =>
    obtain ⟨y, hy⟩ := Option.isSome_iff_exists.mp (h x List.mem_cons_self)
    obtain ⟨ys, hys⟩ := ih fun x' hx' => h x' (List.mem_cons_of_mem _ hx')
    exact ⟨y :: ys, by rw [List.mapM_cons, hy, hys]; rfl⟩

theorem forall₂_of_mapM {xs : List α} {ys : List β} (h : xs.mapM f = some ys) :
    List.Forall₂ (fun x y => f x = some y) xs ys := by
  induction xs generalizing ys with
  | nil =>
    cases h
    exact .nil
  | cons x xs ih =>
    rw [List.mapM_cons] at h
    obtain ⟨y, hy, h⟩ := Option.bind_eq_some_iff.mp h
    obtain ⟨ys', hys, h⟩ := Option.bind_eq_some_iff.mp h
    cases h
    exact .cons hy (ih hys)

theorem mem_right_of_forall₂ {R : α → β → Prop} {xs : List α} {ys : List β}
    (h : List.Forall₂ R xs ys) {x : α} (hx : x ∈ xs) : ∃ y ∈ ys, R x y := by
  induction h with
  | nil => cases hx
  | cons hxy _ ih =>
    rcases List.mem_cons.mp hx with rfl | hx
    · exact ⟨_, List.mem_cons_self, hxy⟩
    · obtain ⟨y, hy, hR⟩ := ih hx
      exact ⟨y, List.mem_cons_of_mem _ hy, hR⟩

theorem mem_left_of_forall₂ {R : α → β → Prop} {xs : List α} {ys : List β}
    (h : List.Forall₂ R xs ys) {y : β} (hy : y ∈ ys) : ∃ x ∈ xs, R x y := by
  obtain ⟨x, hx, hR⟩ := mem_right_of_forall₂ h.flip hy
  exact ⟨x, hx, hR⟩

/-! ## computations that may fail -/

variable {ε : Type}

theorem exists_of_bind_ok {x : Except ε α} {g : α → Except ε β} {b : β}
    (h : (x >>= g) = .ok b) : ∃ a, x = .ok a ∧ g a = .ok b := by
  cases x with
  | error e => cases h
  | ok a => exact ⟨a, rfl, h⟩

theorem exists_bind_ok_iff {x : Except ε α} {g : α → Except ε β} :
    (∃ b, (x >>= g) = .ok b) ↔ ∃ a, x = .ok a ∧ ∃ b, g a = .ok b := by
  constructor
  · intro h
    obtain ⟨b, hb⟩ := h
    obtain ⟨a, ha, hg⟩ := exists_of_bind_ok hb
    exact ⟨a, ha, b, hg⟩
  · intro h
    obtain ⟨a, rfl, b, hb⟩ := h
    exact ⟨b, hb⟩

theorem exists_of_map_ok {x : Except ε α} {g : α → β} {b : β} (h : x.map g = .ok b) :
    ∃ a, x = .ok a ∧ g a = b := by
  cases x with
  | error e => cases h
  | ok a => exact ⟨a, rfl, Except.ok.inj h⟩

theorem forall₂_of_mapM_ok {g : α → Except ε β} {xs : List α} {ys : List β}
    (h : xs.mapM g = .ok ys) : List.Forall₂ (fun x y => g x = .ok y) xs ys := by
  induction xs generalizing ys with
  | nil =>
    cases h
    exact .nil
  | cons x xs ih =>
    rw [List.mapM_cons] at h
    obtain ⟨y, hy, h⟩ := exists_of_bind_ok h
    obtain ⟨ys', hys, h⟩ := exists_of_bind_ok h
    cases h
    exact .cons hy (ih hys)

theorem exists_mapM_ok {g : α → Except ε β} {xs : List α} (h : ∀ x ∈ xs, ∃ y, g x = .ok y) :
    ∃ ys, xs.mapM g = .ok ys := by
  induction xs with
  | nil => exact ⟨[], rfl⟩
  | cons x xs ih =>
    obtain ⟨y, hy⟩ := h x List.mem_cons_self
    obtain ⟨ys, hys⟩ := ih fun x' hx' => h x' (List.mem_cons_of_mem _ hx')
    exact ⟨y :: ys, by rw [List.mapM_cons, hy, hys]; rfl⟩

theorem mapM_error_iff {g : α → Except ε β} {xs : List α} {e : ε} :
    xs.mapM g = .error e ↔ ∃ before x after, xs = before ++ x :: after ∧
      (∀ y ∈ before, ∃ v, g y = .ok v) ∧ g x = .error e := by
  induction xs with
  | nil => simp [pure, Except.pure]
  | cons x xs ih =>
    rw [List.mapM_cons]
    cases hx : g x with
    | error f =>
      constructor
      · intro h
        cases h
        exact ⟨[], x, xs, rfl, by simp, hx⟩
      · rintro ⟨before, y, after, heq, hbefore, hy⟩
        cases before with
        | nil =>
          cases heq
          exact congrArg Except.error (Except.error.inj (hx.symm.trans hy))
        | cons z before =>
          cases heq
          obtain ⟨v, hv⟩ := hbefore x List.mem_cons_self
          cases hx.symm.trans hv
    | ok v =>
      have hrest : ((.ok v : Except ε β) >>= fun b => xs.mapM g >>= fun bs => pure (b :: bs)) =
          .error e ↔ xs.mapM g = .error e := by
        cases hxs : xs.mapM g with
        | error f => exact Iff.rfl
        | ok vs => exact iff_of_false (fun h => nomatch h) fun h => nomatch h
      rw [hrest, ih]
      constructor
      · rintro ⟨before, y, after, rfl, hbefore, hy⟩
        exact ⟨x :: before, y, after, rfl, List.forall_mem_cons.mpr ⟨⟨v, hx⟩, hbefore⟩, hy⟩
      · rintro ⟨before, y, after, heq, hbefore, hy⟩
        cases before with
        | nil =>
          cases heq
          cases hx.symm.trans hy
        | cons z before =>
          cases heq
          exact ⟨before, y, after, rfl, (List.forall_mem_cons.mp hbefore).2, hy⟩

theorem map_of_mapM_ok {γ : Type} {g : α → Except ε β} {key : β → γ} {key' : α → γ}
    (hg : ∀ x y, g x = .ok y → key y = key' x) {xs : List α} {ys : List β}
    (h : xs.mapM g = .ok ys) : ys.map key = xs.map key' := by
  have hkeys := (forall₂_of_mapM_ok h).imp fun x y hxy => (hg x y hxy).symm
  rw [← List.forall₂_map_right_iff, ← List.forall₂_map_left_iff, List.forall₂_eq_eq_eq] at hkeys
  exact hkeys.symm

/-! ## searches that may fail -/

def allUntil (f : α → Except ε Bool) : List α → Except ε Bool
  | [] => .ok true
  | x :: xs => do if ← f x then allUntil f xs else return false

theorem allUntil_cons_of_true {f : α → Except ε Bool} {x : α} {xs : List α} (h : f x = .ok true) :
    allUntil f (x :: xs) = allUntil f xs := by
  rw [allUntil, h]
  rfl

theorem allUntil_eq_true_iff {f : α → Except ε Bool} {xs : List α} :
    allUntil f xs = .ok true ↔ ∀ x ∈ xs, f x = .ok true := by
  induction xs with
  | nil => simp [allUntil]
  | cons x xs ih =>
    cases hx : f x with
    | error e => simp [allUntil, hx, bind, Except.bind]
    | ok b =>
      cases b with
      | true => simp [allUntil_cons_of_true hx, hx, ih]
      | false => simp [allUntil, hx, bind, Except.bind, pure, Except.pure]

theorem allUntil_returns_iff {f : α → Except ε Bool} {xs : List α} :
    (∃ b, allUntil f xs = .ok b) ↔ ∀ before x after, xs = before ++ x :: after →
      (∀ y ∈ before, f y = .ok true) → ∃ b, f x = .ok b := by
  induction xs with
  | nil => simp [allUntil]
  | cons x xs ih =>
    constructor
    · intro h before y after hxs hbefore
      rcases before with _ | ⟨z, before⟩
      · obtain ⟨rfl, -⟩ := List.cons.inj hxs
        obtain ⟨b, hb⟩ := h
        obtain ⟨a, ha, -⟩ := exists_of_bind_ok hb
        exact ⟨a, ha⟩
      · obtain ⟨hz, htail⟩ := List.cons.inj hxs
        subst hz
        rw [allUntil_cons_of_true (hbefore x List.mem_cons_self)] at h
        exact ih.mp h before y after htail fun z hz => hbefore z (List.mem_cons_of_mem x hz)
    · intro h
      obtain ⟨b, hb⟩ := h [] x xs rfl fun y hy => absurd hy List.not_mem_nil
      cases b with
      | true =>
        rw [allUntil_cons_of_true hb]
        refine ih.mpr fun before y after hxs hbefore => ?_
        refine h (x :: before) y after (by rw [hxs]; rfl) fun z hz => ?_
        obtain rfl | hz := List.mem_cons.mp hz
        · exact hb
        · exact hbefore z hz
      | false => exact ⟨false, by rw [allUntil, hb]; rfl⟩

def firstOf (f : α → Except ε Bool) : List α → Except ε (Option α)
  | [] => .ok none
  | x :: xs => do if ← f x then return some x else firstOf f xs

theorem firstOf_cons_of_false {f : α → Except ε Bool} {x : α} {xs : List α} (h : f x = .ok false) :
    firstOf f (x :: xs) = firstOf f xs := by
  rw [firstOf, h]
  rfl

theorem firstOf_returns_iff {f : α → Except ε Bool} {xs : List α} :
    (∃ r, firstOf f xs = .ok r) ↔ ∀ before x after, xs = before ++ x :: after →
      (∀ y ∈ before, f y ≠ .ok true) → ∃ b, f x = .ok b := by
  induction xs with
  | nil => simp [firstOf]
  | cons x xs ih =>
    cases hx : f x with
    | error e =>
      refine ⟨fun h => ?_, fun h => ?_⟩
      · obtain ⟨r, hr⟩ := h
        rw [firstOf, hx] at hr
        exact nomatch hr
      · obtain ⟨b, hb⟩ := h [] x xs rfl fun y hy => absurd hy List.not_mem_nil
        exact nomatch hx.symm.trans hb
    | ok b =>
      cases b with
      | true =>
        refine ⟨fun _ before y after hxs hbefore => ?_, fun _ => ⟨some x, by rw [firstOf, hx]; rfl⟩⟩
        rcases before with _ | ⟨z, before⟩
        · obtain ⟨rfl, -⟩ := List.cons.inj hxs
          exact ⟨true, hx⟩
        · obtain ⟨rfl, -⟩ := List.cons.inj hxs
          exact absurd hx (hbefore x List.mem_cons_self)
      | false =>
        have hne : f x ≠ .ok true := by
          rw [hx]
          exact fun h => nomatch h
        rw [firstOf_cons_of_false hx, ih]
        refine ⟨fun h before y after hxs hbefore => ?_, fun h before y after hxs hbefore => ?_⟩
        · rcases before with _ | ⟨z, before⟩
          · obtain ⟨rfl, -⟩ := List.cons.inj hxs
            exact ⟨false, hx⟩
          · obtain ⟨-, hxs⟩ := List.cons.inj hxs
            exact h before y after hxs fun w hw => hbefore w (List.mem_cons_of_mem z hw)
        · refine h (x :: before) y after (by rw [hxs]; rfl) fun w hw => ?_
          obtain rfl | hw := List.mem_cons.mp hw
          · exact hne
          · exact hbefore w hw

theorem firstOf_some {f : α → Except ε Bool} {xs : List α} {x : α}
    (h : firstOf f xs = .ok (some x)) :
    f x = .ok true ∧ ∃ before after, xs = before ++ x :: after ∧ ∀ y ∈ before, f y = .ok false := by
  induction xs with
  | nil => exact nomatch h
  | cons y ys ih =>
    cases hy : f y with
    | error e =>
      rw [firstOf, hy] at h
      exact nomatch h
    | ok b =>
      cases b with
      | true =>
        rw [firstOf, hy] at h
        obtain rfl : y = x := Option.some.inj (Except.ok.inj h)
        exact ⟨hy, [], ys, rfl, fun z hz => absurd hz List.not_mem_nil⟩
      | false =>
        rw [firstOf_cons_of_false hy] at h
        obtain ⟨hx, before, after, rfl, hbefore⟩ := ih h
        refine ⟨hx, y :: before, after, rfl, fun z hz => ?_⟩
        obtain rfl | hz := List.mem_cons.mp hz
        · exact hy
        · exact hbefore z hz

theorem firstOf_none {f : α → Except ε Bool} {xs : List α} (h : firstOf f xs = .ok none) :
    ∀ x ∈ xs, f x = .ok false := by
  induction xs with
  | nil => exact fun x hx => absurd hx List.not_mem_nil
  | cons y ys ih =>
    cases hy : f y with
    | error e =>
      rw [firstOf, hy] at h
      exact nomatch h
    | ok b =>
      cases b with
      | true =>
        rw [firstOf, hy] at h
        exact nomatch h
      | false =>
        rw [firstOf_cons_of_false hy] at h
        intro x hx
        obtain rfl | hx := List.mem_cons.mp hx
        · exact hy
        · exact ih h x hx

end Base
