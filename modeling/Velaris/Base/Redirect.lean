import Mathlib.Logic.Function.Basic
import Mathlib.Data.List.Basic

/-!
# Following redirects

A thing may name the next one in its place; a move takes things from a source to a target.

* `follow next n a`   what `n` redirects lead to;
* `Ends next n a c`   they lead to `c`, which has none;
* `Ends.unique`   there is one end, at one distance;
* `Ends.extend`, `Ends.divert`   the ends after one more redirect: of the end, or of something on
    the way to it;
* `Ends.cut`   and after one less;
* `chase`   a walk that takes so many redirects and turns back at what it has seen;
* `chase_of_ends`   it finds an end that is near enough;
* `Leads`   the moves, newest first, lead from a home to a place;
* `Leads.top`   of the moves to the place, from which none has gone on, there is one: the
    newest.
-/

namespace Base

section
variable {α : Type*} (next : α → Option α)

def follow : Nat → α → Option α
  | 0, a => some a
  | n + 1, a => (next a).bind (follow n)

/-- `n` redirects lead from `a` to `c`, which has none -/
def Ends (n : Nat) (a c : α) : Prop := follow next n a = some c ∧ next c = none

variable {next}

theorem Ends.here {a : α} (h : next a = none) : Ends next 0 a a := ⟨rfl, h⟩

theorem Ends.cons {n : Nat} {a b c : α} (hb : next a = some b) (h : Ends next n b c) :
    Ends next (n + 1) a c := by
  refine ⟨?_, h.2⟩
  rw [follow, hb]
  exact h.1

theorem ends_zero_iff {a c : α} : Ends next 0 a c ↔ a = c ∧ next a = none := by
  constructor
  · intro h
    obtain rfl : a = c := Option.some.inj h.1
    exact ⟨rfl, h.2⟩
  · intro h
    obtain ⟨rfl, hnone⟩ := h
    exact Ends.here hnone

theorem ends_succ_iff {n : Nat} {a c : α} :
    Ends next (n + 1) a c ↔ ∃ b, next a = some b ∧ Ends next n b c := by
  constructor
  · intro h
    obtain ⟨b, hb, hfollow⟩ := Option.bind_eq_some_iff.mp h.1
    exact ⟨b, hb, hfollow, h.2⟩
  · intro hx
    obtain ⟨b, hb, h⟩ := hx
    exact Ends.cons hb h

theorem Ends.unique {m n : Nat} {a c d : α} (hc : Ends next m a c) (hd : Ends next n a d) :
    m = n ∧ c = d := by
  induction m generalizing n a with
  | zero =>
    obtain ⟨rfl, hnone⟩ := ends_zero_iff.mp hc
    cases n with
    | zero => exact ⟨rfl, (ends_zero_iff.mp hd).1⟩
    | succ n =>
      obtain ⟨b, hb, -⟩ := ends_succ_iff.mp hd
      exact absurd (hnone.symm.trans hb) nofun
  | succ m ih =>
    obtain ⟨b, hb, hc⟩ := ends_succ_iff.mp hc
    cases n with
    | zero => exact absurd ((ends_zero_iff.mp hd).2.symm.trans hb) nofun
    | succ n =>
      obtain ⟨b', hb', hd⟩ := ends_succ_iff.mp hd
      obtain rfl := Option.some.inj (hb.symm.trans hb')
      obtain ⟨rfl, hcd⟩ := ih hc hd
      exact ⟨rfl, hcd⟩

/-! ## one redirect more -/

variable [DecidableEq α]

theorem Ends.extend {n : Nat} {a c d : α} (h : Ends next n a c) (hne : d ≠ c)
    (hd : next d = none) : Ends (Function.update next c (some d)) (n + 1) a d := by
  have hend : Ends (Function.update next c (some d)) 0 d d :=
    Ends.here ((Function.update_of_ne hne _ _).trans hd)
  induction n generalizing a with
  | zero =>
    obtain ⟨rfl, -⟩ := ends_zero_iff.mp h
    exact Ends.cons (Function.update_self _ _ _) hend
  | succ n ih =>
    obtain ⟨b, hb, hrest⟩ := ends_succ_iff.mp h
    have hac : a ≠ c := by
      intro hac
      rw [hac, h.2] at hb
      cases hb
    exact Ends.cons ((Function.update_of_ne hac _ _).trans hb) (ih hrest)

/-- a way that does not meet `x` is there whatever `x` is sent to -/
theorem Ends.avoid {k : Nat} {y c x z : α} (h : Ends next k y c)
    (havoid : ∀ j ≤ k, follow next j y ≠ some x) :
    Ends (Function.update next x (some z)) k y c := by
  induction k generalizing y with
  | zero =>
    obtain ⟨rfl, hnone⟩ := ends_zero_iff.mp h
    have hne : y ≠ x := fun hyx => havoid 0 (Nat.le_refl 0) (congrArg some hyx)
    exact Ends.here ((Function.update_of_ne hne _ _).trans hnone)
  | succ k ih =>
    obtain ⟨b, hb, hrest⟩ := ends_succ_iff.mp h
    have hne : y ≠ x := fun hyx => havoid 0 (Nat.zero_le _) (congrArg some hyx)
    refine Ends.cons ((Function.update_of_ne hne _ _).trans hb) (ih hrest ?_)
    intro j hj hfollow
    apply havoid (j + 1) (Nat.succ_le_succ hj)
    rw [follow, hb]
    exact hfollow

/-- something is sent where the way to the end does not meet it -/
theorem Ends.divert {n k : Nat} {a c x y : α} (h : Ends next n a c) (hy : Ends next k y c)
    (hx : x ≠ c) (havoid : ∀ j ≤ k, follow next j y ≠ some x) :
    ∃ m, Ends (Function.update next x (some y)) m a c ∧
      (m = n ∨ ∃ j < n, follow next j a = some x ∧ m = j + 1 + k) := by
  induction n generalizing a with
  | zero =>
    obtain ⟨rfl, hnone⟩ := ends_zero_iff.mp h
    exact ⟨0, Ends.here ((Function.update_of_ne hx.symm _ _).trans hnone), Or.inl rfl⟩
  | succ n ih =>
    by_cases hax : a = x
    · refine ⟨0 + 1 + k, ?_, Or.inr ⟨0, Nat.succ_pos n, congrArg some hax, rfl⟩⟩
      rw [hax, Nat.add_comm]
      exact Ends.cons (Function.update_self _ _ _) (hy.avoid havoid)
    · obtain ⟨b, hb, hrest⟩ := ends_succ_iff.mp h
      obtain ⟨m, hends, hm⟩ := ih hrest
      refine ⟨m + 1, Ends.cons ((Function.update_of_ne hax _ _).trans hb) hends, ?_⟩
      rcases hm with rfl | ⟨j, hj, hfollow, rfl⟩
      · exact Or.inl rfl
      · refine Or.inr ⟨j + 1, Nat.succ_lt_succ hj, ?_, by omega⟩
        rw [follow, hb]
        exact hfollow

/-- a redirect goes: what led through `x` ends there -/
theorem Ends.cut {n : Nat} {a c : α} (h : Ends next n a c) (x : α) :
    ∃ m ≤ n, ∃ d, Ends (Function.update next x none) m a d := by
  induction n generalizing a with
  | zero =>
    obtain ⟨rfl, hnone⟩ := ends_zero_iff.mp h
    refine ⟨0, Nat.le_refl 0, a, Ends.here ?_⟩
    by_cases hax : a = x
    · rw [hax, Function.update_self]
    · rw [Function.update_of_ne hax, hnone]
  | succ n ih =>
    by_cases hax : a = x
    · refine ⟨0, Nat.zero_le _, a, Ends.here ?_⟩
      rw [hax, Function.update_self]
    · obtain ⟨b, hb, hrest⟩ := ends_succ_iff.mp h
      obtain ⟨m, hm, d, hends⟩ := ih hrest
      refine ⟨m + 1, Nat.succ_le_succ hm, d, Ends.cons ?_ hends⟩
      rw [Function.update_of_ne hax, hb]

/-! ## a walk with a limit -/

variable (next) in
/-- at most `hops` redirects, none of them to what the walk has seen -/
def chase : Nat → List α → α → α
  | 0, _, a => a
  | hops + 1, seen, a =>
    match next a with
    | none => a
    | some b => if b ∈ a :: seen then a else chase hops (a :: seen) b

theorem chase_of_ends {n hops : Nat} {seen : List α} {a c : α} (h : Ends next n a c)
    (hn : n ≤ hops) (hseen : ∀ s ∈ seen, ∃ m, n < m ∧ Ends next m s c) :
    chase next hops seen a = c := by
  induction n generalizing hops seen a with
  | zero =>
    obtain ⟨rfl, hnone⟩ := ends_zero_iff.mp h
    cases hops with
    | zero => rfl
    | succ hops => rw [chase, hnone]
  | succ n ih =>
    obtain ⟨b, hb, hrest⟩ := ends_succ_iff.mp h
    obtain ⟨hops, rfl⟩ := Nat.exists_eq_add_of_lt (Nat.lt_of_lt_of_le (Nat.succ_pos n) hn)
    rw [Nat.zero_add, chase, hb]
    have hfurther : ∀ s ∈ a :: seen, ∃ m, n < m ∧ Ends next m s c := by
      intro s hs
      rcases List.mem_cons.mp hs with rfl | hs
      · exact ⟨n + 1, Nat.lt_succ_self n, h⟩
      · obtain ⟨m, hm, hends⟩ := hseen s hs
        exact ⟨m, by omega, hends⟩
    -- what was seen is further from the end
    have hnew : b ∉ a :: seen := by
      intro hmem
      obtain ⟨m, hm, hends⟩ := hfurther b hmem
      have heq := (hends.unique hrest).1
      omega
    show (if b ∈ a :: seen then a else chase next hops (a :: seen) b) = c
    rw [if_neg hnew]
    exact ih hrest (by omega) hfurther

end
end Base

namespace Base

variable {μ π : Type*} (source target : μ → π)

/-- the moves, newest first, lead from `home` to the place -/
def Leads (home : π) : List μ → π → Prop
  | [], place => place = home
  | m :: ms, place => target m = place ∧ Leads home ms (source m)

variable {source target} {home place : π} {ms : List μ}

theorem Leads.exists_source {m m' : μ} (h : Leads source target home (m :: ms) place)
    (hm' : m' ∈ ms) : ∃ t ∈ m :: ms, source t = target m' := by
  induction ms generalizing m place with
  | nil => cases hm'
  | cons n ms ih =>
    obtain ⟨-, hrest⟩ := h
    rcases List.mem_cons.mp hm' with rfl | hm'
    · exact ⟨m, List.mem_cons_self, hrest.1.symm⟩
    · obtain ⟨t, ht, hsource⟩ := ih hrest hm'
      exact ⟨t, List.mem_cons_of_mem m ht, hsource⟩

theorem Leads.top {m : μ} (h : Leads source target home ms place) (hm : m ∈ ms)
    (htarget : target m = place) (hlast : ∀ t ∈ ms, source t ≠ place) :
    ∃ rest, ms = m :: rest ∧ Leads source target home rest (source m) := by
  cases ms with
  | nil => cases hm
  | cons n ms =>
    rcases List.mem_cons.mp hm with rfl | hm
    · exact ⟨ms, rfl, h.2⟩
    · obtain ⟨t, ht, hsource⟩ := h.exists_source hm
      exact absurd (hsource.trans htarget) (hlast t ht)

end Base
