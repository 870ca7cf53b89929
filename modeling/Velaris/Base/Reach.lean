import Mathlib.Data.Nat.Find
import Mathlib.Logic.Function.Iterate
import Mathlib.Algebra.Order.BigOperators.Group.List
import Mathlib.Algebra.Order.Group.Nat
import Mathlib.Algebra.Ring.Nat
import Mathlib.Data.List.Basic
import Mathlib.Logic.Relation

/-!
# What is reached

By a step that is iterated and adds to a bounded measure whenever it changes something; and in a
graph, which is the list of what comes next after each vertex.

* `rounds_le`   a run that changes something at every round is at most the bound long;
* `exists_fixed`   within the bound there is a round that changes nothing;
* `exists_iterate_le`  what some round reaches is reached within the bound;
* `search`   a queue, in which what was seen before is passed over;
* `flood`   a queue, in which nothing is put twice;
* `mem_search`, `mem_flood`   with enough fuel, both find what is reached;
* `attach`   one pass over further edges, each with a search behind it;
* `InOrder`, `mem_attach`   which finds what is reached by taking these in their order.
-/

namespace Base

section
variable {σ : Type} {step : σ → σ} {m : σ → ℕ} {N : ℕ}

theorem measure_ge (hgrow : ∀ s, step s ≠ s → m s < m (step s)) {s : σ} {n : ℕ}
    (h : ∀ k < n, step (step^[k] s) ≠ step^[k] s) : n ≤ m (step^[n] s) := by
  induction n with
  | zero => omega
  | succ n ih =>
    have hn : n ≤ m (step^[n] s) := ih fun k hk => h k (by omega)
    have hlast : m (step^[n] s) < m (step (step^[n] s)) := hgrow _ (h n (by omega))
    rw [Function.iterate_succ_apply']
    omega

theorem rounds_le (hgrow : ∀ s, step s ≠ s → m s < m (step s)) (hbound : ∀ s, m s ≤ N) {s : σ}
    {n : ℕ} (h : ∀ k < n, step (step^[k] s) ≠ step^[k] s) : n ≤ N :=
  Nat.le_trans (measure_ge hgrow h) (hbound _)

theorem exists_fixed (hgrow : ∀ s, step s ≠ s → m s < m (step s)) (hbound : ∀ s, m s ≤ N) (s : σ) :
    ∃ k ≤ N, step (step^[k] s) = step^[k] s := by
  by_contra hnone
  have hall : ∀ k < N + 1, step (step^[k] s) ≠ step^[k] s := by
    intro k hk hfix
    exact hnone ⟨k, by omega, hfix⟩
  have h := rounds_le hgrow hbound hall
  omega

theorem iterate_of_fixed {s : σ} {k n : ℕ} (h : step (step^[k] s) = step^[k] s) (hkn : k ≤ n) :
    step^[n] s = step^[k] s := by
  obtain ⟨d, rfl⟩ := Nat.exists_eq_add_of_le' hkn
  rw [Function.iterate_add_apply]
  exact Function.iterate_fixed h d

theorem exists_iterate_le (hgrow : ∀ s, step s ≠ s → m s < m (step s)) (hbound : ∀ s, m s ≤ N)
    {P : σ → Prop} {s : σ} (h : ∃ n, P (step^[n] s)) : ∃ n ≤ N, P (step^[n] s) := by
  classical
  refine ⟨Nat.find h, ?_, Nat.find_spec h⟩
  apply rounds_le hgrow hbound (s := s)
  intro k hk hfix
  -- a round that changes nothing before the first one with `P` would have had `P` itself
  apply Nat.find_min h hk
  have hsame : step^[Nat.find h] s = step^[k] s := iterate_of_fixed hfix (Nat.le_of_lt hk)
  rw [← hsame]
  exact Nat.find_spec h

end

end Base

namespace Base
namespace Reach

open Relation

variable {α : Type*} {next : α → List α}

/-- `y` comes right after `x` -/
def Leads (next : α → List α) (x y : α) : Prop := y ∈ next x

def Closed (next : α → List α) (seen : List α) : Prop := ∀ x ∈ seen, ∀ y ∈ next x, y ∈ seen

theorem Closed.reach {seen : List α} (h : Closed next seen) {x y : α} (hx : x ∈ seen)
    (hxy : ReflTransGen (Leads next) x y) : y ∈ seen := by
  induction hxy with
  | refl => exact hx
  | tail _ hlast ih => exact h _ ih _ hlast

/-- what a search finds: what was there, what was waiting, and what is reached from there -/
structure Found (next : α → List α) (seen queue found : List α) : Prop where
  old : ∀ x ∈ seen, x ∈ found
  waiting : ∀ x ∈ queue, x ∈ found
  closed : Closed next found
  reached : ∀ y ∈ found, y ∈ seen ∨ ∃ x ∈ queue, ReflTransGen (Leads next) x y

namespace Found

variable {seen queue found : List α} {x : α}

theorem done (h : Closed next seen) : Found next seen [] seen :=
  ⟨fun _ hx => hx, by simp, h, fun _ hy => Or.inl hy⟩

theorem skip (h : Found next seen queue found) (hx : x ∈ seen) :
    Found next seen (x :: queue) found := by
  refine ⟨h.old, List.forall_mem_cons.mpr ⟨h.old x hx, h.waiting⟩, h.closed, fun y hy => ?_⟩
  rcases h.reached y hy with hold | ⟨a, ha, hay⟩
  · exact Or.inl hold
  · exact Or.inr ⟨a, List.mem_cons_of_mem x ha, hay⟩

/-- what is new is seen, and what comes after it waits -/
theorem visit (h : Found next (x :: seen) (queue ++ next x) found) :
    Found next seen (x :: queue) found := by
  obtain ⟨hx, hold⟩ := List.forall_mem_cons.mp h.old
  refine ⟨hold, List.forall_mem_cons.mpr ⟨hx, fun a ha => ?_⟩, h.closed, fun y hy => ?_⟩
  · exact h.waiting a (List.mem_append_left _ ha)
  · rcases h.reached y hy with hseen | ⟨a, ha, hay⟩
    · rcases List.mem_cons.mp hseen with rfl | hseen
      · exact Or.inr ⟨y, List.mem_cons_self, .refl⟩
      · exact Or.inl hseen
    · rcases List.mem_append.mp ha with hqueue | hnext
      · exact Or.inr ⟨a, List.mem_cons_of_mem x hqueue, hay⟩
      · exact Or.inr ⟨x, List.mem_cons_self, .head hnext hay⟩

end Found

variable [DecidableEq α]

/-! ## searches -/

def search (next : α → List α) : ℕ → List α → List α → List α
  | 0, seen, _ => seen
  | _ + 1, seen, [] => seen
  | n + 1, seen, x :: queue =>
    if x ∈ seen then search next n seen queue
    else search next n (x :: seen) (queue ++ next x)

/-- what of `ys` is new is marked, and put in the queue -/
def mark (seen queue : List α) : List α → List α × List α
  | [] => (seen, queue)
  | y :: ys => if y ∈ seen then mark seen queue ys else mark (y :: seen) (queue ++ [y]) ys

def flood (next : α → List α) : ℕ → List α → List α → List α
  | 0, seen, _ => seen
  | _ + 1, seen, [] => seen
  | n + 1, seen, x :: queue =>
    flood next n (mark seen queue (next x)).1 (mark seen queue (next x)).2

/-! ## fuel -/

def unseen (U : List α) (f : α → ℕ) (seen : List α) : ℕ :=
  ((U.filter (· ∉ seen)).map f).sum

theorem add_sum_le {U : List α} {x : α} (hx : x ∈ U) (f : α → ℕ) :
    f x + ((U.filter (· ≠ x)).map f).sum ≤ (U.map f).sum := by
  induction U with
  | nil => cases hx
  | cons u U ih =>
    rw [List.filter_cons, List.map_cons, List.sum_cons]
    by_cases hu : u = x
    · rw [hu, if_neg (by simp)]
      have hle : ((U.filter (· ≠ x)).map f).sum ≤ (U.map f).sum :=
        (List.filter_sublist.map f).sum_le_sum fun _ _ => Nat.zero_le _
      omega
    · rw [if_pos (by simpa using hu), List.map_cons, List.sum_cons]
      have hrest := ih ((List.mem_cons.mp hx).resolve_left (Ne.symm hu))
      omega

theorem add_unseen_le {U seen : List α} {x : α} (hx : x ∈ U) (hnew : x ∉ seen) (f : α → ℕ) :
    f x + unseen U f (x :: seen) ≤ unseen U f seen := by
  have hmem : x ∈ U.filter (· ∉ seen) := List.mem_filter.mpr ⟨hx, by simpa using hnew⟩
  have hfilter : U.filter (· ∉ x :: seen) = (U.filter (· ∉ seen)).filter (· ≠ x) := by
    rw [List.filter_filter]
    refine List.filter_congr fun u _ => ?_
    simp
  rw [unseen, unseen, hfilter]
  exact add_sum_le hmem f

variable {U : List α}

theorem found_search (hU : ∀ x ∈ U, ∀ y ∈ next x, y ∈ U) {n : ℕ} {seen queue : List α}
    (hqueue : ∀ x ∈ queue, x ∈ U) (hwait : ∀ x ∈ seen, ∀ y ∈ next x, y ∈ seen ∨ y ∈ queue)
    (hfuel : queue.length + unseen U (fun x => (next x).length) seen ≤ n) :
    Found next seen queue (search next n seen queue) := by
  have hdone : ∀ seen : List α, (∀ x ∈ seen, ∀ y ∈ next x, y ∈ seen ∨ y ∈ ([] : List α)) →
      Found next seen [] seen := fun seen hseen =>
    .done fun x hx y hy => (hseen x hx y hy).resolve_right (by simp)
  induction n generalizing seen queue with
  | zero =>
    obtain rfl : queue = [] := List.length_eq_zero_iff.mp (by omega)
    exact hdone seen hwait
  | succ n ih =>
    cases queue with
    | nil => exact hdone seen hwait
    | cons x queue =>
      obtain ⟨hx, hrest⟩ := List.forall_mem_cons.mp hqueue
      rw [List.length_cons] at hfuel
      rw [search]
      split
      · rename_i hseen
        refine .skip (ih hrest (fun a ha y hy => ?_) (by omega)) hseen
        rcases hwait a ha y hy with h | h
        · exact Or.inl h
        · rcases List.mem_cons.mp h with rfl | h
          · exact Or.inl hseen
          · exact Or.inr h
      · rename_i hnew
        have hunseen := add_unseen_le hx hnew fun x => (next x).length
        refine .visit (ih (fun a ha => ?_) (fun a ha y hy => ?_) ?_)
        · rcases List.mem_append.mp ha with h | h
          · exact hrest a h
          · exact hU x hx a h
        · rcases List.mem_cons.mp ha with rfl | ha
          · exact Or.inr (List.mem_append_right _ hy)
          · rcases hwait a ha y hy with h | h
            · exact Or.inl (List.mem_cons_of_mem x h)
            · rcases List.mem_cons.mp h with rfl | h
              · exact Or.inl List.mem_cons_self
              · exact Or.inr (List.mem_append_left _ h)
        · rw [List.length_append]
          omega

/-! ## marking what is put in the queue -/

theorem mem_mark {seen queue ys : List α} {y : α} :
    y ∈ (mark seen queue ys).1 ↔ y ∈ seen ∨ y ∈ ys := by
  induction ys generalizing seen queue with
  | nil => simp [mark]
  | cons z ys ih =>
    rw [mark]
    split
    · rename_i hz
      rw [ih, List.mem_cons]
      constructor
      · exact Or.imp_right Or.inr
      · rintro (h | rfl | h)
        · exact Or.inl h
        · exact Or.inl hz
        · exact Or.inr h
    · rw [ih, List.mem_cons, List.mem_cons, or_assoc, or_left_comm]

theorem mem_mark_queue {seen queue ys : List α} {y : α} :
    y ∈ (mark seen queue ys).2 ↔ y ∈ queue ∨ y ∈ ys ∧ y ∉ seen := by
  induction ys generalizing seen queue with
  | nil => simp [mark]
  | cons z ys ih =>
    rw [mark]
    split
    · rename_i hz
      rw [ih, List.mem_cons]
      refine or_congr_right (and_congr_left fun hy => ?_)
      refine (or_iff_right ?_).symm
      rintro rfl
      exact hy hz
    · rename_i hz
      rw [ih, List.mem_append, List.mem_singleton, or_assoc, List.mem_cons, List.mem_cons]
      refine or_congr_right ?_
      by_cases hy : y = z
      · simp [hy, hz]
      · simp [hy]

theorem length_mark_le {seen queue ys : List α} (hys : ∀ y ∈ ys, y ∈ U) :
    (mark seen queue ys).2.length + unseen U (fun _ => 1) (mark seen queue ys).1 ≤
      queue.length + unseen U (fun _ => 1) seen := by
  induction ys generalizing seen queue with
  | nil => exact le_refl _
  | cons z ys ih =>
    obtain ⟨hz, hrest⟩ := List.forall_mem_cons.mp hys
    rw [mark]
    split
    · exact ih hrest
    · rename_i hnew
      have hunseen := add_unseen_le hz hnew fun _ => 1
      have hlength := @ih (z :: seen) (queue ++ [z]) hrest
      rw [List.length_append, List.length_singleton] at hlength
      omega

theorem found_flood (hU : ∀ x ∈ U, ∀ y ∈ next x, y ∈ U) {n : ℕ} {seen queue : List α}
    (hqueue : ∀ x ∈ queue, x ∈ U ∧ x ∈ seen)
    (hwait : ∀ x ∈ seen, x ∈ queue ∨ ∀ y ∈ next x, y ∈ seen)
    (hfuel : queue.length + unseen U (fun _ => 1) seen ≤ n) :
    Found next seen queue (flood next n seen queue) := by
  have hdone : ∀ seen : List α, (∀ x ∈ seen, x ∈ ([] : List α) ∨ ∀ y ∈ next x, y ∈ seen) →
      Found next seen [] seen := fun seen hseen =>
    .done fun x hx => (hseen x hx).resolve_left (by simp)
  induction n generalizing seen queue with
  | zero =>
    obtain rfl : queue = [] := List.length_eq_zero_iff.mp (by omega)
    exact hdone seen hwait
  | succ n ih =>
    cases queue with
    | nil => exact hdone seen hwait
    | cons x queue =>
      obtain ⟨⟨hx, hseen⟩, hrest⟩ := List.forall_mem_cons.mp hqueue
      rw [List.length_cons] at hfuel
      have hlength := @length_mark_le _ _ U seen queue (next x) (hU x hx)
      rw [flood]
      have hfound := @ih (mark seen queue (next x)).1 (mark seen queue (next x)).2
        (fun a ha => by
          rw [mem_mark]
          rcases mem_mark_queue.mp ha with h | ⟨h, -⟩
          · exact ⟨(hrest a h).1, Or.inl (hrest a h).2⟩
          · exact ⟨hU x hx a h, Or.inr h⟩)
        (fun a ha => by
          rw [mem_mark_queue]
          by_cases hold : a ∈ seen
          · rcases hwait a hold with h | h
            · rcases List.mem_cons.mp h with rfl | h
              · exact Or.inr fun y hy => mem_mark.mpr (Or.inr hy)
              · exact Or.inl (Or.inl h)
            · exact Or.inr fun y hy => mem_mark.mpr (Or.inl (h y hy))
          · exact Or.inl (Or.inr ⟨(mem_mark.mp ha).resolve_left hold, hold⟩)) (by omega)
      have hold : ∀ a ∈ seen, a ∈ flood next n (mark seen queue (next x)).1
          (mark seen queue (next x)).2 := fun a ha => hfound.old a (mem_mark.mpr (Or.inl ha))
      refine ⟨hold, fun a ha => hold a (hqueue a ha).2, hfound.closed, fun y hy => ?_⟩
      rcases hfound.reached y hy with h | ⟨a, ha, hay⟩
      · rcases mem_mark.mp h with h | h
        · exact Or.inl h
        · exact Or.inr ⟨x, List.mem_cons_self, .single h⟩
      · rcases mem_mark_queue.mp ha with h | ⟨h, -⟩
        · exact Or.inr ⟨a, List.mem_cons_of_mem x h, hay⟩
        · exact Or.inr ⟨x, List.mem_cons_self, .head h hay⟩

/-! ## further edges, taken in their order -/

/-- where one end of an edge has been reached, so is what is reached from the other end -/
def attach (next : α → List α) (n : ℕ) : List (α × α) → List α → List α
  | [], seen => seen
  | (host, x) :: links, seen =>
    attach next n links (if host ∈ seen then flood next n (x :: seen) [x] else seen)

/-- a way on which the further edges are taken in their order, each once at most -/
inductive InOrder (next : α → List α) : List (α × α) → α → α → Prop where
  | walk {links : List (α × α)} {x y : α} (h : ReflTransGen (Leads next) x y) :
      InOrder next links x y
  | skip {link : α × α} {links : List (α × α)} {x y : α} (h : InOrder next links x y) :
      InOrder next (link :: links) x y
  | take {links : List (α × α)} {x host z y : α} (hx : ReflTransGen (Leads next) x host)
      (h : InOrder next links z y) : InOrder next ((host, z) :: links) x y

omit [DecidableEq α] in
theorem InOrder.head {links : List (α × α)} {x z y : α} (hxz : ReflTransGen (Leads next) x z)
    (h : InOrder next links z y) : InOrder next links x y := by
  induction h with
  | walk h => exact .walk (hxz.trans h)
  | skip _ ih => exact .skip (ih hxz)
  | take hx h _ => exact .take (hxz.trans hx) h

theorem closed_flood (hU : ∀ x ∈ U, ∀ y ∈ next x, y ∈ U) {n : ℕ} {seen : List α} {x : α}
    (hx : x ∈ U) (hseen : Closed next seen) (hfuel : 1 + U.length ≤ n) :
    Found next (x :: seen) [x] (flood next n (x :: seen) [x]) := by
  refine found_flood hU ?_ ?_ ?_
  · intro a ha
    obtain rfl := List.mem_singleton.mp ha
    exact ⟨hx, List.mem_cons_self⟩
  · intro a ha
    rcases List.mem_cons.mp ha with rfl | ha
    · exact Or.inl List.mem_cons_self
    · exact Or.inr fun y hy => List.mem_cons_of_mem x (hseen a ha y hy)
  · have hunseen : unseen U (fun _ => 1) (x :: seen) ≤ U.length := by
      rw [unseen, List.map_const', List.sum_replicate_nat, mul_one]
      exact List.length_filter_le _ _
    rw [List.length_singleton]
    omega

/-- **One pass over the further edges** finds what is reached by taking them in their order. -/
theorem mem_attach (hU : ∀ x ∈ U, ∀ y ∈ next x, y ∈ U) {n : ℕ} (hfuel : 1 + U.length ≤ n)
    {links : List (α × α)} (hlinks : ∀ l ∈ links, l.2 ∈ U) {seen : List α}
    (hseen : Closed next seen) {y : α} :
    y ∈ attach next n links seen ↔ ∃ x ∈ seen, InOrder next links x y := by
  induction links generalizing seen with
  | nil =>
    constructor
    · exact fun hy => ⟨y, hy, .walk .refl⟩
    · rintro ⟨x, hx, hxy⟩
      cases hxy with
      | walk h => exact hseen.reach hx h
  | cons link links ih =>
    obtain ⟨host, z⟩ := link
    obtain ⟨hz, hrest⟩ := List.forall_mem_cons.mp hlinks
    rw [attach]
    split
    · rename_i hhost
      have hfound := closed_flood hU hz hseen hfuel
      rw [ih hrest hfound.closed]
      constructor
      · rintro ⟨x, hx, hxy⟩
        have hcases : x ∈ seen ∨ ReflTransGen (Leads next) z x := by
          rcases hfound.reached x hx with h | ⟨a, ha, hax⟩
          · rcases List.mem_cons.mp h with rfl | h
            · exact Or.inr .refl
            · exact Or.inl h
          · obtain rfl := List.mem_singleton.mp ha
            exact Or.inr hax
        rcases hcases with h | h
        · exact ⟨x, h, .skip hxy⟩
        · exact ⟨host, hhost, .take .refl (hxy.head h)⟩
      · rintro ⟨x, hx, hxy⟩
        have hold : ∀ a ∈ seen, a ∈ flood next n (z :: seen) [z] := fun a ha =>
          hfound.old a (List.mem_cons_of_mem z ha)
        cases hxy with
        | walk h => exact ⟨y, hold y (hseen.reach hx h), .walk .refl⟩
        | skip h => exact ⟨x, hold x hx, h⟩
        | take _ h => exact ⟨z, hfound.old z List.mem_cons_self, h⟩
    · rename_i hhost
      rw [ih hrest hseen]
      constructor
      · rintro ⟨x, hx, hxy⟩
        exact ⟨x, hx, .skip hxy⟩
      · rintro ⟨x, hx, hxy⟩
        cases hxy with
        | walk h => exact ⟨y, hseen.reach hx h, .walk .refl⟩
        | skip h => exact ⟨x, hx, h⟩
        | take hxh _ => exact absurd (hseen.reach hx hxh) hhost

end Reach
end Base
