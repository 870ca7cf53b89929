import Mathlib.Algebra.BigOperators.Group.List.Lemmas
import Mathlib.Data.Int.Basic
import Mathlib.Tactic.Ring

/-!
# Totals over the rows of a journal

A journal is a list of rows that only grows; a report adds up a column of the rows it selects.

* `total w p es`   the sum of `w` over the rows `p` accepts;
* `total_append`   a report over a longer journal;
* `total_neg`   rows that mirror others;
* `total_by_key`   a report as the sum of the reports by key;
* `fresh`   an id no row has.
-/

namespace Base

variable {ε : Type*}

def total (w : ε → Int) (p : ε → Bool) (es : List ε) : Int := ((es.filter p).map w).sum

variable {w : ε → Int} {p q : ε → Bool}

@[simp] theorem total_nil : total w p [] = 0 := rfl

theorem total_cons (e : ε) (es : List ε) :
    total w p (e :: es) = (if p e then w e else 0) + total w p es := by
  rw [total, List.filter_cons]
  split
  · rw [List.map_cons, List.sum_cons]
    rfl
  · rw [zero_add]
    rfl

theorem total_append (es fs : List ε) : total w p (es ++ fs) = total w p es + total w p fs := by
  rw [total, List.filter_append, List.map_append, List.sum_append]
  rfl

theorem total_eq_zero {es : List ε} (h : ∀ e ∈ es, ¬ p e) : total w p es = 0 := by
  have hnil : es.filter p = [] := List.filter_eq_nil_iff.mpr h
  rw [total, hnil]
  rfl

theorem total_congr {es : List ε} (h : ∀ e ∈ es, p e = q e) : total w p es = total w q es := by
  rw [total, List.filter_congr h]
  rfl

theorem total_filter (es : List ε) :
    total w p (es.filter q) = total w (fun e => q e && p e) es := by
  rw [total, List.filter_filter]
  refine congrArg (fun l => (List.map w l).sum) (List.filter_congr fun e _ => ?_)
  exact Bool.and_comm ..

theorem total_eq_sum (es : List ε) :
    total w p es = (es.map fun e => if p e then w e else 0).sum := by
  induction es with
  | nil => rfl
  | cons e es ih => rw [total_cons, List.map_cons, List.sum_cons, ih]

theorem total_neg {δ : Type*} {f : ε → δ} {v : δ → Int} {r : δ → Bool} {es : List ε}
    (hw : ∀ e ∈ es, v (f e) = -w e) (hp : ∀ e ∈ es, r (f e) = p e) :
    total v r (es.map f) = -total w p es := by
  induction es with
  | nil => rfl
  | cons e es ih =>
    rw [List.map_cons, total_cons, total_cons, hw e (by simp), hp e (by simp),
      ih (fun x hx => hw x (by simp [hx])) fun x hx => hp x (by simp [hx])]
    split
    · ring
    · ring

/-! ## by key -/

theorem sum_ite_eq {κ : Type*} [DecidableEq κ] {ks : List κ} (hks : ks.Nodup) {k : κ} (hk : k ∈ ks)
    (x : Int) : (ks.map fun j => if k = j then x else 0).sum = x := by
  induction ks with
  | nil => cases hk
  | cons j ks ih =>
    obtain ⟨hj, hks⟩ := List.nodup_cons.mp hks
    rw [List.map_cons, List.sum_cons]
    by_cases hkj : k = j
    · have hzero : ks.map (fun i => if k = i then x else 0) = ks.map fun _ => 0 :=
        List.map_congr_left fun i hi => if_neg fun hx => hj (by rw [← hkj, hx]; exact hi)
      rw [hzero, if_pos hkj]
      simp
    · rw [if_neg hkj, zero_add]
      exact ih hks ((List.mem_cons.mp hk).resolve_left hkj)

theorem total_by_key {κ : Type*} [DecidableEq κ] (key : ε → κ) {ks : List κ} (hks : ks.Nodup)
    {es : List ε} (h : ∀ e ∈ es, p e → key e ∈ ks) :
    total w p es = (ks.map fun k => total w (fun e => p e && key e = k) es).sum := by
  induction es with
  | nil => simp
  | cons e es ih =>
    have hsplit : (ks.map fun k => total w (fun e => p e && key e = k) (e :: es)) =
        ks.map fun k => (if key e = k then (if p e then w e else 0) else 0) +
          total w (fun e => p e && key e = k) es := by
      refine List.map_congr_left fun k _ => ?_
      rw [total_cons]
      cases p e <;> simp
    rw [hsplit, List.sum_map_add, total_cons, ih fun x hx => h x (List.mem_cons_of_mem _ hx)]
    by_cases hp : p e = true
    · rw [sum_ite_eq hks (h e List.mem_cons_self hp)]
    · simp [hp]

/-! ## ids -/

def fresh (ids : List Nat) : Nat := ids.foldl max 0 + 1

theorem le_foldl_max (ids : List Nat) (m : Nat) :
    m ≤ ids.foldl max m ∧ ∀ i ∈ ids, i ≤ ids.foldl max m := by
  induction ids generalizing m with
  | nil => simp
  | cons i ids ih =>
    obtain ⟨h₁, h₂⟩ := ih (max m i)
    rw [List.foldl_cons]
    refine ⟨by omega, fun j hj => ?_⟩
    rcases List.mem_cons.mp hj with rfl | hj
    · omega
    · exact h₂ j hj

theorem lt_fresh {ids : List Nat} {i : Nat} (h : i ∈ ids) : i < fresh ids :=
  Nat.lt_succ_of_le ((le_foldl_max ids 0).2 i h)

theorem fresh_notMem (ids : List Nat) : fresh ids ∉ ids :=
  fun hmem => (lt_fresh hmem).false

end Base
