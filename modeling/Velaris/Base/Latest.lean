import Mathlib.Data.List.MinMax

/-!
# Keeping the latest of several writes

Writes `α` carry a stamp `key w` of a linear order.

* `later key c w`   the later of two writes, `c` where they are equally late;
* `latest key c ws`   what is kept of `c` after the writes `ws`, one after the other;
* `latest? key ws`   the latest of the writes, if there are any;
* `Agree key c ws`   the latest of the writes are one and the same write, unless `c` is as late.

`latest_eq_of_mem_iff` and `agree_of_latest_cons`: the order and the repetitions of the writes do
not matter exactly when they agree.  `foldl_update_getD`: of the writes to one place the last
stands.
-/

namespace Base

variable {α κ : Type*} [LinearOrder κ] (key : α → κ)

def later (c w : α) : α := if key c < key w then w else c

def latest (c : α) (ws : List α) : α := ws.foldl (later key) c

def latest? : List α → Option α
  | [] => none
  | w :: ws => some (latest key w ws)

def Agree (c : α) (ws : List α) : Prop :=
  ∀ x ∈ ws, ∀ y ∈ ws, key x = key y → key c < key x → (∀ z ∈ ws, key z ≤ key x) → x = y

variable {key} {c : α} {ws : List α}

@[simp] theorem latest_nil : latest key c [] = c := rfl

theorem latest_cons (w : α) : latest key c (w :: ws) = latest key (later key c w) ws := rfl

theorem argmax_cons_eq_latest (c : α) (ws : List α) :
    List.argmax key (c :: ws) = some (latest key c ws) := by
  show ws.foldl _ (some c) = some (latest key c ws)
  induction ws generalizing c with
  | nil => rfl
  | cons w ws ih =>
    rw [List.foldl_cons, latest_cons, ← ih (later key c w)]
    congr 1
    show (if key c < key w then some w else some c) = some (later key c w)
    rw [later, apply_ite some]

theorem latest_mem : latest key c ws ∈ c :: ws :=
  List.argmax_mem (argmax_cons_eq_latest c ws)

theorem latest?_mem {w : α} (h : latest? key ws = some w) : w ∈ ws := by
  cases ws with
  | nil => cases h
  | cons w' ws =>
    rw [latest?, Option.some_inj] at h
    rw [← h]
    exact latest_mem

theorem le_latest {w : α} (hw : w ∈ c :: ws) : key w ≤ key (latest key c ws) :=
  List.le_of_mem_argmax hw (argmax_cons_eq_latest c ws)

theorem latest_eq_self (h : ∀ w ∈ ws, key w ≤ key c) : latest key c ws = c := by
  induction ws with
  | nil => rfl
  | cons w ws ih =>
    obtain ⟨hw, hws⟩ := List.forall_mem_cons.mp h
    have hkeep : later key c w = c := if_neg (not_lt.mpr hw)
    rw [latest_cons, hkeep]
    exact ih hws

theorem latest_cons_eq {x : α} (hx : key c < key x) (hmax : ∀ z ∈ ws, key z ≤ key x) :
    latest key c (x :: ws) = x := by
  have hlater : later key c x = x := if_pos hx
  rw [latest_cons, hlater]
  exact latest_eq_self hmax

theorem latest_of_lt {w : α} (hw : w ∈ ws) (hlt : key c < key w) :
    key c < key (latest key c ws) ∧ latest key c ws ∈ ws := by
  have hpos := lt_of_lt_of_le hlt (le_latest (List.mem_cons_of_mem c hw))
  refine ⟨hpos, ?_⟩
  rcases List.mem_cons.mp (latest_mem : latest key c ws ∈ c :: ws) with heq | hin
  · rw [heq] at hpos
    exact absurd hpos (lt_irrefl _)
  · exact hin

theorem latest_eq_of_mem_iff {vs : List α} (h : Agree key c ws) (hmem : ∀ x, x ∈ vs ↔ x ∈ ws) :
    latest key c vs = latest key c ws := by
  by_cases hc : ∀ w ∈ ws, key w ≤ key c
  · have hvs : ∀ v ∈ vs, key v ≤ key c := fun v hv => hc v ((hmem v).mp hv)
    rw [latest_eq_self hc, latest_eq_self hvs]
  · obtain ⟨w, hw, hlt⟩ : ∃ w ∈ ws, key c < key w := by
      by_contra hno
      exact hc fun w hw => not_lt.mp fun hlt => hno ⟨w, hw, hlt⟩
    obtain ⟨hv, hvin⟩ := latest_of_lt ((hmem w).mpr hw) hlt
    obtain ⟨-, hwin⟩ := latest_of_lt hw hlt
    have hvws := (hmem _).mp hvin
    have hmax : ∀ z ∈ ws, key z ≤ key (latest key c vs) := fun z hz =>
      le_latest (List.mem_cons_of_mem c ((hmem z).mpr hz))
    have hle : key (latest key c vs) ≤ key (latest key c ws) :=
      le_latest (List.mem_cons_of_mem c hvws)
    exact h _ hvws _ hwin (le_antisymm hle (hmax _ hwin)) hv hmax

theorem agree_of_latest_cons (h : ∀ u ∈ ws, latest key c (u :: ws) = latest key c ws) :
    Agree key c ws := by
  intro x hx y hy hxy hcx hmax
  have hkx : latest key c ws = x := (h x hx).symm.trans (latest_cons_eq hcx hmax)
  have hky : latest key c ws = y :=
    (h y hy).symm.trans (latest_cons_eq (hxy ▸ hcx) fun z hz => hxy ▸ hmax z hz)
  exact hkx.symm.trans hky

/-! ## places that are written -/

variable {ρ ι β : Type*} [DecidableEq ι]

theorem foldl_update_getD (place : ρ → ι) (value : ρ → β) (init : ι → β) (rows : List ρ) (i : ι) :
    rows.foldl (fun state r => Function.update state (place r) (value r)) init i =
      (((rows.filter fun r => place r = i).getLast?).map value).getD (init i) := by
  induction rows using List.reverseRecOn with
  | nil => rfl
  | append_singleton rows r ih =>
    rw [List.foldl_concat, List.filter_append, List.filter_singleton]
    by_cases h : place r = i
    · rw [h, Function.update_self]
      simp
    · rw [Function.update_of_ne (fun hi => h hi.symm), ih]
      simp [h]

theorem foldl_update_apply (place : ρ → ι) (value : ρ → β) (rows : List ρ) (i : ι) :
    rows.foldl (fun state r => Function.update state (place r) (some (value r)))
      (fun _ => none) i = ((rows.filter fun r => place r = i).getLast?).map value := by
  rw [foldl_update_getD place fun r => some (value r)]
  cases (rows.filter fun r => place r = i).getLast? <;> rfl

end Base
