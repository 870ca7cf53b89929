import Mathlib.Data.List.Basic
import Mathlib.Order.Lattice

/-!
# Runs of a transition function

A system is a function `step : σ → α → σ`; a run is a list of actions taken from a state.

* `exec step s as`   the state reached from `s` by the actions `as`;
* `Along step P s as`   `P` holds of every (state, action) pair the run meets;
* `exec_inv`   what one allowed step preserves, an allowed run preserves;
* `along_of_inv`   what every step does where the invariant holds, every step of a run does;
* `Along.iff_of_inv`   two step conditions that agree on the states of an invariant agree along a
    whole run;
* `exec_concat`, `along_concat`   the last step of a run, for inductions from the right;
* `exists_first_of_not_along`   the first step of a run that is not allowed;
* `exec_broken`, `exec_iff_along` an invariant that is lost for good by a step that is not allowed;
* `Visited`, `Always`   some state of the run has a property, and all have it;
* `upTo`, `Increasing`   the actions taken by a moment, where each carries its time.
-/

namespace Base

variable {σ α : Type*} (step : σ → α → σ)

def exec (s : σ) (as : List α) : σ := as.foldl step s

/-- `P` holds of every action of the run, in the state where it is taken -/
def Along (P : σ → α → Prop) : σ → List α → Prop
  | _, [] => True
  | s, a :: as => P s a ∧ Along P (step s a) as

instance (P : σ → α → Prop) [∀ s a, Decidable (P s a)] :
    ∀ s as, Decidable (Along step P s as)
  | _, [] => isTrue trivial
  | s, a :: as =>
    have : Decidable (Along step P (step s a) as) := instDecidableAlong P (step s a) as
    inferInstanceAs (Decidable (P s a ∧ Along step P (step s a) as))

@[simp] theorem exec_nil (s : σ) : exec step s [] = s := rfl

@[simp] theorem exec_cons (s : σ) (a : α) (as : List α) :
    exec step s (a :: as) = exec step (step s a) as := rfl

theorem exec_append (s : σ) (as bs : List α) :
    exec step s (as ++ bs) = exec step (exec step s as) bs := List.foldl_append

theorem exec_concat (s : σ) (as : List α) (a : α) :
    exec step s (as ++ [a]) = step (exec step s as) a := exec_append step s as [a]

@[simp] theorem along_nil (P : σ → α → Prop) (s : σ) : Along step P s [] := trivial

@[simp] theorem along_cons (P : σ → α → Prop) (s : σ) (a : α) (as : List α) :
    Along step P s (a :: as) ↔ P s a ∧ Along step P (step s a) as := Iff.rfl

theorem along_append (P : σ → α → Prop) (s : σ) (as bs : List α) :
    Along step P s (as ++ bs) ↔ Along step P s as ∧ Along step P (exec step s as) bs := by
  induction as generalizing s with
  | nil => simp
  | cons a as ih => rw [List.cons_append, along_cons, along_cons, ih, exec_cons, and_assoc]

theorem along_concat (P : σ → α → Prop) (s : σ) (as : List α) (a : α) :
    Along step P s (as ++ [a]) ↔ Along step P s as ∧ P (exec step s as) a := by
  rw [along_append, along_cons]
  exact and_congr_right fun _ => and_iff_left trivial

theorem exists_first_of_not_along {P : σ → α → Prop} {s : σ} {as : List α}
    (h : ¬ Along step P s as) :
    ∃ bs a cs, as = bs ++ a :: cs ∧ Along step P s bs ∧ ¬ P (exec step s bs) a := by
  induction as generalizing s with
  | nil => exact absurd trivial h
  | cons a as ih =>
    by_cases ha : P s a
    · obtain ⟨bs, b, cs, rfl, hbs, hb⟩ := ih fun has => h ⟨ha, has⟩
      exact ⟨a :: bs, b, cs, rfl, ⟨ha, hbs⟩, hb⟩
    · exact ⟨[], a, as, rfl, trivial, ha⟩

variable {step}

theorem exec_inv {I : σ → Prop} {P : σ → α → Prop} (hstep : ∀ s a, I s → P s a → I (step s a))
    {s : σ} {as : List α} (hs : I s) (has : Along step P s as) : I (exec step s as) := by
  induction as generalizing s with
  | nil => exact hs
  | cons a as ih => exact ih (hstep s a hs has.1) has.2

theorem exec_inv' {I : σ → Prop} (hstep : ∀ s a, I s → I (step s a)) {s : σ} (as : List α)
    (hs : I s) : I (exec step s as) := by
  induction as generalizing s with
  | nil => exact hs
  | cons a as ih => exact ih (hstep s a hs)

theorem along_of_inv {I : σ → Prop} {P : σ → α → Prop} (hstep : ∀ s a, I s → I (step s a))
    (hP : ∀ s a, I s → P s a) {s : σ} (as : List α) (hs : I s) : Along step P s as := by
  induction as generalizing s with
  | nil => trivial
  | cons a as ih => exact ⟨hP s a hs, ih (hstep s a hs)⟩

theorem Along.mono {I : σ → Prop} {P Q : σ → α → Prop} (hstep : ∀ s a, I s → P s a → I (step s a))
    (hPQ : ∀ s a, I s → P s a → Q s a) {s : σ} {as : List α} (hs : I s)
    (has : Along step P s as) : Along step Q s as := by
  induction as generalizing s with
  | nil => trivial
  | cons a as ih => exact ⟨hPQ s a hs has.1, ih (hstep s a hs has.1) has.2⟩

theorem Along.iff_of_inv {I : σ → Prop} {P Q : σ → α → Prop}
    (hstep : ∀ s a, I s → Q s a → I (step s a)) (hPQ : ∀ s a, I s → (P s a ↔ Q s a))
    {s : σ} {as : List α} (hs : I s) : Along step P s as ↔ Along step Q s as := by
  constructor
  · intro h
    exact h.mono (fun t a ht hp => hstep t a ht ((hPQ t a ht).mp hp))
      (fun t a ht => (hPQ t a ht).mp) hs
  · intro h
    exact h.mono hstep (fun t a ht => (hPQ t a ht).mpr) hs

/-- where a step that is not allowed breaks the invariant for good, a run with such a step ends
broken -/
theorem exec_broken {I B : σ → Prop} {P : σ → α → Prop} (hstep : ∀ s a, I s → P s a → I (step s a))
    (hbreak : ∀ s a, I s → ¬ P s a → B (step s a)) (hbroken : ∀ s a, B s → B (step s a)) {s : σ}
    {as : List α} (hs : I s) (has : ¬ Along step P s as) : B (exec step s as) := by
  obtain ⟨bs, a, cs, rfl, hbs, ha⟩ := exists_first_of_not_along step has
  rw [exec_append, exec_cons]
  exact exec_inv' hbroken cs (hbreak _ a (exec_inv hstep hs hbs) ha)

theorem exec_iff_along {I B : σ → Prop} {P : σ → α → Prop}
    (hstep : ∀ s a, I s → P s a → I (step s a)) (hbreak : ∀ s a, I s → ¬ P s a → B (step s a))
    (hbroken : ∀ s a, B s → B (step s a)) (hnot : ∀ s, B s → ¬ I s) {s : σ} {as : List α}
    (hs : I s) : I (exec step s as) ↔ Along step P s as := by
  constructor
  · intro h
    by_contra has
    exact hnot _ (exec_broken hstep hbreak hbroken hs has) h
  · exact exec_inv hstep hs

/-! ## the states of a run -/

/-- a state that the run goes through, or ends in, has the property -/
def Visited (step : σ → α → σ) (s : σ) (as : List α) (P : σ → Prop) : Prop :=
  ∃ bs cs, as = bs ++ cs ∧ P (exec step s bs)

theorem visited_nil {s : σ} {P : σ → Prop} : Visited step s [] P ↔ P s := by
  constructor
  · intro hx
    obtain ⟨bs, cs, h, hP⟩ := hx
    obtain ⟨rfl, -⟩ := List.append_eq_nil_iff.mp h.symm
    exact hP
  · intro hP
    exact ⟨[], [], rfl, hP⟩

theorem visited_concat {s : σ} {as : List α} {a : α} {P : σ → Prop} :
    Visited step s (as ++ [a]) P ↔ Visited step s as P ∨ P (exec step s (as ++ [a])) := by
  constructor
  · intro hx
    obtain ⟨bs, cs, h, hP⟩ := hx
    rcases List.eq_nil_or_concat cs with rfl | ⟨cs, c, rfl⟩
    · rw [List.append_nil] at h
      rw [h]
      exact Or.inr hP
    · rw [List.concat_eq_append, ← List.append_assoc] at h
      obtain ⟨rfl, -⟩ := List.append_inj' h rfl
      exact Or.inl ⟨bs, cs, rfl, hP⟩
  · intro hx
    rcases hx with ⟨bs, cs, rfl, hP⟩ | hP
    · exact ⟨bs, cs ++ [a], List.append_assoc _ _ _, hP⟩
    · exact ⟨as ++ [a], [], (List.append_nil _).symm, hP⟩

/-- every state that the run goes through, and the one it ends in, has the property -/
def Always (step : σ → α → σ) (I : σ → Prop) (s : σ) (as : List α) : Prop :=
  ∀ bs cs, as = bs ++ cs → I (exec step s bs)

theorem always_cons {I : σ → Prop} {s : σ} {a : α} {as : List α} :
    Always step I s (a :: as) ↔ I s ∧ Always step I (step s a) as := by
  constructor
  · intro h
    refine ⟨h [] (a :: as) rfl, ?_⟩
    intro bs cs hsplit
    exact h (a :: bs) cs (congrArg (a :: ·) hsplit)
  · intro h bs cs hsplit
    cases bs with
    | nil => exact h.1
    | cons b bs =>
      obtain ⟨rfl, htail⟩ := List.cons.inj hsplit
      exact h.2 bs cs htail

/-- where a step keeps the property exactly if it is allowed, the runs that have it all the way are
the allowed ones -/
theorem always_iff {I : σ → Prop} {P : σ → α → Prop} (hstep : ∀ s a, I s → (I (step s a) ↔ P s a))
    {s : σ} {as : List α} : Always step I s as ↔ I s ∧ Along step P s as := by
  induction as generalizing s with
  | nil =>
    constructor
    · intro h
      exact ⟨h [] [] rfl, trivial⟩
    · intro h bs cs hsplit
      obtain ⟨rfl, -⟩ := List.append_eq_nil_iff.mp hsplit.symm
      exact h.1
  | cons a as ih =>
    rw [always_cons, ih, along_cons]
    exact and_congr_right fun hs => and_congr_left fun _ => hstep s a hs

/-! ## actions with a time -/

section
variable {α τ : Type*} [LinearOrder τ] (now : α → τ)

def upTo (t : τ) (as : List α) : List α := as.filter fun a => now a ≤ t

def Increasing (as : List α) : Prop := as.Pairwise fun a b => now a < now b

variable {now}

theorem increasing_concat {as : List α} {a : α} :
    Increasing now (as ++ [a]) ↔ Increasing now as ∧ ∀ b ∈ as, now b < now a := by
  rw [Increasing, List.pairwise_append]
  simp [Increasing]

theorem upTo_of_le {t : τ} {as : List α} (h : ∀ a ∈ as, now a ≤ t) : upTo now t as = as :=
  List.filter_eq_self.mpr fun a ha => decide_eq_true (h a ha)

theorem upTo_append_of_lt {t : τ} {as bs : List α} (h : ∀ b ∈ bs, t < now b) :
    upTo now t (as ++ bs) = upTo now t as := by
  have hbs : bs.filter (fun a => now a ≤ t) = [] :=
    List.filter_eq_nil_iff.mpr fun b hb => by simpa using h b hb
  rw [upTo, List.filter_append, hbs, List.append_nil]
  rfl

theorem upTo_concat_of_le {t : τ} {as : List α} {a : α} (h : Increasing now (as ++ [a]))
    (ht : now a ≤ t) : upTo now t (as ++ [a]) = as ++ [a] := by
  refine upTo_of_le fun b hb => ?_
  rcases List.mem_append.mp hb with hb | hb
  · exact le_trans (le_of_lt ((increasing_concat.mp h).2 b hb)) ht
  · rw [List.mem_singleton.mp hb]
    exact ht

end

end Base
