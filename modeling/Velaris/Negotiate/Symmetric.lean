import Velaris.Negotiate.Turns

/-!
# The steps of the two runs

A party runs the matcher with its own statement as ours.  The other party's run has the two
statements exchanged: their turns come in the other order and their steps carry the other label.

* `blocks_eq`   steps of one side, up to where it had nothing more to play;
* `log_eq_iff`   the steps are the same exactly when both sides play the same at every turn;
* `Mirrored`   each side alone would play the whole joint process;
* `mirrored_iff`   the runs that play the same steps up to the goals;
* `seamed_inj`   the marks of the seams are told from the steps.
-/

namespace Negotiate

/-! ## the steps of the two runs -/

/-- two runs that go on with steps of one side agree on the steps of that side, when neither
goes on with more of them -/
theorem blocks_eq {side : Side} {p q : List Play} {X Y : List Step}
    (h : side.steps p ++ X = side.steps q ++ Y)
    (hX : ∀ x r, q = p ++ x :: r → ∀ y ∈ X.head?, y.side ≠ side)
    (hY : ∀ x r, p = q ++ x :: r → ∀ y ∈ Y.head?, y.side ≠ side) : p = q ∧ X = Y := by
  rcases List.append_eq_append_iff.1 h with ⟨c, hq, hXc⟩ | ⟨c, hp, hYc⟩
  · obtain ⟨p', r, rfl, hp', rfl⟩ := List.map_eq_append_iff.1 hq
    obtain rfl : p' = p := Side.steps_inj hp'
    cases r with
    | nil => exact ⟨(List.append_nil _).symm, hXc⟩
    | cons x r =>
      refine absurd rfl (hX x r rfl ⟨side, x.fragment, x.provides, false⟩ ?_)
      rw [hXc]
      rfl
  · obtain ⟨q', r, rfl, hq', rfl⟩ := List.map_eq_append_iff.1 hp
    obtain rfl : q' = q := Side.steps_inj hq'
    cases r with
    | nil => exact ⟨List.append_nil _, hYc.symm⟩
    | cons x r =>
      refine absurd rfl (hY x r rfl ⟨side, x.fragment, x.provides, false⟩ ?_)
      rw [hYc]
      rfl

theorem head_steps {side : Side} {xs : List Play} (h : xs ≠ []) {Z : List Step} :
    ∀ y ∈ (side.steps xs ++ Z).head?, y.side = side := by
  obtain ⟨x, xs, rfl⟩ := List.exists_cons_of_ne_nil h
  intro y hy
  obtain rfl : Step.mk side x.fragment x.provides false = y := Option.some.inj hy
  rfl

section
variable {goals : Finset String} {F G : List Fragment} {n : ℕ} {b : Board}

theorem head_log (h : turn F b ≠ []) : ∀ y ∈ (log goals F G n b).head?, y.side ≠ .theirs := by
  intro y hy
  cases n with
  | zero => cases hy
  | succ n =>
    by_cases hmet : goals ⊆ b.facts
    · rw [log_met hmet] at hy
      cases hy
    · rw [log_go hmet] at hy
      rw [head_steps h y hy]
      exact Side.noConfusion

def Alike (F G : List Fragment) (b : Board) : Prop := turn F b = turn G b

theorem log_succ_eq_iff (hmet : ¬ goals ⊆ b.facts) :
    log goals F G (n + 1) b = log goals G F (n + 1) b ↔
      Alike F G b ∧ Alike F G (half F b) ∧
        log goals F G n (half F (half F b)) = log goals G F n (half F (half F b)) := by
  rw [log_go hmet, log_go hmet]
  refine ⟨fun h => ?_, fun ⟨h1, h2, hrest⟩ => ?_⟩
  · -- the first block ends where the side had nothing more to play
    have hends : ∀ {F G : List Fragment} {Z : List Step} (x : Play) (r : List Play),
        turn G b = turn F b ++ x :: r →
        ∀ y ∈ (Side.theirs.steps (turn G (half F b)) ++ Z).head?, y.side ≠ .ours := by
      intro F G Z x r hlong y hy
      rw [head_steps (turn_again hlong) y hy]
      exact Side.noConfusion
    obtain ⟨h1, h⟩ := blocks_eq h hends hends
    have hhalf : half G b = half F b := by rw [half, half, h1]
    rw [round, round, hhalf] at h
    -- and so does the second, before the next round
    obtain ⟨h2, hrest⟩ := blocks_eq h
      (fun x r hlong => head_log (turn_again hlong)) (fun x r hlong => head_log (turn_again hlong))
    have hhalf2 : half G (half F b) = half F (half F b) := by rw [half, h2, ← half]
    rw [hhalf2] at hrest
    exact ⟨h1, h2.symm, hrest⟩
  · have hhalf : half G b = half F b := by rw [half, half, ← h1]
    have hhalf2 : half G (half F b) = half F (half F b) := by rw [half, ← h2, ← half]
    rw [round, round, hhalf, hhalf2, hrest, h1, h2]

theorem facts_half (l : List Fragment) (b : Board) : b.facts ⊆ (half l b).facts :=
  b.facts_takes _

theorem facts_iterate (l : List Fragment) (k : ℕ) (b : Board) :
    b.facts ⊆ ((half l)^[k] b).facts := by
  induction k generalizing b with
  | zero => exact fun _ h => h
  | succ k ih => exact (facts_half l b).trans (ih (half l b))

/-- the two runs log the same exactly when, as long as the goals are open at the start of a round,
both sides play the same in its first half and in its second -/
theorem log_eq_iff :
    log goals F G n b = log goals G F n b ↔
      ∀ k < n, ¬ goals ⊆ ((half F)^[2 * k] b).facts →
        Alike F G ((half F)^[2 * k] b) ∧ Alike F G ((half F)^[2 * k + 1] b) := by
  induction n generalizing b with
  | zero => exact ⟨fun _ k hk => absurd hk (by omega), fun _ => rfl⟩
  | succ n ih =>
    by_cases hmet : goals ⊆ b.facts
    · rw [log_met hmet, log_met hmet]
      exact ⟨fun _ k _ hopen => absurd (hmet.trans (facts_iterate F _ b)) hopen, fun _ => rfl⟩
    · rw [log_succ_eq_iff hmet, ih]
      refine ⟨fun ⟨h1, h2, hrest⟩ k hk hopen => ?_, fun h => ⟨?_, ?_, fun k hk hopen => ?_⟩⟩
      · cases k with
        | zero => exact ⟨h1, h2⟩
        | succ k => exact hrest k (by omega) hopen
      · exact (h 0 (by omega) hmet).1
      · exact (h 0 (by omega) hmet).2
      · exact h (k + 1) (by omega) hopen

end

/-! ## each side alone -/

section
variable (goals : Finset String) (F G : List Fragment)

/-- the board after `k` turns of one side with nobody else -/
def alone (F : List Fragment) (k : ℕ) : Board := (half F)^[k] start.toBoard

/-- the first side alone reaches the goals, and as long as they are open at the start of a round
the second side would play the very same at both of its turns -/
def Mirrored : Prop :=
  (∃ k, goals ⊆ (alone F (2 * k)).facts) ∧
    ∀ k, ¬ goals ⊆ (alone F (2 * k)).facts →
      Alike F G (alone F (2 * k)) ∧ Alike F G (alone F (2 * k + 1))

variable {goals F G}

theorem alone_succ (k : ℕ) : alone F (k + 1) = half F (alone F k) :=
  Function.iterate_succ_apply' _ _ _

theorem facts_alone {j k : ℕ} (h : j ≤ k) : (alone F j).facts ⊆ (alone F k).facts := by
  obtain ⟨d, rfl⟩ := Nat.exists_eq_add_of_le' h
  rw [alone, alone, Function.iterate_add_apply]
  exact facts_iterate F d _

theorem rounds_alone {n : ℕ}
    (h : ∀ k < n, ¬ goals ⊆ (alone F (2 * k)).facts →
      Alike F G (alone F (2 * k)) ∧ Alike F G (alone F (2 * k + 1)))
    (hopen : ∀ k < n, ¬ goals ⊆ ((round F G)^[k] start.toBoard).facts) :
    (round F G)^[n] start.toBoard = alone F (2 * n) ∧
      (round G F)^[n] start.toBoard = alone F (2 * n) := by
  induction n with
  | zero => exact ⟨rfl, rfl⟩
  | succ n ih =>
    obtain ⟨h1, h2⟩ := ih (fun k hk => h k (by omega)) (fun k hk => hopen k (by omega))
    have hn := hopen n (by omega)
    rw [h1] at hn
    obtain ⟨hfirst, hsecond⟩ := h n (by omega) hn
    have hG1 : half G (alone F (2 * n)) = alone F (2 * n + 1) := by
      rw [half, ← hfirst, ← half]
      exact (alone_succ _).symm
    have hG2 : half G (alone F (2 * n + 1)) = alone F (2 * n + 2) := by
      rw [half, ← hsecond, ← half]
      exact (alone_succ _).symm
    rw [Function.iterate_succ_apply', Function.iterate_succ_apply', h1, h2, round, round, hG1,
      ← alone_succ, hG2, ← alone_succ]
    exact ⟨rfl, rfl⟩

theorem mirrored_iff {n : ℕ} (hn : F.length + G.length < n) :
    Mirrored goals F G ↔
      Reaches goals F G ∧ log goals F G n start.toBoard = log goals G F n start.toBoard := by
  rw [log_eq_iff]
  refine ⟨fun ⟨hreach, halike⟩ => ⟨?_, fun k _ hopen => halike k hopen⟩, fun ⟨hreach, halike⟩ => ?_⟩
  · -- if the joint run never reached the goals it would be one side's alone, which does
    by_contra hnever
    obtain ⟨k, hk⟩ := hreach
    have hopen : ∀ j, ¬ goals ⊆ ((round F G)^[j] start.toBoard).facts := fun j h => hnever ⟨j, h⟩
    have h := (rounds_alone (fun j (_ : j < k) => halike j) (fun j _ => hopen j)).1
    apply hopen k
    rw [h]
    exact hk
  · -- up to the first round that reaches the goals, the run is one side's alone
    have hfirst : ∃ k < n, goals ⊆ (alone F (2 * k)).facts := by
      classical
      obtain ⟨j, hj, hmet⟩ := hreach.bounded
      have hle : Nat.find hreach ≤ j := Nat.find_min' hreach hmet
      have h := (rounds_alone (n := Nat.find hreach) (fun k hk => halike k (by omega))
        (fun k hk => Nat.find_min hreach hk)).1
      refine ⟨Nat.find hreach, by omega, ?_⟩
      rw [← h]
      exact Nat.find_spec hreach
    obtain ⟨k, hk, hmet⟩ := hfirst
    refine ⟨⟨k, hmet⟩, fun j hopen => ?_⟩
    by_cases hj : j < n
    · exact halike j hj hopen
    · exact absurd (hmet.trans (facts_alone (by omega))) hopen

theorem Mirrored.reaches_symm (h : Mirrored goals F G) : Reaches goals G F := by
  classical
  obtain ⟨hreach, -⟩ := (mirrored_iff (Nat.lt_succ_self _)).1 h
  obtain ⟨hsame, hsymm⟩ := rounds_alone (n := Nat.find hreach) (fun k _ => h.2 k)
    (fun k hk => Nat.find_min hreach hk)
  refine ⟨Nat.find hreach, ?_⟩
  rw [hsymm, ← hsame]
  exact Nat.find_spec hreach

end

/-! ## the marks of the seams -/

theorem seamed_unmarked (steps : List Step) :
    (seamed steps).map (fun x => (x.side, x.fragment, x.provides)) =
      steps.map fun x => (x.side, x.fragment, x.provides) := by
  induction steps with
  | nil => rfl
  | cons x rest ih =>
    cases rest with
    | nil => rfl
    | cons y rest => exact congrArg ((x.side, x.fragment, x.provides) :: ·) ih

theorem log_unmarked {goals : Finset String} {F G : List Fragment} {n : ℕ} {b : Board} :
    ∀ x ∈ log goals F G n b, x.crossesSeam = false := by
  have hsteps : ∀ (side : Side) (xs : List Play), ∀ x ∈ side.steps xs, x.crossesSeam = false := by
    intro side xs x hx
    obtain ⟨y, _, rfl⟩ := List.mem_map.1 hx
    rfl
  induction n generalizing b with
  | zero => exact fun x hx => absurd hx List.not_mem_nil
  | succ n ih =>
    intro x hx
    by_cases hmet : goals ⊆ b.facts
    · rw [log_met hmet] at hx
      exact absurd hx List.not_mem_nil
    · rw [log_go hmet] at hx
      rcases List.mem_append.1 hx with hx | hx
      · exact hsteps _ _ x hx
      · rcases List.mem_append.1 hx with hx | hx
        · exact hsteps _ _ x hx
        · exact ih x hx

theorem seamed_inj {xs ys : List Step} (hx : ∀ x ∈ xs, x.crossesSeam = false)
    (hy : ∀ y ∈ ys, y.crossesSeam = false) (h : seamed xs = seamed ys) : xs = ys := by
  have hview := congrArg (List.map fun x : Step => (x.side, x.fragment, x.provides)) h
  rw [seamed_unmarked, seamed_unmarked] at hview
  -- a step that is not marked is what is seen of it
  have hback : ∀ {zs : List Step}, (∀ z ∈ zs, z.crossesSeam = false) →
      (zs.map fun x => (x.side, x.fragment, x.provides)).map
        (fun v => Step.mk v.1 v.2.1 v.2.2 false) = zs := by
    intro zs hz
    rw [List.map_map]
    refine (List.map_congr_left fun z hmem => ?_).trans (List.map_id zs)
    show Step.mk z.side z.fragment z.provides false = z
    rw [← hz z hmem]
  rw [← hback hx, hview, hback hy]

end Negotiate
