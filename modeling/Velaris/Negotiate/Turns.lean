import Mathlib.Data.Finset.Card
import Velaris.Base.Reach
import Velaris.Negotiate.Matcher

/-!
# The turns of the two sides

A pass of `_compose` is a turn of ours and then a turn of theirs.  What a side plays at its turn
depends on its fragments and on the board alone.

* `turn`, `half`, `round`   what one side plays on a board, and the boards after;
* `turn_again`   a turn that is cut short is not over;
* `passes_board`, `passes_steps`   the loop in terms of rounds;
* `passes_over`   the bound on the passes is never what ends the loop;
* `reached_iff`   the goals the loop reaches are those some round reaches.
-/

namespace Negotiate

/-- a fragment as it is played: its slug and what it provides, in order -/
structure Play where
  fragment : String
  provides : List String

def Fragment.play (f : Fragment) : Play := ⟨f.name, f.provides.insertionSort (· ≤ ·)⟩

def Board.take (b : Board) (x : Play) : Board where
  facts := b.facts ∪ x.provides.toFinset
  used := insert x.fragment b.used

def Board.takes (b : Board) (xs : List Play) : Board := xs.foldl Board.take b

def Fragment.Ready (f : Fragment) (b : Board) : Prop :=
  f.name ∉ b.used ∧ f.requires.toFinset ⊆ b.facts

instance (f : Fragment) (b : Board) : Decidable (f.Ready b) :=
  inferInstanceAs (Decidable (_ ∧ _))

/-- what a side with the fragments `l` plays at its turn -/
def turn : List Fragment → Board → List Play
  | [], _ => []
  | f :: rest, b => if f.Ready b then f.play :: turn rest (b.take f.play) else turn rest b

def half (l : List Fragment) (b : Board) : Board := b.takes (turn l b)

def round (F G : List Fragment) (b : Board) : Board := half G (half F b)

def Side.steps (side : Side) (xs : List Play) : List Step :=
  xs.map fun x => ⟨side, x.fragment, x.provides, false⟩

@[simp] theorem Board.takes_nil (b : Board) : b.takes [] = b := rfl

@[simp] theorem Board.takes_cons (b : Board) (x : Play) (xs : List Play) :
    b.takes (x :: xs) = (b.take x).takes xs := rfl

@[simp] theorem Side.steps_nil (side : Side) : side.steps [] = [] := rfl

@[simp] theorem Side.steps_cons (side : Side) (x : Play) (xs : List Play) :
    side.steps (x :: xs) = ⟨side, x.fragment, x.provides, false⟩ :: side.steps xs := rfl

theorem Side.steps_inj {side : Side} {xs ys : List Play} (h : side.steps xs = side.steps ys) :
    xs = ys := by
  refine List.map_injective_iff.2 ?_ h
  rintro ⟨f, p⟩ ⟨f', p'⟩ hstep
  obtain ⟨-, rfl, rfl, -⟩ := Step.mk.inj hstep
  rfl

/-! ## one turn -/

theorem turn_cons_ready {f : Fragment} {b : Board} (h : f.Ready b) (l : List Fragment) :
    turn (f :: l) b = f.play :: turn l (b.take f.play) := if_pos h

theorem turn_cons_not {f : Fragment} {b : Board} (h : ¬ f.Ready b) (l : List Fragment) :
    turn (f :: l) b = turn l b := if_neg h

theorem take_play (b : Board) (f : Fragment) :
    b.take f.play = ⟨b.facts ∪ f.provides.toFinset, insert f.name b.used⟩ := by
  have hsort : (f.provides.insertionSort (· ≤ ·)).toFinset = f.provides.toFinset :=
    List.toFinset_eq_of_perm _ _ (List.perm_insertionSort _ _)
  show Board.mk (b.facts ∪ (f.provides.insertionSort (· ≤ ·)).toFinset) _ = _
  rw [hsort]
  rfl

theorem turn_again {l : List Fragment} {b : Board} {p r : List Play} {x : Play}
    (h : turn l b = p ++ x :: r) : turn l (b.takes p) ≠ [] := by
  induction l generalizing b p with
  | nil => simp [turn] at h
  | cons f l ih =>
    -- what the rest of the side would still play, the whole side would
    have hrest : ∀ {b' : Board}, turn l b' ≠ [] → turn (f :: l) b' ≠ [] := by
      intro b' hl
      by_cases hf : f.Ready b'
      · rw [turn_cons_ready hf]
        exact List.cons_ne_nil _ _
      · rwa [turn_cons_not hf]
    by_cases hf : f.Ready b
    · cases p with
      | nil =>
        show turn (f :: l) b ≠ []
        rw [h]
        exact List.cons_ne_nil _ _
      | cons y p =>
        rw [turn_cons_ready hf, List.cons_append] at h
        obtain ⟨rfl, htail⟩ := List.cons.inj h
        show turn (f :: l) ((b.take f.play).takes p) ≠ []
        exact hrest (ih htail)
    · rw [turn_cons_not hf] at h
      exact hrest (ih h)

theorem Board.facts_takes (b : Board) (xs : List Play) : b.facts ⊆ (b.takes xs).facts := by
  induction xs generalizing b with
  | nil => exact fun _ h => h
  | cons x xs ih => exact fun p hp => ih (b.take x) (Finset.mem_union_left _ hp)

theorem Board.used_takes (b : Board) (xs : List Play) : b.used ⊆ (b.takes xs).used := by
  induction xs generalizing b with
  | nil => exact fun _ h => h
  | cons x xs ih => exact fun p hp => ih (b.take x) (Finset.mem_insert_of_mem hp)

theorem exists_used_of_turn {l : List Fragment} {b : Board} (h : turn l b ≠ []) :
    ∃ f ∈ l, f.name ∉ b.used ∧ f.name ∈ (half l b).used := by
  induction l with
  | nil => exact absurd rfl h
  | cons f l ih =>
    by_cases hf : f.Ready b
    · refine ⟨f, List.mem_cons_self, hf.1, ?_⟩
      rw [half, turn_cons_ready hf]
      exact Board.used_takes (b.take f.play) _ (Finset.mem_insert_self _ _)
    · rw [turn_cons_not hf] at h
      obtain ⟨g, hg, hnew, hused⟩ := ih h
      refine ⟨g, List.mem_cons_of_mem _ hg, hnew, ?_⟩
      rwa [half, turn_cons_not hf]

theorem half_of_turn_nil {l : List Fragment} {b : Board} (h : turn l b = []) : half l b = b := by
  rw [half, h]
  rfl

theorem half_eq_iff {l : List Fragment} {b : Board} : half l b = b ↔ turn l b = [] := by
  refine ⟨fun hb => ?_, half_of_turn_nil⟩
  by_contra hturn
  obtain ⟨f, _, hnew, hused⟩ := exists_used_of_turn hturn
  rw [hb] at hused
  exact hnew hused

/-! ## the measure of a round -/

def spent (F G : List Fragment) (b : Board) : ℕ :=
  (((F ++ G).map Fragment.name).toFinset ∩ b.used).card

theorem spent_le (F G : List Fragment) (b : Board) : spent F G b ≤ F.length + G.length := by
  calc (((F ++ G).map Fragment.name).toFinset ∩ b.used).card
      ≤ ((F ++ G).map Fragment.name).toFinset.card := Finset.card_le_card Finset.inter_subset_left
    _ ≤ ((F ++ G).map Fragment.name).length := List.toFinset_card_le _
    _ = F.length + G.length := by rw [List.length_map, List.length_append]

theorem exists_used_of_round {F G : List Fragment} {b : Board} (h : round F G b ≠ b) :
    ∃ f ∈ F ++ G, f.name ∉ b.used ∧ f.name ∈ (round F G b).used := by
  by_cases hF : turn F b = []
  · have hG : turn G b ≠ [] := by
      intro hG
      apply h
      rw [round, half_of_turn_nil hF, half_of_turn_nil hG]
    obtain ⟨f, hf, hnew, hused⟩ := exists_used_of_turn hG
    refine ⟨f, List.mem_append_right _ hf, hnew, ?_⟩
    rwa [round, half_of_turn_nil hF]
  · obtain ⟨f, hf, hnew, hused⟩ := exists_used_of_turn hF
    exact ⟨f, List.mem_append_left _ hf, hnew, Board.used_takes _ _ hused⟩

theorem spent_lt {F G : List Fragment} {b : Board} (h : round F G b ≠ b) :
    spent F G b < spent F G (round F G b) := by
  obtain ⟨f, hf, hnew, hused⟩ := exists_used_of_round h
  have hname : f.name ∈ ((F ++ G).map Fragment.name).toFinset :=
    List.mem_toFinset.2 (List.mem_map_of_mem hf)
  apply Finset.card_lt_card
  refine Finset.ssubset_iff_of_subset (Finset.inter_subset_inter_left ?_) |>.2
    ⟨f.name, Finset.mem_inter.2 ⟨hname, hused⟩, fun h => hnew (Finset.mem_inter.1 h).2⟩
  exact (Board.used_takes _ _).trans (Board.used_takes _ _)

/-! ## the loop -/

/-- a state after one side has played `xs` -/
def State.after (s : State) (side : Side) (xs : List Play) : State where
  toBoard := s.toBoard.takes xs
  steps := s.steps ++ side.steps xs
  progress := s.progress || !xs.isEmpty

theorem visit_not {s : State} {side : Side} {f : Fragment} (h : ¬ f.Ready s.toBoard) :
    visit s (side, f) = s := by
  by_cases hused : f.name ∈ s.used
  · exact if_pos hused
  · have hreq : ¬ f.requires.toFinset ⊆ s.facts := fun hreq => h ⟨hused, hreq⟩
    show (if f.name ∈ s.used then s else if ¬ f.requires.toFinset ⊆ s.facts then s else _) = s
    rw [if_neg hused, if_pos hreq]

theorem visit_ready {s : State} {side : Side} {f : Fragment} (h : f.Ready s.toBoard) :
    visit s (side, f) = s.after side [f.play] := by
  have htake : s.toBoard.takes [f.play] = ⟨s.facts ∪ f.provides.toFinset, insert f.name s.used⟩ :=
    take_play s.toBoard f
  show (if f.name ∈ s.used then s else if ¬ f.requires.toFinset ⊆ s.facts then s else _) = _
  rw [if_neg h.1, if_neg (not_not.2 h.2), State.after, htake]
  simp [Fragment.play]

theorem after_after (s : State) (side : Side) (xs ys : List Play) :
    (s.after side xs).after side ys = s.after side (xs ++ ys) := by
  have hempty : (!(xs ++ ys).isEmpty) = (!xs.isEmpty || !ys.isEmpty) := by
    cases xs <;> simp
  simp only [State.after, Board.takes, Side.steps, List.foldl_append, List.append_assoc,
    List.map_append, Bool.or_assoc, hempty]

theorem foldl_visit (side : Side) (l : List Fragment) (s : State) :
    (l.map (side, ·)).foldl visit s = s.after side (turn l s.toBoard) := by
  induction l generalizing s with
  | nil => simp [turn, State.after]
  | cons f l ih =>
    show (l.map (side, ·)).foldl visit (visit s (side, f)) = _
    by_cases hf : f.Ready s.toBoard
    · rw [visit_ready hf, ih, after_after, turn_cons_ready hf]
      rfl
    · rw [visit_not hf, ih, turn_cons_not hf]

section
variable (a b : Offer)

theorem pass_supply (s : State) :
    pass (supply a b) s =
      { toBoard := round a.fragments b.fragments s.toBoard
        steps := s.steps ++ (Side.ours.steps (turn a.fragments s.toBoard) ++
          Side.theirs.steps (turn b.fragments (half a.fragments s.toBoard)))
        progress := !(turn a.fragments s.toBoard).isEmpty ||
          !(turn b.fragments (half a.fragments s.toBoard)).isEmpty } := by
  rw [pass, supply, List.foldl_append, foldl_visit, foldl_visit]
  simp only [State.after, round, half, Bool.false_or, List.append_assoc]

theorem round_eq_iff {F G : List Fragment} {b : Board} :
    round F G b = b ↔ turn F b = [] ∧ turn G (half F b) = [] := by
  refine ⟨fun h => ?_, fun ⟨hF, hG⟩ => ?_⟩
  · -- a slug used in the first half stays used
    have hF : turn F b = [] := by
      by_contra hF
      obtain ⟨f, _, hnew, hused⟩ := exists_used_of_turn hF
      have hround : f.name ∈ (round F G b).used := Board.used_takes _ _ hused
      rw [h] at hround
      exact hnew hround
    refine ⟨hF, ?_⟩
    rw [half_of_turn_nil hF]
    rw [round, half_of_turn_nil hF] at h
    exact half_eq_iff.1 h
  · rw [round, half_of_turn_nil hG, half_of_turn_nil hF]

theorem pass_progress_iff (s : State) :
    (pass (supply a b) s).progress = true ↔
      round a.fragments b.fragments s.toBoard ≠ s.toBoard := by
  rw [pass_supply, ne_eq, round_eq_iff]
  simp only [Bool.or_eq_true, Bool.not_eq_true', List.isEmpty_eq_false_iff]
  tauto

variable {a b} {goals : Finset String} {n : ℕ} {s : State}

theorem passes_met (h : goals ⊆ s.facts) : passes (supply a b) goals n s = s := by
  cases n with
  | zero => rfl
  | succ n => exact if_neg fun hgo => hgo.2 h

theorem passes_stuck (h : s.progress = false) : passes (supply a b) goals n s = s := by
  cases n with
  | zero => rfl
  | succ n =>
    refine if_neg fun hgo => ?_
    rw [h] at hgo
    exact Bool.false_ne_true hgo.1

theorem passes_go (hprog : s.progress = true) (h : ¬ goals ⊆ s.facts) :
    passes (supply a b) goals (n + 1) s = passes (supply a b) goals n (pass (supply a b) s) :=
  if_pos ⟨hprog, h⟩

theorem passes_idle (hprog : s.progress = true) (h : ¬ goals ⊆ s.facts)
    (hidle : round a.fragments b.fragments s.toBoard = s.toBoard) :
    passes (supply a b) goals (n + 1) s = { s with progress := false } := by
  have hpass : pass (supply a b) s = { s with progress := false } := by
    obtain ⟨ha, hb⟩ := round_eq_iff.1 hidle
    rw [pass_supply, hidle, ha, hb]
    simp
  rw [passes_go hprog h, hpass]
  exact passes_stuck rfl

def log (goals : Finset String) (F G : List Fragment) : ℕ → Board → List Step
  | 0, _ => []
  | n + 1, b =>
    if goals ⊆ b.facts then []
    else Side.ours.steps (turn F b) ++ (Side.theirs.steps (turn G (half F b)) ++
      log goals F G n (round F G b))

theorem log_met {F G : List Fragment} {board : Board} (h : goals ⊆ board.facts) :
    log goals F G n board = [] := by
  cases n with
  | zero => rfl
  | succ n => exact if_pos h

theorem log_go {F G : List Fragment} {board : Board} (h : ¬ goals ⊆ board.facts) :
    log goals F G (n + 1) board = Side.ours.steps (turn F board) ++
      (Side.theirs.steps (turn G (half F board)) ++ log goals F G n (round F G board)) := if_neg h

theorem log_idle {F G : List Fragment} {board : Board} (h : round F G board = board) :
    log goals F G n board = [] := by
  induction n with
  | zero => rfl
  | succ n ih =>
    by_cases hmet : goals ⊆ board.facts
    · exact log_met hmet
    · obtain ⟨hF, hG⟩ := round_eq_iff.1 h
      rw [log_go hmet, h, ih, hF, hG]
      rfl

theorem passes_steps (hprog : s.progress = true) :
    (passes (supply a b) goals n s).steps =
      s.steps ++ log goals a.fragments b.fragments n s.toBoard := by
  induction n generalizing s with
  | zero => exact (List.append_nil _).symm
  | succ n ih =>
    by_cases hmet : goals ⊆ s.facts
    · rw [passes_met hmet, log_met hmet, List.append_nil]
    · by_cases hidle : round a.fragments b.fragments s.toBoard = s.toBoard
      · rw [passes_idle hprog hmet hidle, log_idle hidle, List.append_nil]
      · rw [passes_go hprog hmet, ih ((pass_progress_iff a b s).2 hidle), log_go hmet, pass_supply]
        simp only [List.append_assoc]

theorem passes_facts (hprog : s.progress = true) :
    goals ⊆ (passes (supply a b) goals n s).facts ↔
      ∃ k ≤ n, goals ⊆ ((round a.fragments b.fragments)^[k] s.toBoard).facts := by
  induction n generalizing s with
  | zero =>
    show goals ⊆ s.facts ↔ _
    refine ⟨fun h => ⟨0, le_rfl, h⟩, fun ⟨k, hk, h⟩ => ?_⟩
    obtain rfl : k = 0 := by omega
    exact h
  | succ n ih =>
    by_cases hmet : goals ⊆ s.facts
    · rw [passes_met hmet]
      exact ⟨fun h => ⟨0, by omega, h⟩, fun _ => hmet⟩
    · by_cases hidle : round a.fragments b.fragments s.toBoard = s.toBoard
      · rw [passes_idle hprog hmet hidle]
        refine ⟨fun h => absurd h hmet, fun ⟨k, _, h⟩ => ?_⟩
        rw [Function.iterate_fixed hidle] at h
        exact absurd h hmet
      · rw [passes_go hprog hmet, ih ((pass_progress_iff a b s).2 hidle), pass_supply]
        refine ⟨fun ⟨k, hk, h⟩ => ⟨k + 1, by omega, h⟩, fun ⟨k, hk, h⟩ => ?_⟩
        cases k with
        | zero => exact absurd h hmet
        | succ k => exact ⟨k, by omega, h⟩

/-- if the loop would still go on after `n` passes, every one of them played -/
theorem passes_going (hprog : s.progress = true)
    (hgo : (passes (supply a b) goals n s).progress = true)
    (hmet : ¬ goals ⊆ (passes (supply a b) goals n s).facts) :
    ∀ k < n, round a.fragments b.fragments ((round a.fragments b.fragments)^[k] s.toBoard) ≠
      (round a.fragments b.fragments)^[k] s.toBoard := by
  induction n generalizing s with
  | zero => exact fun k hk => absurd hk (by omega)
  | succ n ih =>
    have hstart : ¬ goals ⊆ s.facts := by
      intro h
      rw [passes_met h] at hmet
      exact hmet h
    have hplays : round a.fragments b.fragments s.toBoard ≠ s.toBoard := by
      intro hidle
      rw [passes_idle hprog hstart hidle] at hgo
      exact Bool.false_ne_true hgo
    rw [passes_go hprog hstart] at hgo hmet
    intro k hk
    cases k with
    | zero => exact hplays
    | succ k =>
      have h := ih ((pass_progress_iff a b s).2 hplays) hgo hmet k (by omega)
      rw [pass_supply] at h
      exact h

end

/-! ## what is played in all -/

section
variable (a b : Statement)

/-- the loop ends because the goals are reached or nobody played, never because of the bound -/
theorem played_over :
    ¬ ((played a b).progress = true ∧
      ¬ jointGoals a.requirements b.requirements ⊆ (played a b).facts) := by
  rintro ⟨hgo, hmet⟩
  have hn := Base.rounds_le (fun _ => spent_lt) (spent_le a.offer.fragments b.offer.fragments)
    (passes_going (s := start) rfl hgo hmet)
  omega

theorem played_steps :
    (played a b).steps = log (jointGoals a.requirements b.requirements) a.offer.fragments
      b.offer.fragments (a.offer.fragments.length + b.offer.fragments.length + 1) start.toBoard :=
  passes_steps rfl

/-- some round of the two sides, ours first, reaches the goals -/
def Reaches (goals : Finset String) (F G : List Fragment) : Prop :=
  ∃ k, goals ⊆ ((round F G)^[k] start.toBoard).facts

theorem Reaches.bounded {goals : Finset String} {F G : List Fragment} (h : Reaches goals F G) :
    ∃ k ≤ F.length + G.length, goals ⊆ ((round F G)^[k] start.toBoard).facts :=
  Base.exists_iterate_le (fun _ => spent_lt) (spent_le F G) (P := fun b => goals ⊆ b.facts) h

theorem played_reaches :
    jointGoals a.requirements b.requirements ⊆ (played a b).facts ↔
      Reaches (jointGoals a.requirements b.requirements) a.offer.fragments b.offer.fragments := by
  refine (passes_facts (s := start) rfl).trans ⟨fun ⟨k, _, h⟩ => ⟨k, h⟩, fun h => ?_⟩
  obtain ⟨k, hk, hmet⟩ := h.bounded
  exact ⟨k, by omega, hmet⟩

end

end Negotiate
