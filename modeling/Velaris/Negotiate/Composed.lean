import Velaris.Negotiate.Contract

/-!
# Plans that leave no fragment out

`_compose` plays a fragment once everything it requires is there, and passes over every fragment
whose slug is used.

* `Ordered`   every fragment after the ones that provide what it requires;
* `Played`   what the loop has played, in every state of it;
* `PassedOver`   a fragment whose slug was used for other facts;
* `composes_iff`   there is a plan exactly where the goals are derivable, unless a goal needs a
    fragment that is passed over.

Where every slug is published once, what is played does not depend on whose turn comes first.

* `Derivable`   the facts some order of play can reach;
* `reaches_iff`   the goals are reached exactly when they are derivable;
* `composable_comm`   then the two parties find a joint process, or fail to, together;
* `same_contract_distinct_iff`   and the only answer they share is that there is none.
-/

namespace Negotiate

/-- a fact some fragment provides from facts that are derivable -/
inductive Derivable (fragments : List Fragment) : String → Prop where
  | provides {f : Fragment} {p : String} (hf : f ∈ fragments) (hp : p ∈ f.provides)
      (hreq : ∀ r ∈ f.requires, Derivable fragments r) : Derivable fragments p

theorem Derivable.mono {l l' : List Fragment} (hsub : ∀ f ∈ l, f ∈ l') {p : String}
    (h : Derivable l p) : Derivable l' p := by
  induction h with
  | provides hf hp _ ih => exact .provides (hsub _ hf) hp ih

/-- the facts are derivable, and those of a used fragment are there -/
structure Fair (L : List Fragment) (b : Board) : Prop where
  sound : ∀ p ∈ b.facts, Derivable L p
  kept : ∀ f ∈ L, f.name ∈ b.used → f.provides.toFinset ⊆ b.facts

section
variable {L : List Fragment}

theorem Fair.take (hL : (L.map Fragment.name).Nodup) {b : Board} (h : Fair L b) {f : Fragment}
    (hf : f ∈ L) (hready : f.Ready b) : Fair L (b.take f.play) := by
  rw [take_play]
  refine ⟨fun p hp => ?_, fun g hg hused => ?_⟩
  · rcases Finset.mem_union.1 hp with hp | hp
    · exact h.sound p hp
    · refine .provides hf (List.mem_toFinset.1 hp) fun r hr => ?_
      exact h.sound r (hready.2 (List.mem_toFinset.2 hr))
  · rcases Finset.mem_insert.1 hused with hname | hold
    · obtain rfl : g = f := List.inj_on_of_nodup_map hL hg hf hname
      exact Finset.subset_union_right
    · exact (h.kept g hg hold).trans Finset.subset_union_left

theorem Fair.half (hL : (L.map Fragment.name).Nodup) {l : List Fragment} (hl : ∀ f ∈ l, f ∈ L)
    {b : Board} (h : Fair L b) : Fair L (half l b) := by
  induction l generalizing b with
  | nil => exact h
  | cons f l ih =>
    have hrest : ∀ g ∈ l, g ∈ L := fun g hg => hl g (List.mem_cons_of_mem _ hg)
    by_cases hf : f.Ready b
    · have htake := h.take hL (hl f List.mem_cons_self) hf
      show Fair L (b.takes (turn (f :: l) b))
      rw [turn_cons_ready hf]
      exact ih hrest htake
    · show Fair L (b.takes (turn (f :: l) b))
      rw [turn_cons_not hf]
      exact ih hrest h

theorem fair_rounds {F G : List Fragment} (hL : ((F ++ G).map Fragment.name).Nodup) (k : ℕ) :
    Fair (F ++ G) ((round F G)^[k] start.toBoard) := by
  induction k with
  | zero => exact ⟨fun p hp => absurd hp (Finset.notMem_empty p),
      fun f _ hused => absurd hused (Finset.notMem_empty f.name)⟩
  | succ k ih =>
    rw [Function.iterate_succ_apply']
    have hfirst := ih.half hL (fun f (hf : f ∈ F) => List.mem_append_left G hf)
    exact hfirst.half hL fun f hf => List.mem_append_right F hf

theorem turn_nil_mem {l : List Fragment} {b : Board} (h : turn l b = []) :
    ∀ f ∈ l, ¬ f.Ready b := by
  induction l with
  | nil => exact fun f hf => absurd hf List.not_mem_nil
  | cons g l ih =>
    by_cases hg : g.Ready b
    · rw [turn_cons_ready hg] at h
      cases h
    · rw [turn_cons_not hg] at h
      intro f hf
      rcases List.mem_cons.1 hf with rfl | hf
      · exact hg
      · exact ih h f hf

theorem derivable_mem {F G : List Fragment} {b : Board} (hfair : Fair (F ++ G) b)
    (hfix : round F G b = b) {p : String} (h : Derivable (F ++ G) p) : p ∈ b.facts := by
  obtain ⟨hF, hG⟩ := round_eq_iff.1 hfix
  rw [half_of_turn_nil hF] at hG
  induction h with
  | @provides f q hf hp _ ih =>
    have hreq : f.requires.toFinset ⊆ b.facts := fun r hr => ih r (List.mem_toFinset.1 hr)
    have hnot : ¬ f.Ready b := by
      rcases List.mem_append.1 hf with hf | hf
      · exact turn_nil_mem hF f hf
      · exact turn_nil_mem hG f hf
    have hused : f.name ∈ b.used := by
      by_contra hnew
      exact hnot ⟨hnew, hreq⟩
    exact hfair.kept f hf hused (List.mem_toFinset.2 hp)

theorem reaches_iff {F G : List Fragment} (hL : ((F ++ G).map Fragment.name).Nodup)
    {goals : Finset String} : Reaches goals F G ↔ ∀ g ∈ goals, Derivable (F ++ G) g := by
  refine ⟨fun ⟨k, hk⟩ g hg => (fair_rounds hL k).sound g (hk hg), fun h => ?_⟩
  obtain ⟨k, _, hfix⟩ := Base.exists_fixed (fun _ => spent_lt) (spent_le F G) start.toBoard
  exact ⟨k, fun g hg => derivable_mem (fair_rounds hL k) hfix (h g hg)⟩

end

/-- every slug of the two offers is published once -/
def Distinct (a b : Statement) : Prop :=
  ((a.offer.fragments ++ b.offer.fragments).map Fragment.name).Nodup

theorem Distinct.symm {a b : Statement} (h : Distinct a b) : Distinct b a := by
  have hperm : ((b.offer.fragments ++ a.offer.fragments).map Fragment.name).Perm
      ((a.offer.fragments ++ b.offer.fragments).map Fragment.name) :=
    List.perm_append_comm.map _
  exact hperm.nodup_iff.2 h

theorem composable_comm {a b : Statement} (h : Distinct a b) :
    Composable a b ↔ Composable b a := by
  have hmem : ∀ (F G : List Fragment), ∀ f ∈ F ++ G, f ∈ G ++ F := fun F G f hf =>
    List.mem_append.2 (List.mem_append.1 hf).symm
  rw [Composable, Composable, jointGoals_comm, reaches_iff h, reaches_iff h.symm]
  refine and_congr Iff.rfl (forall₂_congr fun g _ => ?_)
  exact ⟨Derivable.mono (hmem _ _), Derivable.mono (hmem _ _)⟩

section
variable {φ δ : Type} {F : Floats φ} {sha256 : Contract φ → δ}

/-- Parties whose slugs are distinct share an answer only where there is no contract: a term is
not met, no goal is named, or a goal cannot be derived from what the two of them publish. -/
theorem same_contract_distinct_iff (hsha : Function.Injective sha256) {a b : Statement}
    (hdistinct : Distinct a b) (platform : String) :
    SameContract (matchOffers F sha256 a b platform) (matchOffers F sha256 b a platform) ↔
      ¬ (TermsMet F a b platform ∧ (jointGoals a.requirements b.requirements).Nonempty ∧
        ∀ g ∈ jointGoals a.requirements b.requirements,
          Derivable (a.offer.fragments ++ b.offer.fragments) g) := by
  have hcompose : Composable a b ↔ (jointGoals a.requirements b.requirements).Nonempty ∧
      ∀ g ∈ jointGoals a.requirements b.requirements,
        Derivable (a.offer.fragments ++ b.offer.fragments) g := by
    rw [Composable, reaches_iff hdistinct]
  rw [← hcompose]
  refine ⟨fun hsame hboth => ?_, fun hnot => ?_⟩
  · have hba := (composable_comm hdistinct).1 hboth.2
    refine apart_of_own_slugs hsha hboth.1 hboth.2 hba ?_ hsame
    intro f hf g hg heq
    have hnames : (a.offer.fragments.map Fragment.name ++
        b.offer.fragments.map Fragment.name).Nodup := by
      rw [← List.map_append]
      exact hdistinct
    have hg' := List.mem_map_of_mem (f := Fragment.name) hg
    rw [← heq] at hg'
    exact List.disjoint_of_nodup_append hnames (List.mem_map_of_mem hf) hg'
  · refine Or.inl ⟨matchOffers_fails sha256 hnot, matchOffers_fails sha256 fun hboth => ?_⟩
    exact hnot ⟨hboth.1.symm, (composable_comm hdistinct).2 hboth.2⟩

end

end Negotiate

namespace Negotiate

def shown (e : Side × Fragment) : Side × String × List String :=
  (e.1, e.2.name, e.2.provides.insertionSort (· ≤ ·))

def Step.shown (x : Step) : Side × String × List String := (x.side, x.fragment, x.provides)

/-- everything a fragment requires is provided before it -/
structure Ordered (supply entries : List (Side × Fragment)) : Prop where
  supplied : ∀ e ∈ entries, e ∈ supply
  after : ∀ before e rest, entries = before ++ e :: rest →
    ∀ r ∈ e.2.requires, ∃ q ∈ before, r ∈ q.2.provides

structure Played (supply entries : List (Side × Fragment)) (s : State) : Prop where
  ordered : Ordered supply entries
  shows : s.steps.map Step.shown = entries.map shown
  facts : ∀ p, p ∈ s.facts ↔ ∃ e ∈ entries, p ∈ e.2.provides
  used : ∀ name, name ∈ s.used ↔ ∃ e ∈ entries, e.2.name = name
  apart : (entries.map fun e => e.2.name).Nodup

section
variable {supply entries : List (Side × Fragment)} {s : State}

theorem Ordered.nil : Ordered supply [] where
  supplied := fun _ h => nomatch h
  after := fun before e rest h => by simp at h

theorem Ordered.snoc (h : Ordered supply entries) {e : Side × Fragment} (he : e ∈ supply)
    (hreq : ∀ r ∈ e.2.requires, ∃ q ∈ entries, r ∈ q.2.provides) :
    Ordered supply (entries ++ [e]) where
  supplied := by
    intro x hx
    rcases List.mem_append.1 hx with hx | hx
    · exact h.supplied x hx
    · exact (List.mem_singleton.1 hx) ▸ he
  after := by
    intro before x rest heq r hr
    rcases List.eq_nil_or_concat rest with rfl | ⟨rest, z, rfl⟩
    · obtain ⟨rfl, hx⟩ := List.append_inj' heq rfl
      obtain rfl : e = x := List.singleton_inj.1 hx
      exact hreq r hr
    · have hentries : entries ++ [e] = (before ++ x :: rest) ++ [z] := by
        rw [heq]
        simp
      exact h.after before x rest (List.append_inj' hentries rfl).1 r hr

theorem Ordered.derivable (h : Ordered supply entries) {e : Side × Fragment} (he : e ∈ entries)
    {p : String} (hp : p ∈ e.2.provides) : Derivable (entries.map (·.2)) p := by
  obtain ⟨before, rest, heq⟩ := List.append_of_mem he
  induction hn : before.length using Nat.strong_induction_on generalizing before e rest p with
  | h n ih =>
    refine .provides (List.mem_map_of_mem he) hp fun r hr => ?_
    obtain ⟨q, hq, hrq⟩ := h.after before e rest heq r hr
    obtain ⟨first, second, hsplit⟩ := List.append_of_mem hq
    have hshort : first.length < n := by
      rw [← hn, hsplit, List.length_append, List.length_cons]
      omega
    refine ih first.length hshort ?_ hrq first (second ++ e :: rest) ?_ rfl
    · rw [heq]
      exact List.mem_append_left _ hq
    · rw [heq, hsplit, List.append_assoc, List.cons_append]

theorem Played.start : Played supply [] start where
  ordered := .nil
  shows := rfl
  facts := fun p => by simp [Negotiate.start]
  used := fun name => by simp [Negotiate.start]
  apart := List.nodup_nil

/-! ## what one fragment adds -/

theorem Played.visit (h : Played supply entries s) {e : Side × Fragment} (he : e ∈ supply) :
    ∃ entries', Played supply entries' (visit s e) := by
  obtain ⟨side, f⟩ := e
  by_cases hready : f.Ready s.toBoard
  · have hprovided : ∀ r ∈ f.requires, ∃ q ∈ entries, r ∈ q.2.provides := by
      intro r hr
      exact (h.facts r).1 (hready.2 (List.mem_toFinset.2 hr))
    have hnew : f.name ∉ entries.map fun e => e.2.name := by
      intro hmem
      obtain ⟨x, hx, hname⟩ := List.mem_map.1 hmem
      exact hready.1 ((h.used f.name).2 ⟨x, hx, hname⟩)
    have hboard : (s.after side [f.play]).toBoard = s.toBoard.take f.play := rfl
    rw [visit_ready hready]
    refine ⟨entries ++ [(side, f)], h.ordered.snoc he hprovided, ?_, fun p => ?_,
      fun name => ?_, ?_⟩
    · show (s.steps ++ _).map Step.shown = _
      rw [List.map_append, List.map_append, h.shows]
      rfl
    · rw [hboard, take_play]
      simp only [Finset.mem_union, h.facts, List.mem_toFinset, List.mem_append,
        List.mem_singleton, or_and_right, exists_or, exists_eq_left]
    · rw [hboard, take_play]
      simp only [Finset.mem_insert, h.used, List.mem_append, List.mem_singleton, or_and_right,
        exists_or, exists_eq_left]
      rw [or_comm, eq_comm]
    · rw [List.map_append, List.nodup_append_comm]
      exact List.nodup_cons.2 ⟨hnew, h.apart⟩
  · rw [visit_not hready]
    exact ⟨entries, h⟩

theorem Played.pass (h : Played supply entries s) :
    ∃ entries', Played supply entries' (pass supply s) := by
  have hfold : ∀ (l : List (Side × Fragment)) (entries : List (Side × Fragment)) (s : State),
      (∀ e ∈ l, e ∈ supply) → Played supply entries s →
        ∃ entries', Played supply entries' (l.foldl Negotiate.visit s) := by
    intro l
    induction l with
    | nil => exact fun entries s _ h => ⟨entries, h⟩
    | cons e l ih =>
      intro entries s hl h
      obtain ⟨entries', h'⟩ := h.visit (hl e List.mem_cons_self)
      exact ih entries' _ (fun x hx => hl x (List.mem_cons_of_mem e hx)) h'
  exact hfold supply entries { s with progress := false } (fun _ he => he)
    ⟨h.ordered, h.shows, h.facts, h.used, h.apart⟩

theorem Played.passes (h : Played supply entries s) (goals : Finset String) (n : ℕ) :
    ∃ entries', Played supply entries' (passes supply goals n s) := by
  induction n generalizing entries s with
  | zero => exact ⟨entries, h⟩
  | succ n ih =>
    by_cases hgo : s.progress = true ∧ ¬ goals ⊆ s.facts
    · obtain ⟨entries', h'⟩ := h.pass
      rw [Negotiate.passes, if_pos hgo]
      exact ih h'
    · rw [Negotiate.passes, if_neg hgo]
      exact ⟨entries, h⟩

end

/-! ## the race of the slugs -/

section
variable (a b : Offer)

def raced (k : ℕ) : State := (pass (supply a b))^[k] start

/-- the slug of the fragment was used by a fragment that provides something else -/
def PassedOver (f : Fragment) : Prop :=
  ∃ k, ∃ x ∈ (raced a b k).steps,
    x.fragment = f.name ∧ x.provides ≠ f.provides.insertionSort (· ≤ ·)

variable {a b}

theorem raced_succ (k : ℕ) : raced a b (k + 1) = pass (supply a b) (raced a b k) :=
  Function.iterate_succ_apply' _ _ _

theorem raced_board (k : ℕ) :
    (raced a b k).toBoard = (round a.fragments b.fragments)^[k] start.toBoard := by
  induction k with
  | zero => rfl
  | succ k ih => rw [raced_succ, pass_supply, ih, Function.iterate_succ_apply']

theorem raced_played (k : ℕ) : ∃ entries, Played (supply a b) entries (raced a b k) := by
  induction k with
  | zero => exact ⟨[], .start⟩
  | succ k ih =>
    obtain ⟨entries, h⟩ := ih
    rw [raced_succ]
    exact h.pass

theorem raced_steps {j k : ℕ} (h : j ≤ k) : ∀ x ∈ (raced a b j).steps, x ∈ (raced a b k).steps := by
  induction h with
  | refl => exact fun _ hx => hx
  | step _ ih =>
    intro x hx
    rw [raced_succ, pass_supply]
    exact List.mem_append_left _ (ih x hx)

theorem mem_shows {l : List (Side × Fragment)} {s : State} {entries : List (Side × Fragment)}
    (h : Played l entries s) {x : Step} (hx : x ∈ s.steps) :
    ∃ e ∈ entries, e.2.name = x.fragment ∧ e.2.provides.insertionSort (· ≤ ·) = x.provides := by
  have hmem : x.shown ∈ entries.map shown := by
    rw [← h.shows]
    exact List.mem_map_of_mem hx
  obtain ⟨e, he, heq⟩ := List.mem_map.1 hmem
  obtain ⟨-, hrest⟩ := Prod.mk.inj heq
  obtain ⟨hname, hprovides⟩ := Prod.mk.inj hrest
  exact ⟨e, he, hname, hprovides⟩

theorem shows_mem {l : List (Side × Fragment)} {s : State} {entries : List (Side × Fragment)}
    (h : Played l entries s) {e : Side × Fragment} (he : e ∈ entries) :
    ∃ x ∈ s.steps, x.fragment = e.2.name ∧ x.provides = e.2.provides.insertionSort (· ≤ ·) := by
  have hmem : shown e ∈ s.steps.map Step.shown := by
    rw [h.shows]
    exact List.mem_map_of_mem he
  obtain ⟨x, hx, heq⟩ := List.mem_map.1 hmem
  obtain ⟨-, hrest⟩ := Prod.mk.inj heq
  obtain ⟨hname, hprovides⟩ := Prod.mk.inj hrest
  exact ⟨x, hx, hname, hprovides⟩

theorem Played.unique {l entries : List (Side × Fragment)} {s : State} (h : Played l entries s)
    {x y : Step} (hx : x ∈ s.steps) (hy : y ∈ s.steps) (hname : x.fragment = y.fragment) :
    x.provides = y.provides := by
  obtain ⟨e, he, hen, hep⟩ := mem_shows h hx
  obtain ⟨q, hq, hqn, hqp⟩ := mem_shows h hy
  have hsame : e = q :=
    List.inj_on_of_nodup_map h.apart he hq (hen.trans (hname.trans hqn.symm))
  rw [← hep, ← hqp, hsame]

theorem not_passedOver {k : ℕ} {entries : List (Side × Fragment)}
    (h : Played (supply a b) entries (raced a b k)) {e : Side × Fragment} (he : e ∈ entries) :
    ¬ PassedOver a b e.2 := by
  rintro ⟨j, y, hy, hname, hprovides⟩
  obtain ⟨x, hx, hxn, hxp⟩ := shows_mem h he
  obtain ⟨all, hall⟩ := raced_played (a := a) (b := b) (max j k)
  have hsame := hall.unique (raced_steps (le_max_left j k) y hy)
    (raced_steps (le_max_right j k) x hx) (hname.trans hxn.symm)
  exact hprovides (hsame.trans hxp)

theorem mem_supply {e : Side × Fragment} (he : e ∈ supply a b) :
    e.2 ∈ a.fragments ++ b.fragments := by
  rcases List.mem_append.1 he with he | he
  · obtain ⟨f, hf, rfl⟩ := List.mem_map.1 he
    exact List.mem_append_left _ hf
  · obtain ⟨f, hf, rfl⟩ := List.mem_map.1 he
    exact List.mem_append_right _ hf

/-- The fragments whose facts count: their slugs are not used for other facts. -/
def Kept (a b : Offer) (p : String) : Prop :=
  ∃ l, (∀ f ∈ l, f ∈ a.fragments ++ b.fragments ∧ ¬ PassedOver a b f) ∧ Derivable l p

theorem Kept.derivable {p : String} (h : Kept a b p) :
    Derivable (a.fragments ++ b.fragments) p := by
  obtain ⟨l, hl, hp⟩ := h
  exact hp.mono fun f hf => (hl f hf).1

theorem kept_of_raced {k : ℕ} {p : String} (hp : p ∈ (raced a b k).facts) : Kept a b p := by
  obtain ⟨entries, h⟩ := raced_played (a := a) (b := b) k
  obtain ⟨e, he, hpe⟩ := (h.facts p).1 hp
  refine ⟨entries.map (·.2), fun f hf => ?_, h.ordered.derivable he hpe⟩
  obtain ⟨q, hq, rfl⟩ := List.mem_map.1 hf
  exact ⟨mem_supply (h.ordered.supplied q hq), not_passedOver h hq⟩

theorem raced_of_derivable {l : List Fragment} {k : ℕ} {p : String}
    (hfix : round a.fragments b.fragments (raced a b k).toBoard = (raced a b k).toBoard)
    (hl : ∀ f ∈ l, f ∈ a.fragments ++ b.fragments ∧ ¬ PassedOver a b f) (hp : Derivable l p) :
    p ∈ (raced a b k).facts := by
  obtain ⟨entries, h⟩ := raced_played (a := a) (b := b) k
  obtain ⟨hF, hG⟩ := round_eq_iff.1 hfix
  rw [half_of_turn_nil hF] at hG
  induction hp with
  | @provides f p hf hp _ ih =>
    have hreq : f.requires.toFinset ⊆ (raced a b k).facts :=
      fun r hr => ih r (List.mem_toFinset.1 hr)
    have hnot : ¬ f.Ready (raced a b k).toBoard := by
      rcases List.mem_append.1 (hl f hf).1 with hf | hf
      · exact turn_nil_mem hF f hf
      · exact turn_nil_mem hG f hf
    have hused : f.name ∈ (raced a b k).used := by
      by_contra hnew
      exact hnot ⟨hnew, hreq⟩
    obtain ⟨e, he, hname⟩ := (h.used f.name).1 hused
    obtain ⟨x, hx, hxn, hxp⟩ := shows_mem h he
    have hsame : x.provides = f.provides.insertionSort (· ≤ ·) := by
      by_contra hother
      exact (hl f hf).2 ⟨k, x, hx, hxn.trans hname, hother⟩
    refine (h.facts p).2 ⟨e, he, ?_⟩
    have hsorted : p ∈ e.2.provides.insertionSort (· ≤ ·) := by
      rw [← hxp, hsame]
      exact (List.mem_insertionSort _).2 hp
    exact (List.mem_insertionSort _).1 hsorted

theorem reaches_iff_kept {goals : Finset String} :
    Reaches goals a.fragments b.fragments ↔ ∀ g ∈ goals, Kept a b g := by
  refine ⟨fun ⟨k, hk⟩ g hg => ?_, fun h => ?_⟩
  · have hg' := hk hg
    rw [← raced_board] at hg'
    exact kept_of_raced hg'
  · obtain ⟨k, -, hfix⟩ := Base.exists_fixed (fun _ => spent_lt)
      (spent_le a.fragments b.fragments) start.toBoard
    rw [← raced_board] at hfix
    refine ⟨k, fun g hg => ?_⟩
    obtain ⟨l, hl, hp⟩ := h g hg
    rw [← raced_board]
    exact raced_of_derivable hfix hl hp

end

/-! ## plans -/

/-- The steps of a plan are fragments in order, and what a fragment of the supply provides to the
plan is provided by one of them. -/
structure Plan (a b : Statement) (c : Composition) (entries : List (Side × Fragment)) : Prop where
  ordered : Ordered (supply a.offer b.offer) entries
  shows : c.steps.map Step.shown = entries.map shown
  goals : ∀ g ∈ jointGoals a.requirements b.requirements, ∃ q ∈ entries, g ∈ q.2.provides
  complete : ∀ f ∈ supply a.offer b.offer, ∀ p ∈ f.2.provides,
    (p ∈ jointGoals a.requirements b.requirements ∨ ∃ e ∈ entries, p ∈ e.2.requires) →
      ∃ q ∈ entries, p ∈ q.2.provides

structure Composes (a b : Statement) : Prop where
  returns : (∃ c, compose a b = .ok c) ↔ ∀ g ∈ jointGoals a.requirements b.requirements,
    Derivable (a.offer.fragments ++ b.offer.fragments) g
  plan : ∀ c, compose a b = .ok c → ∃ entries, Plan a b c entries

theorem plan_of_compose {a b : Statement} {c : Composition} (h : compose a b = .ok c) :
    ∃ entries, Plan a b c entries := by
  have hcomposable := of_compose_ok h
  obtain rfl : joint a b = c := Except.ok.inj ((compose_composable hcomposable).symm.trans h)
  have hstart : Played (supply a.offer b.offer) [] start := .start
  obtain ⟨entries, hplayed⟩ := hstart.passes (jointGoals a.requirements b.requirements)
    (a.offer.fragments.length + b.offer.fragments.length + 1)
  have hgoals : ∀ g ∈ jointGoals a.requirements b.requirements,
      ∃ q ∈ entries, g ∈ q.2.provides := by
    intro g hg
    exact (hplayed.facts g).1 ((played_reaches a b).2 hcomposable.2 hg)
  refine ⟨entries, hplayed.ordered, ?_, hgoals, ?_⟩
  · rw [← hplayed.shows]
    exact seamed_unmarked _
  · rintro - - p - (hp | ⟨e, he, hr⟩)
    · exact hgoals p hp
    · obtain ⟨before, rest, heq⟩ := List.append_of_mem he
      obtain ⟨q, hq, hpq⟩ := hplayed.ordered.after before e rest heq p hr
      exact ⟨q, heq ▸ List.mem_append_left _ hq, hpq⟩

/-- There is a plan exactly where all goals are derivable, and every plan is in order and complete,
exactly if some goal is not derivable or every goal is derivable without the fragments that are
passed over. -/
theorem composes_iff {a b : Statement}
    (hgoals : (jointGoals a.requirements b.requirements).Nonempty) :
    Composes a b ↔
      ((∀ g ∈ jointGoals a.requirements b.requirements,
          Derivable (a.offer.fragments ++ b.offer.fragments) g) →
        ∀ g ∈ jointGoals a.requirements b.requirements, Kept a.offer b.offer g) := by
  have hreturns : (∃ c, compose a b = .ok c) ↔
      ∀ g ∈ jointGoals a.requirements b.requirements, Kept a.offer b.offer g := by
    rw [← reaches_iff_kept]
    refine ⟨fun ⟨c, hc⟩ => (of_compose_ok hc).2, fun h => ?_⟩
    exact ⟨_, compose_composable ⟨hgoals, h⟩⟩
  refine ⟨fun h hall => hreturns.1 (h.returns.2 hall), fun h => ⟨?_, fun c => plan_of_compose⟩⟩
  rw [hreturns]
  exact ⟨fun hkept g hg => (hkept g hg).derivable, h⟩

/-! ## two fragments of one slug -/

theorem composes_oneStop : Composes oneStop oneStop := by
  apply (composes_iff ⟨"settled", by decide⟩).2
  intro _ g hg
  apply kept_of_raced (k := 1)
  exact (by decide +kernel : jointGoals oneStop.requirements oneStop.requirements ⊆
    (raced oneStop.offer oneStop.offer 1).facts) hg

/-- a party that does its own intake, of `fact` -/
def intake (fact goal : String) : Statement where
  offer := {
    fragments := [⟨some "intake", [], [fact]⟩]
    responseHours := none, evidence := [] }
  requirements := {
    maxCeiling := none, regions := [], goals := [goal], evidence := [], maxResponseHours := none }

/-- Both parties publish an `intake`, and the joint process needs the second one. -/
theorem intake_left_out :
    ¬ ∀ a b : Statement, (jointGoals a.requirements b.requirements).Nonempty → Composes a b := by
  intro h
  let a := intake "claim_received" "repair_quoted"
  let b := intake "repair_quoted" "repair_quoted"
  have hplan : ∃ c, compose a b = .ok c := by
    apply (h a b ⟨"repair_quoted", by decide⟩).returns.2
    intro g hg
    obtain rfl : g = "repair_quoted" :=
      Finset.mem_singleton.1 ((by decide : jointGoals a.requirements b.requirements ⊆
        {"repair_quoted"}) hg)
    exact .provides (f := ⟨some "intake", [], ["repair_quoted"]⟩) (by decide) (by decide)
      fun r hr => nomatch hr
  obtain ⟨c, hc⟩ := hplan
  have hnone : (compose a b).toOption.isNone = true := by decide +kernel
  rw [hc] at hnone
  cases hnone

end Negotiate
