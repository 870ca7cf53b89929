import Velaris.Negotiate.Symmetric
import Velaris.Negotiate.Terms

/-!
# The contracts of the two parties

Each party matches its own statement, as ours, with the other's.

* `contract`   what is digested where the terms are met and the goals are reached;
* `matchOffers_met`, `matchOffers_fails`   the matches, and the runs that fail;
* `contract_eq_iff`   the contracts of the two parties are one;
* `same_contract_iff`   when the two parties compute one answer;
* `shared_of_mirrored`   one contract needs one fragment that both of them publish.
-/

namespace Negotiate

open Py

/-! ## the composition -/

/-- the two sides name a goal and reach all of them, ours first -/
def Composable (ours theirs : Statement) : Prop :=
  (jointGoals ours.requirements theirs.requirements).Nonempty ∧
    Reaches (jointGoals ours.requirements theirs.requirements) ours.offer.fragments
      theirs.offer.fragments

def joint (ours theirs : Statement) : Composition where
  goals := sorted (jointGoals ours.requirements theirs.requirements)
  steps := seamed (played ours theirs).steps
  seams := ((seamed (played ours theirs).steps).filter (·.crossesSeam)).length

theorem jointGoals_comm (a b : Requirements) : jointGoals a b = jointGoals b a :=
  Finset.union_comm _ _

theorem open_goals_nil {goals facts : Finset String} :
    (sorted goals).filter (· ∉ facts) = [] ↔ goals ⊆ facts := by
  rw [List.filter_eq_nil_iff]
  simp only [mem_sorted, decide_eq_true_eq, not_not]
  exact Iff.rfl

theorem compose_composable {a b : Statement} (h : Composable a b) :
    compose a b = .ok (joint a b) := by
  have hgoals : sorted (jointGoals a.requirements b.requirements) ≠ [] := by
    rw [ne_eq, sorted_eq_nil]
    exact h.1.ne_empty
  have hreached : (sorted (jointGoals a.requirements b.requirements)).filter
      (· ∉ (played a b).facts) = [] := open_goals_nil.2 ((played_reaches a b).2 h.2)
  rw [compose]
  simp only [if_neg hgoals, if_neg (not_not.2 hreached)]
  rfl

theorem of_compose_ok {a b : Statement} {c : Composition} (h : compose a b = .ok c) :
    Composable a b := by
  by_cases hgoals : sorted (jointGoals a.requirements b.requirements) = []
  · rw [compose] at h
    simp only [if_pos hgoals] at h
    cases h
  · by_cases hreached : (sorted (jointGoals a.requirements b.requirements)).filter
        (· ∉ (played a b).facts) = []
    · refine ⟨Finset.nonempty_iff_ne_empty.2 fun hempty => hgoals (sorted_eq_nil.2 hempty), ?_⟩
      exact (played_reaches a b).1 (open_goals_nil.1 hreached)
    · rw [compose] at h
      simp only [if_neg hgoals, if_pos hreached] at h
      cases h

/-! ## the match -/

section
variable {φ δ : Type} (F : Floats φ) (sha256 : Contract φ → δ)

def contract (ours theirs : Statement) (platform : String) : Contract φ where
  composition := joint ours theirs
  terms := agreedTerms F ours theirs platform ++
    [("composition", some (.names ((joint ours theirs).steps.map (·.fragment))))]

/-- a run that raises, or finds no joint composition -/
def Fails (r : Except Err (Result φ δ)) : Prop := ∀ o, r = .ok o → o.matched = false

/-- both runs fail, or both match, with one digest -/
def SameContract (r r' : Except Err (Result φ δ)) : Prop :=
  (Fails r ∧ Fails r') ∨
    ∃ o o', r = .ok o ∧ r' = .ok o' ∧ o.matched = true ∧ o'.matched = true ∧
      o.contractSha256 = o'.contractSha256

def stepsClause (ours theirs : Statement) : Clause φ :=
  ⟨"composition", true, .steps (joint ours theirs).steps.length,
    some (.names ((joint ours theirs).steps.map (·.fragment)))⟩

structure Result.Holds (o : Result φ δ) (ours theirs : Statement) (platform : String) : Prop where
  matched : o.matched = true
  composition : o.composition = some (joint ours theirs)
  effective : o.effectiveCeiling =
    some (seamCeiling ours.requirements.ceiling theirs.requirements.ceiling platform)
  terms : o.clauses.map (fun c => (c.clause, c.agreed)) = (contract F ours theirs platform).terms
  digest : o.contractSha256 = some (sha256 (contract F ours theirs platform))

variable {F} in
theorem matchOffers_holds {a b : Statement} {platform : String} (h : TermsMet F a b platform)
    (hc : Composable a b) :
    ∃ o, matchOffers F sha256 a b platform = .ok o ∧ o.Holds F sha256 a b platform := by
  obtain ⟨cs, hterms, hagreed⟩ := termClauses_met F h
  have hjoint : compositionClause a b cs = .ok (joint a b, cs ++ [stepsClause a b]) := by
    rw [compositionClause, compose_composable hc]
    rfl
  have hall : (cs ++ [stepsClause a b]).map (fun c : Clause φ => (c.clause, c.agreed)) =
      (contract F a b platform).terms := by
    rw [contract, List.map_append, hagreed]
    rfl
  have hdigest : contractHash sha256 (joint a b) (cs ++ [stepsClause a b]) =
      sha256 (contract F a b platform) := by
    rw [contractHash, hall]
    rfl
  refine ⟨{
    matched := true, composition := some (joint a b), clauses := cs ++ [stepsClause a b]
    effectiveCeiling :=
      some (seamCeiling a.requirements.ceiling b.requirements.ceiling platform)
    contractSha256 := some (contractHash sha256 (joint a b) (cs ++ [stepsClause a b]))
    reason := none }, ?_, rfl, rfl, rfl, hall, congrArg some hdigest⟩
  rw [matchOffers, hterms]
  simp only [bind, Except.bind, hjoint]
  rfl

variable {F} in
theorem matchOffers_met {a b : Statement} {platform : String} (h : TermsMet F a b platform)
    (hc : Composable a b) :
    ∃ o, matchOffers F sha256 a b platform = .ok o ∧ o.matched = true ∧
      o.contractSha256 = some (sha256 (contract F a b platform)) := by
  obtain ⟨o, ho, holds⟩ := matchOffers_holds sha256 h hc
  exact ⟨o, ho, holds.matched, holds.digest⟩

variable {F sha256} in
theorem of_matchOffers {a b : Statement} {platform : String} {o : Result φ δ}
    (h : matchOffers F sha256 a b platform = .ok o) (hmatched : o.matched = true) :
    TermsMet F a b platform ∧ Composable a b := by
  rw [matchOffers] at h
  cases hterms : termClauses F a b platform with
  | error stop =>
    rw [hterms] at h
    cases stop with
    | raised e => cases h
    | unmatched cs why =>
      cases h
      cases hmatched
  | ok r =>
    refine ⟨of_termClauses_ok F hterms, ?_⟩
    cases hcompose : compose a b with
    | ok c => exact of_compose_ok hcompose
    | error why =>
      rw [hterms] at h
      simp only [bind, Except.bind, compositionClause, hcompose, unmatched] at h
      cases h
      cases hmatched

variable {F} in
theorem matchOffers_fails {a b : Statement} {platform : String}
    (h : ¬ (TermsMet F a b platform ∧ Composable a b)) :
    Fails (matchOffers F sha256 a b platform) := by
  intro o ho
  by_contra hmatched
  exact h (of_matchOffers ho (Bool.eq_true_of_not_eq_false hmatched))

variable {F sha256} in
theorem not_fails_iff {a b : Statement} {platform : String} :
    ¬ Fails (matchOffers F sha256 a b platform) ↔ TermsMet F a b platform ∧ Composable a b := by
  refine ⟨fun h => ?_, fun ⟨h, hc⟩ hfails => ?_⟩
  · by_contra hnot
    exact h (matchOffers_fails sha256 hnot)
  · obtain ⟨o, ho, hmatched, -⟩ := matchOffers_met sha256 h hc
    rw [hfails o ho] at hmatched
    cases hmatched

/-! ## the two contracts -/

/-- both directions agree on one response time -/
def HoursAlike (a b : Statement) : Prop :=
  F.agreed a.requirements.maxResponseHours b.offer.responseHours =
    F.agreed b.requirements.maxResponseHours a.offer.responseHours

theorem played_unmarked (a b : Statement) : ∀ x ∈ (played a b).steps, x.crossesSeam = false := by
  rw [played_steps]
  exact log_unmarked

theorem sharedRegions_comm (a b : Requirements) : sharedRegions a b = sharedRegions b a := by
  rw [sharedRegions, sharedRegions, Finset.inter_comm]
  simp only [and_comm]

theorem joint_eq_iff (a b : Statement) :
    joint a b = joint b a ↔ (played a b).steps = (played b a).steps := by
  refine ⟨fun h => ?_, fun h => ?_⟩
  · exact seamed_inj (played_unmarked a b) (played_unmarked b a) (congrArg Composition.steps h)
  · rw [joint, joint, h, jointGoals_comm]

theorem contract_eq_iff (a b : Statement) (platform : String) :
    contract F a b platform = contract F b a platform ↔
      HoursAlike F a b ∧ (played a b).steps = (played b a).steps := by
  refine ⟨fun h => ?_, fun ⟨hhours, hsteps⟩ => ?_⟩
  · obtain ⟨hjoint, hterms⟩ := Contract.mk.inj h
    refine ⟨?_, (joint_eq_iff a b).1 hjoint⟩
    -- the third term is the promise made to ours
    have hthird := congrArg (fun ts => (ts[2]?).map Prod.snd) hterms
    have hsla : (F.agreed a.requirements.maxResponseHours b.offer.responseHours).map
          (Agreed.hours (φ := φ)) =
        (F.agreed b.requirements.maxResponseHours a.offer.responseHours).map Agreed.hours :=
      Option.some.inj hthird
    exact Option.map_injective (fun _ _ hx => Agreed.hours.inj hx) hsla
  · have hreq : evidenceRequired b a = evidenceRequired a b := Finset.union_comm _ _
    have hjoint := (joint_eq_iff a b).2 hsteps
    have hterms : agreedTerms F a b platform = agreedTerms F b a platform := by
      rw [HoursAlike] at hhours
      rw [agreedTerms, agreedTerms, hhours, hreq, seamCeiling_comm, sharedRegions_comm]
    rw [contract, contract, hjoint, hterms]

/-- where the goals are reached, the two runs play the same steps exactly when each side alone
would play them all -/
theorem played_eq_iff {a b : Statement}
    (h : Reaches (jointGoals a.requirements b.requirements) a.offer.fragments b.offer.fragments) :
    (played a b).steps = (played b a).steps ↔
      Mirrored (jointGoals a.requirements b.requirements) a.offer.fragments b.offer.fragments := by
  have hn : b.offer.fragments.length + a.offer.fragments.length + 1 =
      a.offer.fragments.length + b.offer.fragments.length + 1 := by omega
  rw [played_steps, played_steps, jointGoals_comm b.requirements, hn,
    mirrored_iff (Nat.lt_succ_self _)]
  exact ⟨fun hsame => ⟨h, hsame⟩, fun hboth => hboth.2⟩

variable {F sha256}

theorem sameContract_of_met (hsha : Function.Injective sha256) {a b : Statement}
    {platform : String} (h : TermsMet F a b platform) (hab : Composable a b)
    (hba : Composable b a) :
    SameContract (matchOffers F sha256 a b platform) (matchOffers F sha256 b a platform) ↔
      contract F a b platform = contract F b a platform := by
  obtain ⟨o, ho, hmatched, hsum⟩ := matchOffers_met sha256 h hab
  obtain ⟨o', ho', hmatched', hsum'⟩ := matchOffers_met sha256 h.symm hba
  refine ⟨fun hsame => ?_, fun heq => Or.inr ⟨o, o', ho, ho', hmatched, hmatched', ?_⟩⟩
  · rcases hsame with ⟨hfails, -⟩ | ⟨p, p', hp, hp', -, -, hdigest⟩
    · exact absurd hfails (not_fails_iff.2 ⟨h, hab⟩)
    · rw [ho] at hp
      rw [ho'] at hp'
      cases hp
      cases hp'
      rw [hsum, hsum'] at hdigest
      exact hsha (Option.some.inj hdigest)
  · rw [hsum, hsum', heq]

theorem sameContract_matches {a b : Statement} {platform : String}
    (h : SameContract (matchOffers F sha256 a b platform) (matchOffers F sha256 b a platform))
    (hterms : TermsMet F a b platform) : Composable a b ↔ Composable b a := by
  rcases h with ⟨hfails, hfails'⟩ | ⟨o, o', ho, ho', hmatched, hmatched', -⟩
  · refine ⟨fun hab => ?_, fun hba => ?_⟩
    · exact absurd hfails (not_fails_iff.2 ⟨hterms, hab⟩)
    · exact absurd hfails' (not_fails_iff.2 ⟨hterms.symm, hba⟩)
  · exact ⟨fun _ => (of_matchOffers ho' hmatched').2, fun _ => (of_matchOffers ho hmatched).2⟩

/-- The two parties fail together or compute one contract exactly where a term is not met, or
neither order of their turns reaches the goals, or the agreed response times are one and each
party alone would play the whole joint process, turn by turn. -/
theorem same_contract_iff (hsha : Function.Injective sha256) (a b : Statement)
    (platform : String) :
    SameContract (matchOffers F sha256 a b platform) (matchOffers F sha256 b a platform) ↔
      ¬ TermsMet F a b platform ∨ (¬ Composable a b ∧ ¬ Composable b a) ∨
        (HoursAlike F a b ∧ (jointGoals a.requirements b.requirements).Nonempty ∧
          Mirrored (jointGoals a.requirements b.requirements) a.offer.fragments
            b.offer.fragments) := by
  refine ⟨fun h => ?_, fun h => ?_⟩
  · by_cases hterms : TermsMet F a b platform
    · have hboth := sameContract_matches h hterms
      by_cases hab : Composable a b
      · have heq := (sameContract_of_met hsha hterms hab (hboth.1 hab)).1 h
        obtain ⟨hhours, hsteps⟩ := (contract_eq_iff F a b platform).1 heq
        exact Or.inr (Or.inr ⟨hhours, hab.1, (played_eq_iff hab.2).1 hsteps⟩)
      · exact Or.inr (Or.inl ⟨hab, fun hba => hab (hboth.2 hba)⟩)
    · exact Or.inl hterms
  · rcases h with hterms | ⟨hab, hba⟩ | ⟨hhours, hgoals, hmirrored⟩
    · exact Or.inl ⟨matchOffers_fails sha256 fun h => hterms h.1,
        matchOffers_fails sha256 fun h => hterms h.1.symm⟩
    · exact Or.inl ⟨matchOffers_fails sha256 fun h => hab h.2,
        matchOffers_fails sha256 fun h => hba h.2⟩
    · by_cases hterms : TermsMet F a b platform
      · have hab : Composable a b := ⟨hgoals, ((mirrored_iff (Nat.lt_succ_self _)).1 hmirrored).1⟩
        have hba : Composable b a := by
          rw [Composable, jointGoals_comm]
          exact ⟨hgoals, hmirrored.reaches_symm⟩
        apply (sameContract_of_met hsha hterms hab hba).2
        exact (contract_eq_iff F a b platform).2 ⟨hhours, (played_eq_iff hab.2).2 hmirrored⟩
      · exact Or.inl ⟨matchOffers_fails sha256 fun h => hterms h.1,
          matchOffers_fails sha256 fun h => hterms h.1.symm⟩

/-- `float` of a JSON number -/
def numbers : Floats ℚ where
  float := Value.num?
  gt := fun x y => decide (y < x)

def oneStop : Statement where
  offer := {
    fragments := [⟨some "settle", [], ["settled"]⟩]
    responseHours := some (.int 4), evidence := [] }
  requirements := {
    maxCeiling := none, regions := [], goals := ["settled"], evidence := []
    maxResponseHours := some (.int 12) }

/-- two parties with one and the same statement compute one contract -/
theorem one_statement_one_contract :
    SameContract (matchOffers numbers id oneStop oneStop "personal")
      (matchOffers numbers id oneStop oneStop "personal") := by
  apply (same_contract_iff Function.injective_id oneStop oneStop "personal").2
  refine Or.inr (Or.inr ⟨rfl, ⟨"settled", by decide⟩, ⟨1, by decide +kernel⟩, ?_⟩)
  exact fun k _ => ⟨rfl, rfl⟩

def insurer : Statement where
  offer := {
    fragments := [⟨some "receive-claim", [], ["claim_received"]⟩,
      ⟨some "settle", ["repair_quoted"], ["settled"]⟩]
    responseHours := some (.int 4), evidence := ["anchor_exchange", "ledger"] }
  requirements := {
    maxCeiling := some "personal", regions := ["eu", "uk"], goals := ["settled"]
    evidence := ["anchor_exchange"], maxResponseHours := some (.int 12) }

def repairer : Statement where
  offer := {
    fragments := [⟨some "quote-repair", ["claim_received"], ["repair_quoted"]⟩]
    responseHours := some (.int 8), evidence := ["anchor_exchange"] }
  requirements := {
    maxCeiling := some "internal", regions := ["uk"], goals := ["repair_quoted"]
    evidence := ["ledger"], maxResponseHours := some (.int 6) }

/-- the steps under the digest, where the digest is the contract -/
def signedSteps {φ : Type} (r : Except Err (Result φ (Contract φ))) : Option (List Step) :=
  r.toOption.bind fun o => o.contractSha256.map fun c => c.composition.steps

/-- The insurer and the repairer both find the joint process and compute two contracts: the
insurer's `receive-claim` is a step of ours in the one and of theirs in the other. -/
theorem insurer_repairer_apart :
    ¬ SameContract (matchOffers numbers id insurer repairer "personal")
      (matchOffers numbers id repairer insurer "personal") := by
  have hmatched : (matchOffers numbers id insurer repairer "personal").toOption.map
      (·.matched) = some true := by decide +kernel
  have hsteps : signedSteps (matchOffers numbers id insurer repairer "personal") ≠
      signedSteps (matchOffers numbers id repairer insurer "personal") := by decide +kernel
  rintro (⟨hfails, -⟩ | ⟨o, o', ho, ho', -, -, hdigest⟩)
  · cases hrun : matchOffers numbers id insurer repairer "personal" with
    | error e =>
      rw [hrun] at hmatched
      cases hmatched
    | ok o =>
      rw [hrun] at hmatched
      have htrue : o.matched = true := Option.some.inj hmatched
      rw [hfails o hrun] at htrue
      cases htrue
  · apply hsteps
    rw [ho, ho']
    exact congrArg (Option.map fun c => c.composition.steps) hdigest

/-! ## offers of their own -/

theorem exists_of_mem_turn {l : List Fragment} {b : Board} {x : Play} (h : x ∈ turn l b) :
    ∃ f ∈ l, f.play = x := by
  induction l generalizing b with
  | nil => cases h
  | cons f l ih =>
    by_cases hf : f.Ready b
    · rw [turn_cons_ready hf] at h
      rcases List.mem_cons.1 h with rfl | h
      · exact ⟨f, List.mem_cons_self, rfl⟩
      · obtain ⟨g, hg, hplay⟩ := ih h
        exact ⟨g, List.mem_cons_of_mem _ hg, hplay⟩
    · rw [turn_cons_not hf] at h
      obtain ⟨g, hg, hplay⟩ := ih h
      exact ⟨g, List.mem_cons_of_mem _ hg, hplay⟩

/-- mirrored sides publish a fragment in common -/
theorem shared_of_mirrored {goals : Finset String} {A B : List Fragment}
    (h : Mirrored goals A B) (hgoals : goals.Nonempty) :
    ∃ f ∈ A, ∃ g ∈ B, f.play = g.play := by
  obtain ⟨⟨k, hk⟩, halike⟩ := h
  have hopen : ¬ goals ⊆ (alone A (2 * 0)).facts := fun hsub =>
    hgoals.ne_empty (Finset.subset_empty.1 hsub)
  have hfirst : turn A start.toBoard = turn B start.toBoard := (halike 0 hopen).1
  cases hturn : turn A start.toBoard with
  | nil =>
    -- a side that plays nothing at first plays nothing at all
    have hfix : half A start.toBoard = start.toBoard := half_of_turn_nil hturn
    rw [alone, Function.iterate_fixed hfix] at hk
    exact absurd hk hopen
  | cons x r =>
    have hx : x ∈ turn A start.toBoard := by
      rw [hturn]
      exact List.mem_cons_self
    obtain ⟨f, hf, hfx⟩ := exists_of_mem_turn hx
    rw [hfirst] at hx
    obtain ⟨g, hg, hgx⟩ := exists_of_mem_turn hx
    exact ⟨f, hf, g, hg, hfx.trans hgx.symm⟩

/-- Two parties that both find the joint process, and publish no slug in common, compute two
contracts. -/
theorem apart_of_own_slugs (hsha : Function.Injective sha256) {a b : Statement} {platform : String}
    (h : TermsMet F a b platform) (hab : Composable a b) (hba : Composable b a)
    (hown : ∀ f ∈ a.offer.fragments, ∀ g ∈ b.offer.fragments, f.name ≠ g.name) :
    ¬ SameContract (matchOffers F sha256 a b platform) (matchOffers F sha256 b a platform) := by
  intro hsame
  have heq := (sameContract_of_met hsha h hab hba).1 hsame
  have hmirrored := (played_eq_iff hab.2).1 ((contract_eq_iff F a b platform).1 heq).2
  obtain ⟨f, hf, g, hg, hplay⟩ := shared_of_mirrored hmirrored hab.1
  exact hown f hf g hg (congrArg Play.fragment hplay)

end

end Negotiate
