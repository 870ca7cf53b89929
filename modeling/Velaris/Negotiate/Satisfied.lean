import Mathlib.Data.Fintype.EquivFin
import Mathlib.Tactic.Linarith
import Velaris.Negotiate.Composed

/-!
# What a matched contract agrees on

`match` merges the requirements of two parties; either of them may leave a field open.

* `Satisfies`   the terms of a contract are terms of both parties;
* `satisfies_iff`   those of a match are, exactly if both parties constrain the region or
    neither does, and no response time that is compared is a NaN.
-/

namespace Negotiate

open Py

variable {φ δ : Type}

/-! ## the terms of a contract -/

/-- a float that is neither above nor below any other -/
def Floats.NaN (F : Floats φ) (x : φ) : Prop := ∀ y, F.gt x y = false ∧ F.gt y x = false

/-- `x <= y` of floats -/
def Floats.le (F : Floats φ) (x y : φ) : Prop := F.gt x y = false ∧ ¬ F.NaN x ∧ ¬ F.NaN y

def Result.agreed (r : Result φ δ) (name : String) : Option (Agreed φ) :=
  ((r.clauses.map fun c => (c.clause, c.agreed)).lookup name).bind id

def Permits (names : List String) (region : String) : Prop := names = [] ∨ region ∈ names

def Requirements.Accepts (r : Requirements) (region : String) : Prop :=
  r.regions = [] ∨ region ∈ r.regions

instance (r : Requirements) (region : String) : Decidable (r.Accepts region) :=
  inferInstanceAs (Decidable (_ ∨ _))

def AtMost (ceiling limit : String) : Prop := CEILINGS.idxOf ceiling ≤ CEILINGS.idxOf limit

def Floats.MeetsDemand (F : Floats φ) (need : Option Value) (agreed : Option (Agreed φ)) : Prop :=
  ∀ v, need = some v → ∃ x y, agreed = some (.hours x) ∧ F.float v = some y ∧ F.le x y

structure Satisfies (F : Floats φ) (ours theirs : Statement) (platform : String) (r : Result φ δ) :
    Prop where
  ceiling : ∃ c ∈ CEILINGS, r.effectiveCeiling = some c ∧
    r.agreed "data_class_ceiling" = some (.ceiling c) ∧ AtMost c ours.requirements.ceiling ∧
    AtMost c theirs.requirements.ceiling ∧ AtMost c platform
  regions : ∃ names, r.agreed "regions" = some (.names names) ∧ ∀ region, Permits names region →
    ours.requirements.Accepts region ∧ theirs.requirements.Accepts region
  theirSla : F.MeetsDemand ours.requirements.maxResponseHours (r.agreed "their_sla")
  ourSla : F.MeetsDemand theirs.requirements.maxResponseHours (r.agreed "our_sla")
  evidence : ∀ e, e ∈ ours.requirements.evidence ∨ e ∈ theirs.requirements.evidence →
    e ∈ ours.offer.evidence ∨ e ∈ theirs.offer.evidence
  goals : ∃ c, r.composition = some c ∧
    ∀ g, g ∈ ours.requirements.goals ∨ g ∈ theirs.requirements.goals →
      ∃ x ∈ c.steps, g ∈ x.provides

def RegionsAlike (ours theirs : Requirements) : Prop := ours.regions = [] ↔ theirs.regions = []

instance (ours theirs : Requirements) : Decidable (RegionsAlike ours theirs) :=
  inferInstanceAs (Decidable (_ ↔ _))

/-- a response time that is needed and one that is promised are numbers -/
def Floats.Timed (F : Floats φ) (need promise : Option Value) : Prop :=
  ∀ v p x y, need = some v → promise = some p → F.float p = some x → F.float v = some y →
    ¬ F.NaN x ∧ ¬ F.NaN y

/-! ## each term -/

theorem idxOf_get (i : Fin CEILINGS.length) : CEILINGS.idxOf (CEILINGS.get i) = i := by
  have hnodup : CEILINGS.Nodup := by decide
  exact hnodup.idxOf_getElem i.1 i.2

theorem seamCeiling_atMost {ours theirs platform : String} (ha : ours ∈ CEILINGS)
    (hb : theirs ∈ CEILINGS) (hp : platform ∈ CEILINGS) :
    seamCeiling ours theirs platform ∈ CEILINGS ∧
      AtMost (seamCeiling ours theirs platform) ours ∧
      AtMost (seamCeiling ours theirs platform) theirs ∧
      AtMost (seamCeiling ours theirs platform) platform := by
  have hseam : seamCeiling ours theirs platform =
      capped platform hp (min (ceilingRank ours ha) (ceilingRank theirs hb)) :=
    dif_pos ⟨ha, hb, hp⟩
  have hle : CEILINGS.idxOf (seamCeiling ours theirs platform) =
      min (min (CEILINGS.idxOf ours) (CEILINGS.idxOf theirs)) (CEILINGS.idxOf platform) := by
    rw [hseam, capped, idxOf_get]
    show min (CEILINGS.idxOf (CEILINGS.get (min (ceilingRank ours ha) (ceilingRank theirs hb))))
      (CEILINGS.idxOf platform) = _
    rw [idxOf_get]
    rfl
  refine ⟨?_, ?_, ?_, ?_⟩
  · rw [hseam]
    exact List.get_mem _ _
  all_goals
    rw [AtMost, hle]
    omega

section
variable {F : Floats φ} {sha256 : Contract φ → δ} {a b : Statement} {platform : String}
  {r : Result φ δ}

theorem agreed_of_holds (h : r.Holds F sha256 a b platform) :
    r.agreed "data_class_ceiling" = some (.ceiling
        (seamCeiling a.requirements.ceiling b.requirements.ceiling platform)) ∧
      r.agreed "regions" = some (.names (sharedRegions a.requirements b.requirements)) ∧
      r.agreed "their_sla" = (F.agreed a.requirements.maxResponseHours
        b.offer.responseHours).map .hours ∧
      r.agreed "our_sla" = (F.agreed b.requirements.maxResponseHours
        a.offer.responseHours).map .hours := by
  simp [Result.agreed, h.terms, contract, agreedTerms, List.lookup_cons]

theorem regions_iff (hmeet : RegionsMeet a.requirements b.requirements) :
    (∀ region, Permits (sharedRegions a.requirements b.requirements) region →
        a.requirements.Accepts region ∧ b.requirements.Accepts region) ↔
      RegionsAlike a.requirements b.requirements := by
  have hsome : ∀ l : List String, l.toFinset.Nonempty ↔ l ≠ [] :=
    fun l => List.toFinset_nonempty_iff l
  -- a region that one party does not accept
  have hother : ∀ l : List String, ∃ region, region ∉ l := by
    intro l
    obtain ⟨region, hregion⟩ := Infinite.exists_notMem_finset l.toFinset
    exact ⟨region, fun h => hregion (List.mem_toFinset.2 h)⟩
  unfold RegionsAlike
  by_cases ha : a.requirements.regions = []
  · by_cases hb : b.requirements.regions = []
    · exact iff_of_true (fun _ _ => ⟨Or.inl ha, Or.inl hb⟩) (iff_of_true ha hb)
    · refine iff_of_false (fun h => ?_) fun h => hb (h.1 ha)
      obtain ⟨region, hregion⟩ := hother b.requirements.regions
      have hfree : sharedRegions a.requirements b.requirements = [] :=
        if_neg fun hboth => (hsome _).1 hboth.1 ha
      exact (h region (Or.inl hfree)).2.elim hb hregion
  · by_cases hb : b.requirements.regions = []
    · refine iff_of_false (fun h => ?_) fun h => ha (h.2 hb)
      obtain ⟨region, hregion⟩ := hother a.requirements.regions
      have hfree : sharedRegions a.requirements b.requirements = [] :=
        if_neg fun hboth => (hsome _).1 hboth.2 hb
      exact (h region (Or.inl hfree)).1.elim ha hregion
    · refine iff_of_true (fun region hregion => ?_) (iff_of_false ha hb)
      have hboth := And.intro ((hsome _).2 ha) ((hsome _).2 hb)
      have hshared : sharedRegions a.requirements b.requirements =
          sorted (a.requirements.regions.toFinset ∩ b.requirements.regions.toFinset) :=
        if_pos hboth
      rw [Permits, hshared, sorted_eq_nil, mem_sorted, Finset.mem_inter, List.mem_toFinset,
        List.mem_toFinset] at hregion
      rcases hregion with hnone | ⟨hra, hrb⟩
      · exact absurd hnone (hmeet hboth.1 hboth.2).ne_empty
      · exact ⟨Or.inr hra, Or.inr hrb⟩

theorem meetsDemand_iff {need promise : Option Value} (h : F.Meets need promise) :
    F.MeetsDemand need ((F.agreed need promise).map .hours) ↔ F.Timed need promise := by
  constructor
  · intro hd v p x y hneed hpromise hp hv
    obtain ⟨x', y', hagreed, hv', -, hx, hy⟩ := hd v hneed
    have hx' : F.agreed need promise = some x := by
      rw [hneed, hpromise]
      exact hp
    rw [hx'] at hagreed
    obtain rfl : x = x' := by simpa using hagreed
    obtain rfl := Option.some.inj (hv.symm.trans hv')
    exact ⟨hx, hy⟩
  · intro ht v hneed
    obtain ⟨p, x, y, hpromise, hp, hv, hfast⟩ := h v hneed
    have hx : F.agreed need promise = some x := by
      rw [hneed, hpromise]
      exact hp
    exact ⟨x, y, by rw [hx]; rfl, hv, hfast, ht v p x y hneed hpromise hp hv⟩

theorem provided_of_composable (h : Composable a b) :
    ∀ g, g ∈ a.requirements.goals ∨ g ∈ b.requirements.goals →
      ∃ x ∈ (joint a b).steps, g ∈ x.provides := by
  intro g hg
  obtain ⟨entries, hplan⟩ := plan_of_compose (compose_composable h)
  have hgoal : g ∈ jointGoals a.requirements b.requirements := by
    rw [jointGoals, Finset.mem_union, List.mem_toFinset, List.mem_toFinset]
    exact hg
  obtain ⟨q, hq, hgq⟩ := hplan.goals g hgoal
  have hmem : shown q ∈ (joint a b).steps.map Step.shown := by
    rw [hplan.shows]
    exact List.mem_map_of_mem hq
  obtain ⟨x, hx, heq⟩ := List.mem_map.1 hmem
  refine ⟨x, hx, ?_⟩
  have hprovides : x.provides = q.2.provides.insertionSort (· ≤ ·) :=
    congrArg (fun shows : Side × String × List String => shows.2.2) heq
  rw [hprovides]
  exact (List.mem_insertionSort _).2 hgq

/-- The terms of a match are terms of both parties exactly if both constrain the region or neither
does, and the response times that are compared are numbers. -/
theorem satisfies_iff (h : matchOffers F sha256 a b platform = .ok r)
    (hmatched : r.matched = true) :
    Satisfies F a b platform r ↔
      RegionsAlike a.requirements b.requirements ∧
        F.Timed a.requirements.maxResponseHours b.offer.responseHours ∧
        F.Timed b.requirements.maxResponseHours a.offer.responseHours := by
  obtain ⟨hterms, hcomposable⟩ := of_matchOffers h hmatched
  obtain ⟨o, ho, holds⟩ := matchOffers_holds sha256 hterms hcomposable
  obtain rfl : o = r := Except.ok.inj (ho.symm.trans h)
  obtain ⟨hceiling, hregions, htheirs, hours⟩ := agreed_of_holds holds
  rw [← regions_iff hterms.regions, ← meetsDemand_iff hterms.ourNeed,
    ← meetsDemand_iff hterms.theirNeed]
  constructor
  · intro hs
    obtain ⟨names, hnames, hall⟩ := hs.regions
    obtain rfl : sharedRegions a.requirements b.requirements = names := by
      simpa using hregions.symm.trans hnames
    exact ⟨hall, htheirs ▸ hs.theirSla, hours ▸ hs.ourSla⟩
  · rintro ⟨hall, hsla, hsla'⟩
    obtain ⟨hmem, hle⟩ := seamCeiling_atMost hterms.ourCeiling hterms.theirCeiling
      hterms.platformCeiling
    refine ⟨⟨_, hmem, holds.effective, hceiling, hle⟩, ⟨_, hregions, hall⟩, htheirs ▸ hsla,
      hours ▸ hsla', fun e he => ?_, ⟨_, holds.composition, provided_of_composable hcomposable⟩⟩
    have hrequired : e ∈ evidenceRequired a b := by
      rw [evidenceRequired, Finset.mem_union, List.mem_toFinset, List.mem_toFinset]
      exact he
    have hoffered := hterms.evidence hrequired
    rw [evidenceOffered, Finset.mem_union, List.mem_toFinset, List.mem_toFinset] at hoffered
    exact hoffered

end

/-! ## two matches -/

theorem numbers_not_nan (x : ℚ) : ¬ numbers.NaN x := by
  intro h
  have hbelow : decide (x - 1 < x) = false := (h (x - 1)).1
  exact of_decide_eq_false hbelow (by linarith)

theorem exists_matched (a b : Statement) (platform : String)
    (h : (matchOffers numbers id a b platform).toOption.map (·.matched) = some true) :
    ∃ r, matchOffers numbers id a b platform = .ok r ∧ r.matched = true := by
  cases hr : matchOffers numbers id a b platform with
  | error e =>
    rw [hr] at h
    cases h
  | ok r =>
    rw [hr] at h
    exact ⟨r, rfl, Option.some.inj h⟩

theorem insurer_repairer_satisfied :
    ∃ r, matchOffers numbers id insurer repairer "personal" = .ok r ∧
      Satisfies numbers insurer repairer "personal" r := by
  obtain ⟨r, h, hmatched⟩ := exists_matched insurer repairer "personal" (by decide +kernel)
  have htimed : ∀ need promise, numbers.Timed need promise :=
    fun _ _ _ _ x y _ _ _ _ => ⟨numbers_not_nan x, numbers_not_nan y⟩
  exact ⟨r, h, (satisfies_iff h hmatched).2 ⟨by decide, htimed _ _, htimed _ _⟩⟩

def anywhere : Statement :=
  { repairer with requirements := { repairer.requirements with regions := [] } }

/-- The insurer's regions are no term of the contract with a repairer that names none. -/
theorem regions_dropped :
    ¬ ∀ (a b : Statement) (platform : String) (r : Result ℚ (Contract ℚ)),
      matchOffers numbers id a b platform = .ok r → r.matched = true →
        Satisfies numbers a b platform r := by
  intro h
  obtain ⟨r, hr, hmatched⟩ := exists_matched insurer anywhere "personal" (by decide +kernel)
  obtain ⟨names, hnames, hall⟩ := (h insurer anywhere "personal" r hr hmatched).regions
  have hfree : ((matchOffers numbers id insurer anywhere "personal").toOption.bind
      (·.agreed "regions")).any (fun | .names l => l = [] | _ => false) = true := by
    decide +kernel
  rw [hr] at hfree
  have hempty : names = [] := by
    have hnil : ((r.agreed "regions").any fun | .names l => l = [] | _ => false) = true := hfree
    rw [hnames] at hnil
    simpa using hnil
  have hus := (hall "us" (Or.inl hempty)).1
  exact absurd hus (by decide)

end Negotiate
