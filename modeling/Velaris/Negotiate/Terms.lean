import Velaris.Base.Traverse
import Velaris.Negotiate.Matcher

/-!
# The terms of a match

* `TermsMet`   the terms as a relation of the two statements, the same from both sides;
* `agreedTerms`   the agreed value of every clause before the composition;
* `termClauses_met`, `of_termClauses_ok`   the clauses pass exactly where the terms are met.
-/

namespace Negotiate

open Py

theorem sorted_toFinset (s : Finset String) : (sorted s).toFinset = s := by
  obtain ⟨l, hl⟩ := s
  induction l using Quot.ind with
  | mk l =>
    refine Finset.ext fun x => ?_
    exact List.mem_toFinset.trans (List.mem_insertionSort _)

theorem mem_sorted {s : Finset String} {x : String} : x ∈ sorted s ↔ x ∈ s := by
  rw [← List.mem_toFinset, sorted_toFinset]

theorem sorted_eq_nil {s : Finset String} : sorted s = [] ↔ s = ∅ := by
  rw [← List.toFinset_eq_empty_iff, sorted_toFinset]

section
variable {φ : Type} (F : Floats φ)

def Floats.Meets (need promise : Option Value) : Prop :=
  ∀ v, need = some v → ∃ p x y, promise = some p ∧ F.float p = some x ∧ F.float v = some y ∧
    F.gt x y = false

def RegionsMeet (ours theirs : Requirements) : Prop :=
  ours.regions.toFinset.Nonempty → theirs.regions.toFinset.Nonempty →
    (ours.regions.toFinset ∩ theirs.regions.toFinset).Nonempty

def evidenceRequired (ours theirs : Statement) : Finset String :=
  ours.requirements.evidence.toFinset ∪ theirs.requirements.evidence.toFinset

def evidenceOffered (ours theirs : Statement) : Finset String :=
  ours.offer.evidence.toFinset ∪ theirs.offer.evidence.toFinset

/-- every clause before the composition passes -/
structure TermsMet (ours theirs : Statement) (platform : String) : Prop where
  ourCeiling : ours.requirements.ceiling ∈ CEILINGS
  theirCeiling : theirs.requirements.ceiling ∈ CEILINGS
  platformCeiling : platform ∈ CEILINGS
  regions : RegionsMeet ours.requirements theirs.requirements
  ourNeed : F.Meets ours.requirements.maxResponseHours theirs.offer.responseHours
  theirNeed : F.Meets theirs.requirements.maxResponseHours ours.offer.responseHours
  evidence : evidenceRequired ours theirs ⊆ evidenceOffered ours theirs

variable {F} in
theorem TermsMet.symm {a b : Statement} {platform : String} (h : TermsMet F a b platform) :
    TermsMet F b a platform where
  ourCeiling := h.theirCeiling
  theirCeiling := h.ourCeiling
  platformCeiling := h.platformCeiling
  regions := fun hb ha => by
    rw [Finset.inter_comm]
    exact h.regions ha hb
  ourNeed := h.theirNeed
  theirNeed := h.ourNeed
  evidence := by
    have hreq : evidenceRequired b a = evidenceRequired a b := Finset.union_comm _ _
    have hoff : evidenceOffered b a = evidenceOffered a b := Finset.union_comm _ _
    rw [hreq, hoff]
    exact h.evidence

/-- the response time two statements agree on, `None` where none is needed -/
def Floats.agreed (need promise : Option Value) : Option φ :=
  need.bind fun _ => promise.bind F.float

def sharedRegions (ours theirs : Requirements) : List String :=
  if ours.regions.toFinset.Nonempty ∧ theirs.regions.toFinset.Nonempty then
    sorted (ours.regions.toFinset ∩ theirs.regions.toFinset)
  else []

def ceilingRank (ceiling : String) (h : ceiling ∈ CEILINGS) : Fin CEILINGS.length :=
  ⟨CEILINGS.idxOf ceiling, idxOf_lt h⟩

/-- the negotiated ceiling, no wider than the platform's -/
def capped (platform : String) (h : platform ∈ CEILINGS) (negotiated : Fin CEILINGS.length) :
    String :=
  CEILINGS.get (min (ceilingRank (CEILINGS.get negotiated) (List.get_mem _ _))
    (ceilingRank platform h))

def seamCeiling (ours theirs platform : String) : String :=
  if h : ours ∈ CEILINGS ∧ theirs ∈ CEILINGS ∧ platform ∈ CEILINGS then
    capped platform h.2.2 (min (ceilingRank ours h.1) (ceilingRank theirs h.2.1))
  else ""

theorem seamCeiling_comm (ours theirs platform : String) :
    seamCeiling ours theirs platform = seamCeiling theirs ours platform := by
  by_cases h : ours ∈ CEILINGS ∧ theirs ∈ CEILINGS ∧ platform ∈ CEILINGS
  · rw [seamCeiling, dif_pos h, seamCeiling, dif_pos ⟨h.2.1, h.1, h.2.2⟩, min_comm]
  · rw [seamCeiling, dif_neg h, seamCeiling, dif_neg fun h' => h ⟨h'.2.1, h'.1, h'.2.2⟩]

def agreedTerms (ours theirs : Statement) (platform : String) : List (String × Option (Agreed φ)) :=
  [("data_class_ceiling", some (.ceiling
      (seamCeiling ours.requirements.ceiling theirs.requirements.ceiling platform))),
    ("regions", some (.names (sharedRegions ours.requirements theirs.requirements))),
    ("their_sla", (F.agreed ours.requirements.maxResponseHours
      theirs.offer.responseHours).map .hours),
    ("our_sla", (F.agreed theirs.requirements.maxResponseHours
      ours.offer.responseHours).map .hours),
    ("evidence", some (.names (sorted (evidenceRequired ours theirs))))]

/-! ## the clauses pass exactly where the terms are met -/

theorem rank_ok {c : String} (h : c ∈ CEILINGS) :
    rank (φ := φ) c = .ok (ceilingRank c h) := dif_pos h

theorem of_rank_ok {c : String} {i : Fin CEILINGS.length} (h : rank (φ := φ) c = .ok i) :
    c ∈ CEILINGS := by
  by_contra hc
  rw [rank, dif_neg hc] at h
  cases h

theorem ceilingClause_met {a b : Requirements} {platform : String} (ha : a.ceiling ∈ CEILINGS)
    (hb : b.ceiling ∈ CEILINGS) (hp : platform ∈ CEILINGS) :
    ∃ c : Clause φ, ceilingClause a b platform =
        .ok (seamCeiling a.ceiling b.ceiling platform, [c]) ∧
      (c.clause, c.agreed) =
        ("data_class_ceiling", some (.ceiling (seamCeiling a.ceiling b.ceiling platform))) := by
  have hseam : seamCeiling a.ceiling b.ceiling platform =
      capped platform hp (min (ceilingRank a.ceiling ha) (ceilingRank b.ceiling hb)) :=
    dif_pos ⟨ha, hb, hp⟩
  let negotiated := CEILINGS.get (min (ceilingRank a.ceiling ha) (ceilingRank b.ceiling hb))
  have hn : negotiated ∈ CEILINGS := List.get_mem _ _
  refine ⟨⟨"data_class_ceiling", true, .ceiling b.ceiling a.ceiling negotiated platform
    (seamCeiling a.ceiling b.ceiling platform),
    some (.ceiling (seamCeiling a.ceiling b.ceiling platform))⟩, ?_, rfl⟩
  rw [ceilingClause, rank_ok ha, rank_ok hb, rank_ok hp, hseam]
  show (rank negotiated >>= _) = _
  rw [rank_ok hn]
  rfl

theorem of_ceilingClause_ok {a b : Requirements} {platform : String}
    {r : String × List (Clause φ)} (h : ceilingClause a b platform = .ok r) :
    a.ceiling ∈ CEILINGS ∧ b.ceiling ∈ CEILINGS ∧ platform ∈ CEILINGS := by
  obtain ⟨i, hi, h⟩ := Base.exists_of_bind_ok h
  obtain ⟨j, hj, h⟩ := Base.exists_of_bind_ok h
  obtain ⟨k, hk, h⟩ := Base.exists_of_bind_ok h
  obtain ⟨l, hl, h⟩ := Base.exists_of_bind_ok h
  exact ⟨of_rank_ok hi, of_rank_ok hj, of_rank_ok hl⟩

theorem regionsClause_met {a b : Requirements} (h : RegionsMeet a b) :
    ∃ c : Clause φ, (∀ cs, regionsClause a b cs = .ok (cs ++ [c])) ∧
      (c.clause, c.agreed) = ("regions", some (.names (sharedRegions a b))) := by
  by_cases hboth : a.regions.toFinset.Nonempty ∧ b.regions.toFinset.Nonempty
  · have hshared : sorted (a.regions.toFinset ∩ b.regions.toFinset) ≠ [] := by
      rw [ne_eq, sorted_eq_nil]
      exact (h hboth.1 hboth.2).ne_empty
    rw [sharedRegions, if_pos hboth]
    refine ⟨⟨"regions", true, .regionsShared (sorted (a.regions.toFinset ∩ b.regions.toFinset)),
      some (.names (sorted (a.regions.toFinset ∩ b.regions.toFinset)))⟩, fun cs => ?_, rfl⟩
    rw [regionsClause]
    simp only [if_pos hboth, if_neg hshared]
  · rw [sharedRegions, if_neg hboth]
    exact ⟨⟨"regions", true, .regionsFree, some (.names [])⟩, fun cs => if_neg hboth, rfl⟩

theorem of_regionsClause_ok {a b : Requirements} {cs cs' : List (Clause φ)}
    (h : regionsClause a b cs = .ok cs') : RegionsMeet a b := by
  intro ha hb
  by_contra hnone
  have hshared : sorted (a.regions.toFinset ∩ b.regions.toFinset) = [] :=
    sorted_eq_nil.2 (Finset.not_nonempty_iff_eq_empty.1 hnone)
  rw [regionsClause] at h
  simp only [if_pos (And.intro ha hb), if_pos hshared] at h
  cases h

theorem slaClause_met {need promise : Option Value} (h : F.Meets need promise) (label : String) :
    ∃ c : Clause φ, (∀ cs, slaClause F label need promise cs = .ok (cs ++ [c])) ∧
      (c.clause, c.agreed) = (label, (F.agreed need promise).map .hours) := by
  cases need with
  | none => exact ⟨⟨label, true, .noneRequired, none⟩, fun _ => rfl, rfl⟩
  | some v =>
    obtain ⟨p, x, y, rfl, hp, hv, hfast⟩ := h v rfl
    have hagreed : F.agreed (some v) (some p) = some x := hp
    rw [hagreed]
    refine ⟨⟨label, true, .within p v, some (.hours x)⟩, fun cs => ?_, rfl⟩
    have hnot : ¬ F.gt x y = true := by
      rw [hfast]
      exact Bool.false_ne_true
    simp only [slaClause, Floats.read, hp, hv]
    exact if_neg hnot

variable {F} in
theorem of_read_ok {v : Value} {x : φ} (h : F.read v = .ok x) : F.float v = some x := by
  rw [Floats.read] at h
  cases hv : F.float v with
  | none =>
    rw [hv] at h
    cases h
  | some y =>
    rw [hv] at h
    cases h
    rfl

variable {F} in
theorem of_slaClause_ok {label : String} {need promise : Option Value} {cs cs' : List (Clause φ)}
    (h : slaClause F label need promise cs = .ok cs') : F.Meets need promise := by
  rintro v rfl
  cases promise with
  | none => cases h
  | some p =>
    obtain ⟨x, hx, h⟩ := Base.exists_of_bind_ok h
    obtain ⟨y, hy, h⟩ := Base.exists_of_bind_ok h
    refine ⟨p, x, y, rfl, of_read_ok hx, of_read_ok hy, ?_⟩
    by_contra hslow
    rw [if_pos (Bool.eq_true_of_not_eq_false hslow)] at h
    cases h

theorem evidenceClause_met {a b : Statement} (h : evidenceRequired a b ⊆ evidenceOffered a b) :
    ∃ c : Clause φ, (∀ cs, evidenceClause a b cs = .ok (cs ++ [c])) ∧
      (c.clause, c.agreed) = ("evidence", some (.names (sorted (evidenceRequired a b)))) := by
  have hmissing : sorted (evidenceRequired a b \ evidenceOffered a b) = [] :=
    sorted_eq_nil.2 (Finset.sdiff_eq_empty_iff_subset.2 h)
  refine ⟨⟨"evidence", true, .obligations (sorted (evidenceRequired a b)),
    some (.names (sorted (evidenceRequired a b)))⟩, fun cs => ?_, rfl⟩
  exact if_neg fun hne => hne hmissing

theorem of_evidenceClause_ok {a b : Statement} {cs cs' : List (Clause φ)}
    (h : evidenceClause a b cs = .ok cs') : evidenceRequired a b ⊆ evidenceOffered a b := by
  by_contra hsub
  have hmissing : sorted (evidenceRequired a b \ evidenceOffered a b) ≠ [] := by
    rw [ne_eq, sorted_eq_nil, Finset.sdiff_eq_empty_iff_subset]
    exact hsub
  have hstop : evidenceClause a b cs =
      unmatched cs "evidence" (.notOffered (sorted (evidenceRequired a b \ evidenceOffered a b))) :=
    if_pos hmissing
  rw [hstop] at h
  cases h

theorem termClauses_met {a b : Statement} {platform : String} (h : TermsMet F a b platform) :
    ∃ cs, termClauses F a b platform =
        .ok (seamCeiling a.requirements.ceiling b.requirements.ceiling platform, cs) ∧
      cs.map (fun c => (c.clause, c.agreed)) = agreedTerms F a b platform := by
  obtain ⟨c1, h1, e1⟩ := ceilingClause_met (φ := φ) h.ourCeiling h.theirCeiling h.platformCeiling
  obtain ⟨c2, h2, e2⟩ := regionsClause_met (φ := φ) h.regions
  obtain ⟨c3, h3, e3⟩ := slaClause_met F h.ourNeed "their_sla"
  obtain ⟨c4, h4, e4⟩ := slaClause_met F h.theirNeed "our_sla"
  obtain ⟨c5, h5, e5⟩ := evidenceClause_met (φ := φ) h.evidence
  refine ⟨[c1, c2, c3, c4, c5], ?_, ?_⟩
  · rw [termClauses, h1]
    show (regionsClause _ _ _ >>= _) = _
    rw [h2]
    show (slaClause _ _ _ _ _ >>= _) = _
    rw [h3]
    show (slaClause _ _ _ _ _ >>= _) = _
    rw [h4]
    show (evidenceClause _ _ _ >>= _) = _
    rw [h5]
    rfl
  · show [(c1.clause, c1.agreed), (c2.clause, c2.agreed), (c3.clause, c3.agreed),
      (c4.clause, c4.agreed), (c5.clause, c5.agreed)] = _
    rw [e1, e2, e3, e4, e5]
    rfl

theorem of_termClauses_ok {a b : Statement} {platform : String} {r : String × List (Clause φ)}
    (h : termClauses F a b platform = .ok r) : TermsMet F a b platform := by
  obtain ⟨⟨e, c1⟩, h1, h⟩ := Base.exists_of_bind_ok h
  obtain ⟨c2, h2, h⟩ := Base.exists_of_bind_ok h
  obtain ⟨c3, h3, h⟩ := Base.exists_of_bind_ok h
  obtain ⟨c4, h4, h⟩ := Base.exists_of_bind_ok h
  obtain ⟨c5, h5, -⟩ := Base.exists_of_bind_ok h
  obtain ⟨ha, hb, hp⟩ := of_ceilingClause_ok h1
  exact ⟨ha, hb, hp, of_regionsClause_ok h2, of_slaClause_ok h3, of_slaClause_ok h4,
    of_evidenceClause_ok h5⟩

end

end Negotiate
