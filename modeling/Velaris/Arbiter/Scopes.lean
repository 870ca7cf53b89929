import Velaris.Arbiter.Evaluator

/-!
# HxArbiter: what a further policy can do to a decision

A policy set is one list: the platform's policies and the tenant's, live ones and shadow ones.  Here
a decision is compared with the decision of a longer or a reordered list.

* `evaluate_congr`   the answer depends only on which rules match, not on their order;
* `shadow_insert_iff`   when a policy that may not bind leaves the binding answer alone;
* `tenant_only_tightens`   what any tenant policies can do to the platform's answer.
-/

namespace HxArbiter
open Py

namespace Evaluator

/-! ## matching rules of a policy set -/

section
variable (ev : Evaluator) (attrs : Attrs) (P : List CompiledPolicy)

def SomeMatch (f : CompiledPolicy → CompiledRule → Prop) : Prop :=
  ∃ p ∈ P, ∃ r ∈ p.rules, ev.matchesCond attrs r.condition = true ∧ f p r

def HasMatch : Prop := ev.SomeMatch attrs P fun _ _ => True

def DenyMatches : Prop := ev.SomeMatch attrs P fun _ r => r.effect = .deny

def BindingMatch (ceiling : PolicyMode) : Prop :=
  ev.SomeMatch attrs P fun p _ => clamp p.mode ceiling = .enforce

def AllowKeys : Set ObligationKey :=
  {k | ev.SomeMatch attrs P fun _ r => r.effect = .allow ∧ k ∈ r.obligations.map Obligation.key}

end

variable {ev : Evaluator} {attrs : Attrs} {ceiling : PolicyMode} {P Q : List CompiledPolicy}

theorem exists_hits {F : Hit → Prop} :
    (∃ h ∈ ev.hits P attrs ceiling, F h) ↔ ev.SomeMatch attrs P fun p r =>
      F ⟨clamp p.mode ceiling, matchedRule p r, r.obligations⟩ := by
  simp only [mem_hits]
  constructor
  · intro hx
    obtain ⟨h, ⟨p, hp, r, hr, hm, rfl⟩, hF⟩ := hx
    exact ⟨p, hp, r, hr, hm, hF⟩
  · intro hx
    obtain ⟨p, hp, r, hr, hm, hF⟩ := hx
    exact ⟨_, ⟨p, hp, r, hr, hm, rfl⟩, hF⟩

theorem votes_nonempty_iff : (ev.votes P attrs ceiling).Nonempty ↔ ev.HasMatch attrs P := by
  rw [votes_nonempty, HasMatch, ← @exists_hits ev attrs ceiling P fun _ => True]
  constructor
  · intro h
    obtain ⟨x, hx⟩ := List.exists_mem_of_ne_nil _ h
    exact ⟨x, hx, trivial⟩
  · intro hy
    obtain ⟨x, hx, -⟩ := hy
    exact List.ne_nil_of_mem hx

theorem forbids_iff : Combining.Forbids (ev.votes P attrs ceiling) ↔ ev.DenyMatches attrs P := by
  rw [forbids_votes, exists_hits]
  rfl

theorem binds_iff :
    Combining.Binds (ev.votes P attrs ceiling) ↔ ev.BindingMatch attrs P ceiling := by
  rw [binds_votes, exists_hits]
  rfl

theorem duties_eq : Combining.duties (ev.votes P attrs ceiling) = ev.AllowKeys attrs P := by
  ext k
  rw [mem_duties_votes, exists_hits]
  have he : ∀ r : CompiledRule, ¬ r.effect = .deny ↔ r.effect = .allow := by
    intro r
    cases r.effect <;> decide
  simp only [Hit.denies, matchedRule, he]
  rfl

theorem votes_append :
    ev.votes (P ++ Q) attrs ceiling = ev.votes P attrs ceiling ∪ ev.votes Q attrs ceiling := by
  ext v
  simp only [votes, hits_append, List.mem_append, Set.mem_ofPred_eq, Set.mem_union]
  constructor
  · intro hx
    obtain ⟨h, hh | hh, hv⟩ := hx
    · exact Or.inl ⟨h, hh, hv⟩
    · exact Or.inr ⟨h, hh, hv⟩
  · intro hx
    rcases hx with ⟨h, hh, hv⟩ | ⟨h, hh, hv⟩
    · exact ⟨h, Or.inl hh, hv⟩
    · exact ⟨h, Or.inr hh, hv⟩

theorem votes_congr (h : ∀ x, x ∈ ev.hits P attrs ceiling ↔ x ∈ ev.hits Q attrs ceiling) :
    ev.votes P attrs ceiling = ev.votes Q attrs ceiling := by
  ext v
  simp only [votes, h]

theorem hits_perm (h : P.Perm Q) (x : Hit) :
    x ∈ ev.hits P attrs ceiling ↔ x ∈ ev.hits Q attrs ceiling := by
  simp only [mem_hits, h.mem_iff]

end Evaluator

/-! ## comparing decisions -/

namespace Decision

def keys (d : Decision) : Set ObligationKey := {k | k ∈ d.obligations.map Obligation.key}

/-- enforced alike and, where enforced, of one effect with one set of obligations -/
def SameBinding (d e : Decision) : Prop :=
  d.enforced = e.enforced ∧ (d.enforced = true → d.effect = e.effect ∧ d.keys = e.keys)

/-- `e` is at least as strict as `d` -/
structure Tightens (d e : Decision) : Prop where
  deny : d.effect = .deny → e.effect = .deny
  allow : d.effect = .allow → e.effect = .deny ∨ (e.effect = .allow ∧ d.keys ⊆ e.keys)
  enforced : d.enforced = true → e.enforced = true

/-- the same effect, bindingness, set of matched rules and set of obligations -/
structure SameAnswer (d e : Decision) : Prop where
  effect : d.effect = e.effect
  enforced : d.enforced = e.enforced
  matched : ∀ m, m ∈ d.matched ↔ m ∈ e.matched
  keys : d.keys = e.keys

theorem eq_of_allow_iff {a b : Effect} (h : a = .allow ↔ b = .allow) : a = b := by
  cases a <;> cases b <;> simp_all

theorem sameBinding_iff (d e : Decision) :
    SameBinding d e ↔ Combining.SameAct d.ruling e.ruling := by
  constructor
  · intro hx
    obtain ⟨hb, h⟩ := hx
    refine ⟨by simp only [ruling, hb], fun hd => ?_⟩
    obtain ⟨he, hk⟩ := h hd
    exact ⟨by simp only [ruling, he], hk⟩
  · intro hx
    obtain ⟨hb, h⟩ := hx
    refine ⟨Bool.eq_iff_iff.mpr hb, fun hd => ?_⟩
    obtain ⟨he, hk⟩ := h hd
    exact ⟨eq_of_allow_iff he, hk⟩

theorem effect_eq_deny_iff (d : Decision) : d.effect = .deny ↔ ¬ d.ruling.permits := by
  show d.effect = .deny ↔ ¬ d.effect = .allow
  cases d.effect <;> decide

end Decision

namespace Evaluator
open Decision

variable {ev : Evaluator} {attrs : Attrs} {ceiling : PolicyMode} {P Q : List CompiledPolicy}

/-! ## the effect -/

theorem effect_eq_allow_iff (dflt : Effect) :
    (ev.evaluate P attrs dflt ceiling).effect = .allow ↔
      ¬ ev.DenyMatches attrs P ∧ (ev.HasMatch attrs P ∨ dflt = .allow) := by
  show (ev.evaluate P attrs dflt ceiling).ruling.permits ↔ _
  rw [evaluate_ruling]
  by_cases hP : ev.HasMatch attrs P
  · rw [Combining.ruling_permits (votes_nonempty_iff.mpr hP), forbids_iff]
    simp only [hP, true_or, and_true]
  · have hV : ev.votes P attrs ceiling = ∅ :=
      Set.not_nonempty_iff_eq_empty.mp (votes_nonempty_iff.not.mpr hP)
    have hd : ¬ ev.DenyMatches attrs P := by
      intro h
      obtain ⟨p, hp, r, hr, hm, -⟩ := h
      exact hP ⟨p, hp, r, hr, hm, trivial⟩
    rw [hV, Combining.ruling_empty]
    simp only [hP, hd, silent, not_false_eq_true, true_and, false_or]

/-! ## order -/

theorem mem_evaluate_matched (dflt : Effect) (m : MatchedRule) :
    m ∈ (ev.evaluate P attrs dflt ceiling).matched ↔
      ∃ h ∈ ev.hits P attrs ceiling,
        (h.denies ↔ ∃ h' ∈ ev.hits P attrs ceiling, h'.denies) ∧ h.rule = m := by
  rcases hits_cases (ev.hits P attrs ceiling) with hd | ⟨ha, hd⟩ | hnil
  · rw [evaluate_of_deny P dflt hd]
    simp only [hd, iff_true, List.mem_map, List.mem_filter, decide_eq_true_eq, and_assoc]
  · rw [evaluate_of_allow P dflt ha hd]
    simp only [hd, iff_false, List.mem_map, List.mem_filter, decide_eq_true_eq, and_assoc]
  · rw [evaluate_of_silent P dflt hnil]
    simp [hnil]

/-- **The answer is a function of the set of matching rules.** -/
theorem evaluate_congr (dflt : Effect)
    (h : ∀ x, x ∈ ev.hits P attrs ceiling ↔ x ∈ ev.hits Q attrs ceiling) :
    SameAnswer (ev.evaluate P attrs dflt ceiling) (ev.evaluate Q attrs dflt ceiling) := by
  have hr : (ev.evaluate P attrs dflt ceiling).ruling =
      (ev.evaluate Q attrs dflt ceiling).ruling := by
    rw [evaluate_ruling, evaluate_ruling, votes_congr h]
  refine ⟨?_, ?_, ?_, ?_⟩
  · exact eq_of_allow_iff (iff_of_eq (congrArg Combining.Ruling.permits hr))
  · exact Bool.eq_iff_iff.mpr (iff_of_eq (congrArg Combining.Ruling.binds hr))
  · intro m
    rw [mem_evaluate_matched, mem_evaluate_matched]
    simp only [h]
  · exact congrArg Combining.Ruling.duties hr

/-- the same policies in another order, each with its rules in another order -/
def Reordered (P Q : List CompiledPolicy) : Prop :=
  ∃ P', P.Perm P' ∧
    List.Forall₂ (fun p q => p.rules.Perm q.rules ∧ q = { p with rules := q.rules }) P' Q

theorem hits_singleton_perm {p q : CompiledPolicy} (hr : p.rules.Perm q.rules)
    (hq : q = { p with rules := q.rules }) (x : Hit) :
    x ∈ ev.hits [p] attrs ceiling ↔ x ∈ ev.hits [q] attrs ceiling := by
  have hm : ∀ r, matchedRule q r = matchedRule p r := fun r => by rw [hq]; rfl
  have hmode : q.mode = p.mode := by rw [hq]
  simp only [mem_hits, List.mem_singleton, exists_eq_left, hr.mem_iff, hm, hmode]

theorem hits_reordered (h : Reordered P Q) (x : Hit) :
    x ∈ ev.hits P attrs ceiling ↔ x ∈ ev.hits Q attrs ceiling := by
  obtain ⟨P', hp, hf⟩ := h
  rw [hits_perm hp]
  clear hp
  induction hf with
  | nil => exact Iff.rfl
  | cons h _ ih =>
    rw [← List.singleton_append, hits_append, List.mem_append, hits_singleton_perm h.1 h.2, ih,
      ← List.mem_append, ← hits_append, List.singleton_append]

/-! ## a policy that may not bind -/

/-- the situations in which a policy that may not bind leaves the binding answer alone: it matches
nothing; or it is alone to speak where the default does not bind; or among the rules that match
without it none binds, or one denies, or it neither denies nor brings an obligation of its own -/
def InertBeside (ev : Evaluator) (attrs : Attrs) (ceiling : PolicyMode) (P : List CompiledPolicy)
    (q : CompiledPolicy) : Prop :=
  ¬ ev.HasMatch attrs [q] ∨
  (¬ ev.HasMatch attrs P ∧ ceiling ≠ .enforce) ∨
  (ev.HasMatch attrs P ∧
    (¬ ev.BindingMatch attrs P ceiling ∨ ev.DenyMatches attrs P ∨
      (¬ ev.DenyMatches attrs [q] ∧ ev.AllowKeys attrs [q] ⊆ ev.AllowKeys attrs P)))

theorem votes_advisers {q : CompiledPolicy} (hq : clamp q.mode ceiling ≠ .enforce) :
    ∀ w ∈ ev.votes [q] attrs ceiling, ¬ w.binds := by
  intro w hx hb
  obtain ⟨h, hh, rfl⟩ := hx
  obtain ⟨p, hp, r, -, -, rfl⟩ := mem_hits.mp hh
  rw [List.mem_singleton] at hp
  exact hq (hp ▸ hb)

theorem evaluate_insert_ruling (P₁ P₂ : List CompiledPolicy) (q : CompiledPolicy) (dflt : Effect) :
    (ev.evaluate (P₁ ++ q :: P₂) attrs dflt ceiling).ruling =
      Combining.ruling (silent dflt ceiling)
        (ev.votes (P₁ ++ P₂) attrs ceiling ∪ ev.votes [q] attrs ceiling) := by
  rw [evaluate_ruling, ← votes_append]
  congr 1
  refine votes_congr (hits_perm ?_)
  rw [List.append_assoc]
  exact List.Perm.append_left P₁ (List.perm_append_singleton q P₂).symm

/-- **When a shadow policy changes nothing.**  Inserting a policy whose clamped mode is weaker than
`enforce` leaves what an enforcement point acts on unchanged exactly in the situations of
`InertBeside`. -/
theorem shadow_insert_iff (ev : Evaluator) (attrs : Attrs) (dflt : Effect) (ceiling : PolicyMode)
    (P₁ P₂ : List CompiledPolicy) (q : CompiledPolicy)
    (hq : (clamp q.mode ceiling).rank < PolicyMode.enforce.rank) :
    SameBinding (ev.evaluate (P₁ ++ P₂) attrs dflt ceiling)
        (ev.evaluate (P₁ ++ q :: P₂) attrs dflt ceiling) ↔
      InertBeside ev attrs ceiling (P₁ ++ P₂) q := by
  have hW := @votes_advisers ev attrs ceiling q ((rank_lt_enforce_iff _).mp hq)
  rw [sameBinding_iff, evaluate_insert_ruling, evaluate_ruling, InertBeside]
  by_cases hqm : ev.HasMatch attrs [q]
  · by_cases hPm : ev.HasMatch attrs (P₁ ++ P₂)
    · rw [Combining.sameAct_union_iff hW (votes_nonempty_iff.mpr hPm), binds_iff, forbids_iff,
        forbids_iff, duties_eq, duties_eq]
      simp only [hqm, hPm, not_true_eq_false, false_and, false_or, true_and]
    · have hV : ev.votes (P₁ ++ P₂) attrs ceiling = ∅ :=
        Set.not_nonempty_iff_eq_empty.mp (votes_nonempty_iff.not.mpr hPm)
      rw [hV, Set.empty_union, Combining.ruling_empty,
        Combining.sameAct_advisers_alone hW (votes_nonempty_iff.mpr hqm)]
      simp only [hqm, hPm, not_true_eq_false, not_false_eq_true, false_and, false_or, or_false,
        true_and]
      rfl
  · have hV : ev.votes [q] attrs ceiling = ∅ :=
      Set.not_nonempty_iff_eq_empty.mp (votes_nonempty_iff.not.mpr hqm)
    rw [hV, Set.union_empty]
    exact iff_of_true (Combining.SameAct.refl _) (Or.inl hqm)

/-- a policy of one rule that matches every request -/
def blanket (policyId : Uuid) (mode : PolicyMode) (effect : Effect) : CompiledPolicy where
  policyId := policyId
  version := 1
  mode := mode
  rules := [{ ruleId := "r", effect := effect, condition := .allOf [] }]

/-- a shadow deny beside an enforced allow: the deny becomes binding -/
theorem shadow_deny_binds :
    ¬ ∀ (ev : Evaluator) (attrs : Attrs) (dflt : Effect) (ceiling : PolicyMode)
        (P₁ P₂ : List CompiledPolicy) (q : CompiledPolicy),
        (clamp q.mode ceiling).rank < PolicyMode.enforce.rank →
        SameBinding (ev.evaluate (P₁ ++ P₂) attrs dflt ceiling)
          (ev.evaluate (P₁ ++ q :: P₂) attrs dflt ceiling) := by
  intro h
  have h1 := h ⟨id⟩ (fun _ => none) .deny .enforce [blanket 1 .enforce .allow] []
    (blanket 2 .shadow .deny) (by decide)
  have h2 := (h1.2 (by decide)).1
  exact absurd h2 (by decide)

/-- a shadow allow that brings nothing, beside an enforced allow -/
theorem shadow_allow_inert :
    SameBinding
      (Evaluator.evaluate ⟨id⟩ [blanket 1 .enforce .allow] (fun _ => none) .deny .enforce)
      (Evaluator.evaluate ⟨id⟩ [blanket 1 .enforce .allow, blanket 2 .shadow .allow]
        (fun _ => none) .deny .enforce) := by
  refine (shadow_insert_iff ⟨id⟩ (fun _ => none) .deny .enforce [blanket 1 .enforce .allow] []
    (blanket 2 .shadow .allow) (by decide)).mpr (Or.inr (Or.inr ⟨?_, Or.inr (Or.inr ⟨?_, ?_⟩)⟩))
  · exact ⟨_, List.mem_singleton_self _, _, List.mem_singleton_self _, rfl, trivial⟩
  · intro h
    obtain ⟨p, hp, r, hr, -, he⟩ := h
    obtain rfl := List.mem_singleton.mp hp
    obtain rfl := List.mem_singleton.mp hr
    exact absurd he (by decide)
  · intro k h
    obtain ⟨p, hp, r, hr, -, -, hk⟩ := h
    obtain rfl := List.mem_singleton.mp hp
    obtain rfl := List.mem_singleton.mp hr
    exact absurd hk (by simp)

/-! ## platform and tenant -/

theorem tightens_of_votes_subset (dflt : Effect) (hP : ev.HasMatch attrs P)
    (h : ev.votes P attrs ceiling ⊆ ev.votes Q attrs ceiling) :
    Tightens (ev.evaluate P attrs dflt ceiling) (ev.evaluate Q attrs dflt ceiling) := by
  have hV : (ev.votes P attrs ceiling).Nonempty := votes_nonempty_iff.mpr hP
  have hp : (ev.evaluate Q attrs dflt ceiling).ruling.permits →
      (ev.evaluate P attrs dflt ceiling).ruling.permits := by
    rw [evaluate_ruling, evaluate_ruling]
    exact Combining.permits_anti hV h
  have hk : (ev.evaluate Q attrs dflt ceiling).ruling.permits →
      (ev.evaluate P attrs dflt ceiling).ruling.duties ⊆
        (ev.evaluate Q attrs dflt ceiling).ruling.duties := by
    rw [evaluate_ruling, evaluate_ruling]
    exact Combining.duties_mono hV h
  have hb : (ev.evaluate P attrs dflt ceiling).ruling.binds →
      (ev.evaluate Q attrs dflt ceiling).ruling.binds := by
    rw [evaluate_ruling, evaluate_ruling]
    exact Combining.binds_mono hV h
  refine ⟨fun hd => ?_, fun _ => ?_, hb⟩
  · rw [effect_eq_deny_iff] at hd ⊢
    exact fun hq => hd (hp hq)
  · by_cases hq : (ev.evaluate Q attrs dflt ceiling).ruling.permits
    · exact Or.inr ⟨hq, hk hq⟩
    · exact Or.inl ((effect_eq_deny_iff _).mpr hq)

/-- **A tenant can only tighten the platform's answer.**  `C` is any interleaving of the platform's
policies `P` and the tenant's `T`, of which some platform rule matches; and the answer to any policy
set is the answer to it in any other order of its policies and rules. -/
theorem tenant_only_tightens (ev : Evaluator) (attrs : Attrs) (dflt : Effect)
    (ceiling : PolicyMode) :
    (∀ P T C : List CompiledPolicy, C.Perm (P ++ T) → ev.HasMatch attrs P →
      Tightens (ev.evaluate P attrs dflt ceiling) (ev.evaluate C attrs dflt ceiling)) ∧
    (∀ C C' : List CompiledPolicy, Reordered C C' →
      SameAnswer (ev.evaluate C attrs dflt ceiling) (ev.evaluate C' attrs dflt ceiling)) := by
  constructor
  · intro P T C hC hP
    refine tightens_of_votes_subset dflt hP ?_
    rw [votes_congr (hits_perm hC), votes_append]
    exact Set.subset_union_left
  · intro C C' h
    exact evaluate_congr dflt (hits_reordered h)

/-- a tenant's deny listed before the platform's allow -/
theorem tenant_deny_tightens :
    Tightens
      (Evaluator.evaluate ⟨id⟩ [blanket 1 .enforce .allow] (fun _ => none) .deny .enforce)
      (Evaluator.evaluate ⟨id⟩ [blanket 2 .enforce .deny, blanket 1 .enforce .allow]
        (fun _ => none) .deny .enforce) ∧
    SameAnswer
      (Evaluator.evaluate ⟨id⟩ [blanket 2 .enforce .deny, blanket 1 .enforce .allow]
        (fun _ => none) .deny .enforce)
      (Evaluator.evaluate ⟨id⟩ [blanket 1 .enforce .allow, blanket 2 .enforce .deny]
        (fun _ => none) .deny .enforce) := by
  obtain ⟨ht, ho⟩ := tenant_only_tightens ⟨id⟩ (fun _ => none) .deny .enforce
  constructor
  · refine ht [blanket 1 .enforce .allow] [blanket 2 .enforce .deny] _ (List.Perm.swap _ _ _) ?_
    exact ⟨_, List.mem_singleton_self _, _, List.mem_singleton_self _, rfl, trivial⟩
  · exact ho _ _ ⟨_, List.Perm.swap _ _ _, .cons ⟨.refl _, rfl⟩ (.cons ⟨.refl _, rfl⟩ .nil)⟩

end Evaluator
end HxArbiter
