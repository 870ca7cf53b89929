import Velaris.Arbiter.Pdp

/-!
# HxArbiter: the enforcement point

`case_service/hxarbiter/pep.py`: `discharge`, `check_with_obligations` and `check`, on top of
`decide`.  A backend that fails (`Degraded`) is compared with the backend that does not.

* `check_of_decision`   what `check` makes of a decision;
* `check_of_not_loaded`   before the evaluation every failure hands the legacy answer through;
* `check_eq_true_iff`   after it, what lets a request through;
* `check_failsClosed_iff`   when a failing engine fails closed.
-/

namespace HxArbiter
namespace Pep
open Py Pdp

/-! ## obligations -/

structure DischargeContext where
  action : String
  subjectId : String
  resourceId : Option String
  decisionId : Option Uuid

/-- a handler returns, raises `ObligationFailed`, or raises something else -/
inductive HandlerOutcome where
  | done
  | failed (message : String)
  | raised (message : String)

abbrev Handlers := ObligationKind → Option (Obligation → DischargeContext → HandlerOutcome)

def notImplemented (kind : ObligationKind) : String :=
  "policy attached the obligation " ++ kind.repr ++ " and nothing in this deployment implements " ++
    "it, so the allow it qualifies cannot be honoured"

def notDischarged (kind : ObligationKind) (message : String) : String :=
  "the obligation " ++ kind.repr ++ " could not be discharged: " ++ message

/-- every obligation is carried out, or the first `ObligationFailed` is raised -/
def discharge (handlers : Handlers) (context : DischargeContext) :
    List Obligation → Except String Unit
  | [] => .ok ()
  | ob :: rest =>
    match handlers ob.kind with
    | none => .error (notImplemented ob.kind)
    | some handler =>
      match handler ob context with
      | .done => discharge handlers context rest
      | .failed message => .error message
      | .raised message => .error (notDischarged ob.kind message)

/-! ## `check` -/

structure CallArgs where
  tenantId : String
  action : String
  subjectId : String
  subjectKind : SubjectKind := .service
  subjectAttrs : List (String × Value) := []
  resourceKind : String := "platform"
  resourceId : Option String := none
  resourceAttrs : List (String × Value) := []
  context : List (String × Value) := []

def CallArgs.request (args : CallArgs) : DecisionRequest where
  tenantId := args.tenantId
  subject :=
    { kind := args.subjectKind
      id := String.ofList (args.subjectId.toList.take 255)
      attrs := args.subjectAttrs }
  action := args.action
  resource := { kind := args.resourceKind, id := args.resourceId, attrs := args.resourceAttrs }
  context := args.context

/-- `evaluate`: a request that breaks a length limit raises -/
def evaluate (ev : Evaluator) (b : Backend) (args : CallArgs) : Awaited Decision :=
  if args.request.valid then .value (decide ev b args.request) else .raised

def centrally (callerHandles : List String) (obligations : List Obligation) : List Obligation :=
  obligations.filter (·.kind.value ∉ callerHandles)

def dischargeContext (args : CallArgs) (decisionId : Option Uuid) : DischargeContext where
  action := args.action
  subjectId := args.subjectId
  resourceId := args.resourceId
  decisionId := decisionId

def checkWithObligations (ev : Evaluator) (handlers : Handlers) (b : Backend) (args : CallArgs)
    (legacyAllowed : Bool) (callerHandles : List String) : Bool × List Obligation :=
  match evaluate ev b args with
  | .raised => (legacyAllowed, [])
  | .value decision =>
    if !decision.enforced then (legacyAllowed, [])
    else if decision.effect ≠ .allow then (false, [])
    else
      match discharge handlers (dischargeContext args decision.decisionId)
          (centrally callerHandles decision.obligations) with
      | .ok () => (true, decision.obligations.filter (·.kind.value ∈ callerHandles))
      -- an allow qualified by a condition nobody carried out does not stand
      | .error _ => (false, [])

def check (ev : Evaluator) (handlers : Handlers) (b : Backend) (args : CallArgs)
    (legacyAllowed : Bool) (callerHandles : List String) : Bool :=
  (checkWithObligations ev handlers b args legacyAllowed callerHandles).1

/-! ## what lets a request through -/

section
variable (ev : Evaluator) (handlers : Handlers) (args : CallArgs) (callerHandles : List String)

/-- the obligations of the matching allow rules, each key once -/
def owed (attrs : Attrs) (P : List CompiledPolicy) : List Obligation :=
  Evaluator.dedupe (P.flatMap fun p =>
    (p.rules.filter fun r => ev.matchesCond attrs r.condition ∧ r.effect = .allow).flatMap
      (·.obligations))

/-- the policies allow with binding force, and what the allow owes can be carried out -/
structure BindingAllow (attrs : Attrs) (P : List CompiledPolicy) (decisionId : Option Uuid) :
    Prop where
  deny : ¬ ev.DenyMatches attrs P
  binding : ev.BindingMatch attrs P .enforce
  honoured : discharge handlers (dischargeContext args decisionId)
    (centrally callerHandles (owed ev attrs P)) = .ok ()

end

variable {ev : Evaluator} {handlers : Handlers} {b : Backend} {args : CallArgs} {legacy : Bool}
  {callerHandles : List String} {P : List CompiledPolicy} {spec : NamespaceSpec}

theorem hasMatch_of_bindingMatch {attrs : Attrs} {ceiling : PolicyMode}
    (h : ev.BindingMatch attrs P ceiling) : ev.HasMatch attrs P := by
  obtain ⟨p, hp, r, hr, hm, -⟩ := h
  exact ⟨p, hp, r, hr, hm, trivial⟩

theorem evaluate_enforced_iff (attrs : Attrs) (dflt : Effect) :
    (ev.evaluate P attrs dflt .enforce).enforced = true ↔
      ¬ ev.HasMatch attrs P ∨ ev.BindingMatch attrs P .enforce := by
  show (ev.evaluate P attrs dflt .enforce).ruling.binds ↔ _
  rw [Evaluator.evaluate_ruling]
  by_cases hP : ev.HasMatch attrs P
  · rw [Combining.ruling_binds (Evaluator.votes_nonempty_iff.mpr hP), Evaluator.binds_iff]
    simp only [hP, not_true_eq_false, false_or]
  · have hV : ev.votes P attrs .enforce = ∅ :=
      Set.not_nonempty_iff_eq_empty.mp (Evaluator.votes_nonempty_iff.not.mpr hP)
    rw [hV, Combining.ruling_empty]
    exact iff_of_true rfl (Or.inl hP)

theorem hits_obligations (attrs : Attrs) (ceiling : PolicyMode) :
    ((ev.hits P attrs ceiling).filter (¬ ·.denies)).flatMap (·.obligations) =
      P.flatMap fun p => (p.rules.filter fun r =>
        ev.matchesCond attrs r.condition ∧ r.effect = .allow).flatMap (·.obligations) := by
  have he : ∀ e : Effect, ¬ e = .deny ↔ e = .allow := by
    intro e
    cases e <;> decide
  induction P with
  | nil => rfl
  | cons p P ih =>
    rw [← List.singleton_append, Evaluator.hits_append, List.filter_append, List.flatMap_append,
      ih, List.singleton_append, List.flatMap_cons]
    congr 1
    rw [Evaluator.hits, List.flatMap_singleton, List.filter_map, List.flatMap_map,
      List.filter_filter]
    congr 2
    funext r
    simp only [Function.comp, Evaluator.Hit.denies, Evaluator.matchedRule, he,
      Bool.decide_and, Bool.decide_eq_true, Bool.and_comm]

theorem evaluate_obligations (attrs : Attrs) (dflt : Effect) (ceiling : PolicyMode)
    (hd : ¬ ev.DenyMatches attrs P) (hP : ev.HasMatch attrs P) :
    (ev.evaluate P attrs dflt ceiling).obligations = owed ev attrs P := by
  have hno : ¬ ∃ h ∈ ev.hits P attrs ceiling, h.denies := Evaluator.exists_hits.not.mpr hd
  have hall : ∃ h ∈ ev.hits P attrs ceiling, ¬ h.denies := by
    obtain ⟨x, hx, -⟩ := (@Evaluator.exists_hits ev attrs ceiling P fun _ => True).mpr hP
    exact ⟨x, hx, fun hxd => hno ⟨x, hx, hxd⟩⟩
  rw [Evaluator.evaluate_of_allow P dflt hall hno, owed, hits_obligations]

/-- a decision that does not bind leaves the legacy answer; one that binds has to be an allow whose
obligations are carried out -/
theorem check_of_decision {decision : Decision} (h : evaluate ev b args = .value decision) :
    check ev handlers b args legacy callerHandles = true ↔
      if decision.enforced then
        decision.effect = .allow ∧
          discharge handlers (dischargeContext args decision.decisionId)
            (centrally callerHandles decision.obligations) = .ok ()
      else legacy = true := by
  unfold check checkWithObligations
  rw [h]
  dsimp only
  cases he : decision.enforced with
  | false => rfl
  | true =>
    by_cases ha : decision.effect = .allow
    · simp only [ha, Bool.not_true, Bool.false_eq_true, if_false, if_true, ne_eq,
        not_true_eq_false, true_and]
      split
      · rename_i hd
        exact iff_of_true rfl hd
      · rename_i hd
        refine iff_of_false (by simp) fun hok => ?_
        rw [hok] at hd
        cases hd
    · simp only [ha, Bool.not_true, Bool.false_eq_true, if_false, if_true, ne_eq,
        not_false_eq_true, false_and]

theorem check_of_not_loaded (h : ∀ spec policies, ¬ Loaded b args.request spec policies) :
    check ev handlers b args legacy callerHandles = legacy := by
  obtain ⟨error, -, he⟩ := @decide_of_not_loaded ev b args.request h
  by_cases hv : args.request.valid = true
  · have hdec : evaluate ev b args = .value (unanswered b error) := by
      rw [evaluate, if_pos hv, he]
    rw [Bool.eq_iff_iff, check_of_decision hdec]
    rfl
  · have hraised : evaluate ev b args = .raised := if_neg hv
    unfold check checkWithObligations
    rw [hraised]

theorem check_eq_true_iff (hv : args.request.valid = true)
    (hl : Loaded b args.request (some spec) P) (hmax : spec.maxMode = .enforce)
    (hdef : spec.defaultEffect = .deny) :
    check ev handlers b args legacy callerHandles = true ↔
      BindingAllow ev handlers args callerHandles
          (resolveAttributes args.request b.resolvers (needed P)).1 P (recordedId b) ∨
        (ev.HasMatch (resolveAttributes args.request b.resolvers (needed P)).1 P ∧
          ¬ ev.BindingMatch (resolveAttributes args.request b.resolvers (needed P)).1 P .enforce ∧
          legacy = true) := by
  have hdec : evaluate ev b args = .value (evaluated ev b args.request (some spec) P) := by
    rw [evaluate, if_pos hv, decide_of_loaded hl]
  rw [check_of_decision hdec]
  simp only [evaluated, hmax, hdef]
  generalize (resolveAttributes args.request b.resolvers (needed P)).1 = attrs
  have henf := @evaluate_enforced_iff ev P attrs .deny
  have heff := @Evaluator.effect_eq_allow_iff ev attrs .enforce P .deny
  by_cases hb : ev.BindingMatch attrs P .enforce
  · have hm := hasMatch_of_bindingMatch hb
    rw [if_pos (henf.mpr (Or.inr hb))]
    constructor
    · intro h
      obtain ⟨ha, hd⟩ := h
      have hdeny := (heff.mp ha).1
      rw [evaluate_obligations attrs .deny .enforce hdeny hm] at hd
      exact Or.inl ⟨hdeny, hb, hd⟩
    · intro hx
      rcases hx with h | ⟨-, h, -⟩
      · rw [evaluate_obligations attrs .deny .enforce h.deny hm]
        exact ⟨heff.mpr ⟨h.deny, Or.inl hm⟩, h.honoured⟩
      · exact absurd hb h
  · by_cases hm : ev.HasMatch attrs P
    · -- only policies that do not bind match
      have hno : ¬ (ev.evaluate P attrs .deny .enforce).enforced = true :=
        fun h => (henf.mp h).elim (fun h => h hm) hb
      rw [if_neg hno]
      constructor
      · intro h
        exact Or.inr ⟨hm, hb, h⟩
      · intro hx
        rcases hx with h | ⟨-, -, h⟩
        · exact absurd h.binding hb
        · exact h
    · -- the default speaks, and denies
      rw [if_pos (henf.mpr (Or.inl hm))]
      constructor
      · intro h
        rcases (heff.mp h.1).2 with hm' | hdeny
        · exact absurd hm' hm
        · cases hdeny
      · intro hx
        rcases hx with h | ⟨h, -⟩
        · exact absurd h.binding hb
        · exact absurd h hm

theorem check_eq_false_iff (hv : args.request.valid = true)
    (hl : Loaded b args.request (some spec) P) (hmax : spec.maxMode = .enforce)
    (hdef : spec.defaultEffect = .deny) :
    check ev handlers b args legacy callerHandles = false ↔
      ¬ BindingAllow ev handlers args callerHandles
          (resolveAttributes args.request b.resolvers (needed P)).1 P (recordedId b) ∧
        (ev.HasMatch (resolveAttributes args.request b.resolvers (needed P)).1 P →
          ¬ ev.BindingMatch (resolveAttributes args.request b.resolvers (needed P)).1 P .enforce →
          legacy = false) := by
  rw [Bool.eq_false_iff, ne_eq, check_eq_true_iff hv hl hmax hdef, not_or]
  apply and_congr_right
  intro _
  constructor
  · intro h hm hbm
    exact Bool.eq_false_iff.mpr fun hleg => h ⟨hm, hbm, hleg⟩
  · intro h hx
    obtain ⟨hm, hbm, hleg⟩ := hx
    rw [h hm hbm] at hleg
    cases hleg

/-! ## failures -/

/-- the backend answers everything, in an enforcing namespace that denies by default -/
structure Healthy (b : Backend) (req : DecisionRequest) (spec : NamespaceSpec)
    (P : List CompiledPolicy) : Prop where
  loaded : Loaded b req (some spec) P
  maxMode : spec.maxMode = .enforce
  defaultEffect : spec.defaultEffect = .deny
  resolved : ∀ w ∈ wanted b.resolvers (needed P), ∃ items, w.1.resolve req w.2 = .values items

/-- `b'` is `b` with some of its answers lost: a tenant that does not resolve, a generation or a
load that raises, a resolver that raises or is late -/
structure Degraded (b b' : Backend) : Prop where
  resolveTenant : ∀ t, b'.resolveTenant t = b.resolveTenant t ∨ b'.resolveTenant t = .value none ∨
    b'.resolveTenant t = .raised
  generation : b'.generation = b.generation ∨ b'.generation = .raised
  namespaces : b'.namespaces = b.namespaces ∨ b'.namespaces = .raised
  policies : ∀ t ns, b'.policies t ns = b.policies t ns ∨ b'.policies t ns = .raised
  resolvers : List.Forall₂ (fun r r' => r'.owns = r.owns ∧ ∀ req paths,
    r'.resolve req paths = r.resolve req paths ∨ r'.resolve req paths = .raised ∨
      r'.resolve req paths = .late) b.resolvers b'.resolvers

theorem Degraded.loaded_eq {b b' : Backend} {req : DecisionRequest}
    {spec spec' : Option NamespaceSpec} {P P' : List CompiledPolicy} (h : Degraded b b')
    (hl : Loaded b req spec P) (hl' : Loaded b' req spec' P') : spec' = spec ∧ P' = P := by
  obtain ⟨t, nss, ht, -, hn, hp, rfl⟩ := hl
  obtain ⟨t', nss', ht', -, hn', hp', rfl⟩ := hl'
  have htt : t' = t := by
    rcases h.resolveTenant req.tenantId with e | e | e
    · rw [ht', ht] at e
      cases e
      rfl
    · rw [ht'] at e
      cases e
    · rw [ht'] at e
      cases e
  subst htt
  constructor
  · rcases h.namespaces with e | e
    · rw [hn', hn] at e
      cases e
      rfl
    · rw [hn'] at e
      cases e
  · rcases h.policies t' req.ns with e | e
    · rw [hp', hp] at e
      cases e
      rfl
    · rw [hp'] at e
      cases e

section
variable (ev : Evaluator) (handlers : Handlers) (full b : Backend) (args : CallArgs)
  (legacy : Bool) (callerHandles : List String) (P : List CompiledPolicy)

/-- the engine refuses, or answers as the fully resolved evaluation does with binding force -/
def FailsClosed : Prop :=
  check ev handlers b args legacy callerHandles = false ∨
    ((decide ev full args.request).enforced = true ∧
      check ev handlers b args legacy callerHandles =
        check ev handlers full args legacy callerHandles)

/-- the situations in which it does: the fully resolved policies allow with binding force; or the
engine does not get to the evaluation, and the legacy answer is a refusal; or what it could resolve
gives no binding allow, and where only non-binding rules match, the legacy answer is a refusal -/
def ClosedWhen : Prop :=
  BindingAllow ev handlers args callerHandles
      (resolveAttributes args.request full.resolvers (needed P)).1 P (recordedId full) ∨
    ((∀ spec policies, ¬ Loaded b args.request spec policies) ∧ legacy = false) ∨
    ((∃ spec policies, Loaded b args.request spec policies) ∧
      ¬ BindingAllow ev handlers args callerHandles
        (resolveAttributes args.request b.resolvers (needed P)).1 P (recordedId b) ∧
      (ev.HasMatch (resolveAttributes args.request b.resolvers (needed P)).1 P →
        ¬ ev.BindingMatch (resolveAttributes args.request b.resolvers (needed P)).1 P .enforce →
        legacy = false))

end

theorem check_of_bindingAllow {full : Backend} (hv : args.request.valid = true)
    (hfull : Healthy full args.request spec P)
    (hA : BindingAllow ev handlers args callerHandles
      (resolveAttributes args.request full.resolvers (needed P)).1 P (recordedId full)) :
    (decide ev full args.request).enforced = true ∧
      check ev handlers full args legacy callerHandles = true := by
  refine ⟨?_, (check_eq_true_iff hv hfull.loaded hfull.maxMode hfull.defaultEffect).mpr
    (Or.inl hA)⟩
  rw [decide_of_loaded hfull.loaded]
  simp only [evaluated, hfull.maxMode, hfull.defaultEffect]
  exact (evaluate_enforced_iff _ .deny).mpr (Or.inr hA.binding)

theorem failsClosed_iff_of_not_bindingAllow {full : Backend} (hv : args.request.valid = true)
    (hfull : Healthy full args.request spec P)
    (hA : ¬ BindingAllow ev handlers args callerHandles
      (resolveAttributes args.request full.resolvers (needed P)).1 P (recordedId full)) :
    FailsClosed ev handlers full b args legacy callerHandles ↔
      check ev handlers b args legacy callerHandles = false := by
  constructor
  · intro hx
    rcases hx with h | ⟨henf, h⟩
    · exact h
    · rw [h, Bool.eq_false_iff, ne_eq,
        check_eq_true_iff hv hfull.loaded hfull.maxMode hfull.defaultEffect]
      intro hx
      rcases hx with h' | ⟨hm, hb, -⟩
      · exact hA h'
      · rw [decide_of_loaded hfull.loaded] at henf
        simp only [evaluated, hfull.maxMode, hfull.defaultEffect] at henf
        exact ((evaluate_enforced_iff _ .deny).mp henf).elim (fun h => h hm) hb
  · exact Or.inl

/-- **When a failing engine fails closed.**  `b` is the healthy backend `full` with any failures;
`legacy` is the answer of the call site's own check. -/
theorem check_failsClosed_iff (ev : Evaluator) (handlers : Handlers) (full b : Backend)
    (args : CallArgs) (legacy : Bool) (callerHandles : List String) (spec : NamespaceSpec)
    (P : List CompiledPolicy) (hv : args.request.valid = true)
    (hfull : Healthy full args.request spec P) (hb : Degraded full b) :
    FailsClosed ev handlers full b args legacy callerHandles ↔
      ClosedWhen ev handlers full b args legacy callerHandles P := by
  unfold ClosedWhen
  by_cases hA : BindingAllow ev handlers args callerHandles
      (resolveAttributes args.request full.resolvers (needed P)).1 P (recordedId full)
  · obtain ⟨henf, hfullAllow⟩ : (decide ev full args.request).enforced = true ∧
        check ev handlers full args legacy callerHandles = true := check_of_bindingAllow hv hfull hA
    refine iff_of_true ?_ (Or.inl hA)
    cases hc : check ev handlers b args legacy callerHandles with
    | false => exact Or.inl hc
    | true => exact Or.inr ⟨henf, by rw [hc, hfullAllow]⟩
  · rw [failsClosed_iff_of_not_bindingAllow hv hfull hA]
    simp only [hA, false_or]
    by_cases hl : ∃ spec policies, Loaded b args.request spec policies
    · obtain ⟨spec', P', hl'⟩ := hl
      obtain ⟨rfl, rfl⟩ := hb.loaded_eq hfull.loaded hl'
      have hno : ¬ ∀ spec policies, ¬ Loaded b args.request spec policies :=
        fun h => h _ _ hl'
      have hex : ∃ spec policies, Loaded b args.request spec policies := ⟨_, _, hl'⟩
      simp only [hno, hex, false_and, true_and, false_or]
      exact check_eq_false_iff hv hl' hfull.maxMode hfull.defaultEffect
    · have hno : ∀ spec policies, ¬ Loaded b args.request spec policies :=
        fun spec policies h => hl ⟨spec, policies, h⟩
      simp only [hl, false_and, or_false]
      rw [check_of_not_loaded hno]
      exact ⟨fun h => ⟨hno, h⟩, fun h => h.2⟩

/-! ## the tenant lookup raises -/

def strict : Backend where
  resolveTenant := fun _ => .value (some 1)
  generation := .value "g"
  namespaces := .value [{ ns := "ai", defaultEffect := .deny, maxMode := .enforce }]
  policies := fun _ _ => .value []
  resolvers := []
  writeDecision := .value none
  now := 0

def tenantDown : Backend := { strict with resolveTenant := fun _ => .raised }

def aiCall : CallArgs where
  tenantId := "t"
  action := "ai.x"
  subjectId := "s"

theorem strict_healthy : Healthy strict aiCall.request
    { ns := "ai", defaultEffect := .deny, maxMode := .enforce } [] where
  loaded := ⟨1, _, rfl, rfl, rfl, rfl, by decide⟩
  maxMode := rfl
  defaultEffect := rfl
  resolved := by simp [strict, wanted]

theorem tenantDown_degraded : Degraded strict tenantDown where
  resolveTenant := fun _ => Or.inr (Or.inr rfl)
  generation := Or.inl rfl
  namespaces := Or.inl rfl
  policies := fun _ _ => Or.inl rfl
  resolvers := .nil

theorem not_loaded_tenantDown (spec : Option NamespaceSpec) (policies : List CompiledPolicy) :
    ¬ Loaded tenantDown aiCall.request spec policies := by
  intro h
  obtain ⟨tenant, namespaces, ht, -⟩ := h
  cases ht

/-- the legacy allow goes through an enforcing, deny-by-default namespace -/
theorem tenant_failure_opens :
    ¬ ∀ (ev : Evaluator) (handlers : Handlers) (full b : Backend) (args : CallArgs)
        (legacy : Bool) (callerHandles : List String) (spec : NamespaceSpec)
        (P : List CompiledPolicy), args.request.valid = true → Healthy full args.request spec P →
        Degraded full b → FailsClosed ev handlers full b args legacy callerHandles := by
  intro h
  have hc := h ⟨id⟩ (fun _ => none) strict tenantDown aiCall true [] _ [] (by decide)
    strict_healthy tenantDown_degraded
  rcases hc with hc | ⟨-, hc⟩
  · rw [check_of_not_loaded not_loaded_tenantDown] at hc
    cases hc
  · rw [check_of_not_loaded not_loaded_tenantDown] at hc
    exact absurd hc.symm (by decide)

/-- the same failure, where the call site's own check refuses -/
theorem tenant_failure_refused :
    FailsClosed ⟨id⟩ (fun _ => none) strict tenantDown aiCall false [] :=
  (check_failsClosed_iff ⟨id⟩ (fun _ => none) strict tenantDown aiCall false [] _ [] (by decide)
    strict_healthy tenantDown_degraded).mpr (Or.inr (Or.inl ⟨not_loaded_tenantDown, rfl⟩))

end Pep
end HxArbiter
