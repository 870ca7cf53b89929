import Velaris.Retention.Overruled

/-!
# What a retention run reaches

`run_all` on the tables it starts from, policy after policy.

* `reachesCase`, `reachesAudit`, `reachesEvent`, `reachesSecurity`   the rows of a policy;
* `applyPolicy_cases`   a policy is skipped, refused, raises or is performed;
* `Swept`   what a policy that is performed leaves of the tables;
* `Left`   what the policies before it leave to a policy.
-/

namespace Retention
open Py Base LegalHold

/-! ## policies that are performed -/

/-- the action and the resource go together, and the resource can be told by its tenant -/
def Policy.accepted (p : Policy) : Bool :=
  if p.action = "anonymize" then p.resourceType = "resolved_cases"
  else
    p.action ∈ ["archive", "delete"] &&
      p.resourceType ∈ ["resolved_cases", "audit_log", "event_log", "security_events"] &&
      !(p.scoped.isSome && p.resourceType ∈ unscopable)

/-- the period goes back to before the first year -/
def Policy.overflows (cfg : Config) (p : Policy) : Bool :=
  p.enabled && p.accepted && cutoffOf cfg.now p.retentionDays < minTime

def Policy.refused (db : Db) (p : Policy) : Bool := p.enabled && !p.runs db

theorem runs_eq (db : Db) (p : Policy) : p.runs db = (p.enabled &&
    (p.scoped.all fun token => (resolveTenant db token).isSome) && p.accepted) := rfl

def perform (R : Runtime) (cfg : Config) (s : Db) (p : Policy) (apply : Bool)
    (exclude : List Uuid) : Except Failure (Db × Nat) :=
  if p.action = "anonymize" then
    .ok (anonymizeCases R cfg s (cutoffOf cfg.now p.retentionDays) apply
      (p.scoped.bind (resolveTenant s)) exclude)
  else
    match handlers s p.resourceType with
    | none => .error .raised
    | some handler =>
      handler (cutoffOf cfg.now p.retentionDays) apply (p.scoped.bind (resolveTenant s)) exclude

section
variable {R : Runtime} {cfg : Config} {s : Db} {p : Policy} {exclude : List Uuid} {apply : Bool}

theorem applyPolicy_disabled (h : p.enabled = false) :
    applyPolicy R cfg s p apply exclude =
      .ok (s, { p.result with skipped := some "policy disabled" }) := by
  rw [applyPolicy, h]
  rfl

theorem cutoff_of_not {p : Policy} (h : ¬ cutoffOf cfg.now p.retentionDays < minTime) :
    cutoff cfg p.retentionDays = .ok (cutoffOf cfg.now p.retentionDays) := if_neg h

theorem applyPolicy_accepted (hen : p.enabled = true) (hacc : p.accepted = true) :
    applyPolicy R cfg s p apply exclude = (do
      let cut ← cutoff cfg p.retentionDays
      let scope ← scopeOf R s p
      let (s', rows) ← if p.action = "anonymize" then
          .ok (anonymizeCases R cfg s cut apply scope exclude)
        else
          match handlers s p.resourceType with
          | none => .error .raised
          | some handler => handler cut apply scope exclude
      .ok (s', p.report cut apply scope exclude s' rows)) := by
  rw [applyPolicy, hen, Bool.not_true, if_neg Bool.false_ne_true]
  by_cases hanon : p.action = "anonymize"
  · have hres : p.resourceType = "resolved_cases" := by
      simpa [Policy.accepted, hanon] using hacc
    rw [if_neg (by rw [hanon]; decide), if_pos hanon, if_neg (not_not.mpr hres)]
    simp only [if_pos hanon]
    rfl
  · rw [Policy.accepted, if_neg hanon, Bool.and_eq_true, Bool.and_eq_true, decide_eq_true_eq,
      Bool.not_eq_true'] at hacc
    obtain ⟨⟨hact, hmem⟩, hsc⟩ := hacc
    have hact' : p.action ∈ ["archive", "delete", "anonymize"] := by
      simp only [List.mem_cons, List.not_mem_nil, or_false] at hact ⊢
      exact hact.imp_right .inl
    rw [if_neg (not_not.mpr hact'), if_neg hanon, if_neg (by rw [hsc]; decide)]
    simp only [if_neg hanon]
    cases hh : handlers s p.resourceType with
    | none =>
      have hmem := of_decide_eq_true hmem
      simp only [List.mem_cons, List.not_mem_nil, or_false] at hmem
      obtain hr | hr | hr | hr := hmem <;> rw [hr] at hh <;> cases hh
    | some handler => rfl

theorem applyPolicy_overflows (h : p.overflows cfg = true) :
    applyPolicy R cfg s p apply exclude = .error .raised := by
  rw [Policy.overflows, Bool.and_eq_true, Bool.and_eq_true, decide_eq_true_eq] at h
  rw [applyPolicy_accepted h.1.1 h.1.2, cutoff, if_pos h.2]
  rfl

theorem applyPolicy_refused (R : Runtime) (apply : Bool) (exclude : List Uuid)
    (h : p.refused s = true) (ho : p.overflows cfg = false) :
    ∃ message, applyPolicy R cfg s p apply exclude = .error (.refused message) := by
  rw [Policy.refused, Bool.and_eq_true, Bool.not_eq_true'] at h
  obtain ⟨hen, hruns⟩ := h
  by_cases hacc : p.accepted = true
  · rw [runs_eq, hen, hacc, Bool.true_and, Bool.and_true] at hruns
    rw [Policy.overflows, hen, hacc, Bool.true_and, Bool.true_and, decide_eq_false_iff_not] at ho
    have hscope : ∃ message, scopeOf R s p = .error (.refused message) := by
      rw [scopeOf]
      cases hp : p.scoped with
      | none => simp [hp] at hruns
      | some token =>
        rw [hp, Option.all_some] at hruns
        cases ht : resolveTenant s token with
        | none => simp only [ht, Except.error.injEq, Failure.refused.injEq, exists_eq']
        | some tenant => simp [ht] at hruns
    obtain ⟨message, hscope⟩ := hscope
    rw [applyPolicy_accepted hen hacc, cutoff_of_not ho, hscope]
    exact ⟨message, rfl⟩
  · rw [applyPolicy, hen, Bool.not_true, if_neg Bool.false_ne_true]
    split
    · exact ⟨_, rfl⟩
    · rename_i hact
      split
      · rename_i hanon
        split
        · exact ⟨_, rfl⟩
        · rename_i hres
          exact absurd (by simpa [Policy.accepted, hanon] using hres) hacc
      · rename_i hanon
        split
        · exact ⟨_, rfl⟩
        · rename_i hsc
          split
          · exact ⟨_, rfl⟩
          · rename_i hh
            exfalso
            apply hacc
            have hact : p.action ∈ ["archive", "delete"] := by
              simpa [hanon] using not_not.mp hact
            rw [Policy.accepted, if_neg hanon, decide_eq_true hact,
              decide_eq_true (handlers_mem hh), Bool.eq_false_iff.mpr hsc]
            rfl

theorem applyPolicy_runs (h : p.runs s = true) (ho : p.overflows cfg = false) :
    applyPolicy R cfg s p apply exclude = (perform R cfg s p apply exclude).map fun r =>
      (r.1, p.report (cutoffOf cfg.now p.retentionDays) apply (p.scoped.bind (resolveTenant s))
        exclude r.1 r.2) := by
  rw [runs_eq, Bool.and_eq_true, Bool.and_eq_true] at h
  obtain ⟨⟨hen, hall⟩, hacc⟩ := h
  rw [Policy.overflows, hen, hacc, Bool.true_and, Bool.true_and, decide_eq_false_iff_not] at ho
  rw [applyPolicy_accepted hen hacc, cutoff_of_not ho, scopeOf_of_all hall]
  unfold perform
  by_cases hanon : p.action = "anonymize"
  · simp only [if_pos hanon]
    rfl
  · simp only [if_neg hanon]
    cases hh : handlers s p.resourceType with
    | none => rfl
    | some handler =>
      show (handler _ _ _ _ >>= _) = Except.map _ (handler (cutoffOf cfg.now p.retentionDays) apply
        (p.scoped.bind (resolveTenant s)) exclude)
      cases handler (cutoffOf cfg.now p.retentionDays) apply (p.scoped.bind (resolveTenant s))
        exclude with
      | error e => rfl
      | ok r => rfl

end

/-! ## the rows of a policy -/

section
variable (cfg : Config) (db : Db) (exclude : String → List Uuid) (p : Policy)

def reachesCase (c : Case) : Bool :=
  p.runs db && p.resourceType = "resolved_cases" &&
    dueCase db (cutoffOf cfg.now p.retentionDays) (p.scoped.bind (resolveTenant db))
      (exclude "resolved_cases") c && (p.action ≠ "anonymize" || c.isTouched cfg)

def reachesAudit (r : AuditRow) : Bool :=
  p.runs db && p.resourceType = "audit_log" &&
    dueLogged db (cutoffOf cfg.now p.retentionDays) r.caseId r.timestamp

def reachesEvent (e : EventRow) : Bool :=
  p.runs db && p.resourceType = "event_log" &&
    dueLogged db (cutoffOf cfg.now p.retentionDays) e.caseId e.timestamp

def reachesSecurity (e : SecurityEvent) : Bool :=
  p.runs db && p.resourceType = "security_events" &&
    e.timestamp < cutoffOf cfg.now p.retentionDays

def deletesCaseOf (e : EventRow) : Bool :=
  p.action ≠ "anonymize" && db.cases.any fun c => c.id = e.caseId && reachesCase cfg db exclude p c

def reached : Nat :=
  (db.cases.filter (reachesCase cfg db exclude p)).length +
    (db.auditLog.filter (reachesAudit cfg db p)).length +
    (db.eventLog.filter (reachesEvent cfg db p)).length +
    (db.securityEvents.filter (reachesSecurity cfg db p)).length

/-- a case that is to be deleted is needed by another row -/
def blocked : Bool :=
  p.action ≠ "anonymize" && db.cases.any fun c => reachesCase cfg db exclude p c &&
    (db.auditLog.any (·.caseId = c.id) || c.id ∈ db.referenced)

def stale (c : Case) : Bool := c.updatedAt < cfg.now

/-- what a policy that is performed leaves of `s` -/
structure Swept (s s' : Db) : Prop where
  cases : s'.cases.filter (stale cfg) =
    (s.cases.filter (stale cfg)).filter (!reachesCase cfg s exclude p ·)
  ids : (s'.cases.map (·.id)).Sublist (s.cases.map (·.id))
  auditLog : s'.auditLog = s.auditLog.filter (!reachesAudit cfg s p ·)
  eventLog : s'.eventLog = s.eventLog.filter fun e =>
    !reachesEvent cfg s p e && !deletesCaseOf cfg s exclude p e
  securityEvents : s'.securityEvents = s.securityEvents.filter (!reachesSecurity cfg s p ·)
  holds : s'.holds = s.holds
  tenants : s'.tenants = s.tenants
  referenced : s'.referenced = s.referenced

end

section
variable {R : Runtime} {cfg : Config} {s : Db} {p : Policy} {exclude : String → List Uuid}

theorem runs_cases (h : p.runs s = true) :
    (p.action = "anonymize" ∧ p.resourceType = "resolved_cases") ∨
      (p.action ≠ "anonymize" ∧ (p.resourceType = "resolved_cases" ∨ p.resourceType = "audit_log" ∨
        p.resourceType = "event_log" ∨ p.resourceType = "security_events")) := by
  rw [runs_eq, Bool.and_eq_true, Policy.accepted] at h
  by_cases hanon : p.action = "anonymize"
  · rw [if_pos hanon, decide_eq_true_eq] at h
    exact .inl ⟨hanon, h.2⟩
  · simp only [if_neg hanon, Bool.and_eq_true, decide_eq_true_eq] at h
    exact .inr ⟨hanon, by simpa using h.2.1.2⟩

theorem stale_of_reachesCase {c : Case} (h : reachesCase cfg s exclude p c = true) :
    stale cfg c = true := by
  simp only [reachesCase, Bool.and_eq_true] at h
  have hdue := (dueCase_iff.mp h.1.2).1.1.2
  rw [stale, decide_eq_true_eq]
  simp only [cutoffOf, microsPerDay] at hdue
  omega

/-! each resource has its own rows -/

theorem reachesCase_of (h : p.runs s = true) (hres : p.resourceType = "resolved_cases") :
    reachesCase cfg s exclude p = fun c => dueCase s (cutoffOf cfg.now p.retentionDays)
      (p.scoped.bind (resolveTenant s)) (exclude "resolved_cases") c &&
        (p.action ≠ "anonymize" || c.isTouched cfg) := by
  funext c
  simp [reachesCase, h, hres]

theorem reachesAudit_of (h : p.runs s = true) (hres : p.resourceType = "audit_log") :
    reachesAudit cfg s p = fun r =>
      dueLogged s (cutoffOf cfg.now p.retentionDays) r.caseId r.timestamp := by
  funext r
  simp [reachesAudit, h, hres]

theorem reachesEvent_of (h : p.runs s = true) (hres : p.resourceType = "event_log") :
    reachesEvent cfg s p = fun e =>
      dueLogged s (cutoffOf cfg.now p.retentionDays) e.caseId e.timestamp := by
  funext e
  simp [reachesEvent, h, hres]

theorem reachesSecurity_of (h : p.runs s = true) (hres : p.resourceType = "security_events") :
    reachesSecurity cfg s p = fun e =>
      decide (e.timestamp < cutoffOf cfg.now p.retentionDays) := by
  funext e
  simp [reachesSecurity, h, hres]

theorem reachesCase_not (hres : p.resourceType ≠ "resolved_cases") :
    reachesCase cfg s exclude p = fun _ => false := by
  funext c
  simp [reachesCase, hres]

theorem reachesAudit_not (hres : p.resourceType ≠ "audit_log") :
    reachesAudit cfg s p = fun _ => false := by
  funext r
  simp [reachesAudit, hres]

theorem reachesEvent_not (hres : p.resourceType ≠ "event_log") :
    reachesEvent cfg s p = fun _ => false := by
  funext e
  simp [reachesEvent, hres]

theorem reachesSecurity_not (hres : p.resourceType ≠ "security_events") :
    reachesSecurity cfg s p = fun _ => false := by
  funext e
  simp [reachesSecurity, hres]

theorem deletesCaseOf_not (h : p.action = "anonymize" ∨ p.resourceType ≠ "resolved_cases") :
    deletesCaseOf cfg s exclude p = fun _ => false := by
  funext e
  obtain hanon | hres := h
  · simp [deletesCaseOf, hanon]
  · simp [deletesCaseOf, reachesCase_not hres]

theorem reached_cases (hres : p.resourceType = "resolved_cases") :
    reached cfg s exclude p = (s.cases.filter (reachesCase cfg s exclude p)).length := by
  rw [reached, reachesAudit_not (by rw [hres]; decide), reachesEvent_not (by rw [hres]; decide),
    reachesSecurity_not (by rw [hres]; decide)]
  simp

theorem reached_audit (hres : p.resourceType = "audit_log") :
    reached cfg s exclude p = (s.auditLog.filter (reachesAudit cfg s p)).length := by
  rw [reached, reachesCase_not (by rw [hres]; decide), reachesEvent_not (by rw [hres]; decide),
    reachesSecurity_not (by rw [hres]; decide)]
  simp

theorem reached_events (hres : p.resourceType = "event_log") :
    reached cfg s exclude p = (s.eventLog.filter (reachesEvent cfg s p)).length := by
  rw [reached, reachesCase_not (by rw [hres]; decide), reachesAudit_not (by rw [hres]; decide),
    reachesSecurity_not (by rw [hres]; decide)]
  simp

theorem reached_security (hres : p.resourceType = "security_events") :
    reached cfg s exclude p = (s.securityEvents.filter (reachesSecurity cfg s p)).length := by
  rw [reached, reachesCase_not (by rw [hres]; decide), reachesAudit_not (by rw [hres]; decide),
    reachesEvent_not (by rw [hres]; decide)]
  simp

theorem anonymizeCases_count (h : p.runs s = true) (hanon : p.action = "anonymize")
    (hres : p.resourceType = "resolved_cases") (apply : Bool) :
    (anonymizeCases R cfg s (cutoffOf cfg.now p.retentionDays) apply
      (p.scoped.bind (resolveTenant s)) (exclude p.resourceType)).2 = reached cfg s exclude p := by
  rw [reached_cases hres, reachesCase_of h hres, hres]
  unfold anonymizeCases
  cases apply <;> simp [hanon, List.filter_filter, Bool.and_comm]

theorem perform_dry (R : Runtime) (exclude : String → List Uuid) (h : p.runs s = true) :
    perform R cfg s p false (exclude p.resourceType) = .ok (s, reached cfg s exclude p) := by
  obtain ⟨hanon, hres⟩ | ⟨hanon, hres | hres | hres | hres⟩ := runs_cases h
  · rw [perform, if_pos hanon, ← anonymizeCases_count (R := R) h hanon hres false]
    rfl
  · rw [perform, if_neg hanon, reached_cases hres, reachesCase_of h hres, hres]
    simp [handlers, resolvedCases, hanon]
  · rw [perform, if_neg hanon, reached_audit hres, reachesAudit_of h hres, hres]
    rfl
  · rw [perform, if_neg hanon, reached_events hres, reachesEvent_of h hres, hres]
    rfl
  · rw [perform, if_neg hanon, reached_security hres, reachesSecurity_of h hres, hres]
    rfl

theorem filter_map_ite {α : Type} {f q : α → Bool} {g : α → α} (hg : ∀ x, q (g x) = false)
    (xs : List α) :
    (xs.map fun x => if f x then g x else x).filter q = (xs.filter q).filter (!f ·) := by
  induction xs with
  | nil => rfl
  | cons x xs ih =>
    rw [List.map_cons]
    cases hf : f x with
    | true =>
      rw [if_pos rfl, List.filter_cons_of_neg (by rw [hg]; decide), ih, List.filter_cons]
      split
      · rw [List.filter_cons_of_neg (by simp [hf])]
      · rfl
    | false =>
      rw [if_neg Bool.false_ne_true, List.filter_cons, List.filter_cons]
      split
      · rw [List.filter_cons_of_pos (by simp [hf]), ih]
      · exact ih

theorem scrubbed_not_stale (c : Case) : stale cfg (c.scrubbed R cfg) = false := by
  simp [stale, Case.scrubbed]

theorem swept_anonymized (h : p.runs s = true) (hanon : p.action = "anonymize")
    (hres : p.resourceType = "resolved_cases") :
    Swept cfg exclude p s (anonymizeCases R cfg s (cutoffOf cfg.now p.retentionDays) true
      (p.scoped.bind (resolveTenant s)) (exclude p.resourceType)).1 := by
  have hcases : (anonymizeCases R cfg s (cutoffOf cfg.now p.retentionDays) true
      (p.scoped.bind (resolveTenant s)) (exclude p.resourceType)).1.cases =
      s.cases.map fun c => if reachesCase cfg s exclude p c then c.scrubbed R cfg else c := by
    rw [reachesCase_of h hres, hres]
    simp [anonymizeCases, hanon]
  refine ⟨?_, ?_, ?_, ?_, ?_, rfl, rfl, rfl⟩
  · rw [hcases]
    exact filter_map_ite scrubbed_not_stale s.cases
  · rw [hcases, List.map_map]
    have hid : ((fun c : Case => c.id) ∘ fun c =>
        if reachesCase cfg s exclude p c then c.scrubbed R cfg else c) = fun c => c.id := by
      funext c
      show (if _ then c.scrubbed R cfg else c).id = c.id
      split
      · exact scrubbed_id c
      · rfl
    rw [hid]
  · rw [reachesAudit_not (by rw [hres]; decide)]
    exact (List.filter_true _).symm
  · rw [reachesEvent_not (by rw [hres]; decide), deletesCaseOf_not (.inl hanon)]
    exact (List.filter_true _).symm
  · rw [reachesSecurity_not (by rw [hres]; decide)]
    exact (List.filter_true _).symm

theorem mem_gone_iff (hids : (s.cases.map (·.id)).Nodup) {f : Case → Bool} {c : Case}
    (hc : c ∈ s.cases) : c.id ∈ (s.cases.filter f).map (·.id) ↔ f c = true := by
  rw [List.mem_map]
  constructor
  · intro h
    obtain ⟨c', hc', hid⟩ := h
    obtain ⟨hc', hf⟩ := List.mem_filter.mp hc'
    rwa [List.inj_on_of_nodup_map hids hc' hc hid] at hf
  · intro h
    exact ⟨c, List.mem_filter.mpr ⟨hc, h⟩, rfl⟩

theorem blocked_eq (hanon : p.action ≠ "anonymize") :
    blocked cfg s exclude p =
      ((s.cases.filter (reachesCase cfg s exclude p)).map (·.id)).any fun id =>
        s.auditLog.any (·.caseId = id) || id ∈ s.referenced := by
  rw [blocked, List.any_map, List.any_filter]
  simp [hanon]

theorem perform_cases {apply : Bool} (h : p.runs s = true) (hanon : p.action ≠ "anonymize")
    (hres : p.resourceType = "resolved_cases") :
    perform R cfg s p apply (exclude p.resourceType) =
      if apply then
        (deleteCases s ((s.cases.filter (reachesCase cfg s exclude p)).map (·.id))).map fun s' =>
          (s', reached cfg s exclude p)
      else .ok (s, reached cfg s exclude p) := by
  have hreach : reachesCase cfg s exclude p = dueCase s (cutoffOf cfg.now p.retentionDays)
      (p.scoped.bind (resolveTenant s)) (exclude "resolved_cases") := by
    rw [reachesCase_of h hres]
    funext c
    simp [hanon]
  rw [perform, if_neg hanon, reached_cases hres, hreach, hres]
  rfl

theorem perform_blocked (h : p.runs s = true) (hb : blocked cfg s exclude p = true) :
    perform R cfg s p true (exclude p.resourceType) = .error .raised := by
  have hanon : p.action ≠ "anonymize" := by
    intro hanon
    simp [blocked, hanon] at hb
  have hres : p.resourceType = "resolved_cases" := by
    by_contra hres
    simp [blocked, reachesCase_not hres] at hb
  rw [blocked_eq hanon] at hb
  rw [perform_cases h hanon hres, if_pos rfl, deleteCases, if_pos hb]
  rfl

theorem perform_swept (h : p.runs s = true) (hids : (s.cases.map (·.id)).Nodup)
    (hb : blocked cfg s exclude p = false) :
    ∃ s', perform R cfg s p true (exclude p.resourceType) = .ok (s', reached cfg s exclude p) ∧
      Swept cfg exclude p s s' := by
  have hcasesNot : p.resourceType ≠ "resolved_cases" → s.cases.filter (stale cfg) =
      (s.cases.filter (stale cfg)).filter (!reachesCase cfg s exclude p ·) := by
    intro hres
    rw [reachesCase_not hres]
    exact (List.filter_true _).symm
  obtain ⟨hanon, hres⟩ | ⟨hanon, hres | hres | hres | hres⟩ := runs_cases h
  · refine ⟨_, ?_, swept_anonymized (R := R) h hanon hres⟩
    rw [perform, if_pos hanon, ← anonymizeCases_count (R := R) h hanon hres true]
  · rw [blocked_eq hanon] at hb
    have hdelete : perform R cfg s p true (exclude p.resourceType) = _ := perform_cases h hanon hres
    rw [if_pos rfl, deleteCases, if_neg (by rw [hb]; decide)] at hdelete
    refine ⟨_, hdelete, ?_, ?_, ?_, ?_, ?_, rfl, rfl, rfl⟩
    · rw [List.filter_filter, List.filter_filter]
      refine List.filter_congr fun c hc => ?_
      have hgone := mem_gone_iff hids (f := reachesCase cfg s exclude p) hc
      rw [Bool.and_comm]
      congr 1
      rw [Bool.eq_iff_iff, decide_eq_true_eq, hgone, Bool.not_eq_true', Bool.not_eq_true]
    · exact (List.filter_sublist).map _
    · rw [reachesAudit_not (by rw [hres]; decide)]
      exact (List.filter_true _).symm
    · rw [reachesEvent_not (by rw [hres]; decide)]
      refine List.filter_congr fun e _ => ?_
      rw [Bool.eq_iff_iff]
      simp only [decide_eq_true_eq, deletesCaseOf, hanon, ne_eq, not_false_eq_true, decide_true,
        Bool.true_and, Bool.not_false, Bool.not_eq_true', List.any_eq_false, List.mem_map,
        List.mem_filter, Bool.and_eq_true, not_exists, not_and]
      exact ⟨fun hall c hc he hr => hall c ⟨hc, hr⟩ he, fun hall c hc he => hall c hc.1 he hc.2⟩
    · rw [reachesSecurity_not (by rw [hres]; decide)]
      exact (List.filter_true _).symm
  · have hne : p.resourceType ≠ "resolved_cases" := by
      rw [hres]
      decide
    refine ⟨{ s with auditLog := s.auditLog.filter (!reachesAudit cfg s p ·) }, ?_, hcasesNot hne,
      List.Sublist.refl _, rfl, ?_, ?_, rfl, rfl, rfl⟩
    · rw [perform, if_neg hanon, reached_audit hres, reachesAudit_of h hres, hres]
      rfl
    · rw [reachesEvent_not (by rw [hres]; decide), deletesCaseOf_not (.inr hne)]
      exact (List.filter_true _).symm
    · rw [reachesSecurity_not (by rw [hres]; decide)]
      exact (List.filter_true _).symm
  · have hne : p.resourceType ≠ "resolved_cases" := by
      rw [hres]
      decide
    refine ⟨{ s with eventLog := s.eventLog.filter (!reachesEvent cfg s p ·) }, ?_, hcasesNot hne,
      List.Sublist.refl _, ?_, ?_, ?_, rfl, rfl, rfl⟩
    · rw [perform, if_neg hanon, reached_events hres, reachesEvent_of h hres, hres]
      rfl
    · rw [reachesAudit_not (by rw [hres]; decide)]
      exact (List.filter_true _).symm
    · rw [deletesCaseOf_not (.inr hne)]
      simp
    · rw [reachesSecurity_not (by rw [hres]; decide)]
      exact (List.filter_true _).symm
  · have hne : p.resourceType ≠ "resolved_cases" := by
      rw [hres]
      decide
    refine ⟨{ s with securityEvents := s.securityEvents.filter (!reachesSecurity cfg s p ·) }, ?_,
      hcasesNot hne, List.Sublist.refl _, ?_, ?_, rfl, rfl, rfl, rfl⟩
    · rw [perform, if_neg hanon, reached_security hres, reachesSecurity_of h hres, hres]
      rfl
    · rw [reachesAudit_not (by rw [hres]; decide)]
      exact (List.filter_true _).symm
    · rw [reachesEvent_not (by rw [hres]; decide), deletesCaseOf_not (.inr hne)]
      exact (List.filter_true _).symm

end

/-! ## what is left to a policy -/

section
variable (cfg : Config) (db : Db) (exclude : String → List Uuid)

/-- `s` is what a run from `db` has come to after the policies `done` -/
structure Left (done : List Policy) (s : Db) : Prop where
  cases : s.cases.filter (stale cfg) =
    (db.cases.filter (stale cfg)).filter fun c => done.all (!reachesCase cfg db exclude · c)
  ids : (s.cases.map (·.id)).Nodup
  auditLog : s.auditLog = db.auditLog.filter fun r => done.all (!reachesAudit cfg db · r)
  securityEvents : s.securityEvents =
    db.securityEvents.filter fun e => done.all (!reachesSecurity cfg db · e)
  holds : s.holds = db.holds
  tenants : s.tenants = db.tenants
  referenced : s.referenced = db.referenced

/-- a case that is left to the policy, and is to be deleted, is needed by a row that is left -/
def Blocks (done : List Policy) (p : Policy) : Prop :=
  p.action ≠ "anonymize" ∧ ∃ c ∈ db.cases, reachesCase cfg db exclude p c = true ∧
    (∀ q ∈ done, reachesCase cfg db exclude q c = false) ∧
    (c.id ∈ db.referenced ∨
      ∃ r ∈ db.auditLog, r.caseId = c.id ∧ ∀ q ∈ done, reachesAudit cfg db q r = false)

end

section
variable {cfg : Config} {db s s' : Db} {exclude : String → List Uuid} {done : List Policy}
  {p : Policy}

theorem Left.start (hids : (db.cases.map (·.id)).Nodup) : Left cfg db exclude [] db :=
  ⟨(List.filter_true _).symm, hids, (List.filter_true _).symm, (List.filter_true _).symm, rfl, rfl,
    rfl⟩

theorem dueCase_congr (h : s.holds = db.holds) : dueCase s = dueCase db := by
  funext cut scope ex c
  simp only [dueCase, h]

theorem dueLogged_congr (h : s.holds = db.holds) : dueLogged s = dueLogged db := by
  funext cut caseId timestamp
  simp only [dueLogged, h]

theorem reachesCase_congr (hholds : s.holds = db.holds) (htenants : s.tenants = db.tenants)
    (q : Policy) : reachesCase cfg s exclude q = reachesCase cfg db exclude q := by
  funext c
  rw [reachesCase, reachesCase, runs_congr htenants, dueCase_congr hholds,
    resolveTenant_congr htenants]

theorem Left.reachesCase_eq (h : Left cfg db exclude done s) (q : Policy) :
    reachesCase cfg s exclude q = reachesCase cfg db exclude q :=
  reachesCase_congr h.holds h.tenants q

theorem Left.reachesAudit_eq (h : Left cfg db exclude done s) (q : Policy) :
    reachesAudit cfg s q = reachesAudit cfg db q := by
  funext r
  rw [reachesAudit, reachesAudit, runs_congr h.tenants, dueLogged_congr h.holds]

theorem Left.reachesEvent_eq (h : Left cfg db exclude done s) (q : Policy) :
    reachesEvent cfg s q = reachesEvent cfg db q := by
  funext e
  rw [reachesEvent, reachesEvent, runs_congr h.tenants, dueLogged_congr h.holds]

theorem Left.reachesSecurity_eq (h : Left cfg db exclude done s) (q : Policy) :
    reachesSecurity cfg s q = reachesSecurity cfg db q := by
  funext e
  rw [reachesSecurity, reachesSecurity, runs_congr h.tenants]

theorem filter_all_append {α : Type} (f : Policy → α → Bool) (xs : List α) (done : List Policy)
    (p : Policy) :
    (xs.filter fun x => (done ++ [p]).all (!f · x)) =
      (xs.filter fun x => done.all (!f · x)).filter (!f p ·) := by
  rw [List.filter_filter]
  refine List.filter_congr fun x _ => ?_
  rw [List.all_append, Bool.and_comm]
  simp

theorem Left.step (h : Left cfg db exclude done s) (hsw : Swept cfg exclude p s s') :
    Left cfg db exclude (done ++ [p]) s' where
  cases := by
    rw [hsw.cases, h.cases, h.reachesCase_eq, filter_all_append]
  ids := h.ids.sublist hsw.ids
  auditLog := by
    rw [hsw.auditLog, h.auditLog, h.reachesAudit_eq, filter_all_append]
  securityEvents := by
    rw [hsw.securityEvents, h.securityEvents, h.reachesSecurity_eq, filter_all_append]
  holds := hsw.holds.trans h.holds
  tenants := hsw.tenants.trans h.tenants
  referenced := hsw.referenced.trans h.referenced

theorem Left.skip (h : Left cfg db exclude done s) (hp : p.runs db = false) :
    Left cfg db exclude (done ++ [p]) s where
  cases := by
    rw [h.cases, filter_all_append]
    simp [reachesCase, hp]
  ids := h.ids
  auditLog := by
    rw [h.auditLog, filter_all_append]
    simp [reachesAudit, hp]
  securityEvents := by
    rw [h.securityEvents, filter_all_append]
    simp [reachesSecurity, hp]
  holds := h.holds
  tenants := h.tenants
  referenced := h.referenced

theorem Left.mem_cases_iff (h : Left cfg db exclude done s) {c : Case} (hc : stale cfg c = true) :
    c ∈ s.cases ↔ c ∈ db.cases ∧ ∀ q ∈ done, reachesCase cfg db exclude q c = false := by
  have hmem : c ∈ s.cases.filter (stale cfg) ↔ c ∈ s.cases := by
    rw [List.mem_filter]
    exact and_iff_left hc
  rw [← hmem, h.cases, List.mem_filter, List.mem_filter, List.all_eq_true]
  simp only [hc, and_true, Bool.not_eq_true']

theorem Left.mem_auditLog_iff (h : Left cfg db exclude done s) {r : AuditRow} :
    r ∈ s.auditLog ↔ r ∈ db.auditLog ∧ ∀ q ∈ done, reachesAudit cfg db q r = false := by
  rw [h.auditLog, List.mem_filter, List.all_eq_true]
  simp only [Bool.not_eq_true']

theorem Left.blocked_iff (h : Left cfg db exclude done s) :
    blocked cfg s exclude p = true ↔ Blocks cfg db exclude done p := by
  unfold blocked Blocks
  rw [Bool.and_eq_true, decide_eq_true_eq, List.any_eq_true]
  refine and_congr_right fun _ => exists_congr fun c => ?_
  rw [h.reachesCase_eq, h.referenced, Bool.and_eq_true, Bool.or_eq_true, List.any_eq_true,
    decide_eq_true_eq]
  simp only [h.mem_auditLog_iff, decide_eq_true_eq]
  constructor
  · intro hc
    obtain ⟨hc, hr, hneeded⟩ := hc
    obtain ⟨hc, hspared⟩ := (h.mem_cases_iff (stale_of_reachesCase hr)).mp hc
    refine ⟨hc, hr, hspared, hneeded.symm.imp_right fun hrow => ?_⟩
    obtain ⟨r, ⟨hr, hall⟩, hid⟩ := hrow
    exact ⟨r, hr, hid, hall⟩
  · intro hc
    obtain ⟨hc, hr, hspared, hneeded⟩ := hc
    refine ⟨(h.mem_cases_iff (stale_of_reachesCase hr)).mpr ⟨hc, hspared⟩, hr,
      hneeded.symm.imp_left fun hrow => ?_⟩
    obtain ⟨r, hr, hid, hall⟩ := hrow
    exact ⟨r, ⟨hr, hall⟩, hid⟩

end

end Retention
