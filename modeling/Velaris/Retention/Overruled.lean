import Velaris.Base.Run
import Velaris.Base.Table
import Velaris.Base.Traverse
import Velaris.Retention.Store
import Mathlib.Tactic.SplitIfs

/-!
# Defaults that overrule a tenant's own policy

* `Own`   an enabled policy of a tenant's own, for a resource;
* `Allowed`   a row of a tenant that has such a policy goes only where one of them covers it;
* `Respects`   what a policy makes of the tables, every row that goes being allowed;
* `Defers`   the policy reaches no row that is not allowed to go.

`respected_iff`: a run respects the tenants' own policies exactly where each of its policies defers
to them.  Only the cases are told by their tenant.
-/

namespace Retention
open Py Base LegalHold

/-! ## what is to hold -/

section
variable (cfg : Config) (db : Db) (policies : List Policy)

def Own (tenant : Uuid) (resource : String) (p : Policy) : Prop :=
  p ∈ policies ∧ p.enabled = true ∧ p.resourceType = resource ∧
    p.scoped.bind (resolveTenant db) = some tenant

def Allowed (tenant : Option Uuid) (resource : String) (covers : Policy → Prop) : Prop :=
  ∀ t, tenant = some t → (∃ p, Own db policies t resource p) →
    ∃ p, Own db policies t resource p ∧ covers p

def Db.tenantOf (caseId : Uuid) : Option Uuid :=
  (db.cases.find? fun c => c.id = caseId).bind (·.tenantId)

def Policy.deletes (p : Policy) : Prop := p.action = "archive" ∨ p.action = "delete"

def Policy.coversRow (timestamp : Int) (p : Policy) : Prop :=
  p.deletes ∧ timestamp < cutoffOf cfg.now p.retentionDays

def Policy.coversDelete (c : Case) (p : Policy) : Prop :=
  p.deletes ∧ c.status ∈ terminal ∧ c.updatedAt < cutoffOf cfg.now p.retentionDays

def Policy.coversAnonymize (c : Case) (p : Policy) : Prop :=
  p.action = "anonymize" ∧ c.status ∈ terminal ∧ c.updatedAt < cutoffOf cfg.now p.retentionDays

def Db.hasCase (caseId : Uuid) : Prop := ∃ c ∈ db.cases, c.id = caseId

variable (userTenant : String → Option Uuid)

/-- from `s` to `s'`; a security event is its user's, and what goes with its case is the case's -/
structure Respects (s s' : Db) : Prop where
  deleted : ∀ c ∈ s.cases, ¬ s'.hasCase c.id →
    Allowed db policies c.tenantId "resolved_cases" (Policy.coversDelete cfg c)
  anonymized : ∀ c ∈ s.cases, c ∉ s'.cases → s'.hasCase c.id →
    Allowed db policies c.tenantId "resolved_cases" (Policy.coversAnonymize cfg c)
  texts : ∀ t ∈ s.texts, t ∉ s'.texts → ∀ c ∈ s.cases, c.id = t.caseId → s'.hasCase c.id →
    Allowed db policies c.tenantId "resolved_cases" (Policy.coversAnonymize cfg c)
  auditLog : ∀ r ∈ s.auditLog, r ∉ s'.auditLog →
    Allowed db policies (s.tenantOf r.caseId) "audit_log" (Policy.coversRow cfg r.timestamp)
  eventLog : ∀ e ∈ s.eventLog, e ∉ s'.eventLog →
    Allowed db policies (s.tenantOf e.caseId) "event_log" (Policy.coversRow cfg e.timestamp)
  securityEvents : ∀ e ∈ s.securityEvents, e ∉ s'.securityEvents →
    Allowed db policies (e.userId.bind userTenant) "security_events"
      (Policy.coversRow cfg e.timestamp)

/-! ## policies that defer -/

def Policy.runs (p : Policy) : Bool :=
  p.enabled && (p.scoped.all fun token => (resolveTenant db token).isSome) &&
    if p.action = "anonymize" then p.resourceType = "resolved_cases"
    else
      p.action ∈ ["archive", "delete"] &&
        p.resourceType ∈ ["resolved_cases", "audit_log", "event_log", "security_events"] &&
        !(p.scoped.isSome && p.resourceType ∈ unscopable)

/-- what the policy reaches in the state `s`; its cases take their events with them -/
def Defers (exclude : List Uuid) (s : Db) (p : Policy) : Prop :=
  p.runs db → p.deletes →
    (p.resourceType = "audit_log" → ∀ r ∈ s.auditLog,
      dueLogged s (cutoffOf cfg.now p.retentionDays) r.caseId r.timestamp →
        Allowed db policies (s.tenantOf r.caseId) "audit_log" (Policy.coversRow cfg r.timestamp)) ∧
    (p.resourceType = "event_log" → ∀ e ∈ s.eventLog,
      dueLogged s (cutoffOf cfg.now p.retentionDays) e.caseId e.timestamp →
        Allowed db policies (s.tenantOf e.caseId) "event_log" (Policy.coversRow cfg e.timestamp)) ∧
    (p.resourceType = "security_events" → ∀ e ∈ s.securityEvents,
      e.timestamp < cutoffOf cfg.now p.retentionDays →
        Allowed db policies (e.userId.bind userTenant) "security_events"
          (Policy.coversRow cfg e.timestamp)) ∧
    (p.resourceType = "resolved_cases" → ∀ c ∈ s.cases,
      dueCase s (cutoffOf cfg.now p.retentionDays) (p.scoped.bind (resolveTenant db)) exclude c →
        ∀ e ∈ s.eventLog, e.caseId = c.id →
          Allowed db policies (s.tenantOf e.caseId) "event_log" (Policy.coversRow cfg e.timestamp))

end

/-! ## what a policy does -/

section
variable {R : Runtime} {cfg : Config} {s : Db} {p : Policy} {exclude : List Uuid}

theorem scopeOf_ok {scope : Option Uuid} (h : scopeOf R s p = .ok scope) :
    scope = p.scoped.bind (resolveTenant s) ∧
      (p.scoped.all fun token => (resolveTenant s token).isSome) = true := by
  rw [scopeOf] at h
  cases hp : p.scoped with
  | none =>
    rw [hp] at h
    cases h
    exact ⟨rfl, rfl⟩
  | some token =>
    rw [hp] at h
    cases ht : resolveTenant s token with
    | none =>
      simp only [ht] at h
      cases h
    | some tenant =>
      simp only [ht] at h
      cases h
      exact ⟨by rw [Option.bind_some, ht], by rw [Option.all_some, ht, Option.isSome_some]⟩

theorem cutoff_ok {days c : Int} (h : cutoff cfg days = .ok c) : c = cutoffOf cfg.now days := by
  rw [cutoff] at h
  split at h
  · cases h
  · exact (Except.ok.inj h).symm

/-- what a policy leaves of the tables, where it is carried out -/
inductive Leaves (R : Runtime) (cfg : Config) (exclude : List Uuid) (p : Policy) (s : Db) :
    Db → Prop
  | disabled (h : p.enabled = false) : Leaves R cfg exclude p s s
  | anonymized (hruns : p.runs s = true) (ha : p.action = "anonymize") :
      Leaves R cfg exclude p s
        (anonymizeCases R cfg s (cutoffOf cfg.now p.retentionDays) true
          (p.scoped.bind (resolveTenant s)) exclude).1
  | deleted (hruns : p.runs s = true) (hd : p.deletes) {handler : Handler} {n : Nat} {s' : Db}
      (hhandler : handlers s p.resourceType = some handler)
      (hok : handler (cutoffOf cfg.now p.retentionDays) true (p.scoped.bind (resolveTenant s))
        exclude = .ok (s', n)) : Leaves R cfg exclude p s s'

theorem handlers_mem {resource : String} {handler : Handler}
    (h : handlers s resource = some handler) :
    resource ∈ ["resolved_cases", "audit_log", "event_log", "security_events"] := by
  unfold handlers at h
  split at h
  · decide
  · decide
  · decide
  · decide
  · cases h

theorem applyPolicy_ok {s' : Db} {result : PolicyResult}
    (h : applyPolicy R cfg s p true exclude = .ok (s', result)) :
    Leaves R cfg exclude p s s' := by
  rw [applyPolicy] at h
  split at h
  · next hdis =>
    cases h
    exact .disabled (by simpa using hdis)
  · next hen =>
    have henabled : p.enabled = true := by simpa using hen
    split at h
    · cases h
    · next hact =>
      split at h
      · next hanon =>
        split at h
        · cases h
        · next hres =>
          obtain ⟨c, hc, h⟩ := exists_of_bind_ok h
          obtain ⟨scope, hscope, h⟩ := exists_of_bind_ok h
          obtain ⟨rfl, hall⟩ := scopeOf_ok hscope
          obtain rfl := cutoff_ok hc
          cases h
          apply Leaves.anonymized _ hanon
          rw [Policy.runs, henabled, hall, if_pos hanon]
          simpa using hres
      · next hanon =>
        split at h
        · cases h
        · next hscopable =>
          split at h
          · cases h
          · next handler hhandler =>
            obtain ⟨c, hc, h⟩ := exists_of_bind_ok h
            obtain ⟨scope, hscope, h⟩ := exists_of_bind_ok h
            obtain ⟨⟨db', n⟩, hok, h⟩ := exists_of_bind_ok h
            obtain ⟨rfl, hall⟩ := scopeOf_ok hscope
            obtain rfl := cutoff_ok hc
            cases h
            have hd : p.deletes := by
              have hmem : p.action ∈ ["archive", "delete", "anonymize"] := not_not.mp hact
              simp only [List.mem_cons, List.not_mem_nil, or_false, hanon] at hmem
              exact hmem
            apply Leaves.deleted _ hd hhandler hok
            rw [Policy.runs, henabled, hall, if_neg hanon]
            have hres := handlers_mem hhandler
            have hsc : (p.scoped.isSome && p.resourceType ∈ unscopable) = false := by
              simpa using hscopable
            rw [hsc]
            have hact' : p.action ∈ ["archive", "delete"] := by
              simpa [Policy.deletes] using hd
            rw [decide_eq_true hres, decide_eq_true hact']
            rfl

theorem scopeOf_of_all
    (h : (p.scoped.all fun token => (resolveTenant s token).isSome) = true) :
    scopeOf R s p = .ok (p.scoped.bind (resolveTenant s)) := by
  rw [scopeOf]
  cases hp : p.scoped with
  | none => rfl
  | some token =>
    rw [hp, Option.all_some] at h
    obtain ⟨tenant, ht⟩ := Option.isSome_iff_exists.mp h
    simp only [ht, Option.bind_some]

theorem cutoff_ne_refused {days : Int} {message : String} :
    cutoff cfg days ≠ .error (.refused message) := by
  intro h
  rw [cutoff] at h
  split at h <;> cases h

theorem handler_ne_refused {resource : String} {handler : Handler} {c : Int} {apply : Bool}
    {scope : Option Uuid} {message : String} (h : handlers s resource = some handler) :
    handler c apply scope exclude ≠ .error (.refused message) := by
  intro hr
  unfold handlers at h
  split at h
  · cases h
    rw [resolvedCases] at hr
    split at hr
    · rw [deleteCases] at hr
      split at hr <;> cases hr
    · cases hr
  · cases h
    cases hr
  · cases h
    cases hr
  · cases h
    cases hr
  · cases h

theorem runs_of_refused {message : String}
    (h : applyPolicy R cfg s p true exclude = .error (.refused message)) : p.runs s = false := by
  by_contra hruns
  rw [Bool.not_eq_false, Policy.runs, Bool.and_eq_true, Bool.and_eq_true] at hruns
  obtain ⟨⟨hen, hall⟩, hres⟩ := hruns
  rw [applyPolicy, hen, Bool.not_true, if_neg Bool.false_ne_true] at h
  by_cases hanon : p.action = "anonymize"
  · rw [if_pos hanon, decide_eq_true_eq] at hres
    rw [if_neg (by rw [hanon]; decide), if_pos hanon, if_neg (not_not.mpr hres),
      scopeOf_of_all hall] at h
    cases hc : cutoff cfg p.retentionDays with
    | error e =>
      rw [hc] at h
      cases h
      exact cutoff_ne_refused hc
    | ok c =>
      rw [hc] at h
      cases h
  · rw [if_neg hanon, Bool.and_eq_true, Bool.and_eq_true, decide_eq_true_eq, decide_eq_true_eq,
      Bool.not_eq_true'] at hres
    obtain ⟨⟨hact, hmem⟩, hsc⟩ := hres
    have hact' : p.action ∈ ["archive", "delete", "anonymize"] := by
      simp only [List.mem_cons, List.not_mem_nil, or_false] at hact ⊢
      exact hact.imp_right .inl
    rw [if_neg (not_not.mpr hact'), if_neg hanon, if_neg (by rw [hsc]; decide)] at h
    cases hh : handlers s p.resourceType with
    | none =>
      simp only [List.mem_cons, List.not_mem_nil, or_false] at hmem
      obtain hr | hr | hr | hr := hmem <;> rw [hr] at hh <;> cases hh
    | some handler =>
      simp only [hh, scopeOf_of_all hall] at h
      cases hc : cutoff cfg p.retentionDays with
      | error e =>
        rw [hc] at h
        cases h
        exact cutoff_ne_refused hc
      | ok c =>
        rw [hc] at h
        cases hr : handler c true (p.scoped.bind (resolveTenant s)) exclude with
        | error e =>
          simp only [bind, Except.bind, hr] at h
          cases h
          exact handler_ne_refused hh hr
        | ok result =>
          simp only [bind, Except.bind, hr] at h
          cases h

end

/-! ## what a policy respects -/

section
variable {R : Runtime} {cfg : Config} {db s s' : Db} {policies : List Policy}
  {userTenant : String → Option Uuid} {p : Policy} {exclude : List Uuid}

theorem resolveTenant_congr (h : s.tenants = db.tenants) : resolveTenant s = resolveTenant db := by
  funext token
  rw [resolveTenant, resolveTenant, h]

theorem runs_congr (h : s.tenants = db.tenants) : p.runs s = p.runs db := by
  rw [Policy.runs, Policy.runs, resolveTenant_congr h]

theorem Respects.refl : Respects cfg db policies userTenant s s where
  deleted c hc hgone := absurd ⟨c, hc, rfl⟩ hgone
  anonymized _ hc hno _ := absurd hc hno
  texts _ ht hno _ _ _ _ := absurd ht hno
  auditLog _ hr hno := absurd hr hno
  eventLog _ he hno := absurd he hno
  securityEvents _ he hno := absurd he hno

theorem dueCase_iff {c : Case} {cut : Int} {scope : Option Uuid} :
    dueCase s cut scope exclude c = true ↔
      ((c.status ∈ terminal ∧ c.updatedAt < cut) ∧ inScope scope exclude c.tenantId = true) ∧
        held s.holds c.id = false := by
  rw [dueCase, Bool.and_eq_true, Bool.and_eq_true, Bool.and_eq_true, decide_eq_true_eq,
    decide_eq_true_eq, Bool.not_eq_true']

theorem allowed_of_dueCase {c : Case} {cut : Int} {covers : Policy → Prop} (hp : p ∈ policies)
    (hruns : p.runs db = true) (hres : p.resourceType = "resolved_cases")
    (hexclude : p.scoped = none → ∀ t q, Own db policies t "resolved_cases" q → t ∈ exclude)
    (hdue : dueCase s cut (p.scoped.bind (resolveTenant db)) exclude c = true)
    (hcovers : covers p) : Allowed db policies c.tenantId "resolved_cases" covers := by
  intro t ht hown
  obtain ⟨q, hq⟩ := hown
  have hscope := (dueCase_iff.mp hdue).1.2
  rw [Policy.runs, Bool.and_eq_true, Bool.and_eq_true] at hruns
  obtain ⟨⟨hen, hall⟩, -⟩ := hruns
  rw [ht] at hscope
  cases hs : p.scoped with
  | none =>
    rw [hs, Option.bind_none, inScope, notOverridden, Option.all_some, decide_eq_true_eq] at hscope
    exact absurd (hexclude hs t q hq) hscope
  | some token =>
    rw [hs, Option.all_some] at hall
    obtain ⟨t', ht'⟩ := Option.isSome_iff_exists.mp hall
    rw [hs, Option.bind_some, ht', inScope, decide_eq_true_eq, Option.some_inj] at hscope
    refine ⟨p, ⟨hp, hen, hres, ?_⟩, hcovers⟩
    rw [hs, Option.bind_some, ht', hscope]

theorem deletes_ne_anonymize (hd : p.deletes) : p.action ≠ "anonymize" := by
  intro ha
  rw [Policy.deletes, ha] at hd
  revert hd
  decide

/-! ### anonymizing -/

theorem scrubbed_id (c : Case) : (c.scrubbed R cfg).id = c.id := by
  simp only [Case.scrubbed, Case.textAnonymized, Case.anonymized, Case.stripped]
  split_ifs <;> rfl

theorem mem_texts_of_not_reached {ids ids' : List Uuid} {t : CaseText} {texts : List CaseText}
    (ht : t ∈ texts) (h : t.caseId ∉ ids) (h' : t.caseId ∉ ids') :
    t ∈ anonymizeCaseText ids' (dropDerived ids texts) := by
  apply List.mem_map.mpr
  refine ⟨t, ?_, if_neg h'⟩
  apply List.mem_map.mpr
  refine ⟨t, ?_, ?_⟩
  · rw [List.mem_filter]
    exact ⟨ht, by simp [h]⟩
  · rw [if_neg]
    simp [h]

theorem respects_anonymized (hids : (s.cases.map (·.id)).Nodup) (hp : p ∈ policies)
    (hruns : p.runs db = true) (ha : p.action = "anonymize")
    (hexclude : p.scoped = none → ∀ t q, Own db policies t "resolved_cases" q → t ∈ exclude) :
    Respects cfg db policies userTenant s
      (anonymizeCases R cfg s (cutoffOf cfg.now p.retentionDays) true
        (p.scoped.bind (resolveTenant db)) exclude).1 := by
  have hres : p.resourceType = "resolved_cases" := by
    rw [Policy.runs, Bool.and_eq_true, if_pos ha, decide_eq_true_eq] at hruns
    exact hruns.2
  have hallowed : ∀ c ∈ s.cases, dueCase s (cutoffOf cfg.now p.retentionDays)
      (p.scoped.bind (resolveTenant db)) exclude c = true →
        Allowed db policies c.tenantId "resolved_cases" (Policy.coversAnonymize cfg c) := by
    intro c _ hdue
    have hcovers := (dueCase_iff.mp hdue).1.1
    exact allowed_of_dueCase hp hruns hres hexclude hdue ⟨ha, hcovers⟩
  constructor
  · intro c hc hgone
    refine absurd ⟨_, List.mem_map_of_mem hc, ?_⟩ hgone
    show (if _ then c.scrubbed R cfg else c).id = c.id
    split
    · exact scrubbed_id c
    · rfl
  · intro c hc hno _
    apply hallowed c hc
    by_contra hdue
    apply hno
    refine List.mem_map.mpr ⟨c, hc, ?_⟩
    rw [if_neg]
    rw [Bool.and_eq_true]
    exact fun h => hdue h.1
  · intro t ht hno c hc hct _
    apply hallowed c hc
    by_contra hdue
    apply hno
    have hnot : ∀ q : Case → Bool, t.caseId ∉
        ((s.cases.filter (dueCase s (cutoffOf cfg.now p.retentionDays)
          (p.scoped.bind (resolveTenant db)) exclude)).filter q).map (·.id) := by
      intro q hmem
      obtain ⟨c', hc', hid⟩ := List.mem_map.mp hmem
      obtain ⟨hc', -⟩ := List.mem_filter.mp hc'
      obtain ⟨hc', hdue'⟩ := List.mem_filter.mp hc'
      rw [List.inj_on_of_nodup_map hids hc hc' (hct.trans hid.symm)] at hdue
      exact hdue hdue'
    exact mem_texts_of_not_reached ht (hnot _) (hnot _)
  · intro r hr hno
    exact absurd hr hno
  · intro e he hno
    exact absurd he hno
  · intro e he hno
    exact absurd he hno

/-! ### deleting -/

theorem mem_filter_not {α : Type} {due : α → Bool} {rows : List α} {r : α} (hr : r ∈ rows) :
    r ∉ rows.filter (!due ·) ↔ due r = true := by
  rw [List.mem_filter, not_and]
  constructor
  · intro h
    have hno := h hr
    rw [Bool.not_eq_true', Bool.not_eq_false] at hno
    exact hno
  · intro hdue _
    rw [hdue]
    decide

theorem respects_auditLog_iff (hres : p.resourceType = "audit_log") (hruns : p.runs db = true)
    (hd : p.deletes) : Respects cfg db policies userTenant s { s with
      auditLog := s.auditLog.filter fun r =>
        !dueLogged s (cutoffOf cfg.now p.retentionDays) r.caseId r.timestamp } ↔
      Defers cfg db policies userTenant exclude s p := by
  constructor
  · intro h _ _
    rw [hres]
    refine ⟨fun _ r hr hdue => ?_, fun he => absurd he (by decide), fun he => absurd he (by decide),
      fun he => absurd he (by decide)⟩
    exact h.auditLog r hr ((mem_filter_not hr).mpr hdue)
  · intro h
    obtain ⟨haudit, -⟩ := h hruns hd
    have hsame : Respects cfg db policies userTenant s s := Respects.refl
    refine { hsame with auditLog := fun r hr hno => ?_ }
    exact haudit hres r hr ((mem_filter_not hr).mp hno)

theorem respects_eventLog_iff (hres : p.resourceType = "event_log") (hruns : p.runs db = true)
    (hd : p.deletes) : Respects cfg db policies userTenant s { s with
      eventLog := s.eventLog.filter fun e =>
        !dueLogged s (cutoffOf cfg.now p.retentionDays) e.caseId e.timestamp } ↔
      Defers cfg db policies userTenant exclude s p := by
  constructor
  · intro h _ _
    rw [hres]
    refine ⟨fun he => absurd he (by decide), fun _ e he hdue => ?_, fun he => absurd he (by decide),
      fun he => absurd he (by decide)⟩
    exact h.eventLog e he ((mem_filter_not he).mpr hdue)
  · intro h
    obtain ⟨-, hevent, -⟩ := h hruns hd
    have hsame : Respects cfg db policies userTenant s s := Respects.refl
    refine { hsame with eventLog := fun e he hno => ?_ }
    exact hevent hres e he ((mem_filter_not he).mp hno)

theorem respects_securityEvents_iff (hres : p.resourceType = "security_events")
    (hruns : p.runs db = true) (hd : p.deletes) :
    Respects cfg db policies userTenant s { s with
      securityEvents := s.securityEvents.filter fun e =>
        !decide (e.timestamp < cutoffOf cfg.now p.retentionDays) } ↔
      Defers cfg db policies userTenant exclude s p := by
  constructor
  · intro h _ _
    rw [hres]
    refine ⟨fun he => absurd he (by decide), fun he => absurd he (by decide), fun _ e he hdue => ?_,
      fun he => absurd he (by decide)⟩
    exact h.securityEvents e he ((mem_filter_not he).mpr (decide_eq_true hdue))
  · intro h
    obtain ⟨-, -, hsecurity, -⟩ := h hruns hd
    have hsame : Respects cfg db policies userTenant s s := Respects.refl
    refine { hsame with securityEvents := fun e he hno => ?_ }
    exact hsecurity hres e he (of_decide_eq_true ((mem_filter_not he).mp hno))

theorem respects_resolvedCases_iff (hids : (s.cases.map (·.id)).Nodup) (hp : p ∈ policies)
    (hres : p.resourceType = "resolved_cases") (hruns : p.runs db = true) (hd : p.deletes)
    (hexclude : p.scoped = none → ∀ t q, Own db policies t "resolved_cases" q → t ∈ exclude)
    (hok : deleteCases s ((s.cases.filter (dueCase s (cutoffOf cfg.now p.retentionDays)
      (p.scoped.bind (resolveTenant db)) exclude)).map (·.id)) = .ok s') :
    Respects cfg db policies userTenant s s' ↔
      Defers cfg db policies userTenant exclude s p := by
  set due := dueCase s (cutoffOf cfg.now p.retentionDays) (p.scoped.bind (resolveTenant db)) exclude
  have hgone : ∀ id, id ∈ (s.cases.filter due).map (·.id) ↔
      ∃ c ∈ s.cases, due c = true ∧ c.id = id := by
    intro id
    simp only [List.mem_map, List.mem_filter, and_assoc]
  rw [deleteCases] at hok
  split at hok
  · cases hok
  obtain rfl := (Except.ok.inj hok).symm
  have hhas : ∀ c ∈ s.cases, c.id ∉ (s.cases.filter due).map (·.id) →
      c ∈ s.cases.filter (·.id ∉ (s.cases.filter due).map (·.id)) := fun c hc hno =>
    List.mem_filter.mpr ⟨hc, decide_eq_true hno⟩
  constructor
  · intro h _ _
    rw [hres]
    refine ⟨fun he => absurd he (by decide), fun he => absurd he (by decide),
      fun he => absurd he (by decide), fun _ c hc hdue e he hec => ?_⟩
    apply h.eventLog e he
    intro hmem
    have hkept := of_decide_eq_true (List.mem_filter.mp hmem).2
    exact hkept ((hgone _).mpr ⟨c, hc, hdue, hec.symm⟩)
  · intro h
    obtain ⟨-, -, -, hcases⟩ := h hruns hd
    constructor
    · intro c hc hno
      have hdue : due c = true := by
        by_contra hdue
        apply hno
        refine ⟨c, hhas c hc ?_, rfl⟩
        intro hmem
        obtain ⟨c', hc', hdue', hid⟩ := (hgone _).mp hmem
        rw [List.inj_on_of_nodup_map hids hc' hc hid] at hdue'
        exact hdue hdue'
      exact allowed_of_dueCase hp hruns hres hexclude hdue ⟨hd, (dueCase_iff.mp hdue).1.1⟩
    · intro c hc hno hhasCase
      obtain ⟨c', hc', hid⟩ := hhasCase
      have heq := List.inj_on_of_nodup_map hids (List.mem_filter.mp hc').1 hc hid
      rw [heq] at hc'
      exact absurd hc' hno
    · intro t ht hno c _ hct hhasCase
      obtain ⟨c', hc', hid⟩ := hhasCase
      have hkept := of_decide_eq_true (List.mem_filter.mp hc').2
      refine absurd (List.mem_filter.mpr ⟨ht, ?_⟩) hno
      rw [← hct, ← hid, decide_eq_true hkept, Bool.or_true]
    · intro r hr hno
      exact absurd hr hno
    · intro e he hno
      have hmem : e.caseId ∈ (s.cases.filter due).map (·.id) := by
        by_contra hkept
        exact hno (List.mem_filter.mpr ⟨he, decide_eq_true hkept⟩)
      obtain ⟨c, hc, hdue, hid⟩ := (hgone _).mp hmem
      exact hcases hres c hc hdue e he hid.symm
    · intro e he hno
      exact absurd he hno

/-! ## runs -/

theorem respects_iff_of_leaves (hleaves : Leaves R cfg exclude p s s')
    (hids : (s.cases.map (·.id)).Nodup) (htenants : s.tenants = db.tenants) (hp : p ∈ policies)
    (hexclude : p.scoped = none → ∀ t q, Own db policies t p.resourceType q → t ∈ exclude) :
    Respects cfg db policies userTenant s s' ↔ Defers cfg db policies userTenant exclude s p := by
  have hscope := resolveTenant_congr htenants
  cases hleaves with
  | disabled hdis =>
    refine iff_of_true Respects.refl fun hruns => ?_
    rw [Policy.runs, hdis] at hruns
    cases hruns
  | anonymized hruns ha =>
    rw [runs_congr htenants] at hruns
    have hres : p.resourceType = "resolved_cases" := by
      rw [Policy.runs, Bool.and_eq_true, if_pos ha, decide_eq_true_eq] at hruns
      exact hruns.2
    rw [hscope]
    rw [hres] at hexclude
    exact iff_of_true (respects_anonymized hids hp hruns ha hexclude)
      fun _ hd => absurd ha (deletes_ne_anonymize hd)
  | @deleted hruns hd handler n s' hhandler hok =>
    rw [runs_congr htenants] at hruns
    rw [hscope] at hok
    have hres := handlers_mem hhandler
    simp only [List.mem_cons, List.not_mem_nil, or_false] at hres
    obtain hres | hres | hres | hres := hres
    · rw [hres] at hhandler hexclude
      obtain rfl := Option.some.inj hhandler
      obtain ⟨db', hdb', heq⟩ := exists_of_map_ok hok
      obtain ⟨rfl, -⟩ := Prod.mk.inj heq
      exact respects_resolvedCases_iff hids hp hres hruns hd hexclude hdb'
    · rw [hres] at hhandler
      obtain rfl := Option.some.inj hhandler
      obtain ⟨rfl, -⟩ := Prod.mk.inj (Except.ok.inj hok)
      exact respects_auditLog_iff hres hruns hd
    · rw [hres] at hhandler
      obtain rfl := Option.some.inj hhandler
      obtain ⟨rfl, -⟩ := Prod.mk.inj (Except.ok.inj hok)
      exact respects_eventLog_iff hres hruns hd
    · rw [hres] at hhandler
      obtain rfl := Option.some.inj hhandler
      obtain ⟨rfl, -⟩ := Prod.mk.inj (Except.ok.inj hok)
      exact respects_securityEvents_iff hres hruns hd

theorem leaves_keeps (hleaves : Leaves R cfg exclude p s s') (hids : (s.cases.map (·.id)).Nodup) :
    s'.tenants = s.tenants ∧ (s'.cases.map (·.id)).Nodup := by
  cases hleaves with
  | disabled _ => exact ⟨rfl, hids⟩
  | anonymized _ _ =>
    refine ⟨rfl, ?_⟩
    show ((s.cases.map _).map Case.id).Nodup
    rw [List.map_map]
    have hsame : ∀ due : Case → Bool, (Case.id ∘ fun c =>
        if due c && c.isTouched cfg then c.scrubbed R cfg else c) = Case.id := fun due => by
      funext c
      show (if _ then c.scrubbed R cfg else c).id = c.id
      split
      · exact scrubbed_id c
      · rfl
    rw [hsame]
    exact hids
  | @deleted _ _ handler n s' hhandler hok =>
    unfold handlers at hhandler
    split at hhandler
    · cases hhandler
      obtain ⟨db', hdb', heq⟩ := exists_of_map_ok hok
      obtain ⟨rfl, -⟩ := Prod.mk.inj heq
      rw [deleteCases] at hdb'
      split at hdb'
      · cases hdb'
      · cases hdb'
        exact ⟨rfl, hids.sublist (List.filter_sublist.map _)⟩
    · cases hhandler
      cases hok
      exact ⟨rfl, hids⟩
    · cases hhandler
      cases hok
      exact ⟨rfl, hids⟩
    · cases hhandler
      cases hok
      exact ⟨rfl, hids⟩
    · cases hhandler

end

section
variable (R : Runtime) (cfg : Config) (db : Db) (policies : List Policy)
  (userTenant : String → Option Uuid)

/-- the policies of a run, and the tenants that a default is to leave alone in it -/
def selected (caller : Option String) : List Policy :=
  policies.filter fun p => (caller.filter (· ≠ "")).all fun t => p.tenantId = some t

def excluded (caller : Option String) : String → List Uuid :=
  overrides db (caller.filter (· ≠ "")) policies

def applied (exclude : String → List Uuid) (s : Db) (p : Policy) : Db :=
  match applyPolicy R cfg s p true (exclude p.resourceType) with
  | .ok (s', _) => s'
  | .error _ => s

theorem mem_excluded {caller : Option String} {p : Policy} (hp : p ∈ selected policies caller)
    (hdefault : p.scoped = none) {t : Uuid} {q : Policy}
    (hq : Own db policies t p.resourceType q) : t ∈ excluded db policies caller p.resourceType := by
  obtain ⟨-, hcaller⟩ := List.mem_filter.mp hp
  cases hc : caller.filter (· ≠ "") with
  | some t' =>
    rw [hc, Option.all_some, decide_eq_true_eq] at hcaller
    have hne := (Option.filter_eq_some_iff.mp hc).2
    rw [Policy.scoped, hcaller, Option.filter_some, if_pos hne] at hdefault
    cases hdefault
  | none =>
    obtain ⟨hmem, hen, hres, hscope⟩ := hq
    rw [excluded, hc, overrides, if_neg (by decide)]
    apply List.mem_filterMap.mpr
    refine ⟨q, hmem, ?_⟩
    rw [if_pos (by rw [hen, hres]; simp)]
    exact hscope

variable {R cfg db policies}

theorem along_iff {exclude : String → List Uuid} {ps : List Policy} (hps : ∀ p ∈ ps, p ∈ policies)
    (hexclude : ∀ p ∈ ps, p.scoped = none →
      ∀ t q, Own db policies t p.resourceType q → t ∈ exclude p.resourceType)
    {s : Db} (hids : (s.cases.map (·.id)).Nodup) (htenants : s.tenants = db.tenants)
    {out : Db × List PolicyResult} (h : runPolicies R cfg true exclude ps s = .ok out) :
    exec (applied R cfg exclude) s ps = out.1 ∧
      (Along (applied R cfg exclude)
          (fun s p => Respects cfg db policies userTenant s (applied R cfg exclude s p)) s ps ↔
        Along (applied R cfg exclude)
          (fun s p => Defers cfg db policies userTenant (exclude p.resourceType) s p) s ps) := by
  induction ps generalizing s out with
  | nil =>
    cases h
    exact ⟨rfl, Iff.rfl⟩
  | cons p ps ih =>
    obtain ⟨hp, hps⟩ := List.forall_mem_cons.mp hps
    obtain ⟨hep, hexclude⟩ := List.forall_mem_cons.mp hexclude
    rw [runPolicies] at h
    rw [exec_cons, along_cons, along_cons]
    cases hap : applyPolicy R cfg s p true (exclude p.resourceType) with
    | error e =>
      have hsame : applied R cfg exclude s p = s := by rw [applied, hap]
      cases e with
      | raised =>
        rw [hap] at h
        cases h
      | refused message =>
        rw [hap] at h
        obtain ⟨out', hout', heq⟩ := exists_of_map_ok h
        obtain ⟨hexec, hiff⟩ := ih hps hexclude hids htenants hout'
        rw [hsame, hexec, ← heq]
        refine ⟨rfl, and_congr (iff_of_true Respects.refl fun hruns => ?_) hiff⟩
        rw [← runs_congr htenants, runs_of_refused hap] at hruns
        cases hruns
    | ok result =>
      obtain ⟨s', res⟩ := result
      have hnext : applied R cfg exclude s p = s' := by rw [applied, hap]
      have hleaves := applyPolicy_ok hap
      obtain ⟨ht', hids'⟩ := leaves_keeps hleaves hids
      rw [hap] at h
      obtain ⟨out', hout', heq⟩ := exists_of_map_ok h
      obtain ⟨hexec, hiff⟩ := ih hps hexclude hids' (ht'.trans htenants) hout'
      rw [hnext, hexec, ← heq]
      exact ⟨rfl, and_congr (respects_iff_of_leaves hleaves hids htenants hp hep) hiff⟩

/-- every policy of a run that returns takes only what a tenant's own policies allow exactly where
every one of them defers -/
theorem respected_iff {caller : Option String} (hids : (db.cases.map (·.id)).Nodup)
    {out : Db × List PolicyResult} (h : runRetention R cfg db policies caller = .ok out) :
    exec (applied R cfg (excluded db policies caller)) db (selected policies caller) = out.1 ∧
      (Along (applied R cfg (excluded db policies caller))
          (fun s p => Respects cfg db policies userTenant s
            (applied R cfg (excluded db policies caller) s p)) db (selected policies caller) ↔
        Along (applied R cfg (excluded db policies caller))
          (fun s p => Defers cfg db policies userTenant
            (excluded db policies caller p.resourceType) s p) db (selected policies caller)) := by
  apply along_iff userTenant _ _ hids rfl h
  · intro p hp
    exact (List.mem_filter.mp hp).1
  · intro p hp hdefault t q hq
    exact mem_excluded db policies hp hdefault hq

/-- a default that reaches the rows of a tenant without a policy -/
theorem respected_default :
    let event : EventRow := { id := 5, caseId := 1, timestamp := -400 * microsPerDay }
    let db : Db :=
      { cases := [{ id := 1, tenantId := some 7, status := "open", updatedAt := 0 }]
        eventLog := [event] }
    let policies : List Policy :=
      [{ tenantId := none, resourceType := "event_log", retentionDays := 365, action := "delete" }]
    let step := applied .silent { now := 0 } (excluded db policies none)
    event ∉ (exec step db policies).eventLog ∧
      Along step (fun s p => Respects { now := 0 } db policies (fun _ => none) s (step s p)) db
        policies := by
  intro event db policies step
  refine ⟨by decide +kernel, ?_⟩
  have hids : (db.cases.map (·.id)).Nodup := by decide
  have hrun : ∃ out, runRetention .silent { now := 0 } db policies none = .ok out := ⟨_, rfl⟩
  obtain ⟨out, hrun⟩ := hrun
  apply (respected_iff (fun _ => none) hids hrun).2.mpr
  refine ⟨fun _ _ => ?_, trivial⟩
  have hallowed : ∀ tenant resource covers, Allowed db policies tenant resource covers := by
    intro tenant resource covers t _ hown
    obtain ⟨p, hp, -, -, hscope⟩ := hown
    obtain rfl := List.mem_singleton.mp hp
    cases hscope
  exact ⟨fun _ _ _ _ => hallowed _ _ _, fun _ _ _ _ => hallowed _ _ _,
    fun _ _ _ _ => hallowed _ _ _, fun _ _ _ _ _ _ _ => hallowed _ _ _⟩

/-- the default for the event log deletes what a tenant's own policy keeps for ten years -/
theorem default_overrules :
    let db : Db :=
      { cases := [{ id := 1, tenantId := some 7, status := "open", updatedAt := 0 }]
        eventLog := [{ id := 5, caseId := 1, timestamp := -400 * microsPerDay }]
        tenants := [{ id := 7, slug := "acme" }] }
    let policies : List Policy :=
      [{ tenantId := none, resourceType := "event_log", retentionDays := 365, action := "delete" },
        { tenantId := some "acme", resourceType := "event_log", retentionDays := 3650,
          action := "delete" }]
    let step := applied .silent { now := 0 } (excluded db policies none)
    ¬ Along step (fun s p => Respects { now := 0 } db policies (fun _ => none) s (step s p)) db
      (selected policies none) := by
  intro db policies step h
  have hgone := h.1.eventLog { id := 5, caseId := 1, timestamp := -400 * microsPerDay }
    (List.mem_singleton_self _) (by decide +kernel) 7 (by decide +kernel)
    ⟨{ tenantId := some "acme", resourceType := "event_log", retentionDays := 3650,
       action := "delete" }, by decide +kernel, rfl, rfl, by decide +kernel⟩
  obtain ⟨p, ⟨hp, -, -, hscope⟩, -, hcovers⟩ := hgone
  simp only [policies, List.mem_cons, List.not_mem_nil, or_false] at hp
  obtain rfl | rfl := hp
  · cases hscope
  · revert hcovers
    decide

end

end Retention
