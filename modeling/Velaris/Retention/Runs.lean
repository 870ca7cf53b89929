import Velaris.Retention.Reached

/-!
# Dry runs of the retention policies, and runs in which one fails

* `truthful_iff`   a dry run reports what the run would do exactly where no policy reaches a row
  that one before it takes, and no case that is to be deleted is needed;
* `isolated_iff`   a policy that fails leaves the others alone exactly where no deletion and no
  period stops the run, and no policy that is refused keeps a default from a case.
-/

namespace Retention
open Py Base LegalHold

/-! ## one policy of a run -/

section
variable {R : Runtime} {cfg : Config} {s s' : Db} {exclude : String → List Uuid} {p : Policy}
  {apply : Bool}

theorem runPolicies_cons_idle (R : Runtime) (apply : Bool) (exclude : String → List Uuid)
    (ho : p.overflows cfg = false) (h : p.runs s = false)
    (ps : List Policy) : ∃ r : PolicyResult, r.rows = 0 ∧ r.error.isSome = p.refused s ∧
      runPolicies R cfg apply exclude (p :: ps) s =
        (runPolicies R cfg apply exclude ps s).map fun x => (x.1, r :: x.2) := by
  cases hen : p.enabled with
  | false =>
    refine ⟨_, rfl, ?_, by rw [runPolicies, applyPolicy_disabled hen]⟩
    rw [Policy.refused, hen]
    rfl
  | true =>
    have href : p.refused s = true := by
      rw [Policy.refused, hen, h]
      rfl
    obtain ⟨message, happly⟩ := applyPolicy_refused R apply (exclude p.resourceType) href ho
    refine ⟨{ p.result with error := some message }, rfl, href.symm, ?_⟩
    rw [runPolicies, happly]

theorem runPolicies_cons_runs (ho : p.overflows cfg = false) (h : p.runs s = true) {n : Nat}
    (hp : perform R cfg s p apply (exclude p.resourceType) = .ok (s', n)) (ps : List Policy) :
    ∃ r : PolicyResult, r.rows = n ∧ r.error.isSome = p.refused s ∧
      runPolicies R cfg apply exclude (p :: ps) s =
        (runPolicies R cfg apply exclude ps s').map fun x => (x.1, r :: x.2) := by
  have href : p.refused s = false := by
    rw [Policy.refused, h]
    exact Bool.and_false _
  refine ⟨_, ?_, ?_, by rw [runPolicies, applyPolicy_runs h ho, hp]; rfl⟩
  · rfl
  · exact href.symm

theorem runPolicies_cons_raised (ho : p.overflows cfg = false) (h : p.runs s = true)
    (hp : perform R cfg s p apply (exclude p.resourceType) = .error .raised) (ps : List Policy) :
    runPolicies R cfg apply exclude (p :: ps) s = .error .raised := by
  rw [runPolicies, applyPolicy_runs h ho, hp]
  rfl

theorem perform_error {ex : List Uuid} {e : Failure} (h : perform R cfg s p apply ex = .error e) :
    e = .raised := by
  cases e with
  | raised => rfl
  | refused message =>
    unfold perform at h
    split at h
    · exact nomatch h
    · split at h
      · exact nomatch h
      · exact absurd h (handler_ne_refused ‹_›)

theorem counts_cons {r : PolicyResult} {ps : List Policy}
    (h : runPolicies R cfg apply exclude (p :: ps) s =
      (runPolicies R cfg apply exclude ps s').map fun x => (x.1, r :: x.2))
    (n : Nat) (ns : List Nat) :
    (∃ t results, runPolicies R cfg apply exclude (p :: ps) s = .ok (t, results) ∧
      results.map (·.rows) = n :: ns) ↔
    r.rows = n ∧ ∃ t results, runPolicies R cfg apply exclude ps s' = .ok (t, results) ∧
      results.map (·.rows) = ns := by
  rw [h]
  constructor
  · intro hrun
    obtain ⟨t, results, hrun, hrows⟩ := hrun
    obtain ⟨x, hx, he⟩ := exists_of_map_ok hrun
    obtain ⟨rfl, rfl⟩ := Prod.mk.inj he
    rw [List.map_cons] at hrows
    obtain ⟨hr, hrows⟩ := List.cons.inj hrows
    exact ⟨hr, x.1, x.2, hx, hrows⟩
  · intro hrun
    obtain ⟨rfl, t, results, hrun, rfl⟩ := hrun
    rw [hrun]
    exact ⟨t, r :: results, rfl, rfl⟩

theorem runPolicies_overflow {ps : List Policy} (ho : ∃ p ∈ ps, p.overflows cfg = true) :
    runPolicies R cfg apply exclude ps s = .error .raised := by
  induction ps generalizing s with
  | nil => simp at ho
  | cons q ps ih =>
    cases hq : q.overflows cfg with
    | true => rw [runPolicies, applyPolicy_overflows hq]
    | false =>
      have ho : ∃ p ∈ ps, p.overflows cfg = true := by
        obtain ⟨p, hp, hop⟩ := ho
        obtain rfl | hp := List.mem_cons.mp hp
        · rw [hq] at hop
          cases hop
        · exact ⟨p, hp, hop⟩
      cases hruns : q.runs s with
      | false =>
        obtain ⟨r, -, -, hrun⟩ := runPolicies_cons_idle R apply exclude hq hruns ps
        rw [hrun, ih ho]
        rfl
      | true =>
        cases hp : perform R cfg s q apply (exclude q.resourceType) with
        | error e =>
          rw [perform_error hp] at hp
          exact runPolicies_cons_raised hq hruns hp ps
        | ok x =>
          obtain ⟨r, -, -, hrun⟩ := runPolicies_cons_runs hq hruns hp ps
          rw [hrun, ih ho]
          rfl

end

/-! ## dry runs -/

section
variable (cfg : Config) (db : Db) (exclude : String → List Uuid)

/-- how many rows the report of a dry run has for a policy -/
def rowsOf (p : Policy) : Nat := if p.runs db then reached cfg db exclude p else 0

/-- no row of the policy is taken by one of `done`, and nothing stops it -/
structure Clear (done : List Policy) (p : Policy) : Prop where
  cases : ∀ c ∈ db.cases, reachesCase cfg db exclude p c = true →
    ∀ q ∈ done, reachesCase cfg db exclude q c = false
  auditLog : ∀ r ∈ db.auditLog, reachesAudit cfg db p r = true →
    ∀ q ∈ done, reachesAudit cfg db q r = false
  eventLog : ∀ e ∈ db.eventLog, reachesEvent cfg db p e = true →
    ∀ q ∈ done, reachesEvent cfg db q e = false ∧ deletesCaseOf cfg db exclude q e = false
  securityEvents : ∀ e ∈ db.securityEvents, reachesSecurity cfg db p e = true →
    ∀ q ∈ done, reachesSecurity cfg db q e = false
  free : ¬ Blocks cfg db exclude done p

/-- `done` left those events that neither they nor their cases were reached by -/
def EventsLeft (done : List Policy) (s : Db) : Prop :=
  s.eventLog = db.eventLog.filter fun e =>
    done.all fun q => !(reachesEvent cfg db q e || deletesCaseOf cfg db exclude q e)

end

section
variable {R : Runtime} {cfg : Config} {db s s' : Db} {exclude : String → List Uuid}
  {done : List Policy} {p : Policy}

theorem length_filter_filter_eq_iff {α : Type} (f g : α → Bool) (xs : List α) :
    ((xs.filter g).filter f).length = (xs.filter f).length ↔
      ∀ x ∈ xs, f x = true → g x = true := by
  have hcomm : (xs.filter g).filter f = (xs.filter f).filter g := by
    rw [List.filter_filter, List.filter_filter]
    exact List.filter_congr fun x _ => Bool.and_comm _ _
  rw [hcomm, List.length_filter_eq_length_iff]
  simp only [List.mem_filter, and_imp]

theorem length_filter_filter_le {α : Type} (f g : α → Bool) (xs : List α) :
    ((xs.filter g).filter f).length ≤ (xs.filter f).length :=
  (List.filter_sublist.filter f).length_le

theorem filter_reachesCase (cases : List Case) :
    cases.filter (reachesCase cfg db exclude p) =
      (cases.filter (stale cfg)).filter (reachesCase cfg db exclude p) := by
  rw [List.filter_filter]
  refine List.filter_congr fun c _ => ?_
  cases hr : reachesCase cfg db exclude p c with
  | true =>
    rw [stale_of_reachesCase hr]
    rfl
  | false => rfl

theorem Left.reached_eq_iff (hl : Left cfg db exclude done s)
    (he : EventsLeft cfg db exclude done s) :
    reached cfg s exclude p = reached cfg db exclude p ↔
      (∀ c ∈ db.cases, reachesCase cfg db exclude p c = true →
        ∀ q ∈ done, reachesCase cfg db exclude q c = false) ∧
      (∀ r ∈ db.auditLog, reachesAudit cfg db p r = true →
        ∀ q ∈ done, reachesAudit cfg db q r = false) ∧
      (∀ e ∈ db.eventLog, reachesEvent cfg db p e = true →
        ∀ q ∈ done, reachesEvent cfg db q e = false ∧ deletesCaseOf cfg db exclude q e = false) ∧
      (∀ e ∈ db.securityEvents, reachesSecurity cfg db p e = true →
        ∀ q ∈ done, reachesSecurity cfg db q e = false) := by
  have hcases := length_filter_filter_eq_iff (reachesCase cfg db exclude p)
    (fun c => done.all (!reachesCase cfg db exclude · c)) (db.cases.filter (stale cfg))
  have haudit := length_filter_filter_eq_iff (reachesAudit cfg db p)
    (fun r => done.all (!reachesAudit cfg db · r)) db.auditLog
  have hevents := length_filter_filter_eq_iff (reachesEvent cfg db p)
    (fun e => done.all fun q => !(reachesEvent cfg db q e || deletesCaseOf cfg db exclude q e))
    db.eventLog
  have hsecurity := length_filter_filter_eq_iff (reachesSecurity cfg db p)
    (fun e => done.all (!reachesSecurity cfg db · e)) db.securityEvents
  have lcases := length_filter_filter_le (reachesCase cfg db exclude p)
    (fun c => done.all (!reachesCase cfg db exclude · c)) (db.cases.filter (stale cfg))
  have laudit := length_filter_filter_le (reachesAudit cfg db p)
    (fun r => done.all (!reachesAudit cfg db · r)) db.auditLog
  have levents := length_filter_filter_le (reachesEvent cfg db p)
    (fun e => done.all fun q => !(reachesEvent cfg db q e || deletesCaseOf cfg db exclude q e))
    db.eventLog
  have lsecurity := length_filter_filter_le (reachesSecurity cfg db p)
    (fun e => done.all (!reachesSecurity cfg db · e)) db.securityEvents
  -- each sum is at most the one at the start, so the sums agree where each of the four does
  have hsum : reached cfg s exclude p = reached cfg db exclude p ↔
      (((db.cases.filter (stale cfg)).filter fun c =>
        done.all (!reachesCase cfg db exclude · c)).filter (reachesCase cfg db exclude p)).length =
          ((db.cases.filter (stale cfg)).filter (reachesCase cfg db exclude p)).length ∧
      (((db.auditLog.filter fun r => done.all (!reachesAudit cfg db · r)).filter
        (reachesAudit cfg db p)).length = (db.auditLog.filter (reachesAudit cfg db p)).length) ∧
      (((db.eventLog.filter fun e => done.all fun q =>
        !(reachesEvent cfg db q e || deletesCaseOf cfg db exclude q e)).filter
          (reachesEvent cfg db p)).length = (db.eventLog.filter (reachesEvent cfg db p)).length) ∧
      (((db.securityEvents.filter fun e => done.all (!reachesSecurity cfg db · e)).filter
        (reachesSecurity cfg db p)).length =
          (db.securityEvents.filter (reachesSecurity cfg db p)).length) := by
    rw [reached, reached, hl.reachesCase_eq, hl.reachesAudit_eq, hl.reachesEvent_eq,
      hl.reachesSecurity_eq, filter_reachesCase s.cases, filter_reachesCase db.cases, hl.cases,
      hl.auditLog, he, hl.securityEvents]
    omega
  rw [hsum, hcases, haudit, hevents, hsecurity]
  simp only [List.mem_filter, List.all_eq_true, Bool.not_eq_true', Bool.or_eq_false_iff, and_imp]
  refine and_congr_left fun _ => ?_
  exact ⟨fun h c hc hr => h c hc (stale_of_reachesCase hr) hr, fun h c hc _ hr => h c hc hr⟩

theorem Left.deletesCaseOf_eq (hl : Left cfg db exclude done s)
    (hclear : ∀ c ∈ db.cases, reachesCase cfg db exclude p c = true →
      ∀ q ∈ done, reachesCase cfg db exclude q c = false) :
    deletesCaseOf cfg s exclude p = deletesCaseOf cfg db exclude p := by
  funext e
  unfold deletesCaseOf
  rw [hl.reachesCase_eq]
  congr 1
  rw [Bool.eq_iff_iff, List.any_eq_true, List.any_eq_true]
  refine exists_congr fun c => and_congr_left fun hc => ?_
  rw [Bool.and_eq_true] at hc
  rw [hl.mem_cases_iff (stale_of_reachesCase hc.2)]
  exact ⟨fun h => h.1, fun h => ⟨h, hclear c h hc.2⟩⟩

theorem EventsLeft.step (he : EventsLeft cfg db exclude done s) (hl : Left cfg db exclude done s)
    (hclear : ∀ c ∈ db.cases, reachesCase cfg db exclude p c = true →
      ∀ q ∈ done, reachesCase cfg db exclude q c = false) (hsw : Swept cfg exclude p s s') :
    EventsLeft cfg db exclude (done ++ [p]) s' := by
  unfold EventsLeft at he ⊢
  rw [hsw.eventLog, he, hl.reachesEvent_eq, hl.deletesCaseOf_eq hclear,
    filter_all_append fun q e => reachesEvent cfg db q e || deletesCaseOf cfg db exclude q e]
  simp only [Bool.not_or]

theorem EventsLeft.skip (he : EventsLeft cfg db exclude done s) (hp : p.runs db = false) :
    EventsLeft cfg db exclude (done ++ [p]) s := by
  have hcase : reachesCase cfg db exclude p = fun _ => false := by
    funext c
    simp [reachesCase, hp]
  have hnone : ∀ e, (reachesEvent cfg db p e || deletesCaseOf cfg db exclude p e) = false := by
    intro e
    simp [reachesEvent, deletesCaseOf, hcase, hp]
  unfold EventsLeft at he ⊢
  rw [he, filter_all_append fun q e => reachesEvent cfg db q e || deletesCaseOf cfg db exclude q e]
  simp only [hnone, Bool.not_false, List.filter_true]

theorem forall_split_cons {α : Type} {P : List α → α → Prop} {done xs : List α} {x : α} :
    (∀ before y after, x :: xs = before ++ y :: after → P (done ++ before) y) ↔
      P done x ∧ ∀ before y after, xs = before ++ y :: after → P (done ++ [x] ++ before) y := by
  constructor
  · intro h
    refine ⟨by simpa using h [] x xs rfl, fun before y after hxs => ?_⟩
    have := h (x :: before) y after (by rw [hxs]; rfl)
    rwa [List.append_cons] at this
  · intro h before y after hxs
    obtain ⟨hx, htail⟩ := h
    cases before with
    | nil =>
      obtain ⟨rfl, -⟩ := List.cons.inj hxs
      simpa using hx
    | cons z before =>
      obtain ⟨hz, hrest⟩ := List.cons.inj hxs
      subst hz
      have := htail before y after hrest
      rwa [← List.append_cons] at this

theorem runPolicies_dry (R : Runtime) (db : Db) (exclude : String → List Uuid) {ps : List Policy}
    (ho : ∀ p ∈ ps, p.overflows cfg = false) :
    ∃ results, runPolicies R cfg false exclude ps db = .ok (db, results) ∧
      results.map (·.rows) = ps.map (rowsOf cfg db exclude) := by
  induction ps with
  | nil => exact ⟨[], rfl, rfl⟩
  | cons p ps ih =>
    obtain ⟨results, hrun, hrows⟩ := ih fun q hq => ho q (List.mem_cons_of_mem p hq)
    have hop := ho p List.mem_cons_self
    cases hp : p.runs db with
    | false =>
      obtain ⟨r, hr, -, hcons⟩ := runPolicies_cons_idle R false exclude hop hp ps
      rw [hcons, hrun]
      exact ⟨r :: results, rfl, by simp [hr, hrows, rowsOf, hp]⟩
    | true =>
      obtain ⟨r, hr, -, hcons⟩ := runPolicies_cons_runs hop hp (perform_dry R exclude hp) ps
      rw [hcons, hrun]
      exact ⟨r :: results, rfl, by simp [hr, hrows, rowsOf, hp]⟩

theorem clear_of_not_runs (hp : p.runs db = false) : Clear cfg db exclude done p := by
  have hcase : ∀ c, reachesCase cfg db exclude p c = false := fun c => by simp [reachesCase, hp]
  refine ⟨fun c _ h => ?_, fun r _ h => ?_, fun e _ h => ?_, fun e _ h => ?_, fun h => ?_⟩
  · rw [hcase c] at h
    cases h
  · simp [reachesAudit, hp] at h
  · simp [reachesEvent, hp] at h
  · simp [reachesSecurity, hp] at h
  · obtain ⟨-, c, -, h, -⟩ := h
    rw [hcase c] at h
    cases h

theorem runPolicies_real_iff {ps : List Policy} (hl : Left cfg db exclude done s)
    (he : EventsLeft cfg db exclude done s) (ho : ∀ p ∈ ps, p.overflows cfg = false) :
    (∃ s' results, runPolicies R cfg true exclude ps s = .ok (s', results) ∧
      results.map (·.rows) = ps.map (rowsOf cfg db exclude)) ↔
    ∀ before p after, ps = before ++ p :: after → Clear cfg db exclude (done ++ before) p := by
  induction ps generalizing done s with
  | nil => simp [runPolicies]
  | cons p ps ih =>
    have hop := ho p List.mem_cons_self
    have ho := fun q hq => ho q (List.mem_cons_of_mem p hq)
    rw [forall_split_cons]
    cases hp : p.runs db with
    | false =>
      have hps : p.runs s = false := (runs_congr hl.tenants).trans hp
      obtain ⟨r, hr, -, hcons⟩ := runPolicies_cons_idle R true exclude hop hps ps
      rw [List.map_cons, counts_cons hcons, ih (hl.skip hp) (he.skip hp) ho, rowsOf, hp]
      simp [clear_of_not_runs hp, hr]
    | true =>
      have hps : p.runs s = true := (runs_congr hl.tenants).trans hp
      cases hb : blocked cfg s exclude p with
      | true =>
        have hblocks := hl.blocked_iff.mp hb
        rw [runPolicies_cons_raised hop hps (perform_blocked hps hb)]
        constructor
        · intro h
          obtain ⟨s', results, h, -⟩ := h
          cases h
        · intro h
          exact absurd hblocks h.1.free
      | false =>
        have hfree : ¬ Blocks cfg db exclude done p := fun h => by
          rw [hl.blocked_iff.mpr h] at hb
          cases hb
        obtain ⟨s', hperform, hsw⟩ := perform_swept (R := R) hps hl.ids hb
        obtain ⟨r, hr, -, hcons⟩ := runPolicies_cons_runs hop hps hperform ps
        have hreached := hl.reached_eq_iff he (p := p)
        rw [List.map_cons, counts_cons hcons, hr, rowsOf, if_pos hp, hreached]
        constructor
        · intro h
          obtain ⟨⟨hc, ha, hev, hs⟩, hrun⟩ := h
          exact ⟨⟨hc, ha, hev, hs, hfree⟩, (ih (hl.step hsw) (he.step hl hc hsw) ho).mp hrun⟩
        · intro h
          obtain ⟨hclear, hrest⟩ := h
          exact ⟨⟨hclear.cases, hclear.auditLog, hclear.eventLog, hclear.securityEvents⟩,
            (ih (hl.step hsw) (he.step hl hclear.cases hsw) ho).mpr hrest⟩

end

/-! ### a dry run tells the truth -/

section
variable (R : Runtime) (cfg : Config) (db : Db) (policies : List Policy) (tenantId : Option String)

def chosen : List Policy := policies.filter fun p => tenantId.all fun t => p.tenantId = some t

/-- what a dry run reports, the run that follows it does -/
def Truthful : Prop :=
  ∀ s results, runAll R cfg db policies false tenantId = .ok (s, results) →
    ∃ s' results', runAll R cfg db policies true tenantId = .ok (s', results') ∧
      results'.map (·.rows) = results.map (·.rows)

/-- a dry run tells the truth exactly where a period stops it, or each policy is clear of those
before it -/
theorem truthful_iff (hids : (db.cases.map (·.id)).Nodup) :
    Truthful R cfg db policies tenantId ↔
      (∃ p ∈ chosen policies tenantId, p.overflows cfg = true) ∨
        ∀ before p after, chosen policies tenantId = before ++ p :: after →
          Clear cfg db (overrides db tenantId policies) before p := by
  have hdry : runAll R cfg db policies false tenantId =
      runPolicies R cfg false (overrides db tenantId policies) (chosen policies tenantId) db := rfl
  have hreal : runAll R cfg db policies true tenantId =
      runPolicies R cfg true (overrides db tenantId policies) (chosen policies tenantId) db := rfl
  unfold Truthful
  rw [hdry, hreal]
  by_cases ho : ∃ p ∈ chosen policies tenantId, p.overflows cfg = true
  · refine ⟨fun _ => .inl ho, fun _ s results h => ?_⟩
    rw [runPolicies_overflow ho] at h
    exact nomatch h
  · have hnone : ∀ p ∈ chosen policies tenantId, p.overflows cfg = false := by
      intro p hp
      rw [← Bool.not_eq_true]
      exact fun h => ho ⟨p, hp, h⟩
    obtain ⟨results, hrun, hrows⟩ := runPolicies_dry R db (overrides db tenantId policies) hnone
    have hstart : Left cfg db (overrides db tenantId policies) [] db := .start hids
    have hiff := runPolicies_real_iff (R := R) hstart (List.filter_true _).symm hnone
    simp only [List.nil_append] at hiff
    rw [or_iff_right ho, ← hiff, hrun]
    constructor
    · intro h
      obtain ⟨s', results', hreal, hsame⟩ := h db results rfl
      exact ⟨s', results', hreal, hsame.trans hrows⟩
    · intro h s results' he
      obtain ⟨-, rfl⟩ := Prod.mk.inj (Except.ok.inj he)
      rw [hrows]
      exact h

end

/-- a closed case of 1970, that two policies reach -/
def oldCase : Db := { cases := [{ id := 7, tenantId := none, status := "closed", updatedAt := 0 }] }

def anonymizeCasesPolicy : Policy :=
  { tenantId := none, resourceType := "resolved_cases", retentionDays := 1, action := "anonymize" }

def deleteCasesPolicy : Policy :=
  { tenantId := none, resourceType := "resolved_cases", retentionDays := 1, action := "delete" }

theorem truthful_iff_deleted : Truthful .silent { now := days 9 } oldCase [deleteCasesPolicy] none ↔
    (∃ p ∈ chosen [deleteCasesPolicy] none, p.overflows { now := days 9 } = true) ∨
      ∀ before p after, chosen [deleteCasesPolicy] none = before ++ p :: after →
        Clear { now := days 9 } oldCase (overrides oldCase none [deleteCasesPolicy]) before p :=
  truthful_iff .silent _ oldCase [deleteCasesPolicy] none (by decide)

/-- the case that is anonymized is not old any more when the second policy comes to it -/
theorem not_truthful : ¬ ∀ (R : Runtime) (cfg : Config) (db : Db) (policies : List Policy)
    (tenantId : Option String), (db.cases.map (·.id)).Nodup →
      Truthful R cfg db policies tenantId := by
  intro h
  have hdry : ∃ results, runAll .silent { now := days 9 } oldCase
      [anonymizeCasesPolicy, deleteCasesPolicy] false none = .ok (oldCase, results) ∧
        results.map (·.rows) = [1, 1] := ⟨_, rfl, by decide +kernel⟩
  obtain ⟨results, hdry, hrows⟩ := hdry
  obtain ⟨s', results', hreal, hsame⟩ := h .silent { now := days 9 } oldCase
    [anonymizeCasesPolicy, deleteCasesPolicy] none (by decide) _ _ hdry
  have hone : (runAll .silent { now := days 9 } oldCase
      [anonymizeCasesPolicy, deleteCasesPolicy] true none).map (fun x => x.2.map (·.rows)) =
        .ok [1, 0] := rfl
  rw [hreal] at hone
  have hone : results'.map (·.rows) = [1, 0] := Except.ok.inj hone
  rw [hone, hrows] at hsame
  exact absurd hsame (by decide)

/-! ## a policy that fails -/

section
variable (R : Runtime) (cfg : Config) (db : Db) (policies : List Policy) (tenantId : Option String)

def accepting : List Policy := policies.filter (!·.refused db)

/-- the run takes up every policy and says which failed, and the others do what they do without
those -/
def Isolated (apply : Bool) : Prop :=
  ∃ s results, runAll R cfg db policies apply tenantId = .ok (s, results) ∧
    results.map (·.error.isSome) = (chosen policies tenantId).map (·.refused db) ∧
    ∃ results', runAll R cfg db (accepting db policies) apply tenantId = .ok (s, results') ∧
      results'.map (·.rows) = (results.filter (·.error.isNone)).map (·.rows)

end

section
variable {R : Runtime} {cfg : Config} {db s s' : Db} {policies done : List Policy}
  {tenantId : Option String} {p q : Policy} {c : Case} {exclude exclude' : String → List Uuid}

theorem reachesCase_iff : reachesCase cfg db exclude p c = true ↔
    (p.runs db = true ∧ p.resourceType = "resolved_cases") ∧
      (((c.status ∈ terminal ∧ c.updatedAt < cutoffOf cfg.now p.retentionDays) ∧
        inScope (p.scoped.bind (resolveTenant db)) (exclude "resolved_cases") c.tenantId = true) ∧
        held db.holds c.id = false) ∧ (p.action ≠ "anonymize" ∨ c.isTouched cfg = true) := by
  rw [reachesCase, Bool.and_eq_true, Bool.and_eq_true, Bool.and_eq_true, Bool.or_eq_true,
    decide_eq_true_eq, decide_eq_true_eq, dueCase_iff, and_assoc]

theorem mem_overrides {resource : String} {t : Uuid} :
    t ∈ overrides db tenantId policies resource ↔
      tenantId = none ∧ ∃ p, Own db policies t resource p := by
  unfold overrides Own
  cases tenantId with
  | some _ => simp
  | none => simp [and_assoc]

theorem not_reached_of_kept (hq : q ∈ policies)
    (hr : reachesCase cfg db (overrides db tenantId (accepting db policies)) p c = true)
    (hnot : ¬ reachesCase cfg db (overrides db tenantId policies) p c = true) :
    reachesCase cfg db (overrides db tenantId policies) q c = false := by
  rw [← Bool.not_eq_true]
  intro hqr
  rw [reachesCase_iff] at hr hnot hqr
  obtain ⟨hp, ⟨⟨hage, hscope⟩, hheld⟩, hact⟩ := hr
  have hout : ¬ inScope (p.scoped.bind (resolveTenant db))
      (overrides db tenantId policies "resolved_cases") c.tenantId = true := fun h =>
    hnot ⟨hp, ⟨⟨hage, h⟩, hheld⟩, hact⟩
  have hqscope := hqr.2.1.1.2
  cases hps : p.scoped.bind (resolveTenant db) with
  | some t =>
    rw [hps] at hscope hout
    exact hout hscope
  | none =>
    rw [hps] at hscope hout
    cases ht : c.tenantId with
    | none =>
      rw [ht] at hout
      exact hout rfl
    | some t =>
      rw [ht] at hscope hout hqscope
      simp only [inScope, notOverridden, Option.all_some, decide_eq_true_eq, not_not] at hscope hout
      cases hqs : q.scoped.bind (resolveTenant db) with
      | none =>
        rw [hqs] at hqscope
        simp only [inScope, notOverridden, Option.all_some, decide_eq_true_eq] at hqscope
        exact hqscope hout
      | some t' =>
        rw [hqs] at hqscope
        simp only [inScope, decide_eq_true_eq, Option.some.injEq] at hqscope
        -- the tenant's own policy is not refused, so the tenant is left alone in both runs
        have hruns := hqr.1.1
        have hen : q.enabled = true := by
          rw [runs_eq, Bool.and_eq_true, Bool.and_eq_true] at hruns
          exact hruns.1.1
        have hkept : q ∈ accepting db policies := by
          refine List.mem_filter.mpr ⟨hq, ?_⟩
          rw [Policy.refused, hruns]
          simp
        exact hscope (mem_overrides.mpr ⟨(mem_overrides.mp hout).1, q, hkept, hen, hqr.1.2,
          by rw [hqs, hqscope]⟩)

theorem reachesCase_kept (h : reachesCase cfg db (overrides db tenantId policies) p c = true) :
    reachesCase cfg db (overrides db tenantId (accepting db policies)) p c = true := by
  rw [reachesCase_iff] at h ⊢
  obtain ⟨hp, ⟨⟨hage, hscope⟩, hheld⟩, hact⟩ := h
  refine ⟨hp, ⟨⟨hage, ?_⟩, hheld⟩, hact⟩
  cases hps : p.scoped.bind (resolveTenant db) with
  | some t =>
    rw [hps] at hscope
    exact hscope
  | none =>
    rw [hps] at hscope
    simp only [inScope, notOverridden, Option.all_eq_true, decide_eq_true_eq] at hscope ⊢
    intro t ht hmem
    obtain ⟨hnone, q, hq, hown⟩ := mem_overrides.mp hmem
    exact hscope t ht (mem_overrides.mpr ⟨hnone, q, (List.mem_filter.mp hq).1, hown⟩)

theorem Left.reached_kept_iff
    (hl : Left cfg db (overrides db tenantId policies) done s) (hdone : ∀ q ∈ done, q ∈ policies) :
    reached cfg s (overrides db tenantId (accepting db policies)) p =
        reached cfg s (overrides db tenantId policies) p ↔
      ∀ c ∈ db.cases,
        reachesCase cfg db (overrides db tenantId (accepting db policies)) p c = true →
          reachesCase cfg db (overrides db tenantId policies) p c = true := by
  have hsub : (s.cases.filter (reachesCase cfg db (overrides db tenantId policies) p)).filter
      (reachesCase cfg db (overrides db tenantId (accepting db policies)) p) =
        s.cases.filter (reachesCase cfg db (overrides db tenantId policies) p) := by
    refine List.filter_eq_self.mpr fun c hc => ?_
    exact reachesCase_kept (List.mem_filter.mp hc).2
  have hlength := length_filter_filter_eq_iff
    (reachesCase cfg db (overrides db tenantId (accepting db policies)) p)
    (reachesCase cfg db (overrides db tenantId policies) p) s.cases
  rw [hsub] at hlength
  have hiff : reached cfg s (overrides db tenantId (accepting db policies)) p =
        reached cfg s (overrides db tenantId policies) p ↔
      (s.cases.filter (reachesCase cfg db (overrides db tenantId policies) p)).length =
        (s.cases.filter
          (reachesCase cfg db (overrides db tenantId (accepting db policies)) p)).length := by
    rw [reached, reached, hl.reachesCase_eq, reachesCase_congr hl.holds hl.tenants]
    omega
  rw [hiff, hlength]
  constructor
  · intro h c hc hr
    by_contra hnot
    have hspared : ∀ q ∈ done, reachesCase cfg db (overrides db tenantId policies) q c = false :=
      fun q hq => not_reached_of_kept (hdone q hq) hr hnot
    exact hnot (h c ((hl.mem_cases_iff (stale_of_reachesCase hr)).mpr ⟨hc, hspared⟩) hr)
  · intro h c hc hr
    exact h c ((hl.mem_cases_iff (stale_of_reachesCase hr)).mp hc).1 hr

theorem filter_touched {f : Case → Bool} (hf : ∀ c, f c = true → c.isTouched cfg = true)
    {due due' : Case → Bool} (hsame : ∀ c ∈ s.cases,
      (due c && c.isTouched cfg) = (due' c && c.isTouched cfg)) :
    (s.cases.filter due).filter f = (s.cases.filter due').filter f := by
  rw [List.filter_filter, List.filter_filter]
  refine List.filter_congr fun c hc => ?_
  cases hfc : f c with
  | false => rfl
  | true =>
    have := hsame c hc
    rw [hf c hfc, Bool.and_true, Bool.and_true] at this
    rw [this]

theorem perform_congr (R : Runtime) (apply : Bool) (exclude exclude' : String → List Uuid)
    (h : p.runs s = true)
    (hsame : ∀ c ∈ s.cases, reachesCase cfg s exclude p c = reachesCase cfg s exclude' p c) :
    perform R cfg s p apply (exclude p.resourceType) =
      perform R cfg s p apply (exclude' p.resourceType) := by
  obtain ⟨hanon, hres⟩ | ⟨hanon, hres | hres | hres | hres⟩ := runs_cases h
  · rw [reachesCase_of h hres, reachesCase_of h hres] at hsame
    simp only [hanon, ne_eq, not_true_eq_false, decide_false, Bool.false_or] at hsame
    have hcount := filter_touched (f := Case.isTouched cfg) (fun _ h => h) hsame
    have hscrubbed := filter_touched (f := fun c : Case => c.isPending || c.isBackfill)
      (fun c h => by rw [Case.isTouched, h]; rfl) hsame
    have htext := filter_touched (f := Case.isTextDue cfg)
      (fun c h => by rw [Case.isTouched, h, Bool.or_true]) hsame
    have hmap := List.map_congr_left fun c hc =>
      congrArg (fun b : Bool => if b then c.scrubbed R cfg else c) (hsame c hc)
    rw [perform, perform, if_pos hanon, if_pos hanon, hres]
    simp only [anonymizeCases, hcount, hscrubbed, htext, hmap]
  · have hfilter := List.filter_congr hsame
    rw [perform_cases h hanon hres, perform_cases h hanon hres, reached_cases hres,
      reached_cases hres, hfilter]
  · rw [perform, perform, if_neg hanon, if_neg hanon, hres]
    rfl
  · rw [perform, perform, if_neg hanon, if_neg hanon, hres]
    rfl
  · rw [perform, perform, if_neg hanon, if_neg hanon, hres]
    rfl

/-- a run over the policies that are not refused, and the run over all -/
def Same (R : Runtime) (cfg : Config) (apply : Bool) (exclude exclude' : String → List Uuid)
    (ps kept : List Policy) (s : Db) : Prop :=
  ∃ t results, runPolicies R cfg apply exclude ps s = .ok (t, results) ∧
    ∃ results', runPolicies R cfg apply exclude' kept s = .ok (t, results') ∧
      results'.map (·.rows) = (results.filter (·.error.isNone)).map (·.rows)

variable {apply : Bool} {ps kept : List Policy} {r r' : PolicyResult}

theorem same_cons_refused (hr : r.error.isSome = true)
    (h : runPolicies R cfg apply exclude (p :: ps) s =
      (runPolicies R cfg apply exclude ps s').map fun x => (x.1, r :: x.2)) :
    (∃ t results, runPolicies R cfg apply exclude (p :: ps) s = .ok (t, results) ∧
      ∃ results', runPolicies R cfg apply exclude' kept s' = .ok (t, results') ∧
        results'.map (·.rows) = (results.filter (·.error.isNone)).map (·.rows)) ↔
    Same R cfg apply exclude exclude' ps kept s' := by
  have hnone : r.error.isNone = false := by
    rw [← Option.not_isSome, hr]
    rfl
  rw [h]
  constructor
  · intro hrun
    obtain ⟨t, results, hrun, results', hkept, hrows⟩ := hrun
    obtain ⟨x, hx, he⟩ := exists_of_map_ok hrun
    obtain ⟨rfl, rfl⟩ := Prod.mk.inj he
    rw [List.filter_cons_of_neg (by rw [hnone]; decide)] at hrows
    exact ⟨x.1, x.2, hx, results', hkept, hrows⟩
  · intro hrun
    obtain ⟨t, results, hrun, results', hkept, hrows⟩ := hrun
    refine ⟨t, r :: results, by rw [hrun]; rfl, results', hkept, ?_⟩
    rw [List.filter_cons_of_neg (by rw [hnone]; decide)]
    exact hrows

theorem same_head (hr : r.error.isSome = false) {x x' : Except Failure (Db × List PolicyResult)}
    (h : runPolicies R cfg apply exclude (p :: ps) s = x.map fun x => (x.1, r :: x.2))
    (h' : runPolicies R cfg apply exclude' (p :: kept) s = x'.map fun x => (x.1, r' :: x.2)) :
    Same R cfg apply exclude exclude' (p :: ps) (p :: kept) s ↔
      r'.rows = r.rows ∧ ∃ t results, x = .ok (t, results) ∧ ∃ results', x' = .ok (t, results') ∧
        results'.map (·.rows) = (results.filter (·.error.isNone)).map (·.rows) := by
  have hnone : r.error.isNone = true := by
    rw [← Option.not_isSome, hr]
    rfl
  have hfilter (results : List PolicyResult) : (r :: results).filter (·.error.isNone) =
      r :: results.filter (·.error.isNone) := List.filter_cons_of_pos hnone
  unfold Same
  rw [h, h']
  constructor
  · intro hrun
    obtain ⟨t, results, hrun, results', hkept, hrows⟩ := hrun
    obtain ⟨y, hy, he⟩ := exists_of_map_ok hrun
    obtain ⟨rfl, rfl⟩ := Prod.mk.inj he
    obtain ⟨y', hy', he⟩ := exists_of_map_ok hkept
    obtain ⟨hyy, rfl⟩ := Prod.mk.inj he
    rw [hfilter, List.map_cons, List.map_cons] at hrows
    obtain ⟨hhead, hrows⟩ := List.cons.inj hrows
    exact ⟨hhead, y.1, y.2, hy, y'.2, by rw [hy', ← hyy], hrows⟩
  · intro hrun
    obtain ⟨hhead, t, results, hrun, results', hkept, hrows⟩ := hrun
    refine ⟨t, r :: results, by rw [hrun]; rfl, r' :: results', by rw [hkept]; rfl, ?_⟩
    rw [hfilter, List.map_cons, List.map_cons, hhead, hrows]

theorem accepting_cons_of_refused (h : p.refused db = true) :
    accepting db (p :: ps) = accepting db ps :=
  List.filter_cons_of_neg (by rw [h]; decide)

theorem accepting_cons (h : p.refused db = false) :
    accepting db (p :: ps) = p :: accepting db ps :=
  List.filter_cons_of_pos (by rw [h]; rfl)

theorem refused_congr (h : s.tenants = db.tenants) : p.refused s = p.refused db := by
  rw [Policy.refused, Policy.refused, runs_congr h]

/-- the two runs stay together exactly where no deletion is blocked, and no policy reaches more
cases without the refused ones -/
theorem same_iff (R : Runtime) (apply : Bool) (tenantId : Option String)
    (hl : Left cfg db (overrides db tenantId policies) done s)
    (hdone : ∀ q ∈ done, q ∈ policies) (hps : ∀ q ∈ ps, q ∈ policies)
    (ho : ∀ q ∈ ps, q.overflows cfg = false) :
    Same R cfg apply (overrides db tenantId policies)
        (overrides db tenantId (accepting db policies)) ps (accepting db ps) s ↔
      (apply = true → ∀ before p after, ps = before ++ p :: after →
        ¬ Blocks cfg db (overrides db tenantId policies) (done ++ before) p) ∧
      ∀ p ∈ ps, ∀ c ∈ db.cases,
        reachesCase cfg db (overrides db tenantId (accepting db policies)) p c = true →
          reachesCase cfg db (overrides db tenantId policies) p c = true := by
  induction ps generalizing done s with
  | nil => simp [Same, runPolicies, accepting]
  | cons p ps ih =>
    have hop := ho p List.mem_cons_self
    have hpp := hps p List.mem_cons_self
    have ho := fun q hq => ho q (List.mem_cons_of_mem p hq)
    have hps := fun q hq => hps q (List.mem_cons_of_mem p hq)
    have hdone' : ∀ q ∈ done ++ [p], q ∈ policies := by
      intro q hq
      obtain hq | hq := List.mem_append.mp hq
      · exact hdone q hq
      · rw [List.mem_singleton.mp hq]
        exact hpp
    rw [forall_split_cons
      (P := fun done p => ¬ Blocks cfg db (overrides db tenantId policies) done p),
      List.forall_mem_cons]
    cases hp : p.runs db with
    | false =>
      have hps' : p.runs s = false := (runs_congr hl.tenants).trans hp
      have hnot : ∀ ex c, reachesCase cfg db ex p c = false := fun ex c => by simp [reachesCase, hp]
      have hfree : ¬ Blocks cfg db (overrides db tenantId policies) done p := fun h => by
        obtain ⟨-, c, -, h, -⟩ := h
        rw [hnot] at h
        cases h
      have ih := ih (hl.skip hp) hdone' hps ho
      obtain ⟨r, hr, herror, hcons⟩ := runPolicies_cons_idle R apply
        (overrides db tenantId policies) hop hps' ps
      rw [refused_congr hl.tenants] at herror
      cases href : p.refused db with
      | true =>
        rw [href] at herror
        rw [accepting_cons_of_refused href]
        refine (same_cons_refused herror hcons).trans (ih.trans ?_)
        simp [hnot, hfree]
      | false =>
        rw [href] at herror
        obtain ⟨r', hr', -, hcons'⟩ := runPolicies_cons_idle R apply
          (overrides db tenantId (accepting db policies)) hop hps' (accepting db ps)
        rw [accepting_cons href, same_head herror hcons hcons']
        refine (and_congr_right fun _ => ih).trans ?_
        simp [hnot, hfree, hr, hr']
    | true =>
      have hps' : p.runs s = true := (runs_congr hl.tenants).trans hp
      have href : p.refused db = false := by
        rw [Policy.refused, hp]
        exact Bool.and_false _
      rw [accepting_cons href]
      have hcount := hl.reached_kept_iff hdone (p := p)
      cases apply with
      | false =>
        obtain ⟨r, hr, herror, hcons⟩ := runPolicies_cons_runs hop hps' (perform_dry R
          (overrides db tenantId policies) hps') ps
        obtain ⟨r', hr', -, hcons'⟩ := runPolicies_cons_runs hop hps' (perform_dry R
          (overrides db tenantId (accepting db policies)) hps') (accepting db ps)
        rw [refused_congr hl.tenants, href] at herror
        rw [same_head herror hcons hcons', hr, hr', hcount]
        refine (and_congr_right fun _ => ih hl hdone hps ho).trans ?_
        simp
      | true =>
        cases hb : blocked cfg s (overrides db tenantId policies) p with
        | true =>
          have hblocks := hl.blocked_iff.mp hb
          have hraised := runPolicies_cons_raised hop hps' (perform_blocked (R := R) hps' hb) ps
          constructor
          · intro h
            obtain ⟨t, results, hrun, -⟩ := h
            cases hraised.symm.trans hrun
          · intro h
            exact absurd hblocks (h.1 rfl).1
        | false =>
          have hfree : ¬ Blocks cfg db (overrides db tenantId policies) done p := fun h => by
            rw [hl.blocked_iff.mpr h] at hb
            cases hb
          obtain ⟨s', hperform, hsw⟩ := perform_swept (R := R) hps' hl.ids hb
          obtain ⟨r, hr, herror, hcons⟩ := runPolicies_cons_runs hop hps' hperform ps
          rw [refused_congr hl.tenants, href] at herror
          by_cases hsame : ∀ c ∈ db.cases,
              reachesCase cfg db (overrides db tenantId (accepting db policies)) p c = true →
                reachesCase cfg db (overrides db tenantId policies) p c = true
          · have hcongr := perform_congr R true (overrides db tenantId policies)
              (overrides db tenantId (accepting db policies)) hps' fun c hc => by
                rw [reachesCase_congr hl.holds hl.tenants, reachesCase_congr hl.holds hl.tenants,
                  Bool.eq_iff_iff]
                refine ⟨reachesCase_kept, fun h => hsame c ?_ h⟩
                exact ((hl.mem_cases_iff (stale_of_reachesCase h)).mp hc).1
            obtain ⟨r', hr', -, hcons'⟩ := runPolicies_cons_runs hop hps'
              (hcongr.symm.trans hperform) (accepting db ps)
            rw [same_head herror hcons hcons', hr, hr']
            have ih := ih (hl.step hsw) hdone' hps ho
            constructor
            · intro h
              obtain ⟨-, hrun⟩ := h
              obtain ⟨hclear, hrest⟩ := ih.mp hrun
              exact ⟨fun ht => ⟨hfree, hclear ht⟩, hsame, hrest⟩
            · intro h
              obtain ⟨hclear, -, hrest⟩ := h
              exact ⟨rfl, ih.mpr ⟨fun ht => (hclear ht).2, hrest⟩⟩
          · have hcount : reached cfg s (overrides db tenantId (accepting db policies)) p ≠
                reached cfg s (overrides db tenantId policies) p := fun h => hsame (hcount.mp h)
            refine iff_of_false ?_ fun h => hsame h.2.1
            cases hb' : blocked cfg s (overrides db tenantId (accepting db policies)) p with
            | true =>
              have hraised := runPolicies_cons_raised hop hps' (perform_blocked (R := R) hps' hb')
                (accepting db ps)
              intro h
              obtain ⟨t, results, -, results', hrun, -⟩ := h
              cases hraised.symm.trans hrun
            | false =>
              obtain ⟨s'', hperform', -⟩ := perform_swept (R := R) hps' hl.ids hb'
              obtain ⟨r', hr', -, hcons'⟩ := runPolicies_cons_runs hop hps' hperform'
                (accepting db ps)
              rw [same_head herror hcons hcons', hr, hr']
              exact fun h => hcount h.1

theorem perform_keeps {n : Nat} (h : p.runs s = true) (ho : p.overflows cfg = false)
    (hids : (s.cases.map (·.id)).Nodup)
    (hp : perform R cfg s p apply (exclude p.resourceType) = .ok (s', n)) :
    s'.tenants = s.tenants ∧ (s'.cases.map (·.id)).Nodup := by
  cases apply with
  | false =>
    rw [perform_dry R exclude h] at hp
    obtain ⟨rfl, -⟩ := Prod.mk.inj (Except.ok.inj hp)
    exact ⟨rfl, hids⟩
  | true =>
    have happly := @applyPolicy_runs R cfg s p (exclude p.resourceType) true h ho
    rw [hp] at happly
    exact leaves_keeps (applyPolicy_ok happly) hids

theorem errors_of_run {t : Db} {results : List PolicyResult} (hids : (s.cases.map (·.id)).Nodup)
    (ho : ∀ q ∈ ps, q.overflows cfg = false)
    (h : runPolicies R cfg apply exclude ps s = .ok (t, results)) :
    results.map (·.error.isSome) = ps.map (·.refused s) := by
  induction ps generalizing s results with
  | nil =>
    obtain ⟨-, rfl⟩ := Prod.mk.inj (Except.ok.inj h)
    rfl
  | cons p ps ih =>
    have hop := ho p List.mem_cons_self
    have ho := fun q hq => ho q (List.mem_cons_of_mem p hq)
    cases hp : p.runs s with
    | false =>
      obtain ⟨r, -, herror, hcons⟩ := runPolicies_cons_idle R apply exclude hop hp ps
      rw [hcons] at h
      obtain ⟨x, hx, he⟩ := exists_of_map_ok h
      obtain ⟨rfl, rfl⟩ := Prod.mk.inj he
      rw [List.map_cons, List.map_cons, herror, ih hids ho hx]
    | true =>
      cases hperform : perform R cfg s p apply (exclude p.resourceType) with
      | error e =>
        rw [perform_error hperform] at hperform
        rw [runPolicies_cons_raised hop hp hperform] at h
        cases h
      | ok y =>
        obtain ⟨htenants, hids'⟩ := perform_keeps hp hop hids hperform
        obtain ⟨r, -, herror, hcons⟩ := runPolicies_cons_runs hop hp hperform ps
        rw [hcons] at h
        obtain ⟨x, hx, he⟩ := exists_of_map_ok h
        obtain ⟨rfl, rfl⟩ := Prod.mk.inj he
        have hrefused : ps.map (·.refused y.1) = ps.map (·.refused s) :=
          List.map_congr_left fun q _ => refused_congr htenants
        rw [List.map_cons, List.map_cons, herror, ih hids' ho hx, hrefused]

end

/-- a failing policy leaves the others alone exactly where no period and no needed case stops the
run, and no policy reaches more cases without the refused ones -/
theorem isolated_iff (R : Runtime) (cfg : Config) (db : Db) (policies : List Policy)
    (tenantId : Option String) (apply : Bool) (hids : (db.cases.map (·.id)).Nodup) :
    Isolated R cfg db policies tenantId apply ↔
      (∀ p ∈ chosen policies tenantId, p.overflows cfg = false) ∧
      (apply = true → ∀ before p after, chosen policies tenantId = before ++ p :: after →
        ¬ Blocks cfg db (overrides db tenantId policies) before p) ∧
      ∀ p ∈ chosen policies tenantId, ∀ c ∈ db.cases,
        reachesCase cfg db (overrides db tenantId (accepting db policies)) p c = true →
          reachesCase cfg db (overrides db tenantId policies) p c = true := by
  have hcomm : chosen (accepting db policies) tenantId =
      accepting db (chosen policies tenantId) := by
    unfold chosen accepting
    rw [List.filter_filter, List.filter_filter]
    exact List.filter_congr fun p _ => Bool.and_comm _ _
  have hrun (policies : List Policy) : runAll R cfg db policies apply tenantId =
      runPolicies R cfg apply (overrides db tenantId policies) (chosen policies tenantId) db := rfl
  unfold Isolated
  rw [hrun, hrun, hcomm]
  by_cases ho : ∃ p ∈ chosen policies tenantId, p.overflows cfg = true
  · rw [runPolicies_overflow ho]
    obtain ⟨p, hp, hop⟩ := ho
    refine iff_of_false ?_ fun h => ?_
    · intro h
      obtain ⟨s, results, h, -⟩ := h
      exact nomatch h
    · rw [h.1 p hp] at hop
      exact nomatch hop
  · have hnone : ∀ p ∈ chosen policies tenantId, p.overflows cfg = false := by
      intro p hp
      rw [← Bool.not_eq_true]
      exact fun h => ho ⟨p, hp, h⟩
    have hstart : Left cfg db (overrides db tenantId policies) [] db := .start hids
    have hchosen : ∀ q ∈ chosen policies tenantId, q ∈ policies :=
      fun q hq => (List.mem_filter.mp hq).1
    have hiff := same_iff R apply tenantId hstart (fun q hq => nomatch hq) hchosen hnone
    simp only [List.nil_append] at hiff
    rw [and_iff_right hnone, ← hiff]
    constructor
    · intro h
      obtain ⟨s, results, hs, -, hkept⟩ := h
      exact ⟨s, results, hs, hkept⟩
    · intro h
      obtain ⟨s, results, hs, hkept⟩ := h
      exact ⟨s, results, hs, errors_of_run hids hnone hs, hkept⟩

def auditedCase : Db := { oldCase with auditLog := [{ id := 1, caseId := 7, timestamp := 0 }] }

def unknownPolicy : Policy := { tenantId := none, resourceType := "documents", retentionDays := 1 }

theorem isolated_iff_unknown :
    Isolated .silent { now := days 9 } oldCase [unknownPolicy, deleteCasesPolicy] none true ↔
      (∀ p ∈ chosen [unknownPolicy, deleteCasesPolicy] none,
        p.overflows { now := days 9 } = false) ∧
      (true = true → ∀ before p after,
        chosen [unknownPolicy, deleteCasesPolicy] none = before ++ p :: after →
          ¬ Blocks { now := days 9 } oldCase
            (overrides oldCase none [unknownPolicy, deleteCasesPolicy]) before p) ∧
      ∀ p ∈ chosen [unknownPolicy, deleteCasesPolicy] none, ∀ c ∈ oldCase.cases,
        reachesCase { now := days 9 } oldCase
            (overrides oldCase none (accepting oldCase [unknownPolicy, deleteCasesPolicy])) p c =
              true →
          reachesCase { now := days 9 } oldCase
            (overrides oldCase none [unknownPolicy, deleteCasesPolicy]) p c = true :=
  isolated_iff .silent _ oldCase [unknownPolicy, deleteCasesPolicy] none true (by decide)

/-- the audit row stops the whole run -/
theorem not_isolated : ¬ ∀ (R : Runtime) (cfg : Config) (db : Db) (policies : List Policy)
    (tenantId : Option String) (apply : Bool), (db.cases.map (·.id)).Nodup →
      Isolated R cfg db policies tenantId apply := by
  intro h
  obtain ⟨s, results, hrun, -⟩ := h .silent { now := days 9 } auditedCase [deleteCasesPolicy] none
    true (by decide)
  have hraises : runAll .silent { now := days 9 } auditedCase [deleteCasesPolicy] true none =
      .error .raised := rfl
  exact nomatch hraises.symm.trans hrun

end Retention
