import Velaris.Sla.Lifecycle

/-!
# When the clocks of a case stay usable

* `policiesOf_nodup_iff`   no policy has two clocks exactly when each look-up by policy finds at
    most one row;
* `usable_iff`   a case's clocks are usable exactly then;
* `policiesOf_apply`   what an event adds to the policies of a case;
* `usable_run_iff`   the runs in which the clocks stay usable.
-/

namespace Sla
open Py Base

variable {R : Runtime} {scan : Scan Instance} {t t' : Table} {caseId : Uuid}

/-! ## policies and keys -/

theorem policiesOf_eq_of_key (t : Table) (caseId : Uuid) :
    policiesOf t caseId = ((t.map key).filter (·.2.1 = caseId)).map (·.2.2) := by
  rw [policiesOf, List.filter_map, List.map_map]
  rfl

theorem policiesOf_congr (h : t'.map key = t.map key) (caseId : Uuid) :
    policiesOf t' caseId = policiesOf t caseId := by
  rw [policiesOf_eq_of_key, h, ← policiesOf_eq_of_key]

theorem policiesOf_append (t : Table) (row : Instance) (caseId : Uuid) :
    policiesOf (t ++ [row]) caseId =
      policiesOf t caseId ++ if row.caseId = caseId then [row.slaPolicyId] else [] := by
  rw [policiesOf, List.filter_append, List.map_append]
  by_cases h : row.caseId = caseId <;> simp [policiesOf, h]

theorem length_filter_ofPolicy (t : Table) (caseId : Uuid) (slaPolicyId : String) :
    (t.filter (ofPolicy caseId slaPolicyId)).length = (policiesOf t caseId).count slaPolicyId := by
  rw [policiesOf, List.count, List.countP_map, List.countP_filter, List.countP_eq_length_filter]
  have hsame : ∀ r : Instance, ofPolicy caseId slaPolicyId r =
      (((· == slaPolicyId) ∘ fun r : Instance => r.slaPolicyId) r && decide (r.caseId = caseId)) := by
    intro r
    rw [Bool.and_comm]
    rfl
  rw [funext hsame]

theorem policiesOf_nodup_iff :
    (policiesOf t caseId).Nodup ↔
      ∀ slaPolicyId, (t.filter (ofPolicy caseId slaPolicyId)).length ≤ 1 := by
  rw [List.nodup_iff_count_le_one]
  exact forall_congr' fun slaPolicyId => by rw [length_filter_ofPolicy]

/-! ## look-ups that find at most one row -/

theorem scalarOneOrNone_of_le {rows : List Instance} (h : rows.length ≤ 1) :
    ∃ o, scalarOneOrNone (scan.order rows) = .ok o := by
  rcases rows with _ | ⟨r, _ | ⟨r', rows⟩⟩
  · exact ⟨none, scalarOneOrNone_nil⟩
  · exact ⟨some r, scalarOneOrNone_singleton r⟩
  · simp only [List.length_cons] at h
    omega

theorem length_filter_le_of_imp {p q : Instance → Bool} (h : ∀ r, p r → q r) (t : Table) :
    (t.filter p).length ≤ (t.filter q).length :=
  (List.monotone_filter_right t h).length_le

theorem exists_pauseSla {slaPolicyId : String}
    (hle : (t.filter (pausable caseId slaPolicyId)).length ≤ 1) (now : Int) :
    ∃ t' paused, pauseSla scan caseId slaPolicyId now t = .ok (t', paused) := by
  obtain ⟨o, ho⟩ := scalarOneOrNone_of_le hle
  show ∃ t' paused, (scalarOneOrNone (scan.order (t.filter (pausable caseId slaPolicyId))) >>= _) =
    .ok (t', paused)
  rw [ho]
  cases o with
  | none => exact ⟨_, _, rfl⟩
  | some sla => exact ⟨_, _, rfl⟩

theorem exists_resumeSla {slaPolicyId : String}
    (hle : (t.filter (resumable caseId slaPolicyId)).length ≤ 1) (now : Int) :
    ∃ t' resumed, resumeSla scan caseId slaPolicyId now t = .ok (t', resumed) := by
  obtain ⟨o, ho⟩ := scalarOneOrNone_of_le hle
  show ∃ t' resumed, (scalarOneOrNone (scan.order (t.filter (resumable caseId slaPolicyId))) >>= _) =
    .ok (t', resumed)
  rw [ho]
  cases o with
  | none => exact ⟨_, _, rfl⟩
  | some sla => exact ⟨_, _, rfl⟩

theorem pauseSla_usable (hone : (policiesOf t caseId).Nodup) (ht : Keyed t) (slaPolicyId : String)
    (now : Int) : ∃ t' paused, pauseSla scan caseId slaPolicyId now t = .ok (t', paused) ∧
      ∀ r ∈ t, pausable caseId slaPolicyId r → statusOf t' r.id = some .paused := by
  have hle : (t.filter (pausable caseId slaPolicyId)).length ≤ 1 :=
    le_trans (length_filter_le_of_imp (fun r hr => (Bool.and_eq_true_iff.mp hr).1) t)
      (policiesOf_nodup_iff.mp hone slaPolicyId)
  obtain ⟨t', paused, hrun⟩ := exists_pauseSla hle now
  refine ⟨t', paused, hrun, fun r hr hp => ?_⟩
  have hmem := List.mem_filter.mpr ⟨hr, hp⟩
  rcases pauseSla_cases hrun with ⟨hnil, -⟩ | ⟨sla, hrows, rfl, -⟩
  · rw [hnil] at hmem
    cases hmem
  · rw [hrows] at hmem
    obtain rfl := List.mem_singleton.mp hmem
    exact statusOf_updateInstance_self (pauseValues_keyFixed now) ht hr

theorem resumeSla_usable (hone : (policiesOf t caseId).Nodup) (ht : Keyed t) (slaPolicyId : String)
    (now : Int) : ∃ t' resumed, resumeSla scan caseId slaPolicyId now t = .ok (t', resumed) ∧
      ∀ r ∈ t, resumable caseId slaPolicyId r → statusOf t' r.id = some .onTrack := by
  have hle : (t.filter (resumable caseId slaPolicyId)).length ≤ 1 :=
    le_trans (length_filter_le_of_imp (fun r hr => (Bool.and_eq_true_iff.mp hr).1) t)
      (policiesOf_nodup_iff.mp hone slaPolicyId)
  obtain ⟨t', resumed, hrun⟩ := exists_resumeSla hle now
  refine ⟨t', resumed, hrun, fun r hr hp => ?_⟩
  have hmem := List.mem_filter.mpr ⟨hr, hp⟩
  rcases resumeSla_cases hrun with ⟨hnil, -⟩ | ⟨sla, hrows, rfl, -⟩
  · rw [hnil] at hmem
    cases hmem
  · rw [hrows] at hmem
    obtain rfl := List.mem_singleton.mp hmem
    exact statusOf_updateInstance_self (resumeValues_keyFixed now r) ht hr

theorem checkSla_usable (ht : Keyed t) {sla : Instance} {slaPolicyId : String}
    (hrows : t.filter (ofPolicy caseId slaPolicyId) = [sla]) (now : Int) :
    ∃ t' checked, checkSla scan caseId slaPolicyId now t = .ok (t', checked) ∧
      Reports t' sla checked ∧ ∀ id, id ≠ sla.id → statusOf t' id = statusOf t id := by
  obtain ⟨hmem, hp⟩ := mem_of_filter_eq_singleton hrows
  have hpolicy : sla.slaPolicyId = slaPolicyId :=
    of_decide_eq_true (Bool.and_eq_true_iff.mp hp).2
  have hrun : ∃ x, checkSla scan caseId slaPolicyId now t = .ok x := by
    rw [checkSla, checkBy, hrows, scalarOneOrNone_singleton]
    by_cases hstop : sla.status ∈ [Status.paused, .breached]
    · exact ⟨_, if_pos hstop⟩
    · exact ⟨_, if_neg hstop⟩
  obtain ⟨⟨t', checked⟩, hrun⟩ := hrun
  refine ⟨t', checked, hrun, ?_⟩
  rcases checkBy_cases hrun with ⟨hnil, -⟩ | ⟨sla', hrows', hcases⟩
  · rw [hrows] at hnil
    cases hnil
  · obtain rfl := (List.cons.inj (hrows.symm.trans hrows')).1
    rcases hcases with ⟨-, rfl, rfl⟩ | ⟨-, rfl, e, -, rfl⟩
    · exact ⟨⟨congrArg some hpolicy.symm, (statusOf_eq_of_mem ht hmem).symm⟩, fun _ _ => rfl⟩
    · rw [crossThresholds_eq]
      split
      · refine ⟨⟨congrArg some hpolicy.symm, ?_⟩, fun id hid => ?_⟩
        · exact (statusOf_updateInstance_self (crossValues_keyFixed sla now) ht hmem).symm
        · exact statusOf_updateInstance_of_ne (crossValues_keyFixed sla now) t hid
      · next hsame =>
        refine ⟨⟨congrArg some hpolicy.symm, ?_⟩, fun _ _ => rfl⟩
        rw [statusOf_eq_of_mem ht hmem]
        exact congrArg some (not_not.mp hsame)

/-! ## evaluating every clock -/

theorem filter_eq_singleton_of_mem {p : Instance → Bool} {r : Instance} (hr : r ∈ t) (hp : p r)
    (hle : (t.filter p).length ≤ 1) : t.filter p = [r] := by
  have hmem := List.mem_filter.mpr ⟨hr, hp⟩
  obtain ⟨a, ha⟩ : ∃ a, t.filter p = [a] :=
    List.length_eq_one_iff.mp (le_antisymm hle (List.length_pos_of_mem hmem))
  rw [ha] at hmem ⊢
  rw [List.mem_singleton.mp hmem]

theorem evaluateRows_usable (ht : Keyed t) (hone : (policiesOf t caseId).Nodup) (now : Int)
    {rows : List Instance} (hrows : ∀ r ∈ rows, key r ∈ t.map key ∧ r.caseId = caseId)
    (hids : (rows.map (·.id)).Nodup) :
    ∃ t' results, evaluateRows scan caseId now rows t = .ok (t', results) ∧
      (∀ id, id ∉ rows.map (·.id) → statusOf t' id = statusOf t id) ∧
      List.Forall₂ (Reports t') rows results := by
  induction rows generalizing t with
  | nil => exact ⟨t, [], rfl, fun _ _ => rfl, .nil⟩
  | cons r rows ih =>
    obtain ⟨hkey, hcase⟩ := hrows r List.mem_cons_self
    obtain ⟨hfresh, hids'⟩ := List.nodup_cons.mp hids
    obtain ⟨r', hr', hsame⟩ := List.mem_map.mp hkey
    obtain ⟨hid, hrest⟩ := Prod.mk.inj hsame
    obtain ⟨hcase', hpolicy⟩ := Prod.mk.inj hrest
    have hp : ofPolicy caseId r.slaPolicyId r' = true :=
      Bool.and_eq_true_iff.mpr
        ⟨decide_eq_true (hcase'.trans hcase), decide_eq_true hpolicy⟩
    have hfound := filter_eq_singleton_of_mem hr' hp (policiesOf_nodup_iff.mp hone r.slaPolicyId)
    obtain ⟨t₁, checked, hcheck, hreports, hother⟩ := checkSla_usable ht hfound now
    have hkeys := map_key_checkBy hcheck
    obtain ⟨t', results, hrun, hframe, hall⟩ := ih (ht.of_map_key hkeys)
      (policiesOf_congr hkeys caseId ▸ hone)
      (fun x hx => hkeys.symm ▸ hrows x (List.mem_cons_of_mem r hx)) hids'
    refine ⟨t', checked :: results, ?_, fun id hnot => ?_, .cons ?_ hall⟩
    · rw [evaluateRows, hcheck]
      show (evaluateRows scan caseId now rows t₁ >>= _) = _
      rw [hrun]
      rfl
    · obtain ⟨hne, hnot'⟩ := not_or.mp (fun h => hnot (List.mem_cons.mpr h))
      rw [hframe id hnot']
      exact hother id (hid.symm ▸ hne)
    · refine ⟨hpolicy ▸ hreports.1, ?_⟩
      rw [hframe r.id hfresh, ← hid]
      exact hreports.2

theorem evaluateAllSlas_usable (ht : Keyed t) (hone : (policiesOf t caseId).Nodup) (now : Int) :
    ∃ t' results, evaluateAllSlas scan caseId now t = .ok (t', results) ∧
      List.Forall₂ (Reports t') (scan.order (t.filter (·.caseId = caseId))) results := by
  have hperm := scan.perm (t.filter (·.caseId = caseId))
  have hids : ((scan.order (t.filter (·.caseId = caseId))).map (·.id)).Nodup :=
    (hperm.map (·.id)).nodup_iff.mpr (ht.sublist (List.filter_sublist.map fun r : Instance => r.id))
  obtain ⟨t', results, hrun, -, hall⟩ := evaluateRows_usable ht hone now
    (fun r hr => by
      obtain ⟨hmem, hcase⟩ := List.mem_filter.mp (hperm.mem_iff.mp hr)
      exact ⟨List.mem_map_of_mem hmem, of_decide_eq_true hcase⟩) hids
  exact ⟨t', results, hrun, hall⟩

theorem evaluateRows_one {now : Int} {rows : List Instance} {results : List Checked}
    (h : evaluateRows scan caseId now rows t = .ok (t', results)) :
    ∀ r ∈ rows, (t.filter (ofPolicy caseId r.slaPolicyId)).length ≤ 1 := by
  induction rows generalizing t results with
  | nil =>
    intro r hr
    cases hr
  | cons r rows ih =>
    obtain ⟨⟨t₁, checked⟩, hcheck, h⟩ := exists_of_bind_ok h
    obtain ⟨⟨t₂, results'⟩, hrest, h⟩ := exists_of_bind_ok h
    cases h
    have hone : (t.filter (ofPolicy caseId r.slaPolicyId)).length ≤ 1 := by
      rcases checkBy_cases hcheck with ⟨hnil, -⟩ | ⟨sla, hfound, -⟩
      · rw [hnil]
        exact Nat.zero_le _
      · rw [hfound]
        exact le_refl _
    intro x hx
    rcases List.mem_cons.mp hx with rfl | hx
    · exact hone
    · rw [length_filter_ofPolicy, ← policiesOf_congr (map_key_checkBy hcheck),
        ← length_filter_ofPolicy]
      exact ih hrest x hx

theorem usable_iff (ht : Keyed t) : Usable scan t caseId ↔ (policiesOf t caseId).Nodup := by
  constructor
  · intro h
    obtain ⟨t', results, hrun, -⟩ := h.evaluate 0
    have hone := evaluateRows_one hrun
    refine policiesOf_nodup_iff.mpr fun slaPolicyId => ?_
    by_contra hmany
    obtain ⟨r, hr⟩ := List.exists_mem_of_length_pos
      (lt_of_lt_of_le Nat.one_pos (le_of_not_ge hmany))
    obtain ⟨hmem, hp⟩ := List.mem_filter.mp hr
    obtain ⟨hcase, hpolicy⟩ := Bool.and_eq_true_iff.mp hp
    have hfound : r ∈ scan.order (t.filter (·.caseId = caseId)) :=
      (scan.perm _).mem_iff.mpr (List.mem_filter.mpr ⟨hmem, hcase⟩)
    have hle := hone r hfound
    rw [of_decide_eq_true hpolicy] at hle
    exact hmany hle
  · intro h
    exact ⟨evaluateAllSlas_usable ht h, pauseSla_usable h ht, resumeSla_usable h ht⟩

/-! ## what an event adds -/

theorem startCaseSlas_cases {ids : Nat → Uuid} {now : Int} {n : Nat} {policies : List Policy}
    (h : startCaseSlas R ids caseId now n policies t = .ok t') :
    (Keyed t → Keyed t') ∧
      policiesOf t' caseId = policiesOf t caseId ++ policies.map (·.id) ∧
      ∀ c, c ≠ caseId → policiesOf t' c = policiesOf t c := by
  induction policies generalizing t n with
  | nil =>
    cases h
    exact ⟨fun ht => ht, (List.append_nil _).symm, fun _ _ => rfl⟩
  | cons slaPolicy policies ih =>
    obtain ⟨t₁, hstart, h⟩ := exists_of_bind_ok h
    obtain ⟨row, hfresh, hcase, hpolicy, rfl⟩ := startSla_cases hstart
    obtain ⟨hkeyed, hthis, hother⟩ := ih h
    refine ⟨fun ht => hkeyed (keyed_append ht hfresh), ?_, fun c hc => ?_⟩
    · rw [hthis, policiesOf_append, if_pos hcase, hpolicy, List.append_assoc]
      rfl
    · rw [hother c hc, policiesOf_append, if_neg (hcase ▸ Ne.symm hc), List.append_nil]

theorem map_key_pauseRows {now : Int} {rows : List Instance}
    (h : pauseRows scan caseId now rows t = .ok t') : t'.map key = t.map key := by
  induction rows generalizing t with
  | nil =>
    cases h
    rfl
  | cons r rows ih =>
    obtain ⟨⟨t₁, paused⟩, hpause, h⟩ := exists_of_bind_ok h
    exact (ih h).trans (map_key_pauseSla hpause)

theorem map_key_resumeRows {now : Int} {rows : List Instance}
    (h : resumeRows scan caseId now rows t = .ok t') : t'.map key = t.map key := by
  induction rows generalizing t with
  | nil =>
    cases h
    rfl
  | cons r rows ih =>
    obtain ⟨⟨t₁, resumed⟩, hresume, h⟩ := exists_of_bind_ok h
    exact (ih h).trans (map_key_resumeSla hresume)

theorem map_key_evaluateRows {now : Int} {rows : List Instance} {results : List Checked}
    (h : evaluateRows scan caseId now rows t = .ok (t', results)) : t'.map key = t.map key := by
  induction rows generalizing t results with
  | nil =>
    cases h
    rfl
  | cons r rows ih =>
    obtain ⟨⟨t₁, checked⟩, hcheck, h⟩ := exists_of_bind_ok h
    obtain ⟨⟨t₂, results'⟩, hrest, h⟩ := exists_of_bind_ok h
    cases h
    exact (ih hrest).trans (map_key_checkBy hcheck)

theorem map_key_onStatusChanged {statusSet : Option (String → Option StatusDef)}
    {oldStatus newStatus : String} {now : Int}
    (h : onStatusChanged scan statusSet caseId oldStatus newStatus now t = .ok t') :
    t'.map key = t.map key := by
  simp only [onStatusChanged] at h
  split at h
  · cases h
    exact map_key_cancelSlasForCase caseId t
  · split at h
    · exact map_key_pauseRows h
    · split at h
      · exact map_key_resumeRows h
      · cases h
        rfl

theorem policiesOf_apply {e : Event} (h : apply R scan t e = .ok t') :
    (Keyed t → Keyed t') ∧ policiesOf t' e.caseId = policiesOf t e.caseId ++ startedBy t e ∧
      ∀ c, c ≠ e.caseId → policiesOf t' c = policiesOf t c := by
  obtain ⟨caseId, now, action⟩ := e
  have hsame : ∀ {t'}, t'.map key = t.map key → (Keyed t → Keyed t') ∧
      policiesOf t' caseId = policiesOf t caseId ++ [] ∧
      ∀ c, c ≠ caseId → policiesOf t' c = policiesOf t c := by
    intro t' hkeys
    exact ⟨fun ht => ht.of_map_key hkeys,
      (policiesOf_congr hkeys caseId).trans (List.append_nil _).symm,
      fun c _ => policiesOf_congr hkeys c⟩
  cases action with
  | created ids caseType => exact startCaseSlas_cases h
  | stageEntered id stage caseType =>
    obtain ⟨⟨t₁, n⟩, hstart, rfl⟩ := exists_of_map_ok h
    simp only [startStageSlas] at hstart
    simp only [startedBy]
    split at hstart
    · next hnone =>
      cases hstart
      rw [hnone]
      exact hsame rfl
    · next slaPolicy hsome =>
      obtain ⟨t₂, hstart', heq⟩ := exists_of_map_ok hstart
      obtain ⟨rfl, -⟩ := Prod.mk.inj heq
      obtain ⟨row, hfresh, hcase, hpolicy, rfl⟩ := startSla_cases hstart'
      rw [hsome]
      refine ⟨fun ht => keyed_append ht hfresh, ?_, fun c hc => ?_⟩
      · rw [policiesOf_append, if_pos hcase, hpolicy]
        rfl
      · rw [policiesOf_append, if_neg (hcase ▸ Ne.symm hc), List.append_nil]
  | statusChanged statusSet oldStatus newStatus => exact hsame (map_key_onStatusChanged h)
  | evaluated =>
    obtain ⟨⟨t₁, results⟩, hrun, rfl⟩ := exists_of_map_ok h
    exact hsame (map_key_evaluateRows hrun)
  | paused slaPolicyId =>
    obtain ⟨⟨t₁, paused⟩, hrun, rfl⟩ := exists_of_map_ok h
    exact hsame (map_key_pauseSla hrun)
  | resumed slaPolicyId =>
    obtain ⟨⟨t₁, resumed⟩, hrun, rfl⟩ := exists_of_map_ok h
    exact hsame (map_key_resumeSla hrun)

/-! ## runs -/

variable (R scan)

/-- an event that takes effect starts no second clock of a policy on its case -/
def StartsFresh (t : Table) (e : Event) : Prop :=
  (∃ t', apply R scan t e = .ok t') → (policiesOf t e.caseId ++ startedBy t e).Nodup

variable {R scan}

theorem after_keyed (ht : Keyed t) (e : Event) : Keyed (after R scan t e) := by
  cases hrun : apply R scan t e with
  | error f =>
    rw [after, hrun]
    exact ht
  | ok t' =>
    rw [after, hrun]
    exact (policiesOf_apply hrun).1 ht

theorem history_keyed (events : List Event) : Keyed (history R scan events) :=
  exec_inv' (I := Keyed) (fun _ e ht => after_keyed ht e) events List.nodup_nil

theorem after_nodup {e : Event} (h : ∀ c, (policiesOf t c).Nodup) (he : StartsFresh R scan t e) :
    ∀ c, (policiesOf (after R scan t e) c).Nodup := by
  intro c
  cases hrun : apply R scan t e with
  | error f =>
    rw [after, hrun]
    exact h c
  | ok t' =>
    rw [after, hrun]
    obtain ⟨-, hthis, hother⟩ := policiesOf_apply hrun
    by_cases hc : c = e.caseId
    · subst hc
      show (policiesOf t' e.caseId).Nodup
      rw [hthis]
      exact he ⟨t', hrun⟩
    · show (policiesOf t' c).Nodup
      rw [hother c hc]
      exact h c

variable (R scan)

theorem usable_run_iff (events : List Event) :
    (∀ before later, events = before ++ later → ∀ caseId,
      Usable scan (history R scan before) caseId) ↔
      Along (after R scan) (StartsFresh R scan) [] events := by
  constructor
  · intro h
    by_contra hnot
    obtain ⟨before, e, later, rfl, -, hstale⟩ := exists_first_of_not_along (after R scan) hnot
    obtain ⟨⟨t', hrun⟩, hdup⟩ := Classical.not_imp.mp hstale
    have husable := h (before ++ [e]) later (by simp) e.caseId
    have hnodup := (usable_iff (history_keyed _)).mp husable
    rw [history, exec_concat, after, hrun] at hnodup
    exact hdup ((policiesOf_apply hrun).2.1 ▸ hnodup)
  · intro h before later hevents caseId
    rw [hevents, along_append] at h
    refine (usable_iff (history_keyed before)).mpr ?_
    refine exec_inv (I := fun t => ∀ c, (policiesOf t c).Nodup) (fun t e ht he => after_nodup ht he)
      (fun c => ?_) h.1 caseId
    exact List.nodup_nil

def triage : Stage where
  id := "triage"
  slaPolicyId := some "response"

def claimType : CaseType where
  slaPolicies := [{ dayPolicy with scope := "stage" }]

/-- a stage is entered, its clock breaches, and the case comes back to the stage -/
def revisit : List Event :=
  [{ caseId := 7, now := 0, action := .stageEntered 1 triage claimType },
    { caseId := 7, now := days 1, action := .evaluated },
    { caseId := 7, now := days 1, action := .stageEntered 2 triage claimType }]

theorem revisited_stage_unusable :
    ¬ ∀ before later, revisit = before ++ later → ∀ caseId,
      Usable asRead (history .silent asRead before) caseId := by
  intro h
  obtain ⟨t', results, hrun, -⟩ := (h revisit [] (by simp) 7).evaluate 0
  have hraises : evaluateAllSlas asRead 7 0 (history .silent asRead revisit) =
      .error .multipleResultsFound := by decide +kernel
  rw [hraises] at hrun
  cases hrun

end Sla
