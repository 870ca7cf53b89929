import Velaris.CaseActions.Statuses
import Velaris.Sla.Usable

/-!
# Clocks that follow the status of their case

`on_status_changed` on a case whose tenant or case type has statuses of its own.

* `Event`, `step`   a change of the status, or an operation of the tracker;
* `Changed`   what an operation makes of the rows, and of their statuses;
* `Follows`   the clocks do what the new status means in the case's own set;
* `Addressed`   the platform's set says the same of the statuses as the case's own.

`run_follows`: the clocks follow in a run whose changes are addressed.  The lifecycle resolves the
platform's set, whatever the tenant and the case type define.
-/

namespace Sla.Follow
open Py Base CaseActions Sla

/-! ## a case with its clocks -/

structure State where
  status : String
  table : Table

def definitions (set : StatusSet) (name : String) : Option StatusDef :=
  (set.get name).map fun s => ⟨s.isTerminal, s.category⟩

def flagsIn (statuses : Option (List CaseStatus)) (tenantId caseTypeId : Option Uuid)
    (oldStatus newStatus : String) : Flags :=
  flagsOf (some (definitions (resolveSet statuses tenantId caseTypeId))) oldStatus newStatus

variable (R : Runtime) (scan : Scan Instance) (caseId : Uuid) (tenantId : Option Uuid)
  (caseTypeId : Uuid)

/-- the rows as a loop leaves them that raises, if it does -/
def pausedUntil (now : Int) : List Instance → Table → Table
  | [], t => t
  | sla :: rows, t =>
    match pauseSla scan caseId sla.slaPolicyId now t with
    | .ok (t', _) => pausedUntil now rows t'
    | .error _ => t

def resumedUntil (now : Int) : List Instance → Table → Table
  | [], t => t
  | sla :: rows, t =>
    match resumeSla scan caseId sla.slaPolicyId now t with
    | .ok (t', _) => resumedUntil now rows t'
    | .error _ => t

def interrupted (isWaiting : Bool) (now : Int) (t : Table) : Table :=
  let slaInstances := scan.order (t.filter (·.caseId = caseId))
  if isWaiting then
    pausedUntil scan caseId now (slaInstances.filter (·.status ∈ [Status.onTrack, .atRisk])) t
  else resumedUntil scan caseId now (slaInstances.filter (·.status = .paused)) t

inductive Event where
  /-- `logged`: the caller of `apply_status_change` catches what it raises, and goes on -/
  | statusChanged (statuses : Option (List CaseStatus)) (newStatus : String) (now : Int)
      (logged : Bool)
  | clock (op : Op)

def step (s : State) : Event → State
  | .statusChanged statuses newStatus now logged =>
    -- the set of no tenant and no case type
    match onStatusChanged scan (some (definitions (resolveSet statuses none none))) caseId s.status
        newStatus now s.table with
    | .ok t => ⟨newStatus, t⟩
    | .error _ =>
      if logged then
        ⟨newStatus, interrupted scan caseId
          (flagsIn statuses none none s.status newStatus).isWaiting now s.table⟩
      else s
  | .clock op => { s with table := Sla.step R scan s.table op }

/-! ## following -/

def running (s : Status) : Bool := s ∈ [Status.onTrack, .atRisk]

/-- what a change by the flags is to do to a clock with the status -/
def Does (flags : Flags) (before : Status) (after : Option Status) : Prop :=
  (before.active → (after = some .cancelled ↔ flags.isTerminal)) ∧
    (running before → (after = some .paused ↔ flags.isWaiting)) ∧
    (before = .paused → flags.wasWaiting → ¬ flags.isWaiting → ¬ flags.isTerminal →
      after = some .onTrack)

/-- the status is written, and so the clocks of the case do what it means in the case's own set -/
def Follows (s : State) (e : Event) : Prop :=
  match e with
  | .statusChanged statuses newStatus now logged =>
    (logged ∨ ∃ t, onStatusChanged scan (some (definitions (resolveSet statuses none none))) caseId
      s.status newStatus now s.table = .ok t) →
    ∀ r ∈ s.table, r.caseId = caseId →
      Does (flagsIn statuses tenantId (some caseTypeId) s.status newStatus) r.status
        (statusOf (step R scan caseId s (.statusChanged statuses newStatus now logged)).table r.id)
  | .clock _ => True

/-- no policy has two clocks of the case that the change is to pause, or to resume -/
def Single (t : Table) (flags : Flags) : Prop :=
  (flags.isTerminal = false → flags.isWaiting →
    ∀ policy, (t.filter (pausable caseId policy)).length ≤ 1) ∧
  (flags.isTerminal = false → flags.isWaiting = false → flags.wasWaiting →
    ∀ policy, (t.filter (resumable caseId policy)).length ≤ 1)

/-- the platform's set and the case's own agree on what the change means for the clocks there are -/
structure Agreed (t : Table) (platform own : Flags) : Prop where
  terminal : (∃ r ∈ t, r.caseId = caseId ∧ r.status.active) →
    platform.isTerminal = own.isTerminal
  waiting : (∃ r ∈ t, r.caseId = caseId ∧ running r.status) →
    own.isWaiting = (platform.isWaiting && !platform.isTerminal)
  left : (∃ r ∈ t, r.caseId = caseId ∧ r.status = .paused) → own.wasWaiting →
    own.isWaiting = false → own.isTerminal = false →
      platform.isWaiting = false ∧ platform.wasWaiting

def Addressed (s : State) : Event → Prop
  | .statusChanged statuses newStatus _ logged =>
    Agreed caseId s.table (flagsIn statuses none none s.status newStatus)
      (flagsIn statuses tenantId (some caseTypeId) s.status newStatus) ∧
    (logged → Single caseId s.table (flagsIn statuses none none s.status newStatus))
  | .clock _ => True

/-! ## what becomes of the rows -/

/-- every row is there again, those that `p` accepts with the status -/
def Changed (p : Instance → Bool) (status : Status) (t t' : Table) : Prop :=
  ∀ r ∈ t, ∃ r' ∈ t', key r' = key r ∧ r'.status = if p r then status else r.status

variable {R scan caseId tenantId caseTypeId} {t t' t'' : Table} {p q : Instance → Bool}
  {status : Status}

theorem Changed.congr (h : Changed p status t t') (hpq : ∀ r ∈ t, p r = q r) :
    Changed q status t t' := by
  intro r hr
  obtain ⟨r', hr', hkey, hstatus⟩ := h r hr
  exact ⟨r', hr', hkey, hpq r hr ▸ hstatus⟩

theorem Changed.refl (status : Status) (t : Table) : Changed (fun _ => false) status t t :=
  fun r hr => ⟨r, hr, rfl, rfl⟩

theorem Changed.trans (h : Changed p status t t') (h' : Changed q status t' t'')
    (hq : ∀ r r', key r' = key r → r'.status = r.status → q r' = q r) :
    Changed (fun r => p r || q r) status t t'' := by
  intro r hr
  obtain ⟨r', hr', hkey, hstatus⟩ := h r hr
  obtain ⟨r'', hr'', hkey', hstatus'⟩ := h' r' hr'
  refine ⟨r'', hr'', hkey'.trans hkey, ?_⟩
  cases hp : p r with
  | true =>
    rw [hp, if_pos rfl] at hstatus
    show r''.status = if (p r || q r) = true then status else r.status
    rw [hp, Bool.true_or, if_pos rfl, hstatus', hstatus, ite_self]
  | false =>
    rw [hp, if_neg (by decide)] at hstatus
    show r''.status = if (p r || q r) = true then status else r.status
    rw [hp, Bool.false_or, hstatus', hq r r' hkey hstatus, hstatus]

theorem updateInstance_changed {id : Uuid} {values : Instance → Instance} (hvalues : KeyFixed values)
    (hstatus : ∀ r, (values r).status = status) (t : Table) :
    Changed (fun r => r.id = id) status t (updateInstance id values t) := by
  intro r hr
  refine ⟨_, List.mem_map_of_mem hr, ?_, ?_⟩
  · by_cases hid : r.id = id
    · rw [if_pos hid]
      exact hvalues r
    · rw [if_neg hid]
  · show (if r.id = id then values r else r).status = if decide (r.id = id) = true then _ else _
    by_cases hid : r.id = id
    · rw [if_pos hid, hstatus, if_pos (decide_eq_true hid)]
    · rw [if_neg hid, if_neg fun h => hid (of_decide_eq_true h)]

theorem changed_of_single (ht : Keyed t) {sla : Instance} (hrows : t.filter p = [sla])
    {values : Instance → Instance} (hvalues : KeyFixed values)
    (hstatus : ∀ r, (values r).status = status) :
    Changed p status t (updateInstance sla.id values t) := by
  refine (updateInstance_changed hvalues hstatus t).congr fun r hr => ?_
  obtain ⟨hsla, hp⟩ := mem_of_filter_eq_singleton hrows
  by_cases hid : r.id = sla.id
  · obtain rfl := List.inj_on_of_nodup_map ht hr hsla hid
    rw [hp, decide_eq_true rfl]
  · rw [decide_eq_false hid]
    refine (eq_false_of_ne_true fun hpr => hid ?_).symm
    have hmem := List.mem_filter.mpr ⟨hr, hpr⟩
    rw [hrows] at hmem
    rw [List.mem_singleton.mp hmem]

theorem changed_of_none (hrows : t.filter p = []) : Changed p status t t := by
  refine (Changed.refl status t).congr fun r hr => (eq_false_of_ne_true fun hpr => ?_).symm
  have hmem := List.mem_filter.mpr ⟨hr, hpr⟩
  rw [hrows] at hmem
  cases hmem

theorem pauseSla_changed (ht : Keyed t) {slaPolicyId : String} {now : Int} {paused : Bool}
    (h : pauseSla scan caseId slaPolicyId now t = .ok (t', paused)) :
    Changed (pausable caseId slaPolicyId) .paused t t' := by
  rcases pauseSla_cases h with ⟨hnil, rfl, -⟩ | ⟨sla, hrows, rfl, -⟩
  · exact changed_of_none hnil
  · exact changed_of_single ht hrows (pauseValues_keyFixed now) fun _ => rfl

theorem resumeSla_changed (ht : Keyed t) {slaPolicyId : String} {now : Int} {resumed : Bool}
    (h : resumeSla scan caseId slaPolicyId now t = .ok (t', resumed)) :
    Changed (resumable caseId slaPolicyId) .onTrack t t' := by
  rcases resumeSla_cases h with ⟨hnil, rfl, -⟩ | ⟨sla, hrows, rfl, -⟩
  · exact changed_of_none hnil
  · exact changed_of_single ht hrows (resumeValues_keyFixed now sla) fun _ => rfl

theorem ofPolicy_congr {slaPolicyId : String} {r r' : Instance} (hkey : key r' = key r) :
    ofPolicy caseId slaPolicyId r' = ofPolicy caseId slaPolicyId r := by
  obtain ⟨hid, hrest⟩ := Prod.mk.inj hkey
  obtain ⟨hcase, hpolicy⟩ := Prod.mk.inj hrest
  rw [ofPolicy, hcase, hpolicy, ofPolicy]

theorem pauseRows_changed (ht : Keyed t) {now : Int} {rows : List Instance}
    (h : pauseRows scan caseId now rows t = .ok t') :
    Changed (fun r => rows.any fun sla => pausable caseId sla.slaPolicyId r) .paused t t' := by
  induction rows generalizing t with
  | nil =>
    cases h
    exact .refl _ _
  | cons sla rows ih =>
    obtain ⟨⟨t₁, paused⟩, hpause, h⟩ := exists_of_bind_ok h
    refine (pauseSla_changed ht hpause).trans (ih (ht.of_map_key (map_key_pauseSla hpause)) h) ?_
    intro r r' hkey hstatus
    exact congrArg rows.any (funext fun sla => by
      rw [pausable, ofPolicy_congr hkey, hstatus, pausable])

theorem resumeRows_changed (ht : Keyed t) {now : Int} {rows : List Instance}
    (h : resumeRows scan caseId now rows t = .ok t') :
    Changed (fun r => rows.any fun sla => resumable caseId sla.slaPolicyId r) .onTrack t t' := by
  induction rows generalizing t with
  | nil =>
    cases h
    exact .refl _ _
  | cons sla rows ih =>
    obtain ⟨⟨t₁, resumed⟩, hresume, h⟩ := exists_of_bind_ok h
    refine (resumeSla_changed ht hresume).trans (ih (ht.of_map_key (map_key_resumeSla hresume)) h) ?_
    intro r r' hkey hstatus
    exact congrArg rows.any (funext fun sla => by
      rw [resumable, ofPolicy_congr hkey, hstatus, resumable])

theorem foldl_cancel_changed (rows : List Instance) (t : Table) :
    Changed (fun r => rows.any fun sla => r.id = sla.id) .cancelled t
      (rows.foldl (fun t sla => updateInstance sla.id cancelValues t) t) := by
  induction rows generalizing t with
  | nil => exact .refl _ _
  | cons sla rows ih =>
    refine (updateInstance_changed cancelValues_keyFixed (fun _ => rfl) t).trans (ih _) ?_
    intro r r' hkey _
    have hid : r'.id = r.id := (Prod.mk.inj hkey).1
    exact congrArg rows.any (funext fun sla => by rw [hid])

theorem cancelSlasForCase_changed (ht : Keyed t) :
    Changed (fun r => r.caseId = caseId && r.status.active) .cancelled t
      (cancelSlasForCase scan caseId t).1 := by
  have hperm := scan.perm (t.filter fun r => r.caseId = caseId && r.status.active)
  refine (foldl_cancel_changed _ t).congr fun r hr => ?_
  rw [Bool.eq_iff_iff, List.any_eq_true]
  constructor
  · intro hx
    obtain ⟨sla, hsla, hid⟩ := hx
    obtain ⟨hmem, hp⟩ := List.mem_filter.mp (hperm.mem_iff.mp hsla)
    obtain rfl := List.inj_on_of_nodup_map ht hr hmem (of_decide_eq_true hid)
    exact hp
  · intro hp
    exact ⟨r, hperm.mem_iff.mpr (List.mem_filter.mpr ⟨hr, hp⟩), decide_eq_true rfl⟩

/-! ## one change -/

/-- what a change by the flags does to a clock of the case -/
def becomes (flags : Flags) (s : Status) : Status :=
  if flags.isTerminal then if s.active then .cancelled else s
  else if flags.isWaiting then if running s then .paused else s
  else if flags.wasWaiting then if s = .paused then .onTrack else s
  else s

theorem statusOf_of_changed (h : Changed p status t t') (ht' : Keyed t') {r : Instance}
    (hr : r ∈ t) : statusOf t' r.id = some (if p r then status else r.status) := by
  obtain ⟨r', hr', hkey, hstatus⟩ := h r hr
  rw [← (Prod.mk.inj hkey).1, statusOf_eq_of_mem ht' hr', hstatus]

variable (scan) in
theorem any_policy {p : Instance → Bool} {r : Instance} (hr : r ∈ t) (hcase : r.caseId = caseId) :
    (((scan.order (t.filter (·.caseId = caseId))).filter p).any fun sla =>
      ofPolicy caseId sla.slaPolicyId r && p r) = p r := by
  rw [Bool.eq_iff_iff, List.any_eq_true]
  constructor
  · intro hx
    obtain ⟨sla, -, hp⟩ := hx
    exact (Bool.and_eq_true_iff.mp hp).2
  · intro hp
    have hmem : r ∈ scan.order (t.filter (·.caseId = caseId)) :=
      (scan.perm _).mem_iff.mpr (List.mem_filter.mpr ⟨hr, decide_eq_true hcase⟩)
    refine ⟨r, List.mem_filter.mpr ⟨hmem, hp⟩, Bool.and_eq_true_iff.mpr ⟨?_, hp⟩⟩
    exact Bool.and_eq_true_iff.mpr ⟨decide_eq_true hcase, decide_eq_true rfl⟩

theorem onStatusChanged_becomes (ht : Keyed t) {get : String → Option StatusDef}
    {oldStatus newStatus : String} {now : Int}
    (h : onStatusChanged scan (some get) caseId oldStatus newStatus now t = .ok t') {r : Instance}
    (hr : r ∈ t) (hcase : r.caseId = caseId) :
    statusOf t' r.id = some (becomes (flagsOf (some get) oldStatus newStatus) r.status) := by
  have ht' : Keyed t' := ht.of_map_key (map_key_onStatusChanged h)
  simp only [onStatusChanged] at h
  rw [becomes]
  split at h
  · next hterminal =>
    cases h
    rw [statusOf_of_changed (cancelSlasForCase_changed ht) ht' hr, if_pos hterminal,
      decide_eq_true hcase, Bool.true_and]
  · next hterminal =>
    rw [if_neg hterminal]
    split at h
    · next hwaiting =>
      rw [if_pos hwaiting]
      have hany := any_policy scan (p := fun r => r.status ∈ [Status.onTrack, .atRisk]) hr hcase
      exact (statusOf_of_changed (pauseRows_changed ht h) ht' hr).trans
        (congrArg (fun b : Bool => some (if b then Status.paused else r.status)) hany)
    · next hwaiting =>
      rw [if_neg hwaiting]
      split at h
      · next hleft =>
        rw [if_pos hleft]
        have hany := any_policy scan (p := fun r => r.status = .paused) hr hcase
        refine (statusOf_of_changed (resumeRows_changed ht h) ht' hr).trans ((congrArg (fun b : Bool =>
          some (if b then Status.onTrack else r.status)) hany).trans ?_)
        simp only [decide_eq_true_eq]
      · next hleft =>
        cases h
        rw [if_neg hleft, statusOf_eq_of_mem ht hr]

theorem becomes_cancelled_iff {flags : Flags} {s : Status} (hs : s.active) :
    becomes flags s = .cancelled ↔ flags.isTerminal := by
  rw [becomes]
  split
  · next h => simp [h]
  · next h =>
    refine iff_of_false (fun hx => ?_) h
    split_ifs at hx <;> subst hx <;> simp [Status.active] at hs

theorem becomes_paused_iff {flags : Flags} {s : Status} (hs : running s) :
    becomes flags s = .paused ↔ (flags.isWaiting && !flags.isTerminal) := by
  have hne : s ≠ .paused := by
    intro h
    rw [h] at hs
    cases hs
  have hactive : s.active := by
    cases s <;> simp [running, Status.active] at hs ⊢
  rw [becomes]
  cases flags.isTerminal <;> cases flags.isWaiting <;> simp [hs, hne, hactive]

/-- what a change does by the platform's flags is what the case's own flags ask for, where they
agree -/
theorem does_of_agreed {platform own : Flags} {r : Instance} (h : Agreed caseId t platform own)
    (hr : r ∈ t) (hcase : r.caseId = caseId) :
    Does own r.status (some (becomes platform r.status)) := by
  refine ⟨fun ha => ?_, fun ha => ?_, fun ha hwas hnot hopen => ?_⟩
  · rw [Option.some_inj, becomes_cancelled_iff ha, h.terminal ⟨r, hr, hcase, ha⟩]
  · rw [Option.some_inj, becomes_paused_iff ha, h.waiting ⟨r, hr, hcase, ha⟩]
  · have hactive : r.status.active := by
      rw [ha]
      rfl
    have hterminal := (h.terminal ⟨r, hr, hcase, hactive⟩).trans (eq_false_of_ne_true hopen)
    obtain ⟨hwaiting, hleft⟩ := h.left ⟨r, hr, hcase, ha⟩ hwas (eq_false_of_ne_true hnot)
      (eq_false_of_ne_true hopen)
    simp [becomes, hterminal, hwaiting, hleft, ha]

/-! ## changes that do not raise -/

theorem length_filter_updateInstance_le {id : Uuid} {values : Instance → Instance}
    (hp : ∀ r, p (values r) → p r) (t : Table) :
    ((updateInstance id values t).filter p).length ≤ (t.filter p).length := by
  rw [updateInstance, List.filter_map, List.length_map]
  refine (List.monotone_filter_right t fun r hr => ?_).length_le
  have hpr : p (if r.id = id then values r else r) = true := hr
  split at hpr
  · exact hp r hpr
  · exact hpr

theorem pauseRows_ok {now : Int} {rows : List Instance}
    (hone : ∀ policy, (t.filter (pausable caseId policy)).length ≤ 1) :
    ∃ t', pauseRows scan caseId now rows t = .ok t' := by
  induction rows generalizing t with
  | nil => exact ⟨t, rfl⟩
  | cons sla rows ih =>
    obtain ⟨t₁, paused, hrun⟩ := exists_pauseSla (hone sla.slaPolicyId) now
    have hone₁ : ∀ policy, (t₁.filter (pausable caseId policy)).length ≤ 1 := by
      intro policy
      rcases pauseSla_cases hrun with ⟨-, rfl, -⟩ | ⟨sla', -, rfl, -⟩
      · exact hone policy
      · refine le_trans (length_filter_updateInstance_le (fun r hr => ?_) t) (hone policy)
        exact absurd (Bool.and_eq_true_iff.mp hr).2 (by simp [pauseValues])
    obtain ⟨t', ht'⟩ := ih hone₁
    exact ⟨t', by rw [pauseRows, hrun]; exact ht'⟩

theorem resumeRows_ok {now : Int} {rows : List Instance}
    (hone : ∀ policy, (t.filter (resumable caseId policy)).length ≤ 1) :
    ∃ t', resumeRows scan caseId now rows t = .ok t' := by
  induction rows generalizing t with
  | nil => exact ⟨t, rfl⟩
  | cons sla rows ih =>
    obtain ⟨t₁, resumed, hrun⟩ := exists_resumeSla (hone sla.slaPolicyId) now
    have hone₁ : ∀ policy, (t₁.filter (resumable caseId policy)).length ≤ 1 := by
      intro policy
      rcases resumeSla_cases hrun with ⟨-, rfl, -⟩ | ⟨sla', -, rfl, -⟩
      · exact hone policy
      · refine le_trans (length_filter_updateInstance_le (fun r hr => ?_) t) (hone policy)
        exact absurd (Bool.and_eq_true_iff.mp hr).2 (by simp [resumeValues])
    obtain ⟨t', ht'⟩ := ih hone₁
    exact ⟨t', by rw [resumeRows, hrun]; exact ht'⟩

variable (scan) in
theorem onStatusChanged_ok {get : String → Option StatusDef} {oldStatus newStatus : String}
    (now : Int) (h : Single caseId t (flagsOf (some get) oldStatus newStatus)) :
    ∃ t', onStatusChanged scan (some get) caseId oldStatus newStatus now t = .ok t' := by
  simp only [onStatusChanged]
  split
  · exact ⟨_, rfl⟩
  · next hterminal =>
    split
    · next hwaiting => exact pauseRows_ok (h.1 (eq_false_of_ne_true hterminal) hwaiting)
    · next hwaiting =>
      split
      · next hleft =>
        exact resumeRows_ok
          (h.2 (eq_false_of_ne_true hterminal) (eq_false_of_ne_true hwaiting) hleft)
      · exact ⟨_, rfl⟩

/-! ## runs -/

theorem follows_of_addressed {s : State} (ht : Keyed s.table) {e : Event}
    (h : Addressed caseId tenantId caseTypeId s e) :
    Follows R scan caseId tenantId caseTypeId s e := by
  cases e with
  | clock op => trivial
  | statusChanged statuses newStatus now logged =>
    intro hwritten r hr hcase
    obtain ⟨hagreed, hsingle⟩ := h
    obtain ⟨t', hrun⟩ : ∃ t', onStatusChanged scan (some (definitions (resolveSet statuses none none)))
        caseId s.status newStatus now s.table = .ok t' := by
      rcases hwritten with hlogged | hok
      · exact onStatusChanged_ok scan now (hsingle hlogged)
      · exact hok
    have hstep : (step R scan caseId s (.statusChanged statuses newStatus now logged)).table = t' := by
      rw [step, hrun]
    rw [hstep, onStatusChanged_becomes ht hrun hr hcase]
    exact does_of_agreed hagreed hr hcase

theorem step_keyed {s : State} (ht : Keyed s.table) {e : Event}
    (h : Addressed caseId tenantId caseTypeId s e) : Keyed (step R scan caseId s e).table := by
  cases e with
  | clock op => exact Sla.step_keyed ht op
  | statusChanged statuses newStatus now logged =>
    obtain ⟨-, hsingle⟩ := h
    cases hrun : onStatusChanged scan (some (definitions (resolveSet statuses none none))) caseId
        s.status newStatus now s.table with
    | ok t' =>
      rw [step, hrun]
      exact ht.of_map_key (map_key_onStatusChanged hrun)
    | error e =>
      cases logged with
      | false =>
        rw [step, hrun]
        exact ht
      | true =>
        obtain ⟨t', hok⟩ := onStatusChanged_ok scan now (hsingle rfl)
        cases hrun.symm.trans hok

theorem run_follows (R : Runtime) (scan : Scan Instance) (caseId : Uuid) (tenantId : Option Uuid)
    (caseTypeId : Uuid) (status : String) {events : List Event}
    (h : Along (step R scan caseId) (Addressed caseId tenantId caseTypeId) ⟨status, []⟩ events) :
    Along (step R scan caseId) (Follows R scan caseId tenantId caseTypeId) ⟨status, []⟩ events :=
  h.mono (I := fun s => Keyed s.table) (fun _ _ ht ha => step_keyed ht ha)
    (fun _ _ ht ha => follows_of_addressed ht ha) (show Keyed [] from List.nodup_nil)

/-! ## a status of a tenant -/

/-- the platform's `open`, and a status that the tenant 3 waits in -/
def surveyed : List CaseStatus :=
  [{ scopeKey := scopeKey none none, name := "open" },
    { scopeKey := scopeKey (some 3) none, name := "awaiting_survey", category := "waiting" }]

def started : Event := .clock (.start 1 7 dayPolicy "7" 0)

theorem run_follows_pending :
    Along (step .silent asRead 7) (Follows .silent asRead 7 (some 3) 4) ⟨"open", []⟩
      [started, .statusChanged none "pending_external" 5 true] := by
  refine run_follows .silent asRead 7 (some 3) 4 "open" ⟨trivial, ⟨⟨?_, ?_, ?_⟩, ?_⟩, trivial⟩
  · exact fun _ => by decide +kernel
  · exact fun _ => by decide +kernel
  · exact fun _ hwas => absurd hwas (by decide +kernel)
  · intro _
    have htable : (step .silent asRead 7 ⟨"open", []⟩ started).table.length = 1 := by
      decide +kernel
    exact ⟨fun _ _ _ => htable ▸ List.length_filter_le _ _,
      fun _ _ _ _ => htable ▸ List.length_filter_le _ _⟩

/-- the clock of a case runs on while its tenant waits for the survey -/
theorem survey_unpaused :
    ¬ Along (step .silent asRead 7) (Follows .silent asRead 7 (some 3) 4) ⟨"open", []⟩
      [started, .statusChanged (some surveyed) "awaiting_survey" 5 false] := by
  intro h
  have htable : (step .silent asRead 7 ⟨"open", []⟩ started).table.map
      (fun r => (r.id, r.caseId, r.status)) = [(1, 7, Status.onTrack)] := by decide +kernel
  obtain ⟨r, hr, heq⟩ := List.mem_map.mp (htable ▸ List.mem_singleton.mpr rfl)
  obtain ⟨hid, hrest⟩ := Prod.mk.inj heq
  obtain ⟨hcase, hstatus⟩ := Prod.mk.inj hrest
  have hplatform : flagsOf (some (definitions (resolveSet (some surveyed) none none))) "open"
      "awaiting_survey" = ⟨false, false, false⟩ := by decide +kernel
  have hok : ∃ t', onStatusChanged asRead (some (definitions (resolveSet (some surveyed) none none)))
      7 "open" "awaiting_survey" 5 (step .silent asRead 7 ⟨"open", []⟩ started).table = .ok t' := by
    apply onStatusChanged_ok
    rw [hplatform]
    exact ⟨fun _ hw => absurd hw (by decide), fun _ _ hl => absurd hl (by decide)⟩
  have hdoes := h.2.1 (Or.inr hok) r hr hcase
  have hpaused := (hdoes.2.1 (by rw [hstatus]; rfl)).mpr (by decide +kernel)
  rw [hid] at hpaused
  exact absurd hpaused (by decide +kernel)

end Sla.Follow
