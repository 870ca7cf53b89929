import Mathlib.Data.Rat.Floor
import Mathlib.Tactic.Linarith
import Velaris.Sla.Final

/-!
# Urgency scores

`case_service/core/urgency_calculator.py`, over exact rationals: the score of a case from its
priority, its clocks, its age and the cases that it blocks.

* `slaProximityFactor`, `score`, `computeUrgency`   the score before and after rounding;
* `Reached`   the tables that the operations on clocks make, at times that never go back;
* `Respects`   what the score owes to the clock, for the rows of a case;
* `Fair`   the rows for which it does.

`reached_sound` is what every operation keeps, and `respects_iff` reads the score of rows that are
sound: a row counts for the share of its time that it has used, and the factor is the largest share.
-/

namespace Sla.Urgency
open Py Base

/-! ## factors -/

def priorityValue (priority : String) : Option ℚ :=
  [("low", 10), ("medium", 20), ("high", 30), ("critical", 40), ("blocker", 50)].lookup priority

def defaultWeight (name : String) : ℚ :=
  (([("priority", 1), ("sla", 2), ("age", 1 / 10), ("relationship", 3 / 2)] :
    List (String × ℚ)).lookup name).getD 0

def priorityFactor (priority : String) : ℚ := (priorityValue priority).getD 20

def used (now : Int) (sla : Instance) : ℚ :=
  let total := sla.deadlineAt - sla.startedAt
  if total ≤ 0 then 1
  else
    let elapsed := max 0 (now - sla.startedAt - seconds sla.pausedDurationSeconds)
    elapsed / total

def worstWith (now : Int) (worst : ℚ) (sla : Instance) : ℚ :=
  if sla.status = .paused then worst
  else if sla.status = .breached then max worst (3 / 2)
  else max worst (used now sla)

def slaProximityFactor (slaInstances : List Instance) (now : Int) : ℚ :=
  slaInstances.foldl (worstWith now) 0

def ageFactor (createdAt now : Int) : ℚ :=
  let hours : ℚ := (now - createdAt : Int) / 3600000000
  max 0 (hours / 24)

def blockingFactor (blockingCount : Nat) : ℚ := blockingCount * 10

/-! ## scores -/

/-- `round(x)`: a half goes to the even neighbour -/
def roundHalfEven (x : ℚ) : Int :=
  let low := x.floor
  if x - low < 1 / 2 then low else if 1 / 2 < x - low then low + 1
  else if low % 2 = 0 then low else low + 1

structure Case where
  priority : String := "medium"
  createdAt : Int
  blockingCount : Nat := 0
  weights : List (String × ℚ) := []

def Case.weight (c : Case) (name : String) : ℚ := (c.weights.lookup name).getD (defaultWeight name)

def score (c : Case) (slaInstances : List Instance) (now : Int) : ℚ :=
  c.weight "priority" * priorityFactor c.priority +
    c.weight "sla" * slaProximityFactor slaInstances now +
    c.weight "age" * ageFactor c.createdAt now +
    c.weight "relationship" * blockingFactor c.blockingCount

def computeUrgency (c : Case) (slaInstances : List Instance) (now : Int) : ℚ :=
  (roundHalfEven (score c slaInstances now * 10000) : ℚ) / 10000

variable (scan : Scan Instance)

/-- the rows that `refresh_urgency_for_case` reads -/
def rowsOf (caseId : Uuid) (t : Table) : List Instance :=
  scan.order (t.filter (·.caseId = caseId))

def refreshUrgencyForCase (c : Case) (caseId : Uuid) (t : Table) (now : Int) : ℚ :=
  computeUrgency { c with weights := [] } (rowsOf scan caseId t) now

/-! ## histories -/

/-- the tables that the operations on clocks can have made at a time -/
inductive Reached : Int → Table → Prop where
  | empty (now : Int) : Reached now []
  | passes {now now' : Int} {t : Table} : Reached now t → now ≤ now' → Reached now' t
  /-- `start_sla`, and `start_sla_with_calendar` -/
  | started {now : Int} {t t' : Table} (id caseId : Uuid) (slaPolicyId targetId : String)
      (goalAt deadlineAt : Int) : Reached now t →
      createInstance { id, caseId, slaPolicyId, targetId, status := .onTrack, startedAt := now,
                       goalAt, deadlineAt } t = .ok t' → Reached now t'
  | paused {now : Int} {t t' : Table} {answer : Bool} (caseId : Uuid) (slaPolicyId : String) :
      Reached now t → pauseSla scan caseId slaPolicyId now t = .ok (t', answer) → Reached now t'
  | resumed {now : Int} {t t' : Table} {answer : Bool} (caseId : Uuid) (slaPolicyId : String) :
      Reached now t → resumeSla scan caseId slaPolicyId now t = .ok (t', answer) → Reached now t'
  /-- `check_sla`, and `check_sla_with_calendar` -/
  | checked {now : Int} {t t' : Table} {answer : Checked}
      (elapsed : Instance → Except Failure Int) (remaining : Instance → Int → Option Int)
      (caseId : Uuid) (slaPolicyId : String) : Reached now t →
      checkBy scan elapsed remaining caseId slaPolicyId now t = .ok (t', answer) → Reached now t'
  | cancelled {now : Int} {t : Table} (caseId : Uuid) : Reached now t →
      Reached now (cancelSlasForCase scan caseId t).1

structure Sound (now : Int) (r : Instance) : Prop where
  started : r.startedAt ≤ now
  pausedSeconds : 0 ≤ r.pausedDurationSeconds
  pausedAt : ∀ p, r.pausedAt = some p → p ≤ now
  breached : r.status = .breached → r.deadlineAt ≤ now

theorem Sound.later {now now' : Int} {r : Instance} (h : Sound now r) (hnow : now ≤ now') :
    Sound now' r := by
  refine ⟨h.started.trans hnow, h.pausedSeconds, ?_, ?_⟩
  · intro p hp
    exact (h.pausedAt p hp).trans hnow
  · intro hr
    exact (h.breached hr).trans hnow

theorem Sound.pause {now : Int} {r : Instance} (h : Sound now r) :
    Sound now (pauseValues now r) := by
  refine ⟨h.started, h.pausedSeconds, ?_, ?_⟩
  · intro p hp
    exact (Option.some.inj hp).ge
  · intro hr
    cases hr

theorem Sound.cross {now : Int} {sla r : Instance} (h : Sound now r)
    (hsla : sla.deadlineAt = r.deadlineAt) (hnot : sla.status ≠ .breached) :
    Sound now (crossValues sla now r) := by
  refine ⟨h.started, h.pausedSeconds, h.pausedAt, ?_⟩
  intro hr
  have hstatus : statusAt sla now = .breached := hr
  show r.deadlineAt ≤ now
  rw [← hsla]
  unfold statusAt at hstatus
  split at hstatus
  · assumption
  · split at hstatus
    · cases hstatus
    · exact absurd hstatus hnot

theorem Sound.resume {now : Int} {sla r : Instance} (h : Sound now r) (hsla : Sound now sla) :
    Sound now (resumeValues now sla r) := by
  refine ⟨h.started, ?_, ?_, ?_⟩
  · show 0 ≤ sla.pausedDurationSeconds +
      (sla.pausedAt.map fun pausedAt => totalSeconds (now - pausedAt)).getD 0
    have hpaused := hsla.pausedSeconds
    cases hp : sla.pausedAt with
    | none =>
      show 0 ≤ sla.pausedDurationSeconds + 0
      omega
    | some p =>
      have hpast := hsla.pausedAt p hp
      have hsecs : 0 ≤ totalSeconds (now - p) := Int.tdiv_nonneg (by omega) (by omega)
      show 0 ≤ sla.pausedDurationSeconds + totalSeconds (now - p)
      omega
  · intro p hp
    cases hp
  · intro hr
    cases hr

theorem Sound.cancel {now : Int} {r : Instance} (h : Sound now r) :
    Sound now { r with status := .cancelled } := by
  refine ⟨h.started, h.pausedSeconds, h.pausedAt, ?_⟩
  intro hr
  cases hr

theorem forall_updateInstance {p : Instance → Prop} {id : Uuid} {values : Instance → Instance}
    {t : Table} (h : ∀ r ∈ t, p r) (hvalues : ∀ r ∈ t, r.id = id → p (values r)) :
    ∀ r ∈ updateInstance id values t, p r := by
  intro r hr
  obtain ⟨r, hr', rfl⟩ := List.mem_map.mp hr
  split
  · exact hvalues r hr' ‹_›
  · exact h r hr'

/-! ## what a history keeps -/

variable {scan} {now : Int} {t t' : Table}

theorem createInstance_ok {row : Instance} (h : createInstance row t = .ok t') :
    row.id ∉ t.map (·.id) ∧ t' = t ++ [row] := by
  unfold createInstance at h
  split at h
  · cases h
  · cases h
    exact ⟨‹_›, rfl⟩

theorem eq_of_same_id (ht : Keyed t) {r sla : Instance} (hr : r ∈ t) (hsla : sla ∈ t)
    (hid : r.id = sla.id) : r = sla :=
  Option.some.inj ((find_eq_of_mem ht hr).symm.trans (hid ▸ find_eq_of_mem ht hsla))

theorem sound_cancelled {rows : List Instance} (h : ∀ r ∈ t, Sound now r) :
    ∀ r ∈ rows.foldl (fun t (sla : Instance) =>
      updateInstance sla.id (fun r => { r with status := .cancelled }) t) t, Sound now r := by
  induction rows generalizing t with
  | nil => exact h
  | cons sla rows ih => exact ih (forall_updateInstance h fun r hr _ => (h r hr).cancel)

theorem reached_sound (h : Reached scan now t) : Keyed t ∧ ∀ r ∈ t, Sound now r := by
  induction h with
  | empty now => exact ⟨List.nodup_nil, by simp⟩
  | passes _ hnow ih => exact ⟨ih.1, fun r hr => (ih.2 r hr).later hnow⟩
  | started id caseId slaPolicyId targetId goalAt deadlineAt _ hcreate ih =>
    obtain ⟨hfresh, rfl⟩ := createInstance_ok hcreate
    refine ⟨keyed_append ih.1 hfresh, ?_⟩
    intro r hr
    rcases List.mem_append.mp hr with hr | hr
    · exact ih.2 r hr
    · rw [List.mem_singleton.mp hr]
      refine ⟨le_refl _, le_refl _, ?_, ?_⟩
      · intro p hp
        cases hp
      · intro hs
        cases hs
  | paused caseId slaPolicyId _ hpause ih =>
    refine ⟨ih.1.of_map_key (map_key_pauseSla hpause), ?_⟩
    rcases pauseSla_cases hpause with ⟨-, rfl, -⟩ | ⟨sla, -, rfl, -⟩
    · exact ih.2
    · exact forall_updateInstance ih.2 fun r hr _ => (ih.2 r hr).pause
  | resumed caseId slaPolicyId _ hresume ih =>
    refine ⟨ih.1.of_map_key (map_key_resumeSla hresume), ?_⟩
    rcases resumeSla_cases hresume with ⟨-, rfl, -⟩ | ⟨sla, hrows, rfl, -⟩
    · exact ih.2
    · have hsla := (mem_of_filter_eq_singleton hrows).1
      exact forall_updateInstance ih.2 fun r hr _ => (ih.2 r hr).resume (ih.2 sla hsla)
  | checked elapsed remaining caseId slaPolicyId _ hcheck ih =>
    refine ⟨ih.1.of_map_key (map_key_checkBy hcheck), ?_⟩
    rcases checkBy_cases hcheck with ⟨-, rfl, -⟩ | ⟨sla, hrows, ⟨-, rfl, -⟩ | ⟨hrun, rfl, -⟩⟩
    · exact ih.2
    · exact ih.2
    · have hsla := (mem_of_filter_eq_singleton hrows).1
      rw [crossThresholds_eq]
      split
      · refine forall_updateInstance ih.2 fun r hr hid => ?_
        rw [eq_of_same_id ih.1 hr hsla hid]
        exact (ih.2 sla hsla).cross rfl fun hb => hrun (by simp [hb])
      · exact ih.2
  | cancelled caseId _ ih =>
    exact ⟨ih.1.of_map_key (map_key_cancelSlasForCase caseId _), sound_cancelled ih.2⟩

theorem sound_rowsOf (h : Reached scan now t) (caseId : Uuid) :
    ∀ r ∈ rowsOf scan caseId t, Sound now r := by
  intro r hr
  have hmem : r ∈ t.filter (·.caseId = caseId) := (scan.perm _).mem_iff.mp hr
  exact (reached_sound h).2 r (List.mem_of_mem_filter hmem)

/-! ## the factor -/

def share (now : Int) (r : Instance) : ℚ := if r.status = .breached then 3 / 2 else used now r

def counts (r : Instance) : Prop := r.status ≠ .paused

variable {rows : List Instance} {x : ℚ}

theorem worstWith_eq (now : Int) (worst : ℚ) (r : Instance) :
    worstWith now worst r = if r.status = .paused then worst else max worst (share now r) := by
  unfold worstWith share
  split
  · rfl
  · split <;> rfl

theorem worst_le_iff {worst : ℚ} : rows.foldl (worstWith now) worst ≤ x ↔
    worst ≤ x ∧ ∀ r ∈ rows, counts r → share now r ≤ x := by
  induction rows generalizing worst with
  | nil => simp
  | cons r rows ih =>
    rw [List.foldl_cons, ih, worstWith_eq, List.forall_mem_cons]
    by_cases hr : r.status = .paused
    · simp [counts, hr]
    · simp [counts, hr, and_assoc]

theorem worst_lt_iff {worst : ℚ} : rows.foldl (worstWith now) worst < x ↔
    worst < x ∧ ∀ r ∈ rows, counts r → share now r < x := by
  induction rows generalizing worst with
  | nil => simp
  | cons r rows ih =>
    rw [List.foldl_cons, ih, worstWith_eq, List.forall_mem_cons]
    by_cases hr : r.status = .paused
    · simp [counts, hr]
    · simp [counts, hr, and_assoc]

theorem factor_le_iff : slaProximityFactor rows now ≤ x ↔
    0 ≤ x ∧ ∀ r ∈ rows, counts r → share now r ≤ x := worst_le_iff

theorem le_factor_iff : x ≤ slaProximityFactor rows now ↔
    x ≤ 0 ∨ ∃ r ∈ rows, counts r ∧ x ≤ share now r := by
  rw [← not_lt, slaProximityFactor, worst_lt_iff, not_and_or, not_lt]
  push Not
  rfl

theorem factor_nonneg : 0 ≤ slaProximityFactor rows now := le_factor_iff.mpr (Or.inl (le_refl 0))

theorem share_le_factor {r : Instance} (hr : r ∈ rows) (hcounts : counts r) :
    share now r ≤ slaProximityFactor rows now :=
  le_factor_iff.mpr (Or.inr ⟨r, hr, hcounts, le_refl _⟩)

theorem used_mono {now' : Int} (h : now ≤ now') (r : Instance) : used now r ≤ used now' r := by
  unfold used
  by_cases htotal : r.deadlineAt - r.startedAt ≤ 0
  · simp only [if_pos htotal]
    exact le_refl _
  · simp only [if_neg htotal]
    have helapsed : max 0 (now - r.startedAt - seconds r.pausedDurationSeconds) ≤
        max 0 (now' - r.startedAt - seconds r.pausedDurationSeconds) := by omega
    have hpos : (0 : ℚ) ≤ ((r.deadlineAt - r.startedAt : Int) : ℚ) := by
      exact_mod_cast (by omega : 0 ≤ r.deadlineAt - r.startedAt)
    exact div_le_div_of_nonneg_right (by exact_mod_cast helapsed) hpos

theorem share_mono {now' : Int} (h : now ≤ now') (r : Instance) : share now r ≤ share now' r := by
  unfold share
  split
  · exact le_refl _
  · exact used_mono h r

theorem factor_mono {now' : Int} (h : now ≤ now') :
    slaProximityFactor rows now ≤ slaProximityFactor rows now' := by
  refine factor_le_iff.mpr ⟨factor_nonneg, ?_⟩
  intro r hr hcounts
  exact (share_mono h r).trans (share_le_factor hr hcounts)

/-! ## the score -/

theorem roundHalfEven_le_ceil (x : ℚ) : roundHalfEven x ≤ ⌊x⌋ + 1 := by
  show (if x - ⌊x⌋ < 1 / 2 then ⌊x⌋ else if 1 / 2 < x - ⌊x⌋ then ⌊x⌋ + 1
    else if ⌊x⌋ % 2 = 0 then ⌊x⌋ else ⌊x⌋ + 1) ≤ ⌊x⌋ + 1
  split_ifs <;> omega

theorem floor_le_roundHalfEven (x : ℚ) : ⌊x⌋ ≤ roundHalfEven x := by
  show ⌊x⌋ ≤ (if x - ⌊x⌋ < 1 / 2 then ⌊x⌋ else if 1 / 2 < x - ⌊x⌋ then ⌊x⌋ + 1
    else if ⌊x⌋ % 2 = 0 then ⌊x⌋ else ⌊x⌋ + 1)
  split_ifs <;> omega

theorem roundHalfEven_mono {x y : ℚ} (h : x ≤ y) : roundHalfEven x ≤ roundHalfEven y := by
  rcases (Int.floor_mono h).lt_or_eq with hlt | heq
  · have hunit : ⌊x⌋ + 1 ≤ ⌊y⌋ := hlt
    exact (roundHalfEven_le_ceil x).trans (hunit.trans (floor_le_roundHalfEven y))
  · -- within one unit only the fractions differ
    show (if x - ⌊x⌋ < 1 / 2 then ⌊x⌋ else if 1 / 2 < x - ⌊x⌋ then ⌊x⌋ + 1
        else if ⌊x⌋ % 2 = 0 then ⌊x⌋ else ⌊x⌋ + 1) ≤
      (if y - ⌊y⌋ < 1 / 2 then ⌊y⌋ else if 1 / 2 < y - ⌊y⌋ then ⌊y⌋ + 1
        else if ⌊y⌋ % 2 = 0 then ⌊y⌋ else ⌊y⌋ + 1)
    rw [← heq]
    split_ifs <;> first | omega | (exfalso; linarith)

def Refreshed (c : Case) : Prop := c.weights = []

theorem score_eq {c : Case} (h : Refreshed c) (rows : List Instance) (now : Int) :
    score c rows now = 1 * priorityFactor c.priority + 2 * slaProximityFactor rows now +
      1 / 10 * ageFactor c.createdAt now + 3 / 2 * blockingFactor c.blockingCount := by
  have hweight : ∀ name, c.weight name = defaultWeight name := by
    intro name
    rw [Case.weight, h]
    rfl
  rw [score, hweight, hweight, hweight, hweight]
  rfl

/-- the second score is not lower, before and after rounding -/
def NotLower (c : Case) (rows : List Instance) (now : Int) (rows' : List Instance) (now' : Int) :
    Prop :=
  score c rows now ≤ score c rows' now' ∧ computeUrgency c rows now ≤ computeUrgency c rows' now'

theorem notLower_of_score {c : Case} {rows' : List Instance} {now' : Int}
    (h : score c rows now ≤ score c rows' now') : NotLower c rows now rows' now' := by
  refine ⟨h, ?_⟩
  have hround : roundHalfEven (score c rows now * 10000) ≤
      roundHalfEven (score c rows' now' * 10000) := roundHalfEven_mono (by linarith)
  exact div_le_div_of_nonneg_right (by exact_mod_cast hround) (by norm_num)

theorem notLower_iff_factor {c : Case} (hc : Refreshed c) {rows' : List Instance} :
    NotLower c rows now rows' now ↔ slaProximityFactor rows now ≤ slaProximityFactor rows' now := by
  constructor
  · intro h
    have hscore := h.1
    rw [score_eq hc, score_eq hc] at hscore
    linarith
  · intro h
    apply notLower_of_score
    rw [score_eq hc, score_eq hc]
    linarith

theorem notLower_later {c : Case} (hc : Refreshed c) {now' : Int} (h : now ≤ now') :
    NotLower c rows now rows now' := by
  apply notLower_of_score
  have hfactor : slaProximityFactor rows now ≤ slaProximityFactor rows now' := factor_mono h
  have hage : ageFactor c.createdAt now ≤ ageFactor c.createdAt now' := by
    have hcast : ((now - c.createdAt : Int) : ℚ) ≤ ((now' - c.createdAt : Int) : ℚ) := by
      exact_mod_cast (by omega : now - c.createdAt ≤ now' - c.createdAt)
    refine max_le_max (le_refl 0) ?_
    linarith
  rw [score_eq hc, score_eq hc]
  linarith

/-! ## the clock -/

/-- the clock of the row runs, or has run out -/
def live (r : Instance) : Bool := r.status ∈ [Status.onTrack, .atRisk, .breached]

/-- a check finds the deadline reached, and makes the row breached -/
def Due (now : Int) (r : Instance) : Prop :=
  r.status ∉ [Status.paused, .breached] ∧ r.deadlineAt ≤ now

def breach (now : Int) (r : Instance) : Instance := crossValues r now r

structure Respects (rows : List Instance) (now : Int) : Prop where
  reaches : 1 ≤ slaProximityFactor rows now ↔ ∃ r ∈ rows, live r ∧ r.deadlineAt ≤ now
  elapses : ∀ c, Refreshed c → ∀ now', now ≤ now' → NotLower c rows now rows now'
  breaches : ∀ c, Refreshed c → ∀ before r after, rows = before ++ r :: after → Due now r →
    NotLower c rows now (before ++ breach now r :: after) now
  idle : ∀ c, Refreshed c → NotLower c rows now (rows.filter live) now

/-- nothing of the row's time is left, the time it was paused added to its deadline once more -/
def Full (now : Int) (r : Instance) : Prop :=
  r.status = .breached ∨ r.deadlineAt ≤ r.startedAt ∨
    r.deadlineAt + seconds r.pausedDurationSeconds ≤ now

structure Fair (rows : List Instance) (now : Int) : Prop where
  late : (∃ r ∈ rows, live r ∧ r.deadlineAt ≤ now) → ∃ r ∈ rows, counts r ∧ Full now r
  cancelled : ∀ r ∈ rows, r.status = .cancelled → 0 < used now r →
    ∃ r' ∈ rows, live r' ∧ used now r ≤ share now r'
  overdue : ∀ before r after, rows = before ++ r :: after → Due now r → 3 / 2 < used now r →
    ∃ r' ∈ before ++ after, counts r' ∧ used now r ≤ share now r'

theorem counts_of_live {r : Instance} (h : live r) : counts r := by
  intro hr
  rw [live, hr] at h
  cases h

theorem live_or_cancelled {r : Instance} (h : counts r) : live r ∨ r.status = .cancelled := by
  unfold counts at h
  unfold live
  cases hr : r.status <;> simp [hr] at h ⊢

theorem one_le_used_iff {r : Instance} : 1 ≤ used now r ↔
    r.deadlineAt ≤ r.startedAt ∨ r.deadlineAt + seconds r.pausedDurationSeconds ≤ now := by
  unfold used
  by_cases htotal : r.deadlineAt - r.startedAt ≤ 0
  · simp only [if_pos htotal, le_refl, true_iff]
    exact Or.inl (by omega)
  · simp only [if_neg htotal]
    have hpos : (0 : ℚ) < ((r.deadlineAt - r.startedAt : Int) : ℚ) := by
      exact_mod_cast (by omega : 0 < r.deadlineAt - r.startedAt)
    rw [one_le_div hpos, Int.cast_le]
    omega

theorem one_le_share_iff {r : Instance} : 1 ≤ share now r ↔ Full now r := by
  unfold share Full
  split
  · rename_i hb
    simp only [hb, true_or, iff_true]
    norm_num
  · rename_i hb
    rw [one_le_used_iff]
    simp [hb]

theorem one_le_factor_iff :
    1 ≤ slaProximityFactor rows now ↔ ∃ r ∈ rows, counts r ∧ Full now r := by
  rw [le_factor_iff]
  simp only [one_le_share_iff]
  exact or_iff_right (by norm_num)

theorem deadline_of_full {r : Instance} (h : Sound now r) (hfull : Full now r) :
    r.deadlineAt ≤ now := by
  have hstarted := h.started
  have hpaused := h.pausedSeconds
  unfold Full seconds at hfull
  rcases hfull with hb | hnone | hlate
  · exact h.breached hb
  · omega
  · omega

theorem share_of_not_breached {r : Instance} (h : r.status ≠ .breached) :
    share now r = used now r :=
  if_neg h

theorem share_breach {r : Instance} (h : Due now r) : share now (breach now r) = 3 / 2 := by
  have hstatus : (breach now r).status = .breached := if_pos h.2
  rw [share, if_pos hstatus]

/-! ### the parts -/

theorem idle_iff : slaProximityFactor rows now ≤ slaProximityFactor (rows.filter live) now ↔
    ∀ r ∈ rows, r.status = .cancelled → 0 < used now r →
      ∃ r' ∈ rows, live r' ∧ used now r ≤ share now r' := by
  constructor
  · intro h r hr hstatus hpos
    have hshare : share now r = used now r := share_of_not_breached (by simp [hstatus])
    have hle : used now r ≤ slaProximityFactor (rows.filter live) now :=
      hshare ▸ (share_le_factor hr (by simp [counts, hstatus])).trans h
    rcases le_factor_iff.mp hle with hzero | ⟨r', hr', -, hle'⟩
    · exact absurd hpos (not_lt.mpr hzero)
    · obtain ⟨hmem, hlive⟩ := List.mem_filter.mp hr'
      exact ⟨r', hmem, hlive, hle'⟩
  · intro h
    refine factor_le_iff.mpr ⟨factor_nonneg, ?_⟩
    intro r hr hcounts
    rcases live_or_cancelled hcounts with hlive | hstatus
    · exact share_le_factor (List.mem_filter.mpr ⟨hr, hlive⟩) hcounts
    · rw [share_of_not_breached (by simp [hstatus])]
      by_cases hpos : 0 < used now r
      · obtain ⟨r', hr', hlive, hle⟩ := h r hr hstatus hpos
        exact hle.trans (share_le_factor (List.mem_filter.mpr ⟨hr', hlive⟩) (counts_of_live hlive))
      · exact (not_lt.mp hpos).trans factor_nonneg

theorem breaches_iff {before after : List Instance} {r : Instance} (hdue : Due now r) :
    slaProximityFactor (before ++ r :: after) now ≤
        slaProximityFactor (before ++ breach now r :: after) now ↔
      (3 / 2 < used now r → ∃ r' ∈ before ++ after, counts r' ∧ used now r ≤ share now r') := by
  have hnot : r.status ≠ .breached := fun hr => hdue.1 (by simp [hr])
  have hcounts : counts r := fun hr => hdue.1 (by simp [hr])
  have hbreach : counts (breach now r) := by
    have hstatus : (breach now r).status = .breached := if_pos hdue.2
    simp [counts, hstatus]
  have hsplit : ∀ (y : Instance) (p : Instance → Prop), (∃ r' ∈ before ++ y :: after, p r') ↔
      p y ∨ ∃ r' ∈ before ++ after, p r' := by
    intro y p
    simp only [List.mem_append, List.mem_cons, or_and_right, exists_or, exists_eq_left]
    exact or_left_comm
  have hself : used now r ≤ slaProximityFactor (before ++ breach now r :: after) now ↔
      (3 / 2 < used now r → ∃ r' ∈ before ++ after, counts r' ∧ used now r ≤ share now r') := by
    rw [le_factor_iff, hsplit, share_breach hdue]
    constructor
    · intro h hmore
      rcases h with hzero | ⟨-, hless⟩ | hother
      · linarith
      · exact absurd hmore (not_lt.mpr hless)
      · exact hother
    · intro h
      by_cases hmore : 3 / 2 < used now r
      · exact Or.inr (Or.inr (h hmore))
      · exact Or.inr (Or.inl ⟨hbreach, not_lt.mp hmore⟩)
  rw [← hself]
  constructor
  · intro h
    have hshare : share now r ≤ slaProximityFactor (before ++ r :: after) now :=
      share_le_factor (by simp) hcounts
    rw [share_of_not_breached hnot] at hshare
    exact hshare.trans h
  · intro h
    refine factor_le_iff.mpr ⟨factor_nonneg, ?_⟩
    intro r' hr' hcounts'
    rcases List.mem_append.mp hr' with hmem | hmem
    · exact share_le_factor (List.mem_append_left _ hmem) hcounts'
    · rcases List.mem_cons.mp hmem with rfl | hmem
      · rw [share_of_not_breached hnot]
        exact h
      · exact share_le_factor (List.mem_append_right _ (List.mem_cons_of_mem _ hmem)) hcounts'

theorem reaches_of_fair (hsound : ∀ r ∈ rows, Sound now r) (h : Fair rows now) :
    1 ≤ slaProximityFactor rows now ↔ ∃ r ∈ rows, live r ∧ r.deadlineAt ≤ now := by
  rw [one_le_factor_iff]
  constructor
  · intro hx
    obtain ⟨r, hr, hcounts, hfull⟩ := hx
    rcases live_or_cancelled hcounts with hlive | hstatus
    · exact ⟨r, hr, hlive, deadline_of_full (hsound r hr) hfull⟩
    · -- a cancelled row counts for no more than a live one does
      have hone : 1 ≤ used now r := by
        have hshare : share now r = used now r := share_of_not_breached (by simp [hstatus])
        exact hshare ▸ one_le_share_iff.mpr hfull
      obtain ⟨r', hr', hlive, hle⟩ := h.cancelled r hr hstatus (by linarith)
      have hfull' : Full now r' := one_le_share_iff.mp (hone.trans hle)
      exact ⟨r', hr', hlive, deadline_of_full (hsound r' hr') hfull'⟩
  · exact h.late

theorem respects_iff_of_sound (hsound : ∀ r ∈ rows, Sound now r) :
    Respects rows now ↔ Fair rows now := by
  have hcase : Refreshed { createdAt := 0 } := rfl
  constructor
  · intro h
    refine ⟨?_, ?_, ?_⟩
    · intro hdue
      exact one_le_factor_iff.mp (h.reaches.mpr hdue)
    · exact idle_iff.mp ((notLower_iff_factor hcase).mp (h.idle _ hcase))
    · intro before r after hrows hdue
      have hbreach := (notLower_iff_factor hcase).mp (h.breaches _ hcase before r after hrows hdue)
      rw [hrows] at hbreach
      exact (breaches_iff hdue).mp hbreach
  · intro h
    refine ⟨reaches_of_fair hsound h, ?_, ?_, ?_⟩
    · intro c hc now' hnow
      exact notLower_later hc hnow
    · intro c hc before r after hrows hdue
      rw [notLower_iff_factor hc, hrows]
      exact (breaches_iff hdue).mpr (h.overdue before r after hrows hdue)
    · intro c hc
      exact (notLower_iff_factor hc).mpr (idle_iff.mpr h.cancelled)

theorem respects_iff {scan : Scan Instance} {now : Int} {t : Table} (h : Reached scan now t)
    (caseId : Uuid) : Respects (rowsOf scan caseId t) now ↔ Fair (rowsOf scan caseId t) now :=
  respects_iff_of_sound (sound_rowsOf h caseId)

/-! ### a paused clock -/

/-- ten seconds to the deadline, paused from the second to the sixth of them -/
def resumedRow : Instance where
  id := 1
  caseId := 7
  slaPolicyId := "response"
  targetId := "7"
  status := .onTrack
  startedAt := 0
  goalAt := 9000000
  deadlineAt := 14000000
  pausedDurationSeconds := 4

theorem reached_resumed : Reached asRead 14000000 [resumedRow] := by
  have hstart : Reached asRead 0 _ :=
    .started 1 7 "response" "7" 5000000 10000000 (.empty 0) rfl
  have hpause : Reached asRead 2000000 _ :=
    .paused 7 "response" (.passes hstart (by decide)) rfl
  have hresume : Reached asRead 6000000 [resumedRow] :=
    .resumed 7 "response" (.passes hpause (by decide)) rfl
  exact .passes hresume (by decide)

/-- its shifted deadline is reached, and ten of fourteen seconds count as used -/
theorem paused_clock_lags : ¬ ∀ (scan : Scan Instance) (now : Int) (t : Table) (caseId : Uuid),
    Reached scan now t → Respects (rowsOf scan caseId t) now := by
  intro h
  have hreaches := (h asRead 14000000 [resumedRow] 7 reached_resumed).reaches
  have hdue : ∃ r ∈ rowsOf asRead 7 [resumedRow], live r ∧ r.deadlineAt ≤ 14000000 :=
    ⟨resumedRow, by decide, by decide, by decide⟩
  have hone := hreaches.mpr hdue
  have hfactor : slaProximityFactor (rowsOf asRead 7 [resumedRow]) 14000000 = 10 / 14 := by
    decide +kernel
  rw [hfactor] at hone
  norm_num at hone

theorem resumed_respects : Respects (rowsOf asRead 7 [resumedRow]) 14000000 ↔
    Fair (rowsOf asRead 7 [resumedRow]) 14000000 := respects_iff reached_resumed 7

end Sla.Urgency
