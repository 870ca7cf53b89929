import Velaris.Base.Traverse
import Velaris.Sla.Tracker

/-!
# What an operation does to the rows

* `key`, `KeyFixed`   what of a row no update changes;
* `find`, `statusOf`   the row with an id, and its status;
* `pauseSla_cases`, `resumeSla_cases`, `checkBy_cases`   what an operation that returns has done.
-/

namespace Sla
open Py Base

/-! ## keys -/

def key (r : Instance) : Uuid × Uuid × String := (r.id, r.caseId, r.slaPolicyId)

def KeyFixed (values : Instance → Instance) : Prop := ∀ r, key (values r) = key r

theorem KeyFixed.id_eq {values : Instance → Instance} (h : KeyFixed values) (r : Instance) :
    (values r).id = r.id := congrArg (·.1) (h r)

theorem map_key_updateInstance {id : Uuid} {values : Instance → Instance} (hvalues : KeyFixed values)
    (t : Table) : (updateInstance id values t).map key = t.map key := by
  rw [updateInstance, List.map_map]
  refine List.map_congr_left fun r _ => ?_
  show key (if r.id = id then values r else r) = key r
  split
  · exact hvalues r
  · rfl

theorem map_id_eq_map_key (t : Table) : t.map (·.id) = (t.map key).map (·.1) := by
  rw [List.map_map]
  rfl

def Keyed (t : Table) : Prop := (t.map (·.id)).Nodup

theorem Keyed.of_map_key {t t' : Table} (ht : Keyed t) (h : t'.map key = t.map key) : Keyed t' := by
  rw [Keyed, map_id_eq_map_key, h, ← map_id_eq_map_key]
  exact ht

/-! ## the row with an id -/

def find (t : Table) (id : Uuid) : Option Instance := t.find? (·.id = id)

def statusOf (t : Table) (id : Uuid) : Option Status := (find t id).map (·.status)

theorem find_id {t : Table} {id : Uuid} {r : Instance} (h : find t id = some r) : r.id = id := by
  have hid := List.find?_some h
  exact of_decide_eq_true hid

theorem find_eq_of_mem {t : Table} (ht : Keyed t) {r : Instance} (hr : r ∈ t) :
    find t r.id = some r := (find?_key_iff ht).mpr ⟨hr, rfl⟩

theorem statusOf_eq_of_mem {t : Table} (ht : Keyed t) {r : Instance} (hr : r ∈ t) :
    statusOf t r.id = some r.status := by
  rw [statusOf, find_eq_of_mem ht hr, Option.map_some]

theorem find_updateInstance {id : Uuid} {values : Instance → Instance} (hvalues : KeyFixed values)
    (t : Table) (id' : Uuid) :
    find (updateInstance id values t) id' =
      (find t id').map fun r => if r.id = id then values r else r := by
  rw [find, updateInstance, List.find?_map]
  refine congrArg (Option.map _) (congrArg (t.find? ·) (funext fun r => ?_))
  show decide ((if r.id = id then values r else r).id = id') = decide (r.id = id')
  split
  · rw [hvalues.id_eq]
  · rfl

theorem statusOf_updateInstance_of_ne {id id' : Uuid} {values : Instance → Instance}
    (hvalues : KeyFixed values) (t : Table) (hne : id' ≠ id) :
    statusOf (updateInstance id values t) id' = statusOf t id' := by
  rw [statusOf, find_updateInstance hvalues, statusOf]
  cases hf : find t id' with
  | none => rfl
  | some r =>
    have hr : r.id ≠ id := find_id hf ▸ hne
    simp only [Option.map_some, if_neg hr]

theorem statusOf_updateInstance_self {values : Instance → Instance} (hvalues : KeyFixed values)
    {t : Table} (ht : Keyed t) {r : Instance} (hr : r ∈ t) :
    statusOf (updateInstance r.id values t) r.id = some (values r).status := by
  rw [statusOf, find_updateInstance hvalues, find_eq_of_mem ht hr]
  simp only [Option.map_some, if_true]

theorem statusOf_append_of_some {t : Table} {id : Uuid} {s : Status} (h : statusOf t id = some s)
    (rows : Table) : statusOf (t ++ rows) id = some s := by
  obtain ⟨r, hr, hs⟩ := Option.map_eq_some_iff.mp h
  rw [statusOf, find, List.find?_append, show t.find? (·.id = id) = some r from hr]
  exact congrArg some hs

/-! ## operations that return -/

variable {R : Runtime} {scan : Scan Instance} {t t' : Table}

theorem scalarOneOrNone_cases {rows : List Instance} {o : Option Instance}
    (h : scalarOneOrNone (scan.order rows) = .ok o) :
    rows = [] ∧ o = none ∨ ∃ r, rows = [r] ∧ o = some r := by
  have hperm := scan.perm rows
  rcases hrows : scan.order rows with _ | ⟨r, _ | ⟨r', rest⟩⟩
  · rw [hrows] at h hperm
    cases h
    exact Or.inl ⟨hperm.symm.eq_nil, rfl⟩
  · rw [hrows] at h hperm
    cases h
    exact Or.inr ⟨r, List.perm_singleton.mp hperm.symm, rfl⟩
  · rw [hrows] at h
    cases h

theorem scalarOneOrNone_singleton (r : Instance) :
    scalarOneOrNone (scan.order [r]) = .ok (some r) := by
  rw [List.perm_singleton.mp (scan.perm [r])]
  rfl

theorem scalarOneOrNone_nil : scalarOneOrNone (scan.order []) = .ok none := by
  rw [(scan.perm []).eq_nil]
  rfl

/-- the values `pause_sla` sets -/
def pauseValues (now : Int) (r : Instance) : Instance :=
  { r with status := .paused, pausedAt := some now }

def pausable (caseId : Uuid) (slaPolicyId : String) (r : Instance) : Bool :=
  ofPolicy caseId slaPolicyId r && r.status ∈ [Status.onTrack, .atRisk]

theorem pauseSla_cases {caseId : Uuid} {slaPolicyId : String} {now : Int} {paused : Bool}
    (h : pauseSla scan caseId slaPolicyId now t = .ok (t', paused)) :
    t.filter (pausable caseId slaPolicyId) = [] ∧ t' = t ∧ paused = false ∨
      ∃ sla, t.filter (pausable caseId slaPolicyId) = [sla] ∧
        t' = updateInstance sla.id (pauseValues now) t ∧ paused = true := by
  obtain ⟨o, ho, h⟩ := exists_of_bind_ok h
  rcases scalarOneOrNone_cases ho with ⟨hrows, rfl⟩ | ⟨sla, hrows, rfl⟩
  · cases h
    exact Or.inl ⟨hrows, rfl, rfl⟩
  · cases h
    exact Or.inr ⟨sla, hrows, rfl, rfl⟩

/-- the values `resume_sla` sets, from the row that it read -/
def resumeValues (now : Int) (sla r : Instance) : Instance :=
  let pausedSecs := (sla.pausedAt.map fun pausedAt => totalSeconds (now - pausedAt)).getD 0
  { r with status := .onTrack, pausedAt := none,
           pausedDurationSeconds := sla.pausedDurationSeconds + pausedSecs,
           goalAt := sla.goalAt + seconds pausedSecs,
           deadlineAt := sla.deadlineAt + seconds pausedSecs }

def resumable (caseId : Uuid) (slaPolicyId : String) (r : Instance) : Bool :=
  ofPolicy caseId slaPolicyId r && r.status = .paused

theorem resumeSla_cases {caseId : Uuid} {slaPolicyId : String} {now : Int} {resumed : Bool}
    (h : resumeSla scan caseId slaPolicyId now t = .ok (t', resumed)) :
    t.filter (resumable caseId slaPolicyId) = [] ∧ t' = t ∧ resumed = false ∨
      ∃ sla, t.filter (resumable caseId slaPolicyId) = [sla] ∧
        t' = updateInstance sla.id (resumeValues now sla) t ∧ resumed = true := by
  obtain ⟨o, ho, h⟩ := exists_of_bind_ok h
  rcases scalarOneOrNone_cases ho with ⟨hrows, rfl⟩ | ⟨sla, hrows, rfl⟩
  · cases h
    exact Or.inl ⟨hrows, rfl, rfl⟩
  · cases h
    exact Or.inr ⟨sla, hrows, rfl, rfl⟩

/-- the values that a check sets where a threshold has passed -/
def crossValues (sla : Instance) (now : Int) (r : Instance) : Instance :=
  { r with status := statusAt sla now,
           breachedAt := if statusAt sla now = .breached then some now else none }

theorem crossThresholds_eq (sla : Instance) (now : Int) (t : Table) :
    crossThresholds sla now t =
      if statusAt sla now ≠ sla.status then updateInstance sla.id (crossValues sla now) t else t := rfl

theorem checkBy_cases {elapsed : Instance → Except Failure Int}
    {remaining : Instance → Int → Option Int} {caseId : Uuid} {slaPolicyId : String} {now : Int}
    {checked : Checked} (h : checkBy scan elapsed remaining caseId slaPolicyId now t =
      .ok (t', checked)) :
    t.filter (ofPolicy caseId slaPolicyId) = [] ∧ t' = t ∧ checked = .notFound ∨
      ∃ sla, t.filter (ofPolicy caseId slaPolicyId) = [sla] ∧
        (sla.status ∈ [Status.paused, .breached] ∧ t' = t ∧
            checked = .stopped sla.status slaPolicyId ∨
          sla.status ∉ [Status.paused, .breached] ∧ t' = crossThresholds sla now t ∧
            ∃ e, elapsed sla = .ok e ∧ checked = .running (statusAt sla now) slaPolicyId
              (remaining sla e) (totalSeconds e) sla.goalAt sla.deadlineAt) := by
  obtain ⟨o, ho, h⟩ := exists_of_bind_ok h
  rcases scalarOneOrNone_cases ho with ⟨hrows, rfl⟩ | ⟨sla, hrows, rfl⟩
  · cases h
    exact Or.inl ⟨hrows, rfl, rfl⟩
  · refine Or.inr ⟨sla, hrows, ?_⟩
    by_cases hstop : sla.status ∈ [Status.paused, .breached]
    · simp only [if_pos hstop] at h
      cases h
      exact Or.inl ⟨hstop, rfl, rfl⟩
    · simp only [if_neg hstop] at h
      obtain ⟨e, he, h⟩ := exists_of_bind_ok h
      cases h
      exact Or.inr ⟨hstop, rfl, e, he, rfl⟩

theorem pauseValues_keyFixed (now : Int) : KeyFixed (pauseValues now) := fun _ => rfl

theorem resumeValues_keyFixed (now : Int) (sla : Instance) : KeyFixed (resumeValues now sla) :=
  fun _ => rfl

theorem crossValues_keyFixed (sla : Instance) (now : Int) : KeyFixed (crossValues sla now) :=
  fun _ => rfl

end Sla
