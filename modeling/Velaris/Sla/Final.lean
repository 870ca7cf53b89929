import Velaris.Base.Run
import Velaris.Sla.Rows

/-!
# Cancelled and breached clocks

The operations of the tracker, one after the other on a table that starts empty.

* `Op`, `step`   an operation, and the table after it; one that raises changes nothing;
* `FinalIn`   no operation of a run changes a status that is `cancelled` or `breached`;
* `Revives`   a check of a cancelled clock whose goal or deadline has passed.

`finalIn_iff`: statuses are final in a run exactly when no operation of it revives a clock.
-/

namespace Sla
open Py Base

inductive Op where
  | start (id caseId : Uuid) (slaPolicy : Policy) (targetId : String) (now : Int)
  | pause (caseId : Uuid) (slaPolicyId : String) (now : Int)
  | resume (caseId : Uuid) (slaPolicyId : String) (now : Int)
  | check (caseId : Uuid) (slaPolicyId : String) (now : Int)
  | checkWithCalendar (calendar : Option (Int → Int → Except Failure Int)) (caseId : Uuid)
      (slaPolicyId : String) (now : Int)
  | cancel (caseId : Uuid)

variable (R : Runtime) (scan : Scan Instance)

def perform (t : Table) : Op → Except Failure Table
  | .start id caseId slaPolicy targetId now => startSla R id caseId slaPolicy targetId now t
  | .pause caseId slaPolicyId now => (pauseSla scan caseId slaPolicyId now t).map (·.1)
  | .resume caseId slaPolicyId now => (resumeSla scan caseId slaPolicyId now t).map (·.1)
  | .check caseId slaPolicyId now => (checkSla scan caseId slaPolicyId now t).map (·.1)
  | .checkWithCalendar calendar caseId slaPolicyId now =>
    (checkSlaWithCalendar scan calendar caseId slaPolicyId now t).map (·.1)
  | .cancel caseId => .ok (cancelSlasForCase scan caseId t).1

def step (t : Table) (op : Op) : Table := (perform R scan t op).toOption.getD t

def run (ops : List Op) : Table := exec (step R scan) [] ops

def Status.terminal (s : Status) : Bool := s = .cancelled || s = .breached

/-- one cancelled clock is found, and a threshold of it has passed -/
def CancelledPast (t : Table) (caseId : Uuid) (slaPolicyId : String) (now : Int) (sla : Instance) :
    Prop :=
  t.filter (ofPolicy caseId slaPolicyId) = [sla] ∧ sla.status = .cancelled ∧
    (sla.goalAt ≤ now ∨ sla.deadlineAt ≤ now)

def Revives (t : Table) : Op → Prop
  | .check caseId slaPolicyId now => ∃ sla, CancelledPast t caseId slaPolicyId now sla
  | .checkWithCalendar calendar caseId slaPolicyId now =>
    ∃ sla, CancelledPast t caseId slaPolicyId now sla ∧
      ∀ between, calendar = some between → ∃ e, between sla.startedAt now = .ok e
  | _ => False

def FinalIn (ops : List Op) : Prop :=
  ∀ before mid after, ops = before ++ mid ++ after → ∀ id s, s.terminal →
    statusOf (run R scan before) id = some s → statusOf (run R scan (before ++ mid)) id = some s

/-! ## what an operation keeps -/

variable {R scan} {t t' : Table} {op : Op}

theorem step_eq_of_ok (h : perform R scan t op = .ok t') : step R scan t op = t' := by
  rw [step, h]
  rfl

theorem step_eq_of_error {e : Failure} (h : perform R scan t op = .error e) :
    step R scan t op = t := by
  rw [step, h]
  rfl

theorem mem_of_filter_eq_singleton {p : Instance → Bool} {r : Instance} (h : t.filter p = [r]) :
    r ∈ t ∧ p r = true := List.mem_filter.mp (h ▸ List.mem_singleton.mpr rfl)

theorem update_keeps (ht : Keyed t) {sla : Instance} (hsla : sla ∈ t)
    (hlive : sla.status.terminal = false) {values : Instance → Instance} (hvalues : KeyFixed values)
    {id : Uuid} {s : Status} (hs : s.terminal) (h : statusOf t id = some s) :
    statusOf (updateInstance sla.id values t) id = some s := by
  rw [statusOf_updateInstance_of_ne hvalues t, h]
  intro hid
  rw [hid, statusOf_eq_of_mem ht hsla] at h
  rw [← Option.some.inj h, hlive] at hs
  cases hs

theorem startSla_cases {id caseId : Uuid} {slaPolicy : Policy} {targetId : String} {now : Int}
    (h : startSla R id caseId slaPolicy targetId now t = .ok t') :
    ∃ row, row.id ∉ t.map (·.id) ∧ row.caseId = caseId ∧ row.slaPolicyId = slaPolicy.id ∧
      t' = t ++ [row] := by
  obtain ⟨goal, -, h⟩ := exists_of_bind_ok h
  obtain ⟨deadline, -, h⟩ := exists_of_bind_ok h
  rw [createInstance] at h
  split at h
  · cases h
  · next hfresh =>
    cases h
    exact ⟨_, hfresh, rfl, rfl, rfl⟩

def cancelValues (r : Instance) : Instance := { r with status := .cancelled }

theorem cancelValues_keyFixed : KeyFixed cancelValues := fun _ => rfl

theorem statusOf_foldl_cancel (rows : List Instance) (t : Table) {id : Uuid}
    (hid : ∀ r ∈ rows, id ≠ r.id) :
    statusOf (rows.foldl (fun t sla => updateInstance sla.id cancelValues t) t) id =
      statusOf t id := by
  induction rows generalizing t with
  | nil => rfl
  | cons r rows ih =>
    rw [List.foldl_cons, ih _ fun r' hr' => hid r' (List.mem_cons_of_mem r hr')]
    exact statusOf_updateInstance_of_ne cancelValues_keyFixed t (hid r List.mem_cons_self)

theorem map_key_foldl_cancel (rows : List Instance) (t : Table) :
    (rows.foldl (fun t sla => updateInstance sla.id cancelValues t) t).map key = t.map key := by
  induction rows generalizing t with
  | nil => rfl
  | cons r rows ih => rw [List.foldl_cons, ih, map_key_updateInstance cancelValues_keyFixed]

theorem cancel_keeps (ht : Keyed t) (caseId : Uuid) {id : Uuid} {s : Status} (hs : s.terminal)
    (h : statusOf t id = some s) : statusOf (cancelSlasForCase scan caseId t).1 id = some s := by
  refine (statusOf_foldl_cancel _ t fun r hr hid => ?_).trans h
  have hmem := List.mem_filter.mp ((scan.perm _).mem_iff.mp hr)
  rw [hid, statusOf_eq_of_mem ht hmem.1] at h
  have hactive : r.status.active = true := (Bool.and_eq_true_iff.mp hmem.2).2
  rw [Option.some.inj h] at hactive
  cases s <;> simp [Status.terminal, Status.active] at hs hactive

theorem checkBy_keeps (ht : Keyed t) {elapsed : Instance → Except Failure Int}
    {remaining : Instance → Int → Option Int} {caseId : Uuid} {slaPolicyId : String} {now : Int}
    {checked : Checked}
    (hrun : checkBy scan elapsed remaining caseId slaPolicyId now t = .ok (t', checked))
    (hno : ¬ ∃ sla, CancelledPast t caseId slaPolicyId now sla) {id : Uuid} {s : Status}
    (hs : s.terminal) (h : statusOf t id = some s) : statusOf t' id = some s := by
  rcases checkBy_cases hrun with ⟨-, rfl, -⟩ | ⟨sla, hrows, ⟨-, rfl, -⟩ | ⟨hgo, rfl, -⟩⟩
  · exact h
  · exact h
  · rw [crossThresholds_eq]
    split
    · next hcross =>
      refine update_keeps ht (mem_of_filter_eq_singleton hrows).1 ?_
        (crossValues_keyFixed sla now) hs h
      cases hst : sla.status with
      | onTrack | atRisk | paused => rfl
      | breached =>
        have hstop : sla.status ∈ [Status.paused, .breached] := by
          rw [hst]
          decide
        exact absurd hstop hgo
      | cancelled =>
        refine absurd ⟨sla, hrows, hst, ?_⟩ hno
        by_contra hnot
        obtain ⟨hgoal, hdeadline⟩ := not_or.mp hnot
        exact hcross (by rw [statusAt, if_neg hdeadline, if_neg hgoal])
    · exact h

theorem map_key_crossThresholds (sla : Instance) (now : Int) (t : Table) :
    (crossThresholds sla now t).map key = t.map key := by
  rw [crossThresholds_eq]
  split
  · exact map_key_updateInstance (crossValues_keyFixed sla now) t
  · rfl

theorem map_key_checkBy {elapsed : Instance → Except Failure Int}
    {remaining : Instance → Int → Option Int} {caseId : Uuid} {slaPolicyId : String} {now : Int}
    {checked : Checked}
    (h : checkBy scan elapsed remaining caseId slaPolicyId now t = .ok (t', checked)) :
    t'.map key = t.map key := by
  rcases checkBy_cases h with ⟨-, rfl, -⟩ | ⟨sla, -, ⟨-, rfl, -⟩ | ⟨-, rfl, -⟩⟩
  · rfl
  · rfl
  · exact map_key_crossThresholds sla now t

theorem map_key_pauseSla {caseId : Uuid} {slaPolicyId : String} {now : Int} {paused : Bool}
    (h : pauseSla scan caseId slaPolicyId now t = .ok (t', paused)) :
    t'.map key = t.map key := by
  rcases pauseSla_cases h with ⟨-, rfl, -⟩ | ⟨sla, -, rfl, -⟩
  · rfl
  · exact map_key_updateInstance (pauseValues_keyFixed now) t

theorem map_key_resumeSla {caseId : Uuid} {slaPolicyId : String} {now : Int} {resumed : Bool}
    (h : resumeSla scan caseId slaPolicyId now t = .ok (t', resumed)) :
    t'.map key = t.map key := by
  rcases resumeSla_cases h with ⟨-, rfl, -⟩ | ⟨sla, -, rfl, -⟩
  · rfl
  · exact map_key_updateInstance (resumeValues_keyFixed now sla) t

theorem map_key_cancelSlasForCase (caseId : Uuid) (t : Table) :
    (cancelSlasForCase scan caseId t).1.map key = t.map key := map_key_foldl_cancel _ t

theorem keyed_append {row : Instance} (ht : Keyed t) (hrow : row.id ∉ t.map (·.id)) :
    Keyed (t ++ [row]) := by
  rw [Keyed, List.map_append]
  refine List.nodup_append.mpr ⟨ht, List.nodup_singleton _, fun a ha b hb hab => hrow ?_⟩
  obtain rfl : b = row.id := List.mem_singleton.mp hb
  rwa [← hab]

theorem step_keyed (ht : Keyed t) (op : Op) : Keyed (step R scan t op) := by
  cases hrun : perform R scan t op with
  | error e => rwa [step_eq_of_error hrun]
  | ok t' =>
    rw [step_eq_of_ok hrun]
    cases op with
    | start id caseId slaPolicy targetId now =>
      obtain ⟨row, hfresh, -, -, rfl⟩ := startSla_cases hrun
      exact keyed_append ht hfresh
    | pause caseId slaPolicyId now =>
      obtain ⟨⟨t₁, paused⟩, hpause, rfl⟩ := exists_of_map_ok hrun
      exact ht.of_map_key (map_key_pauseSla hpause)
    | resume caseId slaPolicyId now =>
      obtain ⟨⟨t₁, resumed⟩, hresume, rfl⟩ := exists_of_map_ok hrun
      exact ht.of_map_key (map_key_resumeSla hresume)
    | check caseId slaPolicyId now =>
      obtain ⟨⟨t₁, checked⟩, hcheck, rfl⟩ := exists_of_map_ok hrun
      exact ht.of_map_key (map_key_checkBy hcheck)
    | checkWithCalendar calendar caseId slaPolicyId now =>
      obtain ⟨⟨t₁, checked⟩, hcheck, rfl⟩ := exists_of_map_ok hrun
      exact ht.of_map_key (map_key_checkBy hcheck)
    | cancel caseId =>
      cases hrun
      exact ht.of_map_key (map_key_cancelSlasForCase caseId t)

theorem elapsedWith_ok_iff {calendar : Option (Int → Int → Except Failure Int)} {now : Int}
    {sla : Instance} : (∃ e, elapsedWith calendar now sla = .ok e) ↔
      ∀ between, calendar = some between → ∃ e, between sla.startedAt now = .ok e := by
  cases calendar with
  | none => exact ⟨fun _ _ h => (by cases h), fun _ => ⟨_, rfl⟩⟩
  | some between =>
    constructor
    · intro hx between' hb
      obtain rfl := Option.some.inj hb
      obtain ⟨e, he⟩ := hx
      obtain ⟨e', he', -⟩ := exists_of_map_ok he
      exact ⟨e', he'⟩
    · intro h
      obtain ⟨e, he⟩ := h between rfl
      exact ⟨_, by rw [elapsedWith, he]; rfl⟩

theorem step_keeps (ht : Keyed t) (hno : ¬ Revives t op) {id : Uuid} {s : Status} (hs : s.terminal)
    (h : statusOf t id = some s) : statusOf (step R scan t op) id = some s := by
  cases hrun : perform R scan t op with
  | error e => rwa [step_eq_of_error hrun]
  | ok t' =>
    rw [step_eq_of_ok hrun]
    cases op with
    | start id' caseId slaPolicy targetId now =>
      obtain ⟨row, -, -, -, rfl⟩ := startSla_cases hrun
      exact statusOf_append_of_some h [row]
    | pause caseId slaPolicyId now =>
      obtain ⟨⟨t₁, paused⟩, hpause, rfl⟩ := exists_of_map_ok hrun
      rcases pauseSla_cases hpause with ⟨-, rfl, -⟩ | ⟨sla, hrows, rfl, -⟩
      · exact h
      · obtain ⟨hmem, hp⟩ := mem_of_filter_eq_singleton hrows
        refine update_keeps ht hmem ?_ (pauseValues_keyFixed now) hs h
        have hst := of_decide_eq_true (Bool.and_eq_true_iff.mp hp).2
        cases hst' : sla.status <;> simp [hst', Status.terminal] at hst ⊢
    | resume caseId slaPolicyId now =>
      obtain ⟨⟨t₁, resumed⟩, hresume, rfl⟩ := exists_of_map_ok hrun
      rcases resumeSla_cases hresume with ⟨-, rfl, -⟩ | ⟨sla, hrows, rfl, -⟩
      · exact h
      · obtain ⟨hmem, hp⟩ := mem_of_filter_eq_singleton hrows
        refine update_keeps ht hmem ?_ (resumeValues_keyFixed now sla) hs h
        rw [of_decide_eq_true (Bool.and_eq_true_iff.mp hp).2]
        rfl
    | check caseId slaPolicyId now =>
      obtain ⟨⟨t₁, checked⟩, hcheck, rfl⟩ := exists_of_map_ok hrun
      exact checkBy_keeps ht hcheck hno hs h
    | checkWithCalendar calendar caseId slaPolicyId now =>
      obtain ⟨⟨t₁, checked⟩, hcheck, rfl⟩ := exists_of_map_ok hrun
      refine checkBy_keeps ht hcheck (fun hx => ?_) hs h
      obtain ⟨sla, hpast⟩ := hx
      refine hno ⟨sla, hpast, elapsedWith_ok_iff.mp ?_⟩
      -- the check returned, so the calendar has answered
      rcases checkBy_cases hcheck with ⟨hnil, -⟩ | ⟨sla', hrows, hstop | ⟨-, -, e, he, -⟩⟩
      · rw [hpast.1] at hnil
        cases hnil
      · rw [hpast.1] at hrows
        obtain rfl := (List.cons.inj hrows).1
        rw [hpast.2.1] at hstop
        exact absurd hstop.1 (by decide)
      · rw [hpast.1] at hrows
        obtain rfl := (List.cons.inj hrows).1
        exact ⟨e, he⟩
    | cancel caseId =>
      cases hrun
      exact cancel_keeps ht caseId hs h

theorem checkBy_revives (ht : Keyed t) {elapsed : Instance → Except Failure Int}
    {remaining : Instance → Int → Option Int} {caseId : Uuid} {slaPolicyId : String} {now : Int}
    {sla : Instance} (hpast : CancelledPast t caseId slaPolicyId now sla)
    (helapsed : ∃ e, elapsed sla = .ok e) :
    ∃ t' checked, checkBy scan elapsed remaining caseId slaPolicyId now t = .ok (t', checked) ∧
      statusOf t sla.id = some .cancelled ∧ statusOf t' sla.id ≠ some .cancelled := by
  obtain ⟨hrows, hst, hpassed⟩ := hpast
  obtain ⟨e, he⟩ := helapsed
  have hmem := (mem_of_filter_eq_singleton hrows).1
  have hgo : sla.status ∉ [Status.paused, .breached] := by
    rw [hst]
    decide
  have hcross : statusAt sla now ≠ .cancelled := by
    rw [statusAt]
    split
    · decide
    · next hd =>
      rw [if_pos (hpassed.resolve_right hd)]
      decide
  have hrun : checkBy scan elapsed remaining caseId slaPolicyId now t =
      .ok (crossThresholds sla now t, .running (statusAt sla now) slaPolicyId (remaining sla e)
        (totalSeconds e) sla.goalAt sla.deadlineAt) := by
    rw [checkBy, hrows, scalarOneOrNone_singleton]
    show (if sla.status ∈ [Status.paused, .breached] then _ else _) = _
    rw [if_neg hgo, he]
    rfl
  refine ⟨_, _, hrun, by rw [statusOf_eq_of_mem ht hmem, hst], ?_⟩
  rw [crossThresholds_eq, if_pos (hst.symm ▸ hcross),
    statusOf_updateInstance_self (crossValues_keyFixed sla now) ht hmem]
  exact fun hsome => hcross (Option.some.inj hsome)

theorem step_revives (ht : Keyed t) (h : Revives t op) :
    ∃ id, statusOf t id = some .cancelled ∧ statusOf (step R scan t op) id ≠ some .cancelled := by
  cases op with
  | check caseId slaPolicyId now =>
    obtain ⟨sla, hpast⟩ := h
    obtain ⟨t', checked, hcheck, hbefore, hafter⟩ :
        ∃ t' checked, checkSla scan caseId slaPolicyId now t = .ok (t', checked) ∧
          statusOf t sla.id = some .cancelled ∧ statusOf t' sla.id ≠ some .cancelled :=
      checkBy_revives ht hpast ⟨_, rfl⟩
    have hrun : perform R scan t (.check caseId slaPolicyId now) = .ok t' :=
      congrArg (Except.map Prod.fst) hcheck
    exact ⟨sla.id, hbefore, step_eq_of_ok hrun ▸ hafter⟩
  | checkWithCalendar calendar caseId slaPolicyId now =>
    obtain ⟨sla, hpast, hcalendar⟩ := h
    obtain ⟨t', checked, hcheck, hbefore, hafter⟩ :
        ∃ t' checked,
          checkSlaWithCalendar scan calendar caseId slaPolicyId now t = .ok (t', checked) ∧
          statusOf t sla.id = some .cancelled ∧ statusOf t' sla.id ≠ some .cancelled :=
      checkBy_revives ht hpast (elapsedWith_ok_iff.mpr hcalendar)
    have hrun : perform R scan t (.checkWithCalendar calendar caseId slaPolicyId now) = .ok t' :=
      congrArg (Except.map Prod.fst) hcheck
    exact ⟨sla.id, hbefore, step_eq_of_ok hrun ▸ hafter⟩
  | start | pause | resume | cancel => exact h.elim

/-! ## runs -/

theorem run_keyed (ops : List Op) : Keyed (run R scan ops) :=
  exec_inv' (I := Keyed) (fun _ op ht => step_keyed ht op) ops List.nodup_nil

variable (R scan)

theorem finalIn_iff (ops : List Op) :
    FinalIn R scan ops ↔ Along (step R scan) (fun t op => ¬ Revives t op) [] ops := by
  constructor
  · intro h
    by_contra hnot
    obtain ⟨before, op, after, rfl, -, hrev⟩ := exists_first_of_not_along (step R scan) hnot
    obtain ⟨id, hbefore, hafter⟩ := step_revives (run_keyed before) (not_not.mp hrev)
    have hsame := h before [op] after (by simp) id .cancelled rfl hbefore
    rw [run, exec_concat] at hsame
    exact hafter hsame
  · intro h before mid after hops id s hs hbefore
    rw [hops, along_append, along_append] at h
    have hmid : Along (step R scan) (fun t op => ¬ Revives t op) (run R scan before) mid := h.1.2
    rw [run, exec_append]
    refine (exec_inv (I := fun t => Keyed t ∧ statusOf t id = some s) ?_
      ⟨run_keyed before, hbefore⟩ hmid).2
    intro t op ht hno
    exact ⟨step_keyed ht.1 op, step_keeps ht.1 hno hs ht.2⟩

def dayPolicy : Policy where
  id := "response"
  goalDuration := "PT4H"
  deadlineDuration := "P1D"

def asRead : Scan Instance := ⟨id, fun _ => .refl _⟩

/-- a case is closed, and its clock is checked a day after it was started -/
def closedThenChecked : List Op := [.start 1 7 dayPolicy "7" 0, .cancel 7, .check 7 "response" (days 1)]

theorem cancelled_clock_breaches : ¬ FinalIn .silent asRead closedThenChecked := by
  intro h
  have hbefore : statusOf (run .silent asRead (closedThenChecked.take 2)) 1 = some .cancelled := by
    decide +kernel
  have hafter : statusOf (run .silent asRead closedThenChecked) 1 = some .breached := by
    decide +kernel
  have hsame := h (closedThenChecked.take 2) (closedThenChecked.drop 2) [] rfl 1 .cancelled rfl hbefore
  exact absurd (hsame.symm.trans hafter) (by decide)

end Sla
