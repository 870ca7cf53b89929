import Velaris.Rollouts.Service

/-!
# A rollout that nobody has approved

The resolver takes a requested rollout for the open one of its two versions and gives the baseline.

* `stop`   the version where the redirects end, and the open rollout there;
* `looked`   the versions looked up on the way;
* `requested_changes_nothing_iff` a requested rollout leaves the answer for a version as it was
    exactly if the way of the version does not meet the rollout, or
    ends in its baseline without it.
-/

namespace Rollouts
open Py

variable (P : Platform)

/-! ## the way of a version -/

/-- where the redirects from a version end, and the open rollout of that version -/
def stop (rows : List Rollout) (tenant : Uuid) : Nat → List Uuid → Uuid → Uuid × Option Rollout
  | 0, _, current => (current, none)
  | hops + 1, seen, current =>
    match openRow rows tenant current with
    | some r => (current, some r)
    | none =>
      match redirect rows tenant current with
      | none => (current, none)
      | some nxt =>
        if nxt ∈ current :: seen then (current, none)
        else stop rows tenant hops (current :: seen) nxt

def looked (rows : List Rollout) (tenant : Uuid) : Nat → List Uuid → Uuid → List Uuid
  | 0, _, _ => []
  | hops + 1, seen, current =>
    current ::
      match openRow rows tenant current with
      | some _ => []
      | none =>
        match redirect rows tenant current with
        | none => []
        | some nxt =>
          if nxt ∈ current :: seen then [] else looked rows tenant hops (current :: seen) nxt

def given (asked : Asked) (last : Uuid × Option Rollout) : Uuid :=
  match last.2 with
  | some r => r.chosen P asked
  | none => last.1

/-- the resolver reads the table of rollouts for this caller -/
def Caller.reads (caller : Caller) (tenant : Uuid) : Prop :=
  caller.tableReady = true ∧ caller.tenant = some tenant ∧ caller.noRollouts = false

instance (caller : Caller) (tenant : Uuid) : Decidable (caller.reads tenant) :=
  inferInstanceAs (Decidable (_ ∧ _ ∧ _))

/-! ## the resolver by its way -/

theorem walk_caseTypeId (rows : List Rollout) (tenant : Uuid) (asked : Asked) (hops : Nat)
    (seen : List Uuid) (current : Uuid) :
    (walk P rows tenant asked hops seen current).caseTypeId =
      given P asked (stop rows tenant hops seen current) := by
  induction hops generalizing seen current with
  | zero => rfl
  | succ hops ih =>
    rw [walk, stop]
    cases openRow rows tenant current with
    | some r => rfl
    | none =>
      cases redirect rows tenant current with
      | none => rfl
      | some nxt =>
        show (if nxt ∈ current :: seen then ({ caseTypeId := current } : Resolution)
          else _).caseTypeId = given P asked (if nxt ∈ current :: seen then _ else _)
        split
        · rfl
        · exact ih _ _

theorem not_touches_of_no_rollouts {rows : List Rollout} {tenant : Uuid}
    (h : (rows.any fun r => r.tenantId = tenant) = false) (current : Uuid) :
    rows.filter (Rollout.touches tenant current) = [] := by
  rw [List.filter_eq_nil_iff]
  intro r hr
  have hne := List.any_eq_false.mp h r hr
  simp only [decide_eq_true_eq] at hne
  simp [Rollout.touches, hne]

theorem walk_of_no_rollouts {rows : List Rollout} {tenant : Uuid}
    (h : (rows.any fun r => r.tenantId = tenant) = false) (asked : Asked) (hops : Nat)
    (seen : List Uuid) (current : Uuid) :
    walk P rows tenant asked hops seen current = { caseTypeId := current } := by
  have hnil := not_touches_of_no_rollouts h current
  cases hops with
  | zero => rfl
  | succ hops => simp [walk, openRow, redirect, hnil]

theorem resolve_of_reads {rows : List Rollout} {caller : Caller} {tenant : Uuid}
    (h : caller.reads tenant) (asked : Asked) (id : Uuid) :
    resolve P rows caller asked id = walk P rows tenant asked MAX_HOPS [] id := by
  obtain ⟨hready, htenant, hno⟩ := h
  simp only [resolve, hready, htenant, tenantHasRollouts, hno, Bool.not_false, Bool.true_and]
  cases hany : rows.any fun r => r.tenantId = tenant with
  | true => simp
  | false => simp [walk_of_no_rollouts P hany]

theorem resolve_of_not_reads {rows : List Rollout} {caller : Caller}
    (h : ∀ tenant, ¬ caller.reads tenant) (asked : Asked) (id : Uuid) :
    resolve P rows caller asked id = { caseTypeId := id } := by
  unfold resolve
  split
  · rfl
  · rename_i hready
    split
    · rfl
    · rename_i tenant htenant
      cases hno : caller.noRollouts with
      | true => simp [tenantHasRollouts, hno]
      | false => exact absurd ⟨by simpa using hready, htenant, hno⟩ (h tenant)

/-! ## one more row -/

theorem openRow_cons_of_touches {r : Rollout} {tenant current : Uuid}
    (ht : r.touches tenant current = true) (ho : r.state.isOpen = true) (rows : List Rollout) :
    openRow (r :: rows) tenant current = some r := by
  rw [openRow, List.filter_cons_of_pos ht]
  exact List.find?_cons_of_pos (p := fun x : Rollout => x.state.isOpen) ho

theorem filter_cons_of_not_touches {r : Rollout} {tenant current : Uuid}
    (ht : r.touches tenant current = false) (rows : List Rollout) :
    (r :: rows).filter (Rollout.touches tenant current) =
      rows.filter (Rollout.touches tenant current) := by
  apply List.filter_cons_of_neg
  rw [ht]
  exact Bool.false_ne_true

theorem stop_cons {r : Rollout} (ho : r.state.isOpen = true) (rows : List Rollout) (tenant : Uuid)
    (hops : Nat) (seen : List Uuid) (current : Uuid) :
    (∃ v ∈ looked rows tenant hops seen current, r.touches tenant v = true ∧
        stop (r :: rows) tenant hops seen current = (v, some r)) ∨
      (∀ v ∈ looked rows tenant hops seen current, r.touches tenant v = false) ∧
        stop (r :: rows) tenant hops seen current = stop rows tenant hops seen current := by
  induction hops generalizing seen current with
  | zero => exact Or.inr ⟨fun v hv => absurd hv List.not_mem_nil, rfl⟩
  | succ hops ih =>
    cases ht : r.touches tenant current with
    | true =>
      refine Or.inl ⟨current, List.mem_cons_self, ht, ?_⟩
      rw [stop, openRow_cons_of_touches ht ho]
    | false =>
      have hfilter := filter_cons_of_not_touches ht rows
      have hopen : openRow (r :: rows) tenant current = openRow rows tenant current := by
        rw [openRow, openRow, hfilter]
      have hredirect : redirect (r :: rows) tenant current = redirect rows tenant current := by
        rw [redirect, redirect, hfilter]
      have halone : ∀ v ∈ [current], r.touches tenant v = false :=
        fun v hv => (List.mem_singleton.mp hv) ▸ ht
      rw [stop, stop, looked, hopen, hredirect]
      cases openRow rows tenant current with
      | some o => exact Or.inr ⟨halone, rfl⟩
      | none =>
        cases redirect rows tenant current with
        | none => exact Or.inr ⟨halone, rfl⟩
        | some nxt =>
          by_cases hseen : nxt ∈ current :: seen
          · simp only [if_pos hseen]
            exact Or.inr ⟨halone, trivial⟩
          · simp only [if_neg hseen]
            rcases ih (current :: seen) nxt with ⟨v, hv, htv, hstop⟩ | ⟨hnone, hstop⟩
            · exact Or.inl ⟨v, List.mem_cons_of_mem _ hv, htv, hstop⟩
            · refine Or.inr ⟨?_, hstop⟩
              intro v hv
              rcases List.mem_cons.mp hv with rfl | hv
              · exact ht
              · exact hnone v hv

theorem chosen_of_requested {r : Rollout} (h : r.state = .requested) (asked : Asked) :
    r.chosen P asked = r.baselineId := by
  have hforced : forced P asked r = none := by simp [forced, h]
  simp [Rollout.chosen, armOf, hforced, h]

theorem state_of_start {rows : List Rollout} {q : Start} {r : Rollout}
    (h : start P rows q = .ok r) : r.state = .requested := by
  obtain ⟨strategy, percent, base, cand, -, -, -, -, -, -, -, rfl⟩ := start_ok P h
  rfl

/-! ## a requested rollout -/

/-- The version that a new case gets is the same with and without a requested rollout exactly if
the table is not read, or the way of the version does not meet the rollout, or it ends in the
rollout's baseline. -/
theorem requested_changes_nothing_iff (rows : List Rollout) (r : Rollout)
    (hr : r.state = .requested) (caller : Caller) (asked : Asked) (id : Uuid) :
    (resolve P (r :: rows) caller asked id).caseTypeId =
        (resolve P rows caller asked id).caseTypeId ↔
      ∀ tenant, caller.reads tenant →
        (∀ v ∈ looked rows tenant MAX_HOPS [] id, r.touches tenant v = false) ∨
          given P asked (stop rows tenant MAX_HOPS [] id) = r.baselineId := by
  have ho : r.state.isOpen = true := by rw [hr]; rfl
  by_cases hreads : ∃ tenant, caller.reads tenant
  · obtain ⟨tenant, htenant⟩ := hreads
    have hone : ∀ other, caller.reads other → other = tenant := by
      intro other hother
      exact Option.some.inj (hother.2.1.symm.trans htenant.2.1)
    rw [resolve_of_reads P htenant, resolve_of_reads P htenant, walk_caseTypeId, walk_caseTypeId]
    have hiff : given P asked (stop (r :: rows) tenant MAX_HOPS [] id) =
          given P asked (stop rows tenant MAX_HOPS [] id) ↔
        (∀ v ∈ looked rows tenant MAX_HOPS [] id, r.touches tenant v = false) ∨
          given P asked (stop rows tenant MAX_HOPS [] id) = r.baselineId := by
      rcases stop_cons ho rows tenant MAX_HOPS [] id with ⟨v, hv, htv, hstop⟩ | ⟨hnone, hstop⟩
      · have hgiven : given P asked (stop (r :: rows) tenant MAX_HOPS [] id) = r.baselineId := by
          rw [hstop]
          exact chosen_of_requested P hr asked
        have hmeets : ¬ ∀ v ∈ looked rows tenant MAX_HOPS [] id, r.touches tenant v = false :=
          fun h => Bool.false_ne_true ((h v hv).symm.trans htv)
        rw [hgiven, or_iff_right hmeets]
        exact eq_comm
      · rw [hstop]
        exact iff_of_true rfl (Or.inl hnone)
    rw [hiff]
    constructor
    · intro h other hother
      rw [hone other hother]
      exact h
    · intro h
      exact h tenant htenant
  · have hno : ∀ tenant, ¬ caller.reads tenant := fun tenant h => hreads ⟨tenant, h⟩
    rw [resolve_of_not_reads P hno, resolve_of_not_reads P hno]
    exact iff_of_true rfl fun tenant h => absurd h (hno tenant)

/-! ## two versions -/

def twoVersions : Platform where
  runtime := Runtime.silent
  casefold := id
  caseType := fun id => if id = 1 ∨ id = 2 then some { name := "claim" } else none

/-- version 2 is requested in place of version 1 -/
def secondAsked : Start where
  id := 10
  tenantId := 7
  baselineId := 1
  candidateId := 2
  strategy := "percentage"

def second : Rollout := secondAsked.row .percentage 0 "claim"

theorem requested_changes_nothing_elsewhere :
    (resolve twoVersions [second] { tenant := some 7 } {} 3).caseTypeId =
      (resolve twoVersions [] { tenant := some 7 } {} 3).caseTypeId := by
  apply (requested_changes_nothing_iff twoVersions [] second rfl { tenant := some 7 } {} 3).mpr
  intro tenant h
  obtain rfl : 7 = tenant := Option.some.inj h.2.1
  exact Or.inl (by decide)

/-- the second version is asked for, and gets a case of the first one because of the request -/
theorem requested_candidate_redirected :
    start twoVersions [] secondAsked = .ok second ∧
      (resolve twoVersions [] { tenant := some 7 } {} 2).caseTypeId = 2 ∧
      (resolve twoVersions [second] { tenant := some 7 } {} 2).caseTypeId = 1 := by
  decide +kernel

end Rollouts
