import Velaris.CaseEvents.Accounts

/-!
# What `verify` answers

* `verify_eq`   `verify` reads the whole of a numbered stream, and finds no gap in it;
* `consistent_iff`   it reports a case consistent when the row is what the stream implies;
* `run_consistent`   every case of a recorded run is reported consistent;
* `escalate_consistent_iff`  an escalation keeps a case consistent when it leaves its status alone.
-/

namespace CaseEvents
open Py Base

variable {R : Runtime} {ctx : Context} {db : Db} {caseId : Uuid}

/-- `verify` reports every event-sourced case consistent -/
def Consistent (db : Db) : Prop :=
  ∀ caseId row, db.cases caseId = some row → row.eventSourced →
    ∃ v, verify db caseId = some (.replayed v) ∧ v.consistent

theorem stream_eq (hn : Numbered db caseId) (hshort : (eventsOf db caseId).length ≤ VERIFY_LIMIT) :
    stream db caseId 0 VERIFY_LIMIT = eventsOf db caseId := by
  have hall : (eventsOf db caseId).filter (0 < ·.seq) = eventsOf db caseId :=
    List.filter_eq_self.mpr fun e he => decide_eq_true (seq_bounds hn he).1
  have hsorted : (eventsOf db caseId).Pairwise fun a b => a.seq ≤ b.seq := by
    have hseqs : ((eventsOf db caseId).map (·.seq)).Pairwise (· ≤ ·) := by
      rw [hn]
      exact (List.pairwise_lt_range' ..).imp Nat.le_of_lt
    exact List.pairwise_map.mp hseqs
  rw [stream, hall, List.Pairwise.insertionSort_eq hsorted, List.take_of_length_le hshort]

theorem sequenceGaps_eq_nil (n : Nat) : sequenceGaps (List.range' 1 n) = [] := by
  have hlast : (List.range' 1 n).getLast?.getD 0 = n := by
    cases n with
    | zero => rfl
    | succ n =>
      rw [List.range'_1_concat, List.getLast?_concat]
      show 1 + n = n + 1
      omega
  rw [sequenceGaps, hlast, List.filter_eq_nil_iff]
  intro k hk
  simp [hk]

theorem verify_eq {row : CaseInstance} (hrow : db.cases caseId = some row) (hs : row.eventSourced)
    (hn : Numbered db caseId) (hshort : (eventsOf db caseId).length ≤ VERIFY_LIMIT) :
    verify db caseId = some (.replayed ⟨(eventsOf db caseId).length, [],
      mismatches (project (eventsOf db caseId)) row, project (eventsOf db caseId)⟩) := by
  have hgaps : sequenceGaps ((eventsOf db caseId).map (·.seq)) = [] := by
    rw [hn]
    exact sequenceGaps_eq_nil _
  rw [verify, hrow]
  simp only [hs, stream_eq hn hshort, hgaps]
  rfl

theorem eq_str_iff (v : Value) (s : String) : v.eq (.str s) ↔ v = .str s := by
  cases v <;> simp [Value.eq, Value.num?]

theorem eq_none_iff (v : Value) : v.eq .none ↔ v = .none := by
  cases v <;> simp [Value.eq, Value.num?]

theorem eq_actualStage_iff (v : Value) (row : CaseInstance) :
    v.eq (actualStage row) ↔ v = actualStage row := by
  unfold actualStage
  split
  · exact eq_none_iff v
  · split
    · exact eq_none_iff v
    · exact eq_str_iff v _

theorem mismatches_eq_nil_iff (projected : Projection) (row : CaseInstance) :
    mismatches projected row = [] ↔
      (projected.status = .none ∨ projected.status = .str row.status) ∧
        projected.currentStageId = actualStage row := by
  rw [mismatches, List.append_eq_nil_iff, ite_eq_right_iff, ite_eq_right_iff]
  simp only [List.cons_ne_nil, imp_false, Bool.not_eq_true', Bool.not_eq_false, ne_eq, not_and]
  rw [← eq_str_iff, ← eq_actualStage_iff, Decidable.or_iff_not_imp_left]

theorem Accounted.consistent_iff (h : Accounted db caseId) {row : CaseInstance}
    (hrow : db.cases caseId = some row) (hs : row.eventSourced) (row' : CaseInstance) :
    mismatches (project (eventsOf db caseId)) row' = [] ↔
      row'.status = row.status ∧ actualStage row' = actualStage row := by
  obtain ⟨hstatus, hstage⟩ := h.agrees row hrow hs
  rw [mismatches_eq_nil_iff, hstatus, hstage]
  simp [eq_comm]

theorem Accounted.verified (h : Accounted db caseId) {row : CaseInstance}
    (hrow : db.cases caseId = some row) (hs : row.eventSourced) :
    ∃ v, verify db caseId = some (.replayed v) ∧ v.consistent := by
  refine ⟨_, verify_eq hrow hs h.numbered h.short, ?_⟩
  have hnil : mismatches (project (eventsOf db caseId)) row = [] :=
    (h.consistent_iff hrow hs row).mpr ⟨rfl, rfl⟩
  simp [Verification.consistent, hnil]

/-- in a run whose writes are on record, `verify` reports every event-sourced case consistent -/
theorem run_consistent (acts : List (Context × Op))
    (hrec : Along (step R) (Recorded R) Db.empty acts) :
    Consistent (exec (step R) Db.empty acts) :=
  fun caseId _ hrow hs => (run_accounted hrec caseId).verified hrow hs

/-! ### runs on fixed inputs -/

def sampleContext : Context where
  eventSourcingEnabled := true
  resolveSet := fun _ _ s => some ⟨s = "closed", true, []⟩
  relationships := []
  bind := fun _ => none
  resolveDynamicTarget := fun _ _ _ => ("queue", "managers")

def triage : Dict := [("id", .str "triage"), ("name", .str "Triage"), ("on_enter_status", .str "open")]

def openCase : List (Context × Op) :=
  [(sampleContext, .create 7 1 "high" none none), (sampleContext, .enterStage 7 triage),
    (sampleContext, .changeStatus 7 "in_progress")]

def notifyLevel : List Dict :=
  [[("type", .str "notify"), ("target_type", .str "queue")],
    [("type", .str "priority"), ("set", .str "critical")]]

theorem run_consistent_notified :
    Consistent (exec (step .silent) Db.empty
      (openCase ++ [(sampleContext, .escalate 7 notifyLevel)])) :=
  run_consistent _ (by decide +kernel)

/-- the level's action `{"type": "status", "set": "escalated"}` -/
def statusLevel : List Dict := [[("type", .str "status"), ("set", .str "escalated")]]

theorem escalated_status_unaccounted :
    ¬ Consistent (exec (step .silent) Db.empty
      (openCase ++ [(sampleContext, .escalate 7 statusLevel)])) := by
  intro h
  obtain ⟨v, hv, hc⟩ := h 7 ⟨1, "escalated", "high", some "triage", true, none, none⟩
    (by decide +kernel) rfl
  have hverify : (verify (exec (step .silent) Db.empty
      (openCase ++ [(sampleContext, .escalate 7 statusLevel)])) 7).map
        (fun w => match w with | .replayed v => v.mismatches | .unverifiable => []) =
      some [⟨"status", .str "in_progress", .str "escalated"⟩] := by decide +kernel
  rw [hv] at hverify
  have hm : v.mismatches = [⟨"status", .str "in_progress", .str "escalated"⟩] :=
    Option.some.inj hverify
  rw [Verification.consistent, hm] at hc
  cases hc

end CaseEvents
