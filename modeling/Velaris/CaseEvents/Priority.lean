import Velaris.CaseEvents.Store
import Mathlib.Logic.Relation

/-!
# The priority of a case, and of its parents

`apply_priority_change` of `api/routers/cases.py`, and what `on_priority_changed` calls of
`core/relationship_manager.py`.

* `applyPriorityChange`   the new priority is written, and goes to the parents;
* `propagatePriorityChange`   a parent that ranks lower gets it;
* `Ancestor`   what is reached over the relationships that propagate a priority;
* `Reaches`   every ancestor ranks as high, nothing ranks lower, no other changes.

`priority_reaches_iff`: it reaches every ancestor exactly where those that are no parents of the
case rank as high already.
-/

namespace CaseEvents
open Py Relation

def PRIORITY_ORDER : List String := ["low", "medium", "high", "critical", "blocker"]

def priorityRank (p : String) : Nat := (PRIORITY_ORDER.idxOf? p).getD 1

/-- a row of `case_relationships`, as far as it is read here -/
structure PriorityLink where
  sourceCaseId : Uuid
  targetCaseId : Uuid
  propagatePriority : Bool

structure PriorityAudit where
  caseId : Uuid
  action : String
  previousPriority : String
  newPriority : String
  childCaseId : Option Uuid := none
  deriving DecidableEq

structure Cases where
  cases : Uuid → Option CaseInstance
  audit : List PriorityAudit := []

def Cases.setPriority (s : Cases) (caseId : Uuid) (row : CaseInstance) (priority : String) :
    Cases :=
  { s with cases := Function.update s.cases caseId (some { row with priority := priority }) }

def escalateParent (caseId : Uuid) (newPriority : String) (acc : Cases × List Uuid)
    (rel : PriorityLink) : Cases × List Uuid :=
  match acc.1.cases rel.sourceCaseId with
  | none => acc
  | some parent =>
    if priorityRank parent.priority < priorityRank newPriority then
      let s := acc.1.setPriority rel.sourceCaseId parent newPriority
      ({ s with audit := s.audit ++ [{
          caseId := rel.sourceCaseId, action := "priority_changed",
          previousPriority := parent.priority, newPriority := newPriority,
          childCaseId := some caseId }] },
        acc.2 ++ [rel.sourceCaseId])
    else acc

def propagatePriorityChange (rels : List PriorityLink) (s : Cases) (caseId : Uuid)
    (newPriority : String) : Cases × List Uuid :=
  (rels.filter fun rel => rel.targetCaseId = caseId && rel.propagatePriority).foldl
    (escalateParent caseId newPriority) (s, [])

def applyPriorityChange (rels : List PriorityLink) (s : Cases) (caseId : Uuid)
    (newPriority : String) (auditAction : String) : Option Cases :=
  match s.cases caseId with
  | none => none
  | some row =>
    let s := s.setPriority caseId row newPriority
    let s := { s with audit := s.audit ++ [{
      caseId := caseId, action := auditAction, previousPriority := row.priority,
      newPriority := newPriority }] }
    some (propagatePriorityChange rels s caseId newPriority).1

/-! ## what a change reaches -/

section
variable (rels : List PriorityLink)

/-- `parent` is a parent of `child` over a relationship that propagates the priority -/
def Parent (child parent : Uuid) : Prop :=
  ∃ rel ∈ rels, rel.targetCaseId = child ∧ rel.propagatePriority = true ∧ rel.sourceCaseId = parent

instance (child parent : Uuid) : Decidable (Parent rels child parent) :=
  inferInstanceAs (Decidable (∃ rel ∈ rels, _))

def Ancestor (child ancestor : Uuid) : Prop := ReflTransGen (Parent rels) child ancestor

/-- the cases before and after a change of the priority of one of them to `p` -/
structure Reaches (caseId : Uuid) (p : String) (s s' : Uuid → Option CaseInstance) : Prop where
  ancestors : ∀ id, Ancestor rels caseId id → ∀ row, s' id = some row →
    priorityRank p ≤ priorityRank row.priority
  notLower : ∀ id row, s id = some row →
    ∃ row', s' id = some row' ∧ priorityRank row.priority ≤ priorityRank row'.priority
  others : ∀ id, ¬ Ancestor rels caseId id → s' id = s id

/-- the ancestors that are neither the case nor a parent of it rank as high already -/
def FarHigh (caseId : Uuid) (p : String) (s : Uuid → Option CaseInstance) : Prop :=
  ∀ id, Ancestor rels caseId id → id ≠ caseId → ¬ Parent rels caseId id →
    ∀ row, s id = some row → priorityRank p ≤ priorityRank row.priority

end

/-! ## one pass over the parents -/

def CaseInstance.raisedTo (row : CaseInstance) (p : String) : CaseInstance :=
  if priorityRank row.priority < priorityRank p then { row with priority := p } else row

theorem CaseInstance.rank_raisedTo (row : CaseInstance) (p : String) :
    priorityRank (row.raisedTo p).priority = max (priorityRank row.priority) (priorityRank p) := by
  rw [raisedTo]
  split
  · next hlt => exact (max_eq_right (le_of_lt hlt)).symm
  · next hle => exact (max_eq_left (not_lt.mp hle)).symm

theorem CaseInstance.raisedTo_raisedTo (row : CaseInstance) (p : String) :
    (row.raisedTo p).raisedTo p = row.raisedTo p := by
  have hrank := row.rank_raisedTo p
  rw [raisedTo, if_neg (by omega)]

variable {rels : List PriorityLink} {caseId : Uuid} {p : String} {s : Cases}

theorem escalateParent_cases (acc : Cases × List Uuid) (rel : PriorityLink) :
    (escalateParent caseId p acc rel).1.cases = Function.update acc.1.cases rel.sourceCaseId
      ((acc.1.cases rel.sourceCaseId).map (·.raisedTo p)) := by
  funext id
  cases hparent : acc.1.cases rel.sourceCaseId with
  | none =>
    simp only [escalateParent, hparent, Option.map_none]
    by_cases hid : id = rel.sourceCaseId
    · rw [hid, Function.update_self, hparent]
    · rw [Function.update_of_ne hid]
  | some parent =>
    simp only [escalateParent, hparent, Option.map_some, CaseInstance.raisedTo]
    by_cases hrank : priorityRank parent.priority < priorityRank p
    · simp only [if_pos hrank]
      rfl
    · simp only [if_neg hrank]
      by_cases hid : id = rel.sourceCaseId
      · rw [hid, Function.update_self, hparent]
      · rw [Function.update_of_ne hid]

theorem foldl_escalateParent (links : List PriorityLink) (acc : Cases × List Uuid) (id : Uuid) :
    (links.foldl (escalateParent caseId p) acc).1.cases id =
      if id ∈ links.map (·.sourceCaseId) then (acc.1.cases id).map (·.raisedTo p)
      else acc.1.cases id := by
  induction links generalizing acc with
  | nil => rfl
  | cons rel links ih =>
    rw [List.foldl_cons, ih, escalateParent_cases, List.map_cons]
    by_cases hid : id = rel.sourceCaseId
    · rw [hid, Function.update_self, if_pos List.mem_cons_self]
      split
      · cases acc.1.cases rel.sourceCaseId with
        | none => rfl
        | some row => exact congrArg some (row.raisedTo_raisedTo p)
      · rfl
    · simp only [Function.update_of_ne hid, List.mem_cons, hid, false_or]

theorem mem_parents {id : Uuid} :
    id ∈ (rels.filter fun rel => rel.targetCaseId = caseId && rel.propagatePriority).map
      (·.sourceCaseId) ↔ Parent rels caseId id := by
  simp [Parent, and_assoc]

theorem applied_cases {row : CaseInstance} (hrow : s.cases caseId = some row) {auditAction : String}
    {s' : Cases} (h : applyPriorityChange rels s caseId p auditAction = some s') (id : Uuid) :
    s'.cases id = if id = caseId then some { row with priority := p }
      else if Parent rels caseId id then (s.cases id).map (·.raisedTo p) else s.cases id := by
  rw [applyPriorityChange, hrow] at h
  cases h
  rw [propagatePriorityChange, foldl_escalateParent]
  simp only [mem_parents, Cases.setPriority]
  by_cases hid : id = caseId
  · -- a case that is its own parent has the priority already
    subst hid
    rw [Function.update_self, if_pos rfl, Option.map_some, CaseInstance.raisedTo,
      if_neg (lt_irrefl _), ite_self]
  · rw [Function.update_of_ne hid, if_neg hid]

variable {row : CaseInstance}

theorem reaches_of_farHigh (hrow : s.cases caseId = some row)
    (hraise : priorityRank row.priority ≤ priorityRank p) {auditAction : String} {s' : Cases}
    (h : applyPriorityChange rels s caseId p auditAction = some s')
    (hfar : FarHigh rels caseId p s.cases) : Reaches rels caseId p s.cases s'.cases := by
  have hcases := applied_cases hrow h
  refine ⟨fun id hancestor after hafter => ?_, fun id before hbefore => ?_, fun id hnot => ?_⟩
  · rw [hcases] at hafter
    split at hafter
    · cases hafter
      exact le_rfl
    · next hid =>
      split at hafter
      · obtain ⟨before, -, rfl⟩ := Option.map_eq_some_iff.mp hafter
        rw [before.rank_raisedTo]
        exact le_max_right _ _
      · next hparent => exact hfar id hancestor hid hparent after hafter
  · rw [hcases]
    split
    · next hid =>
      rw [hid, hrow] at hbefore
      cases hbefore
      exact ⟨_, rfl, hraise⟩
    · split
      · rw [hbefore]
        refine ⟨_, rfl, ?_⟩
        rw [before.rank_raisedTo]
        exact le_max_left _ _
      · exact ⟨before, hbefore, le_rfl⟩
  · have hid : id ≠ caseId := fun hid => hnot (hid ▸ .refl)
    have hparent : ¬ Parent rels caseId id := fun hparent => hnot (.single hparent)
    rw [hcases, if_neg hid, if_neg hparent]

/-- a change of priority reaches every ancestor exactly where those that are no parents of the case
rank as high already -/
theorem priority_reaches_iff (hrow : s.cases caseId = some row)
    (hraise : priorityRank row.priority ≤ priorityRank p) {auditAction : String} {s' : Cases}
    (h : applyPriorityChange rels s caseId p auditAction = some s') :
    Reaches rels caseId p s.cases s'.cases ↔ FarHigh rels caseId p s.cases := by
  refine ⟨fun hreaches id hancestor hid hparent before hbefore => ?_,
    reaches_of_farHigh hrow hraise h⟩
  have hsame : s'.cases id = some before := by
    rw [applied_cases hrow h, if_neg hid, if_neg hparent, hbefore]
  exact hreaches.ancestors id hancestor before hsame

/-! ## a case, its parent, and the parent of that -/

def caseOf (priority : String) : CaseInstance := { caseTypeId := 9, priority := priority }

/-- 2 is the parent of 1, and 3 of 2 -/
def family : List PriorityLink := [⟨2, 1, true⟩, ⟨3, 2, true⟩]

def familyCases (grandparent : String) : Cases where
  cases := fun id =>
    if id = 1 ∨ id = 2 then some (caseOf "low")
    else if id = 3 then some (caseOf grandparent)
    else none

def raised (grandparent : String) : Option Cases :=
  applyPriorityChange family (familyCases grandparent) 1 "critical" "change_priority"

/-- the grandparent is a blocker already -/
theorem family_reached : ∃ s', raised "blocker" = some s' ∧
    Reaches family 1 "critical" (familyCases "blocker").cases s'.cases := by
  have hrow : (familyCases "blocker").cases 1 = some (caseOf "low") := rfl
  refine ⟨_, rfl, (priority_reaches_iff hrow (by decide) rfl).mpr ?_⟩
  intro id _ hid hparent before hbefore
  have hthree : id = 3 ∧ before = caseOf "blocker" := by
    have h2 : id ≠ 2 := fun h => hparent (by rw [h]; decide)
    rw [familyCases] at hbefore
    simp only [hid, h2, or_self, if_false] at hbefore
    split at hbefore
    · next h3 => exact ⟨h3, (Option.some.inj hbefore).symm⟩
    · cases hbefore
  rw [hthree.2]
  decide

/-- no case is its own ancestor, and the priority stops at the parent -/
theorem grandparent_not_reached : (∀ rel ∈ family, rel.targetCaseId < rel.sourceCaseId) ∧
    ∃ s', raised "low" = some s' ∧
      ¬ Reaches family 1 "critical" (familyCases "low").cases s'.cases := by
  refine ⟨by decide, _, rfl, fun h => ?_⟩
  have hfirst : Parent family 1 2 := by decide
  have hsecond : Parent family 2 3 := by decide
  exact absurd (h.ancestors 3 (.tail (.single hfirst) hsecond) (caseOf "low") rfl) (by decide)

end CaseEvents
