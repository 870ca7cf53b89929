import Velaris.Assignments.Store
import Velaris.Base.Table

/-!
# Who holds the work items

What the tuples are to say of the rows, and what a change of one row makes of it.

* `Followed`   a case has an `assignee` tuple for a user exactly where the user holds an
    active assignment on it;
* `Assignment.holder`   the index the tuples are, in the terms of `Base.InStep`;
* `WellFormed`   what every operation keeps of the tables.

`followed_closed_iff`, `followed_cleared` and `followed_given_iff` are about a row that is rewritten,
`create_followed_iff` about one that is made.
-/

namespace Assignments
open Py Base

/-! ## what is to hold -/

def Followed (db : Db) : Prop := ∀ caseId userId, (caseId, userId) ∈ db.assignees ↔
  ∃ a ∈ db.assignments, a.caseId = caseId ∧ a.status = "active" ∧ a.assigneeType = "user" ∧
    a.assigneeId = userId

/-- the case and the user that an active assignment joins -/
def Assignment.holder (a : Assignment) : Option (Uuid × String) :=
  if a.status = "active" ∧ a.assigneeType = "user" then some (a.caseId, a.assigneeId) else none

def Db.Holds (db : Db) (caseId : Uuid) (userId : String) : Prop :=
  Stands Assignment.holder db.assignments (caseId, userId)

/-- who holds the row, if it is a user, holds another on the same case -/
def Db.StillHeld (db : Db) (a : Assignment) : Prop :=
  ∀ k, a.holder = some k → Beside Assignment.id Assignment.holder db.assignments a.id k

/-! ## well-formed tables -/

/-- what every operation keeps, whatever it finds -/
structure WellFormed (db : Db) : Prop where
  ids : (db.assignments.map (·.id)).Nodup
  /-- no tuple is for the empty user id -/
  named : ∀ caseId, (caseId, "") ∉ db.assignees

theorem holder_eq_some {a : Assignment} {caseId : Uuid} {userId : String} :
    a.holder = some (caseId, userId) ↔ a.caseId = caseId ∧ a.status = "active" ∧
      a.assigneeType = "user" ∧ a.assigneeId = userId := by
  rw [Assignment.holder]
  split
  · next h =>
    rw [Option.some_inj, Prod.mk.injEq]
    exact ⟨fun he => ⟨he.1, h.1, h.2, he.2⟩, fun he => ⟨he.1, he.2.2.2⟩⟩
  · next h =>
    constructor
    · intro he
      cases he
    · intro he
      exact absurd ⟨he.2.1, he.2.2.1⟩ h

theorem followed_iff {db : Db} :
    Followed db ↔ InStep Assignment.holder db.assignments db.assignees := by
  constructor
  · intro h k
    obtain ⟨caseId, userId⟩ := k
    rw [h caseId userId, Stands]
    exact exists_congr fun a => and_congr_right fun _ => holder_eq_some.symm
  · intro h caseId userId
    rw [h (caseId, userId), Stands]
    exact exists_congr fun a => and_congr_right fun _ => holder_eq_some

theorem holder_eq_none {a : Assignment} (h : a.status ≠ "active" ∨ a.assigneeType ≠ "user") :
    a.holder = none := by
  apply if_neg
  intro hboth
  cases h with
  | inl h => exact h hboth.1
  | inr h => exact h hboth.2

theorem holder_of_user {a : Assignment} (hs : a.status = "active") (ht : a.assigneeType = "user") :
    a.holder = some (a.caseId, a.assigneeId) := if_pos ⟨hs, ht⟩

theorem eq_of_holder {a : Assignment} {k : Uuid × String} (h : a.holder = some k) :
    k = (a.caseId, a.assigneeId) := by
  obtain ⟨caseId, userId⟩ := k
  obtain ⟨rfl, -, -, rfl⟩ := holder_eq_some.mp h
  rfl

theorem holder_completed (now : Int) (a : Assignment) : (completed now a).holder = none := by
  apply holder_eq_none
  left
  show "completed" ≠ "active"
  decide

/-! ## the tuples of one user -/

section
variable {db : Db} {caseId : Uuid} {userId : String}

theorem hasRemaining_iff : db.hasRemaining caseId userId = true ↔ db.Holds caseId userId := by
  rw [Db.hasRemaining, List.any_eq_true]
  apply exists_congr
  intro a
  rw [holder_eq_some]
  simp only [Bool.and_eq_true, decide_eq_true_eq]
  tauto

@[simp] theorem assignments_sync {add : Bool} :
    (db.syncAssigneeTuple caseId userId add).assignments = db.assignments := by
  simp only [Db.syncAssigneeTuple, Db.writeTuple, Db.removeTuple]
  split_ifs <;> rfl

theorem assignees_sync_true (hu : userId ≠ "") :
    (db.syncAssigneeTuple caseId userId true).assignees = db.assignees.insert (caseId, userId) := by
  rw [Db.syncAssigneeTuple, if_neg hu, if_pos rfl]
  rfl

theorem assignees_sync_false (hnamed : ∀ caseId, (caseId, "") ∉ db.assignees) :
    (db.syncAssigneeTuple caseId userId false).assignees =
      clear Assignment.holder db.assignments db.assignees (caseId, userId) := by
  by_cases hu : userId = ""
  · rw [Db.syncAssigneeTuple, if_pos hu, clear]
    split
    · rfl
    · symm
      apply List.filter_eq_self.mpr
      intro k hk
      apply decide_eq_true
      intro he
      rw [he, hu] at hk
      exact hnamed caseId hk
  · rw [Db.syncAssigneeTuple, if_neg hu, if_neg Bool.false_ne_true, clear]
    by_cases hst : db.Holds caseId userId
    · rw [if_pos (hasRemaining_iff.mpr hst)]
      exact (if_pos hst).symm
    · rw [if_neg (mt hasRemaining_iff.mp hst)]
      exact (if_neg hst).symm

end

/-! ## tables that stay well-formed -/

section
variable {db : Db} (h : WellFormed db)
include h

theorem WellFormed.sync (caseId : Uuid) (userId : String) (add : Bool) :
    WellFormed (db.syncAssigneeTuple caseId userId add) where
  ids := by
    rw [assignments_sync]
    exact h.ids
  named := by
    intro caseId'
    by_cases hu : userId = ""
    · rw [Db.syncAssigneeTuple, if_pos hu]
      exact h.named caseId'
    · cases add with
      | true =>
        rw [assignees_sync_true hu, List.mem_insert_iff, Prod.mk.injEq]
        intro hk
        cases hk with
        | inl hk => exact hu hk.2.symm
        | inr hk => exact h.named caseId' hk
      | false =>
        rw [assignees_sync_false h.named, mem_clear]
        intro hk
        exact h.named caseId' hk.1

theorem WellFormed.update (assignmentId : Uuid) (values : Assignment → Assignment)
    (hid : ∀ a, (values a).id = a.id) : WellFormed (db.updateAssignment assignmentId values) where
  ids := by
    show ((Base.update Assignment.id db.assignments assignmentId values).map Assignment.id).Nodup
    rw [map_ident_update hid]
    exact h.ids
  named := h.named

theorem WellFormed.append {a : Assignment} (ha : db.getAssignment a.id = none) :
    WellFormed { db with assignments := db.assignments ++ [a] } where
  ids := by
    show ((db.assignments ++ [a]).map Assignment.id).Nodup
    rw [List.map_append, List.nodup_append]
    refine ⟨h.ids, List.nodup_singleton _, ?_⟩
    intro i hi j hj hij
    obtain ⟨a', ha', rfl⟩ := List.mem_map.mp hi
    rw [List.map_singleton, List.mem_singleton] at hj
    exact find?_key_eq_none.mp ha a' ha' (hij.trans hj)
  named := h.named

theorem WellFormed.create {a : Assignment} {db' : Db} (hok : db.createAssignment a = .ok db') :
    WellFormed db' := by
  rw [Db.createAssignment] at hok
  split at hok
  · cases hok
  · next ha =>
    have happ := h.append (Option.not_isSome_iff_eq_none.mp ha)
    cases hok
    split
    · next hu =>
      rw [Bool.and_eq_true, decide_eq_true_eq, decide_eq_true_eq] at hu
      have hsync := happ.sync a.caseId a.assigneeId true
      rw [Db.syncAssigneeTuple, if_neg hu.2, if_pos rfl] at hsync
      exact hsync
    · exact happ

theorem WellFormed.remove (assignmentId : Uuid) :
    WellFormed { db with assignments := db.assignments.filter fun a => a.id ≠ assignmentId } where
  ids := h.ids.sublist (List.filter_sublist.map _)
  named := h.named

end

/-! ## one row -/

section
variable {db : Db} {a : Assignment} {values : Assignment → Assignment}

theorem WellFormed.fetched_iff (h : WellFormed db) {assignmentId : Uuid} :
    db.getAssignment assignmentId = some a ↔ a ∈ db.assignments ∧ a.id = assignmentId :=
  find?_key_iff h.ids

theorem followed_closed_iff (h : WellFormed db) (hf : Followed db) (ha : a ∈ db.assignments)
    (hnone : (values a).holder = none) :
    Followed (db.updateAssignment a.id values) ↔ db.StillHeld a := by
  have hstep := followed_iff.mp hf
  have hrows : Followed (db.updateAssignment a.id values) ↔
      ∀ k, Stands Assignment.holder (update Assignment.id db.assignments a.id values) k ↔
        Stands Assignment.holder db.assignments k := followed_iff.trans hstep.iff_of_index
  rw [hrows]
  apply forall_congr'
  intro k
  rw [stands_update h.ids ha, stands_iff_beside h.ids ha, hnone]
  constructor
  · intro hk hheld
    exact (hk.mpr (.inl hheld)).resolve_left fun he => by cases he
  · intro hk
    constructor
    · intro hb
      exact .inr (hb.resolve_left fun he => by cases he)
    · intro hb
      cases hb with
      | inl hheld => exact .inr (hk hheld)
      | inr hb => exact .inr hb

theorem inStep_vacated (h : WellFormed db) (hf : Followed db) (ha : a ∈ db.assignments)
    {rows : List Assignment} (hrows : ∀ k, Stands Assignment.holder rows k ↔
      Beside Assignment.id Assignment.holder db.assignments a.id k) :
    InStep Assignment.holder rows
      (clear Assignment.holder rows db.assignees (a.caseId, a.assigneeId)) := by
  apply (followed_iff.mp hf).clear
  · intro k hk
    exact (stands_iff_beside h.ids ha).mpr (.inr ((hrows k).mp hk))
  · intro k hne hk
    apply (hrows k).mpr
    exact ((stands_iff_beside h.ids ha).mp hk).resolve_left fun hheld => hne (eq_of_holder hheld)

theorem followed_cleared (h : WellFormed db) (hf : Followed db) (ha : a ∈ db.assignments)
    (hnone : (values a).holder = none) :
    Followed ((db.updateAssignment a.id values).syncAssigneeTuple a.caseId a.assigneeId false) := by
  have hnamed : ∀ caseId, (caseId, "") ∉ (db.updateAssignment a.id values).assignees := h.named
  rw [followed_iff, assignments_sync, assignees_sync_false hnamed]
  apply inStep_vacated h hf ha
  intro k
  rw [Db.updateAssignment, stands_update h.ids ha, hnone]
  exact or_iff_right fun he => by cases he

theorem followed_closed (h : WellFormed db) (hf : Followed db) (ha : a ∈ db.assignments)
    (hnone : (values a).holder = none) :
    Followed (if a.assigneeType = "user" then
      (db.updateAssignment a.id values).syncAssigneeTuple a.caseId a.assigneeId false
      else db.updateAssignment a.id values) := by
  split
  · exact followed_cleared h hf ha hnone
  · next ht =>
    apply (followed_closed_iff h hf ha hnone).mpr
    intro k hk
    rw [holder_eq_none (.inr ht)] at hk
    cases hk

theorem followed_given_iff {userId : String} (h : WellFormed db) (hf : Followed db)
    (ha : a ∈ db.assignments) (hu : userId ≠ "")
    (hgiven : (values a).holder = some (a.caseId, userId)) :
    Followed ((db.updateAssignment a.id values).syncAssigneeTuple a.caseId userId true) ↔
      a.holder = some (a.caseId, userId) ∨ db.StillHeld a := by
  rw [followed_iff, assignments_sync, assignees_sync_true hu]
  have hold : ∀ k, k ∈ db.assignees ↔ a.holder = some k ∨ Beside Assignment.id Assignment.holder
      db.assignments a.id k := fun k => by
    rw [followed_iff.mp hf k, stands_iff_beside h.ids ha]
  have hnew : ∀ k, Stands Assignment.holder (update Assignment.id db.assignments a.id values) k ↔
      k = (a.caseId, userId) ∨ Beside Assignment.id Assignment.holder db.assignments a.id k :=
    fun k => by rw [stands_update h.ids ha, hgiven, Option.some_inj, eq_comm]
  constructor
  · intro hstep
    by_cases hsame : a.holder = some (a.caseId, userId)
    · exact .inl hsame
    · refine .inr fun k hk => ?_
      have hst := (hstep k).mp (List.mem_insert_of_mem ((hold k).mpr (.inl hk)))
      apply ((hnew k).mp hst).resolve_left
      intro he
      exact hsame (he ▸ hk)
  · intro hcond k
    show k ∈ db.assignees.insert (a.caseId, userId) ↔ _
    rw [List.mem_insert_iff, hold, Db.updateAssignment, hnew]
    apply or_congr_right'
    intro hne
    apply or_iff_right_of_imp
    intro hk
    cases hcond with
    | inl hsame => exact absurd (Option.some.inj (hk.symm.trans hsame)) hne
    | inr hstill => exact hstill k hk

theorem followed_written_iff (hf : Followed db) (caseId : Uuid) (userId : String) :
    Followed (db.syncAssigneeTuple caseId userId true) ↔
      (userId ≠ "" → db.Holds caseId userId) := by
  by_cases hu : userId = ""
  · rw [Db.syncAssigneeTuple, if_pos hu]
    exact iff_of_true hf fun hne => absurd hu hne
  · rw [forall_prop_of_true hu, followed_iff, assignments_sync, assignees_sync_true hu]
    constructor
    · intro hstep
      exact (hstep (caseId, userId)).mp List.mem_insert_self
    · intro hholds
      apply (followed_iff.mp hf).insert
      intro k
      exact (or_iff_right_of_imp fun he => he ▸ hholds).symm

theorem followed_moved {userId : String} (h : WellFormed db) (hf : Followed db)
    (ha : a ∈ db.assignments) (hu : userId ≠ "")
    (hgiven : (values a).holder = some (a.caseId, userId)) :
    Followed (((db.updateAssignment a.id values).syncAssigneeTuple a.caseId a.assigneeId
      false).syncAssigneeTuple a.caseId userId true) := by
  have hnamed : ∀ caseId, (caseId, "") ∉ (db.updateAssignment a.id values).assignees := h.named
  have hnew : ∀ k, Stands Assignment.holder (db.updateAssignment a.id values).assignments k ↔
      k = (a.caseId, userId) ∨ Beside Assignment.id Assignment.holder db.assignments a.id k :=
    fun k => by rw [Db.updateAssignment, stands_update h.ids ha, hgiven, Option.some_inj, eq_comm]
  rw [followed_iff, assignments_sync, assignments_sync, assignees_sync_true hu,
    assignees_sync_false hnamed]
  intro k
  rw [List.mem_insert_iff, mem_clear, hnew, hnew]
  apply or_congr_right'
  intro hne
  show k ∈ db.assignees ∧ _ ↔ _
  rw [followed_iff.mp hf k, stands_iff_beside h.ids ha]
  constructor
  · intro hk
    obtain ⟨hheld | hb, hcl⟩ := hk
    · have hk₀ := eq_of_holder hheld
      rw [← hk₀] at hcl
      exact (hcl rfl).resolve_left hne
    · exact hb
  · intro hb
    exact ⟨.inr hb, fun he => .inr (he ▸ hb)⟩

theorem not_followed_of_unnamed {db' : Db} (h' : WellFormed db') (ha : a ∈ db'.assignments)
    (hact : a.status = "active") (ht : a.assigneeType = "user")
    (hu : a.assigneeId = "") : ¬ Followed db' := by
  intro hf'
  apply h'.named a.caseId
  rw [followed_iff.mp hf']
  exact ⟨a, ha, by rw [holder_of_user hact ht, hu]⟩

theorem mem_updated (values : Assignment → Assignment)
    (ha : a ∈ db.assignments) : values a ∈ (db.updateAssignment a.id values).assignments :=
  List.mem_map.mpr ⟨a, ha, if_pos rfl⟩

end

/-! ## rows that are made -/

section
variable {db db' : Db} {a : Assignment}

theorem created_spec (hok : db.createAssignment a = .ok db') :
    db.getAssignment a.id = none ∧ db'.assignments = db.assignments ++ [a] ∧
      db'.assignees = if a.assigneeType = "user" ∧ a.assigneeId ≠ "" then
        db.assignees.insert (a.caseId, a.assigneeId) else db.assignees := by
  rw [Db.createAssignment] at hok
  split at hok
  · cases hok
  · next hid =>
    refine ⟨Option.not_isSome_iff_eq_none.mp hid, ?_⟩
    cases hok
    by_cases hu : a.assigneeType = "user" ∧ a.assigneeId ≠ ""
    · rw [if_pos hu, if_pos (by simpa using hu)]
      exact ⟨rfl, rfl⟩
    · rw [if_neg hu, if_neg (by simpa using hu)]
      exact ⟨rfl, rfl⟩

theorem stands_new {k : Uuid × String} :
    Stands Assignment.holder (db.assignments ++ [a]) k ↔
      a.holder = some k ∨ Stands Assignment.holder db.assignments k := by
  rw [stands_append, stands_singleton, or_comm]

theorem inStep_created (hf : Followed db) {assignees : List (Uuid × String)}
    (hassignees : assignees = if a.assigneeType = "user" ∧ a.assigneeId ≠ "" then
      db.assignees.insert (a.caseId, a.assigneeId) else db.assignees)
    (hact : a.status = "active") (hnamed : a.assigneeType = "user" → a.assigneeId ≠ "") :
    InStep Assignment.holder (db.assignments ++ [a]) assignees := by
  have hstep := followed_iff.mp hf
  rw [hassignees]
  by_cases ht : a.assigneeType = "user"
  · rw [if_pos ⟨ht, hnamed ht⟩]
    apply hstep.insert
    intro k
    rw [stands_new, holder_of_user hact ht, Option.some_inj, eq_comm]
  · rw [if_neg fun hu => ht hu.1]
    apply hstep.iff_of_index.mpr
    intro k
    rw [stands_new, holder_eq_none (.inr ht)]
    exact or_iff_right fun he => by cases he

theorem create_followed_iff (h : WellFormed db) (hf : Followed db) (hact : a.status = "active") :
    Followed (orUnchanged db (db.createAssignment a)) ↔
      (db.getAssignment a.id = none → a.assigneeType = "user" → a.assigneeId ≠ "") := by
  cases hok : db.createAssignment a with
  | error e =>
    refine iff_of_true hf fun hid => ?_
    rw [Db.createAssignment, if_neg (by rw [hid]; decide)] at hok
    cases hok
  | ok db' =>
    obtain ⟨hid, hrows, hassignees⟩ := created_spec hok
    show Followed db' ↔ _
    constructor
    · intro hf' _ ht he
      have hnot : (a.caseId, "") ∉ db'.assignees := (h.create hok).named a.caseId
      apply hnot
      rw [followed_iff.mp hf', hrows, stands_new, holder_of_user hact ht, he]
      exact .inl rfl
    · intro hnamed
      rw [followed_iff, hrows]
      exact inStep_created hf hassignees hact (hnamed hid)

theorem selfAssign_followed_iff (hf : Followed db) (id caseId : Uuid) (stepId userId : String)
    (now : Int) : Followed (orUnchanged db (selfAssign db id caseId stepId userId now)) ↔
      (db.getAssignment id = none → db.Holds caseId userId) := by
  rw [selfAssign]
  split
  · next hid =>
    refine iff_of_true hf fun hnone => ?_
    rw [hnone] at hid
    cases hid
  · next hid =>
    rw [forall_prop_of_true (Option.not_isSome_iff_eq_none.mp hid)]
    show Followed { db with assignments := db.assignments ++ [_] } ↔ _
    rw [followed_iff, (followed_iff.mp hf).iff_of_index]
    constructor
    · intro hall
      exact (hall (caseId, userId)).mp (stands_new.mpr (.inl (holder_of_user rfl rfl)))
    · intro hholds k
      rw [stands_new]
      apply or_iff_right_of_imp
      intro hk
      rw [eq_of_holder hk]
      exact hholds

end

end Assignments
