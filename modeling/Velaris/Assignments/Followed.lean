import Velaris.Assignments.Held
import Velaris.Base.Run
import Velaris.Base.Traverse

/-!
# Access that follows the work items

Runs of the operations of `Store`, over the rows and tuples of all cases.

* `Op`, `step`   the operations; one that raises changes nothing;
* `Keeps`   what an operation has to find so that the tuples follow it.

`step_followed_iff`: from a state in which the tuples follow, they follow an operation exactly where
it keeps them.  `run_followed`: along a run.  The completion of a step and an escalation never write
a tuple.
-/

namespace Assignments
open Py Base

/-! ## runs -/

inductive Op where
  /-- `POST /cases/{case_id}/assignments`, and the steps of a stage that is entered -/
  | create (id caseId : Uuid) (stepId assigneeType assigneeId : String) (now : Int)
  | selfAssign (id caseId : Uuid) (stepId userId : String) (now : Int)
  | claim (assignmentId : Uuid) (userId : String) (now : Int)
  | release (assignmentId : Uuid) (userId : String)
  | reassign (assignmentId : Uuid) (newAssigneeId : String) (now : Int)
  | complete (assignmentId : Uuid) (now : Int)
  | delete (assignmentId : Uuid)
  /-- the dispatcher's `assign` -/
  | assign (id caseId : Uuid) (params : Dict) (now : Int)
  /-- the dispatcher's `reassign` -/
  | reassignAll (caseId : Uuid) (params : Dict) (fresh : Uuid → Uuid) (now : Int)
  | escalate (users : UserDirectory) (caseId : Uuid) (targetType : String)
      (targetId : Option String)
  | stepCompleted (caseId : Uuid) (stepId : String) (now : Int)
  | completeStep (caseId : Uuid) (stepId : String) (now : Int)

variable (R : Runtime)

def perform (db : Db) : Op → Except HttpError Db
  | .create id caseId stepId assigneeType assigneeId now =>
    db.createAssignment { id, caseId, stepId, assigneeType, assigneeId, assignedAt := now }
  | .selfAssign id caseId stepId userId now => selfAssign db id caseId stepId userId now
  | .claim assignmentId userId now => claimAssignment db assignmentId userId now
  | .release assignmentId userId => releaseAssignment db assignmentId userId
  | .reassign assignmentId newAssigneeId now =>
    reassignAssignment db assignmentId newAssigneeId now
  | .complete assignmentId now => completeAssignment db assignmentId now
  | .delete assignmentId => deleteAssignment db assignmentId
  | .assign id caseId params now => hAssign db R id caseId params now
  | .reassignAll caseId params fresh now => hReassign db R caseId params fresh now
  | .escalate users caseId targetType targetId =>
    .ok (reassignForSla db users caseId targetType targetId)
  | .stepCompleted caseId stepId now => onStepCompleted db caseId stepId now
  | .completeStep caseId stepId now => .ok (closeStep db caseId stepId now)

def step (db : Db) (op : Op) : Db := orUnchanged db (perform R db op)

/-! ## operations that the tuples follow -/

def Db.Fetched (db : Db) (assignmentId : Uuid) (P : Assignment → Prop) : Prop :=
  ∀ a, db.getAssignment assignmentId = some a → P a

def Keeps (db : Db) : Op → Prop
  | .create id _ _ assigneeType assigneeId _ =>
    db.getAssignment id = none → assigneeType = "user" → assigneeId ≠ ""
  | .selfAssign id caseId _ userId _ => db.getAssignment id = none → db.Holds caseId userId
  | .claim assignmentId userId _ => db.Fetched assignmentId fun a =>
    a.status = "active" → a.claimedAt = none →
      userId ≠ "" ∧ (a.holder = some (a.caseId, userId) ∨ db.StillHeld a)
  | .reassign assignmentId newAssigneeId _ => db.Fetched assignmentId fun a =>
    if a.status = "active" then newAssigneeId ≠ ""
    else newAssigneeId ≠ "" → db.Holds a.caseId newAssigneeId
  | .escalate users caseId targetType targetId =>
    let target := resolveDynamicTarget db users caseId targetType targetId
    target.2 ≠ "" → db.activeRows caseId ≠ [] →
      ∀ userId, db.Holds caseId userId ↔ target.1 = "user" ∧ userId = target.2
  | .stepCompleted caseId stepId _ =>
    ∀ a, db.activeOnStep caseId stepId = [a] → db.StillHeld a
  | .completeStep caseId stepId _ =>
    ∀ a, latest? (·.assignedAt) (db.activeOnStep caseId stepId) = some a → db.StillHeld a
  | .release .. | .complete .. | .delete .. | .assign .. | .reassignAll .. => True

/-! ## the routes of one assignment -/

section
variable {db : Db} {assignmentId : Uuid}

theorem orUnchanged_fetched (change : Assignment → Except HttpError Db) (P : Assignment → Prop)
    (hf : Followed db)
    (hrow : ∀ a, db.getAssignment assignmentId = some a →
      (Followed (orUnchanged db (change a)) ↔ P a)) :
    Followed (orUnchanged db (getAssignmentOr404 db assignmentId >>= change)) ↔
      db.Fetched assignmentId P := by
  rw [getAssignmentOr404, Db.Fetched]
  cases hget : db.getAssignment assignmentId with
  | none =>
    refine iff_of_true hf fun a ha => ?_
    cases ha
  | some a =>
    show Followed (orUnchanged db (change a)) ↔ _
    rw [hrow a hget]
    exact ⟨fun hP a' ha' => Option.some.inj ha' ▸ hP, fun hP => hP a rfl⟩

theorem claim_followed_iff (h : WellFormed db) (hf : Followed db) (userId : String) (now : Int) :
    Followed (orUnchanged db (claimAssignment db assignmentId userId now)) ↔
      db.Fetched assignmentId fun a => a.status = "active" → a.claimedAt = none →
        userId ≠ "" ∧ (a.holder = some (a.caseId, userId) ∨ db.StillHeld a) := by
  apply orUnchanged_fetched _ _ hf
  intro a hget
  obtain ⟨ha, rfl⟩ := h.fetched_iff.mp hget
  split
  · next hs => exact iff_of_true hf fun hact => absurd hact hs
  · next hs =>
    have hact : a.status = "active" := not_not.mp hs
    split
    · next hc =>
      refine iff_of_true hf fun _ hnone => ?_
      rw [hnone] at hc
      cases hc
    · next hc =>
      rw [forall_prop_of_true hact, forall_prop_of_true (Option.not_isSome_iff_eq_none.mp hc)]
      by_cases hu : userId = ""
      · refine iff_of_false ?_ fun hcond => hcond.1 hu
        have hid : ∀ b, (claimed userId now b).id = b.id := fun _ => rfl
        apply not_followed_of_unnamed ((h.update a.id _ hid).sync a.caseId userId true)
        · rw [assignments_sync]
          exact mem_updated (claimed userId now) ha
        · exact hact
        · rfl
        · exact hu
      · rw [and_iff_right hu]
        exact followed_given_iff h hf ha hu (holder_of_user hact rfl)

theorem release_followed (h : WellFormed db) (hf : Followed db) (userId : String) :
    Followed (orUnchanged db (releaseAssignment db assignmentId userId)) := by
  apply (orUnchanged_fetched _ (fun _ => True) hf _).mpr
  · intro a _
    trivial
  · intro a hget
    obtain ⟨ha, rfl⟩ := h.fetched_iff.mp hget
    rw [iff_true]
    split
    · exact hf
    · next hu =>
      obtain rfl : a.assigneeId = userId := not_not.mp hu
      apply followed_cleared h hf ha
      apply holder_eq_none
      right
      show "queue" ≠ "user"
      decide

theorem complete_followed (h : WellFormed db) (hf : Followed db) (now : Int) :
    Followed (orUnchanged db (completeAssignment db assignmentId now)) := by
  apply (orUnchanged_fetched _ (fun _ => True) hf _).mpr
  · intro a _
    trivial
  · intro a hget
    obtain ⟨ha, rfl⟩ := h.fetched_iff.mp hget
    rw [iff_true]
    split
    · exact hf
    · exact followed_closed h hf ha (holder_completed now a)

theorem delete_followed (h : WellFormed db) (hf : Followed db) :
    Followed (orUnchanged db (deleteAssignment db assignmentId)) := by
  apply (orUnchanged_fetched _ (fun _ => True) hf _).mpr
  · intro a _
    trivial
  · intro a hget
    obtain ⟨ha, rfl⟩ := h.fetched_iff.mp hget
    rw [iff_true]
    have hrows : ∀ k, Stands Assignment.holder (db.assignments.filter (·.id ≠ a.id)) k ↔
        Beside Assignment.id Assignment.holder db.assignments a.id k := fun _ => stands_remove
    show Followed (if a.assigneeType = "user" then _ else _)
    split
    · have hnamed : ∀ caseId, (caseId, "") ∉
          ({ db with assignments := db.assignments.filter (·.id ≠ a.id) } : Db).assignees := h.named
      rw [followed_iff, assignments_sync, assignees_sync_false hnamed]
      exact inStep_vacated h hf ha hrows
    · next ht =>
      rw [followed_iff]
      apply (followed_iff.mp hf).iff_of_index.mpr
      intro k
      rw [hrows, stands_iff_beside h.ids ha, holder_eq_none (.inr ht)]
      exact (or_iff_right fun he => by cases he).symm

theorem reassign_followed_iff (h : WellFormed db) (hf : Followed db) (newAssigneeId : String)
    (now : Int) : Followed (orUnchanged db (reassignAssignment db assignmentId newAssigneeId now)) ↔
      db.Fetched assignmentId fun a => if a.status = "active" then newAssigneeId ≠ ""
        else newAssigneeId ≠ "" → db.Holds a.caseId newAssigneeId := by
  apply orUnchanged_fetched _ _ hf
  intro a hget
  obtain ⟨ha, rfl⟩ := h.fetched_iff.mp hget
  have hid : ∀ b, (reassigned newAssigneeId now b).id = b.id := fun _ => rfl
  show Followed (((db.updateAssignment a.id (reassigned newAssigneeId now)).syncAssigneeTuple
    a.caseId a.assigneeId false).syncAssigneeTuple a.caseId newAssigneeId true) ↔ _
  by_cases hact : a.status = "active"
  · rw [if_pos hact]
    constructor
    · intro hf' hu
      have hmem : reassigned newAssigneeId now a ∈
          (((db.updateAssignment a.id (reassigned newAssigneeId now)).syncAssigneeTuple a.caseId
            a.assigneeId false).syncAssigneeTuple a.caseId newAssigneeId true).assignments := by
        rw [assignments_sync, assignments_sync]
        exact mem_updated (reassigned newAssigneeId now) ha
      have hrow := h.update a.id _ hid
      have hwf := (hrow.sync a.caseId a.assigneeId false).sync a.caseId newAssigneeId true
      exact not_followed_of_unnamed hwf hmem hact rfl hu hf'
    · intro hu
      exact followed_moved h hf ha hu (holder_of_user hact rfl)
  · rw [if_neg hact]
    have hnone : a.holder = none := holder_eq_none (.inl hact)
    have hnone' : (reassigned newAssigneeId now a).holder = none := holder_eq_none (.inl hact)
    rw [followed_written_iff (followed_cleared h hf ha hnone')]
    apply imp_congr_right
    intro _
    rw [Db.Holds, assignments_sync, Db.updateAssignment, stands_update h.ids ha, Db.Holds,
      stands_iff_beside h.ids ha, hnone, hnone']

/-! ## completed steps -/

theorem mem_activeOnStep {caseId : Uuid} {stepId : String} {a : Assignment}
    (ha : a ∈ db.activeOnStep caseId stepId) : a ∈ db.assignments := (List.mem_filter.mp ha).1

theorem stepCompleted_followed_iff (h : WellFormed db) (hf : Followed db) (caseId : Uuid)
    (stepId : String) (now : Int) :
    Followed (orUnchanged db (onStepCompleted db caseId stepId now)) ↔
      ∀ a, db.activeOnStep caseId stepId = [a] → db.StillHeld a := by
  rw [onStepCompleted]
  split
  · next hrows =>
    refine iff_of_true hf fun a ha => ?_
    rw [hrows] at ha
    cases ha
  · next a hrows =>
    have ha : a ∈ db.assignments := mem_activeOnStep (hrows ▸ List.mem_singleton_self a)
    show Followed (db.updateAssignment a.id (completed now)) ↔ _
    rw [followed_closed_iff h hf ha (holder_completed now a), hrows]
    exact ⟨fun hstill a' ha' => List.singleton_injective ha' ▸ hstill, fun hall => hall a rfl⟩
  · next hrows =>
    refine iff_of_true hf fun a ha => ?_
    exact absurd ha (hrows a)

theorem closeStep_followed_iff (h : WellFormed db) (hf : Followed db) (caseId : Uuid)
    (stepId : String) (now : Int) :
    Followed (closeStep db caseId stepId now) ↔
      ∀ a, latest? (·.assignedAt) (db.activeOnStep caseId stepId) = some a → db.StillHeld a := by
  rw [closeStep]
  split
  · next hrow =>
    refine iff_of_true hf fun a ha => ?_
    rw [hrow] at ha
    cases ha
  · next a hrow =>
    have ha : a ∈ db.assignments := mem_activeOnStep (latest?_mem hrow)
    rw [followed_closed_iff h hf ha (holder_completed now a), hrow]
    exact ⟨fun hstill a' ha' => Option.some.inj ha' ▸ hstill, fun hall => hall a rfl⟩

/-! ## escalations -/

/-- `execute_action` on one row -/
def escalated (target : String × String) (caseId : Uuid) (a : Assignment) : Assignment :=
  if a.caseId = caseId && a.status = "active" then
    { a with assigneeId := target.2, assigneeType := target.1, claimedAt := none }
  else a

theorem mem_activeRows {caseId : Uuid} {a : Assignment} :
    a ∈ db.activeRows caseId ↔ a ∈ db.assignments ∧ a.caseId = caseId ∧ a.status = "active" := by
  rw [Db.activeRows, List.mem_filter, Bool.and_eq_true, decide_eq_true_eq, decide_eq_true_eq]

theorem holder_escalated_of_ne {target : String × String} {caseId : Uuid} {a : Assignment}
    {k : Uuid × String} (hk : k.1 ≠ caseId) :
    (escalated target caseId a).holder = some k ↔ a.holder = some k := by
  obtain ⟨caseId', userId⟩ := k
  by_cases hrow : a.caseId = caseId
  · have hcase : (escalated target caseId a).caseId = caseId := by
      rw [escalated]
      split <;> exact hrow
    rw [holder_eq_some, holder_eq_some, hcase, hrow]
    exact iff_of_false (fun he => hk he.1.symm) fun he => hk he.1.symm
  · rw [escalated, if_neg (by simp [hrow])]

theorem holder_escalated {target : String × String} {caseId : Uuid} {a : Assignment}
    {userId : String} : (escalated target caseId a).holder = some (caseId, userId) ↔
      (a.caseId = caseId ∧ a.status = "active") ∧ target.1 = "user" ∧ userId = target.2 := by
  by_cases hrow : a.caseId = caseId ∧ a.status = "active"
  · rw [escalated, if_pos (by simp [hrow]), holder_eq_some]
    show a.caseId = caseId ∧ a.status = "active" ∧ target.1 = "user" ∧ target.2 = userId ↔ _
    rw [and_assoc, eq_comm (a := target.2)]
  · rw [escalated, if_neg (by simpa using hrow), holder_eq_some]
    exact iff_of_false (fun he => hrow ⟨he.1, he.2.1⟩) fun he => hrow he.1

theorem escalate_followed_iff (hf : Followed db) (users : UserDirectory) (caseId : Uuid)
    (targetType : String) (targetId : Option String) :
    Followed (reassignForSla db users caseId targetType targetId) ↔
      ((resolveDynamicTarget db users caseId targetType targetId).2 ≠ "" →
        db.activeRows caseId ≠ [] → ∀ userId, db.Holds caseId userId ↔
          (resolveDynamicTarget db users caseId targetType targetId).1 = "user" ∧
            userId = (resolveDynamicTarget db users caseId targetType targetId).2) := by
  rw [reassignForSla]
  generalize resolveDynamicTarget db users caseId targetType targetId = target
  by_cases hid : target.2 = ""
  · rw [if_pos hid]
    exact iff_of_true hf fun hne => absurd hid hne
  · rw [if_neg hid, forall_prop_of_true hid]
    show Followed { db with assignments := db.assignments.map (escalated target caseId) } ↔ _
    have hstands : ∀ k, Stands Assignment.holder (db.assignments.map (escalated target caseId)) k ↔
        ∃ a ∈ db.assignments, (escalated target caseId a).holder = some k := fun k => by
      simp only [Stands, List.mem_map, exists_exists_and_eq_and]
    rw [followed_iff, (followed_iff.mp hf).iff_of_index]
    constructor
    · intro hall hrows userId
      obtain ⟨a, ha⟩ := List.exists_mem_of_ne_nil _ hrows
      obtain ⟨hmem, hact⟩ := mem_activeRows.mp ha
      rw [Db.Holds, ← hall, hstands]
      constructor
      · intro hk
        obtain ⟨a', -, hk⟩ := hk
        exact (holder_escalated.mp hk).2
      · intro hk
        exact ⟨a, hmem, holder_escalated.mpr ⟨hact, hk⟩⟩
    · intro hsame k
      rw [hstands]
      by_cases hk : k.1 = caseId
      · obtain ⟨caseId', userId⟩ := k
        obtain rfl : caseId' = caseId := hk
        constructor
        · intro hst
          obtain ⟨a, hmem, hst⟩ := hst
          obtain ⟨hact, huser⟩ := holder_escalated.mp hst
          have hrows := List.ne_nil_of_mem (mem_activeRows.mpr ⟨hmem, hact⟩)
          exact (hsame hrows userId).mpr huser
        · intro hst
          obtain ⟨a, hmem, hst'⟩ := id hst
          obtain ⟨hcase, hs, -, -⟩ := holder_eq_some.mp hst'
          have hrows := List.ne_nil_of_mem (mem_activeRows.mpr ⟨hmem, hcase, hs⟩)
          exact ⟨a, hmem, holder_escalated.mpr ⟨⟨hcase, hs⟩, (hsame hrows userId).mp hst⟩⟩
      · exact exists_congr fun a => and_congr_right fun _ => holder_escalated_of_ne hk

/-! ## the dispatcher -/

theorem bounded_ne_empty {R : Runtime} {params : Dict} {key value : String} {limit : Nat}
    (h : bounded R params key limit = .ok value) : value ≠ "" := by
  rw [bounded] at h
  split at h
  · cases h
  · next hne =>
    split at h
    · cases h
    · rw [← Except.ok.inj h]
      exact hne

theorem create_followed {db' : Db} {a : Assignment} (h : WellFormed db) (hf : Followed db)
    (hact : a.status = "active") (hnamed : a.assigneeId ≠ "")
    (hok : db.createAssignment a = .ok db') :
    WellFormed db' ∧ Followed db' := by
  have hfollowed := (create_followed_iff h hf hact).mpr fun _ _ => hnamed
  rw [hok] at hfollowed
  exact ⟨h.create hok, hfollowed⟩

theorem hAssign_followed {R : Runtime} {db' : Db} {id caseId : Uuid} {params : Dict} {now : Int}
    (h : WellFormed db) (hf : Followed db) (hok : hAssign db R id caseId params now = .ok db') :
    WellFormed db' ∧ Followed db' := by
  obtain ⟨assigneeType, -, hok⟩ := exists_of_bind_ok hok
  obtain ⟨stepId, -, hok⟩ := exists_of_bind_ok hok
  obtain ⟨assigneeId, hid, hok⟩ := exists_of_bind_ok hok
  exact create_followed h hf rfl (bounded_ne_empty hid) hok

/-- the row is closed, the one in its place written and the tuple of the holder before cleared; the
other rows are left as they are -/
theorem moveRow_followed {db' : Db} {newType newId : String} {freshId : Uuid} {now : Int}
    {row : Assignment} (h : WellFormed db) (hf : Followed db) (hrow : row ∈ db.assignments)
    (hid : newId ≠ "") (hok : moveRow db newType newId freshId now row = .ok db') :
    WellFormed db' ∧ Followed db' ∧
      ∀ a ∈ db.assignments, a.id ≠ row.id → a ∈ db'.assignments := by
  rw [moveRow] at hok
  split at hok
  · cases hok
    exact ⟨h, hf, fun a ha _ => ha⟩
  · obtain ⟨db₂, hcreate, hlast⟩ := exists_of_bind_ok hok
    obtain ⟨-, hrows, hassignees⟩ := created_spec hcreate
    set fresh := replacement newType newId freshId now row
    have hnone : (movedAway row).holder = none := by
      apply holder_eq_none
      left
      show "reassigned" ≠ "active"
      decide
    have hcl : ∀ a, (movedAway a).id = a.id := fun _ => rfl
    have h₂ : WellFormed db₂ := (h.update row.id _ hcl).create hcreate
    have hothers : ∀ a ∈ db.assignments, a.id ≠ row.id → a ∈ db₂.assignments := by
      intro a ha hne
      rw [hrows]
      apply List.mem_append_left
      exact List.mem_map.mpr ⟨a, ha, if_neg hne⟩
    have hstands : ∀ k, Stands Assignment.holder db₂.assignments k ↔ fresh.holder = some k ∨
        Beside Assignment.id Assignment.holder db.assignments row.id k := fun k => by
      rw [hrows, stands_new, Db.updateAssignment, stands_update h.ids hrow, hnone]
      exact or_congr_right (or_iff_right fun he => by cases he)
    -- the index is in step with the rows as they are before the old one is closed
    have hbefore : InStep Assignment.holder (db.assignments ++ [fresh]) db₂.assignees :=
      inStep_created hf hassignees rfl fun _ => hid
    have hbeforeStands : ∀ k, Stands Assignment.holder (db.assignments ++ [fresh]) k ↔
        fresh.holder = some k ∨ row.holder = some k ∨
          Beside Assignment.id Assignment.holder db.assignments row.id k := fun k => by
      rw [stands_new, stands_iff_beside h.ids hrow]
    split at hlast
    · cases hlast
      refine ⟨h₂.sync row.caseId row.assigneeId false, ?_, ?_⟩
      · rw [followed_iff, assignments_sync, assignees_sync_false h₂.named]
        apply hbefore.clear
        · intro k hk
          apply (hbeforeStands k).mpr
          exact ((hstands k).mp hk).imp_right .inr
        · intro k hne hk
          apply (hstands k).mpr
          apply ((hbeforeStands k).mp hk).imp_right
          intro hk
          exact hk.resolve_left fun hheld => hne (eq_of_holder hheld)
      · rw [assignments_sync]
        exact hothers
    · next ht =>
      cases hlast
      refine ⟨h₂, ?_, hothers⟩
      rw [followed_iff]
      apply hbefore.iff_of_index.mpr
      intro k
      rw [hstands, hbeforeStands, holder_eq_none (.inr ht)]
      exact or_congr_right (or_iff_right fun he => by cases he).symm

theorem foldlM_moveRow_followed {newType newId : String} {fresh : Uuid → Uuid} {now : Int}
    (hid : newId ≠ "") {rows : List Assignment} (hrows : (rows.map (·.id)).Nodup) {db db' : Db}
    (h : WellFormed db) (hf : Followed db) (hmem : ∀ a ∈ rows, a ∈ db.assignments)
    (hok : rows.foldlM (fun db row => moveRow db newType newId (fresh row.id) now row) db =
      .ok db') :
    WellFormed db' ∧ Followed db' := by
  induction rows generalizing db with
  | nil =>
    cases hok
    exact ⟨h, hf⟩
  | cons row rows ih =>
    rw [List.foldlM_cons] at hok
    obtain ⟨hnew, hrows⟩ := List.nodup_cons.mp hrows
    obtain ⟨db₁, hmove, hok⟩ := exists_of_bind_ok hok
    obtain ⟨h₁, hf₁, hothers⟩ := moveRow_followed h hf (hmem row List.mem_cons_self) hid hmove
    apply ih hrows h₁ hf₁ _ hok
    intro a ha
    apply hothers a (hmem a (List.mem_cons_of_mem _ ha))
    intro he
    apply hnew
    show row.id ∈ _
    rw [← he]
    exact List.mem_map_of_mem ha

theorem hReassign_followed {R : Runtime} {db' : Db} {caseId : Uuid} {params : Dict}
    {fresh : Uuid → Uuid} {now : Int} (h : WellFormed db) (hf : Followed db)
    (hok : hReassign db R caseId params fresh now = .ok db') : WellFormed db' ∧ Followed db' := by
  rw [hReassign] at hok
  split at hok
  · cases hok
    exact ⟨h, hf⟩
  · obtain ⟨newType, -, hok⟩ := exists_of_bind_ok hok
    obtain ⟨newId, hid, hok⟩ := exists_of_bind_ok hok
    have hrows : ((db.activeRows caseId).map (·.id)).Nodup :=
      h.ids.sublist (List.filter_sublist.map _)
    exact foldlM_moveRow_followed (bounded_ne_empty hid) hrows h hf
      (fun a ha => (mem_activeRows.mp ha).1) hok

end

/-! ## steps and runs -/

section
variable {R : Runtime} {db : Db}

theorem orUnchanged_of_ok {P : Db → Prop} {result : Except HttpError Db} (h : P db)
    (hok : ∀ db', result = .ok db' → P db') : P (orUnchanged db result) := by
  cases result with
  | error e => exact h
  | ok db' => exact hok db' rfl

theorem WellFormed.fetched (h : WellFormed db) {assignmentId : Uuid}
    {change : Assignment → Except HttpError Db}
    (hok : ∀ a db', change a = .ok db' → WellFormed db') :
    WellFormed (orUnchanged db (getAssignmentOr404 db assignmentId >>= change)) := by
  apply orUnchanged_of_ok h
  intro db' hdb'
  obtain ⟨a, -, hchange⟩ := exists_of_bind_ok hdb'
  exact hok a db' hchange

theorem WellFormed.closed (h : WellFormed db) {a : Assignment} :
    WellFormed (if a.assigneeType = "user" then db.syncAssigneeTuple a.caseId a.assigneeId false
      else db) := by
  split
  · exact h.sync a.caseId a.assigneeId false
  · exact h

theorem step_wellFormed (h : WellFormed db) (hf : Followed db) (op : Op) :
    WellFormed (step R db op) := by
  cases op with
  | create id caseId stepId assigneeType assigneeId now =>
    apply orUnchanged_of_ok h
    intro db' hok
    exact h.create hok
  | selfAssign id caseId stepId userId now =>
    apply orUnchanged_of_ok h
    intro db' hok
    rw [perform, selfAssign] at hok
    split at hok
    · cases hok
    · next hid =>
      cases hok
      exact h.append (Option.not_isSome_iff_eq_none.mp hid)
  | claim assignmentId userId now =>
    apply h.fetched
    intro a db' hok
    split_ifs at hok
    cases hok
    exact (h.update assignmentId (claimed userId now) fun _ => rfl).sync a.caseId userId true
  | release assignmentId userId =>
    apply h.fetched
    intro a db' hok
    split_ifs at hok
    cases hok
    exact (h.update assignmentId released fun _ => rfl).sync a.caseId userId false
  | reassign assignmentId newAssigneeId now =>
    apply h.fetched
    intro a db' hok
    rw [← Except.ok.inj hok]
    have hrow := h.update assignmentId (reassigned newAssigneeId now) fun _ => rfl
    exact (hrow.sync a.caseId a.assigneeId false).sync a.caseId newAssigneeId true
  | complete assignmentId now =>
    apply h.fetched
    intro a db' hok
    split at hok
    · cases hok
    · rw [← Except.ok.inj hok]
      exact (h.update assignmentId (completed now) fun _ => rfl).closed
  | delete assignmentId =>
    apply h.fetched
    intro a db' hok
    rw [← Except.ok.inj hok]
    exact (h.remove assignmentId).closed
  | assign id caseId params now =>
    apply orUnchanged_of_ok h
    intro db' hok
    exact (hAssign_followed h hf hok).1
  | reassignAll caseId params fresh now =>
    apply orUnchanged_of_ok h
    intro db' hok
    exact (hReassign_followed h hf hok).1
  | escalate users caseId targetType targetId =>
    show WellFormed (reassignForSla db users caseId targetType targetId)
    rw [reassignForSla]
    split
    · exact h
    · refine ⟨?_, h.named⟩
      show ((db.assignments.map (escalated _ caseId)).map (·.id)).Nodup
      rw [List.map_map]
      have hids : ∀ target, ((·.id) ∘ escalated target caseId) = (·.id) := fun target => by
        funext a
        show (escalated target caseId a).id = a.id
        rw [escalated]
        split <;> rfl
      rw [hids]
      exact h.ids
  | stepCompleted caseId stepId now =>
    apply orUnchanged_of_ok h
    intro db' hok
    rw [perform, onStepCompleted] at hok
    split at hok
    · cases hok
      exact h
    · cases hok
      exact h.update _ (completed now) fun _ => rfl
    · cases hok
  | completeStep caseId stepId now =>
    show WellFormed (closeStep db caseId stepId now)
    rw [closeStep]
    split
    · exact h
    · exact h.update _ (completed now) fun _ => rfl

theorem step_followed_iff (h : WellFormed db) (hf : Followed db) (op : Op) :
    Followed (step R db op) ↔ Keeps db op := by
  cases op with
  | create id caseId stepId assigneeType assigneeId now => exact create_followed_iff h hf rfl
  | selfAssign id caseId stepId userId now =>
    exact selfAssign_followed_iff hf id caseId stepId userId now
  | claim assignmentId userId now => exact claim_followed_iff h hf userId now
  | release assignmentId userId => exact iff_of_true (release_followed h hf userId) trivial
  | reassign assignmentId newAssigneeId now => exact reassign_followed_iff h hf newAssigneeId now
  | complete assignmentId now => exact iff_of_true (complete_followed h hf now) trivial
  | delete assignmentId => exact iff_of_true (delete_followed h hf) trivial
  | assign id caseId params now =>
    refine iff_of_true ?_ trivial
    apply orUnchanged_of_ok hf
    intro db' hok
    exact (hAssign_followed h hf hok).2
  | reassignAll caseId params fresh now =>
    refine iff_of_true ?_ trivial
    apply orUnchanged_of_ok hf
    intro db' hok
    exact (hReassign_followed h hf hok).2
  | escalate users caseId targetType targetId =>
    exact escalate_followed_iff hf users caseId targetType targetId
  | stepCompleted caseId stepId now => exact stepCompleted_followed_iff h hf caseId stepId now
  | completeStep caseId stepId now => exact closeStep_followed_iff h hf caseId stepId now

end

theorem wellFormed_empty : WellFormed {} := ⟨List.nodup_nil, fun _ => List.not_mem_nil⟩

theorem followed_empty : Followed {} := by
  intro caseId userId
  exact iff_of_false List.not_mem_nil fun h => by
    obtain ⟨a, ha, -⟩ := h
    cases ha

/-- the tuples follow the work items along a run whose operations keep them -/
theorem run_followed (R : Runtime) (ops : List Op) (h : Along (step R) Keeps {} ops) :
    Followed (exec (step R) {} ops) := by
  have hinv : WellFormed (exec (step R) {} ops) ∧ Followed (exec (step R) {} ops) := by
    apply exec_inv (I := fun db => WellFormed db ∧ Followed db) _ _ h
    · intro db op hdb hkeeps
      exact ⟨step_wellFormed hdb.1 hdb.2 op, (step_followed_iff hdb.1 hdb.2 op).mpr hkeeps⟩
    · exact ⟨wellFormed_empty, followed_empty⟩
  exact hinv.2

/-- from a queue to a user, from one user to another, and to its end -/
theorem run_followed_reassigned :
    Followed (exec (step .silent) {}
      [.create 1 1 "s1" "queue" "billing" 0, .claim 1 "anna" 3, .reassign 1 "bob" 4,
        .complete 1 5]) := by
  apply run_followed
  refine ⟨fun _ ht => absurd ht (by decide), ?_, ?_, trivial, trivial⟩
  · intro a ha _ _
    obtain rfl := Option.some.inj ha
    refine ⟨by decide, .inr fun k hk => ?_⟩
    cases hk
  · intro a ha
    have hact : a.status = "active" := by
      obtain rfl := Option.some.inj ha
      rfl
    show if a.status = "active" then _ else _
    rw [if_pos hact]
    decide

/-- the step is completed, and the user keeps the access that came with the work item -/
theorem step_leaves_access :
    ¬ Followed (exec (step .silent) {}
      [.create 1 1 "s1" "user" "anna" 0, .completeStep 1 "s1" 5]) := by
  intro h
  obtain ⟨a, ha, -, hact, -⟩ := (h 1 "anna").mp (by decide)
  obtain rfl := List.mem_singleton.mp ha
  revert hact
  decide

end Assignments
