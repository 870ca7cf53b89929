import Velaris.HxGuard.Directory

/-!
# Relationships to cases

`RebacBackend` of `hxguard/service.py`: who may do what with a case, by owning it, by a tuple, or by
an access group.

* `CaseTables`   the cases and the tuples beside the tables of operators;
* `activeGroupsOf`   the active groups with a membership row under the id of the subject;
* `rebacBackend`   the decision;
* `rebac_allow_iff`   the decision as a statement about the tables.
-/

namespace HxGuard
open Py Base

structure CaseInstance where
  id : Uuid
  caseTypeId : Uuid
  createdBy : Option String
  tenantId : Option Uuid := none
  isDeleted : Bool := false

/-- `created_by and str(created_by) == id` -/
def CaseInstance.ownedBy (row : CaseInstance) (id : String) : Bool :=
  row.createdBy.any fun c => c ≠ "" && c = id

structure RelationTuple where
  objectType : String
  objectId : Uuid
  relation : String
  subjectType : String
  subjectId : String

structure CaseTables where
  db : Db
  cases : List CaseInstance
  tuples : List RelationTuple

def CASE_ACTIONS : List (String × List String) :=
  [("case.read", ["assignee", "editor", "viewer"]),
   ("case.update", ["assignee", "editor"]),
   ("case.share", ["editor"]),
   ("meet.start", ["assignee", "editor"]),
   ("meet.join", ["assignee", "editor", "viewer"]),
   ("meet.recording.view", ["assignee", "editor"]),
   ("messages.read", ["assignee", "editor", "viewer"]),
   ("messages.write", ["assignee", "editor"]),
   ("meet.intelligence.run", ["assignee", "editor"]),
   ("docs.verify", ["assignee", "editor"]),
   ("meet.kyc.run", ["assignee", "editor"]),
   ("cases.ask", ["assignee", "editor", "viewer"]),
   ("stt.transcribe", ["assignee", "editor", "viewer"]),
   ("voicefill.extract", ["assignee", "editor"]),
   ("capture.read", ["assignee", "editor", "viewer"]),
   ("capture.run", ["assignee", "editor"]),
   ("capture.decide", ["assignee", "editor"])]

/-! ## lookups -/

/-- `has_tuple`: the first matching relation -/
def hasTuple (t : CaseTables) (objectType : String) (objectId : Uuid) (relations : List String)
    (subjectType subjectId : String) : Option String :=
  (t.tuples.find? fun r => r.objectType = objectType && r.objectId = objectId &&
    r.relation ∈ relations && r.subjectType = subjectType && r.subjectId = subjectId).map (·.relation)

/-- the groups joined with the memberships under this very id -/
def activeGroupsOf (db : Db) (userId : String) : List AccessGroup :=
  (db.memberships.filter (·.operatorId = userId)).flatMap fun m =>
    db.groups.filter fun g => g.id = m.accessGroupId && g.isActive

def groupTupleAllows (t : CaseTables) (caseId : Uuid) (relations : List String) (userId : String) :
    Option String :=
  (activeGroupsOf t.db userId).findSome? fun g =>
    hasTuple t "case" caseId relations "access_group" (uuidText g.id)

def accessGroupAllows (t : CaseTables) (userId : String) (caseTypeId : Uuid) : Bool :=
  (activeGroupsOf t.db userId).any fun g =>
    "*" ∈ g.allowedCaseTypeIds || uuidText caseTypeId ∈ g.allowedCaseTypeIds

/-! ## the backend -/

def namesText (names : List String) : String :=
  "[" ++ ", ".intercalate (names.map fun n => "'" ++ n ++ "'") ++ "]"

def rebacDeny (reason : String) : Decision := ⟨false, reason, "rebac", false⟩

def rebacAllow (reason : String) : Decision := ⟨true, reason, "rebac", false⟩

variable (P : Policy)

/-- `RebacBackend.evaluate`, with the case id of the resource -/
def rebacBackend (t : CaseTables) (subject : Subject) (action : String) (caseId : Option Uuid) :
    Decision :=
  match CASE_ACTIONS.lookup action with
  | none => rebacDeny ("unknown case action '" ++ action ++ "' (fail-closed)")
  | some relations =>
    match caseId with
    | none => rebacDeny ("'" ++ action ++ "' requires resource.case_id (fail-closed)")
    | some caseId =>
      if subject.kind ≠ "user" then
        rebacDeny ("case actions require a user subject, got " ++ subject.kind)
      else if "superadmin" ∈ subject.roles then rebacAllow "superadmin break-glass"
      else if subjectAllows P subject "casework.records.any" then
        rebacAllow "privilege: casework.records.any"
      else
        match t.cases.find? (·.id = caseId) with
        | none => rebacDeny "case not found (fail-closed)"
        | some row =>
          if row.ownedBy subject.id then
            rebacAllow "owner (created_by)"
          else
            match hasTuple t "case" caseId relations "user" subject.id with
            | some rel => rebacAllow ("relationship: " ++ rel)
            | none =>
              -- what a group gives is not passed on
              match (if action = "case.share" then none
                  else groupTupleAllows t caseId relations subject.id) with
              | some rel => rebacAllow ("access-group relationship: " ++ rel)
              | none =>
                if action ≠ "case.share" ∧ accessGroupAllows t subject.id row.caseTypeId then
                  rebacAllow "access-group case-type scope"
                else rebacDeny ("no relationship (" ++ namesText relations ++
                  "), not owner, and no access-group scope for this case type")

/-! ## the decision as a statement about the tables -/

variable {P} {t : CaseTables} {subject : Subject} {action : String}

/-- a tuple of the case names the subject -/
def Related (t : CaseTables) (caseId : Uuid) (relations : List String)
    (subjectType subjectId : String) : Prop :=
  ∃ r ∈ t.tuples, r.objectType = "case" ∧ r.objectId = caseId ∧ r.relation ∈ relations ∧
    r.subjectType = subjectType ∧ r.subjectId = subjectId

theorem hasTuple_isSome {caseId : Uuid} {relations : List String} {subjectType subjectId : String} :
    (hasTuple t "case" caseId relations subjectType subjectId).isSome = true ↔
      Related t caseId relations subjectType subjectId := by
  rw [hasTuple, Option.isSome_map, List.find?_isSome]
  simp only [Related, Bool.and_eq_true, decide_eq_true_eq, and_assoc]

theorem groupTupleAllows_isSome {caseId : Uuid} {relations : List String} {userId : String} :
    (groupTupleAllows t caseId relations userId).isSome = true ↔
      ∃ g ∈ activeGroupsOf t.db userId,
        Related t caseId relations "access_group" (uuidText g.id) := by
  rw [groupTupleAllows, List.findSome?_isSome_iff]
  simp only [hasTuple_isSome]

theorem mem_activeGroupsOf {db : Db} {userId : String} {g : AccessGroup} :
    g ∈ activeGroupsOf db userId ↔ g ∈ db.groups ∧ g.isActive = true ∧
      ∃ m ∈ db.memberships, m.operatorId = userId ∧ m.accessGroupId = g.id := by
  rw [activeGroupsOf, List.mem_flatMap]
  constructor
  · intro h
    obtain ⟨m, hm, hg⟩ := h
    obtain ⟨hm, hop⟩ := List.mem_filter.mp hm
    obtain ⟨hg, hid⟩ := List.mem_filter.mp hg
    rw [Bool.and_eq_true, decide_eq_true_eq] at hid
    exact ⟨hg, hid.2, m, hm, of_decide_eq_true hop, hid.1.symm⟩
  · intro h
    obtain ⟨hg, hactive, m, hm, hop, hid⟩ := h
    refine ⟨m, List.mem_filter.mpr ⟨hm, decide_eq_true hop⟩, List.mem_filter.mpr ⟨hg, ?_⟩⟩
    rw [hactive, Bool.and_true]
    exact decide_eq_true hid.symm

/-- for a case that exists, and for a user -/
theorem rebac_allow_iff {relations : List String} (hrel : CASE_ACTIONS.lookup action = some relations)
    (hkind : subject.kind = "user") {row : CaseInstance} {caseId : Uuid}
    (hrow : t.cases.find? (·.id = caseId) = some row) :
    (rebacBackend P t subject action (some caseId)).allow = true ↔
      "superadmin" ∈ subject.roles ∨ subjectAllows P subject "casework.records.any" = true ∨
      row.ownedBy subject.id = true ∨
      Related t caseId relations "user" subject.id ∨
      action ≠ "case.share" ∧
        ((∃ g ∈ activeGroupsOf t.db subject.id,
            Related t caseId relations "access_group" (uuidText g.id)) ∨
          accessGroupAllows t subject.id row.caseTypeId = true) := by
  rw [← hasTuple_isSome, ← groupTupleAllows_isSome, rebacBackend, hrel]
  dsimp only
  rw [if_neg (not_not_intro hkind), hrow]
  by_cases hsuper : "superadmin" ∈ subject.roles
  · rw [if_pos hsuper]
    simp [rebacAllow, hsuper]
  · rw [if_neg hsuper]
    by_cases hany : subjectAllows P subject "casework.records.any" = true
    · rw [if_pos hany]
      simp [rebacAllow, hany]
    · rw [if_neg hany]
      dsimp only
      by_cases howner : row.ownedBy subject.id = true
      · rw [if_pos howner]
        simp [rebacAllow, howner]
      · rw [if_neg howner]
        cases hasTuple t "case" caseId relations "user" subject.id with
        | some rel => simp [rebacAllow]
        | none =>
          dsimp only
          by_cases hshare : action = "case.share"
          · simp [hshare, hsuper, hany, howner, rebacDeny]
          · rw [if_neg hshare]
            cases groupTupleAllows t caseId relations subject.id with
            | some rel => simp [rebacAllow, hshare]
            | none =>
              dsimp only
              by_cases hscope : accessGroupAllows t subject.id row.caseTypeId = true
              · simp [hshare, hscope, rebacAllow]
              · simp [hshare, hscope, hsuper, hany, howner, rebacDeny]

end HxGuard
