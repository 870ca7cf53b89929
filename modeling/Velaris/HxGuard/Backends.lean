import Velaris.HxGuard.Cache

/-!
# The backends a check goes to

* `rebacDialogue`   `RebacBackend.evaluate`, query by query;
* `rebacDialogue_run`  where all queries see the same tables, it is `rebacBackend`;
* `rbacBackend`   the actions that are neither of a case nor of the platform;
* `hxguard`   the three, as an evaluator.
-/

namespace HxGuard
open Py Base

/-! ## the queries of the relationship backend -/

/-- one query for each group, up to the first that answers -/
def askGroups (caseId : Uuid) (relations : List String)
    (k : Option String → Dialogue CaseTables Decision) : List Uuid → Dialogue CaseTables Decision
  | [] => k none
  | g :: gs =>
    .query (fun t => hasTuple t "case" caseId relations "access_group" (uuidText g)) fun
      | some rel => k (some rel)
      | none => askGroups caseId relations k gs

/-- the last query, of the case types of the groups -/
def askScope (subject : Subject) (relations : List String) (row : CaseInstance) :
    Dialogue CaseTables Decision :=
  .query (fun t => accessGroupAllows t subject.id row.caseTypeId) fun allowed =>
    .done (if allowed then rebacAllow "access-group case-type scope"
      else rebacDeny ("no relationship (" ++ namesText relations ++
        "), not owner, and no access-group scope for this case type"))

variable (P : Policy)

def rebacDialogue (subject : Subject) (action : String) (caseId : Option Uuid) :
    Dialogue CaseTables Decision :=
  match CASE_ACTIONS.lookup action with
  | none => .done (rebacDeny ("unknown case action '" ++ action ++ "' (fail-closed)"))
  | some relations =>
    match caseId with
    | none => .done (rebacDeny ("'" ++ action ++ "' requires resource.case_id (fail-closed)"))
    | some caseId =>
      if subject.kind ≠ "user" then
        .done (rebacDeny ("case actions require a user subject, got " ++ subject.kind))
      else if "superadmin" ∈ subject.roles then .done (rebacAllow "superadmin break-glass")
      else if subjectAllows P subject "casework.records.any" then
        .done (rebacAllow "privilege: casework.records.any")
      else
        .query (fun t => t.cases.find? (·.id = caseId)) fun
          | none => .done (rebacDeny "case not found (fail-closed)")
          | some row =>
            if row.ownedBy subject.id then .done (rebacAllow "owner (created_by)")
            else
              .query (fun t => hasTuple t "case" caseId relations "user" subject.id) fun
                | some rel => .done (rebacAllow ("relationship: " ++ rel))
                | none =>
                  if action = "case.share" then
                    .done (rebacDeny ("no relationship (" ++ namesText relations ++
                      "), not owner, and no access-group scope for this case type"))
                  else
                    .query (fun t => (activeGroupsOf t.db subject.id).map (·.id)) fun ids =>
                      askGroups caseId relations (fun
                        | some rel => .done (rebacAllow ("access-group relationship: " ++ rel))
                        | none => askScope subject relations row) ids

/-- `RbacBackend.evaluate`, for a resource that names no namespace -/
def rbacBackend (subject : Subject) (action : String) : Decision :=
  if action ∈ ["namespace.write", "namespace.read"] then
    ⟨false, "'" ++ action ++ "' requires resource.namespace_id (fail-closed)", "rbac", false⟩
  else if action ≠ "case.rule.apply" then
    ⟨false, "unknown action '" ++ action ++ "' (fail-closed)", "rbac", false⟩
  else if subject.kind ≠ "user" then
    ⟨false, "action '" ++ action ++ "' requires a user subject, got " ++ subject.kind, "rbac",
      false⟩
  else ⟨true, "any authenticated user", "rbac", false⟩

/-! ## one moment -/

variable {P} {t : CaseTables}

theorem askGroups_run {caseId : Uuid} {relations : List String}
    {k : Option String → Dialogue CaseTables Decision} (gs : List AccessGroup) :
    (askGroups caseId relations k (gs.map (·.id))).run t =
      (k (gs.findSome? fun g =>
        hasTuple t "case" caseId relations "access_group" (uuidText g.id))).run t := by
  induction gs with
  | nil => rfl
  | cons g gs ih =>
    rw [List.map_cons, askGroups, Dialogue.run_query, List.findSome?_cons]
    cases hasTuple t "case" caseId relations "access_group" (uuidText g.id) with
    | some rel => rfl
    | none => exact ih

theorem rebacDialogue_run (subject : Subject) (action : String) (caseId : Option Uuid) :
    (rebacDialogue P subject action caseId).run t =
      .ok (rebacBackend P t subject action caseId) := by
  rw [rebacDialogue, rebacBackend]
  cases CASE_ACTIONS.lookup action with
  | none => rfl
  | some relations =>
    cases caseId with
    | none => rfl
    | some caseId =>
      dsimp only
      split
      · rfl
      · split
        · rfl
        · split
          · rfl
          · rw [Dialogue.run_query]
            cases t.cases.find? (·.id = caseId) with
            | none => rfl
            | some row =>
              dsimp only
              split
              · rfl
              · rw [Dialogue.run_query]
                cases hasTuple t "case" caseId relations "user" subject.id with
                | some rel => rfl
                | none =>
                  dsimp only
                  by_cases hshare : action = "case.share"
                  · rw [if_pos hshare, if_pos hshare, if_neg fun h => h.1 hshare]
                    rfl
                  · rw [if_neg hshare, if_neg hshare, Dialogue.run_query, askGroups_run,
                      ← groupTupleAllows]
                    cases groupTupleAllows t caseId relations subject.id with
                    | some rel => rfl
                    | none =>
                      dsimp only
                      rw [askScope, Dialogue.run_query]
                      cases accessGroupAllows t subject.id row.caseTypeId with
                      | true => simp [hshare]
                      | false => simp

/-! ## the evaluator -/

def looksAtRoles (P : Policy) (q : Question) : Bool :=
  q.subject.kind = "user" && !("superadmin" ∈ q.subject.roles) &&
    ((CASE_ACTIONS.lookup q.action).isSome && q.caseId.isSome ||
      q.action ∈ P.actions.map (·.name))

/-- the dispatch of `check` -/
def evaluateQuestion (P : Policy) (stored : String → List Privilege) (q : Question) :
    Dialogue CaseTables Decision :=
  let P := { P with stored := stored }
  if (CASE_ACTIONS.lookup q.action).isSome then rebacDialogue P q.subject q.action q.caseId
  else if q.action ∈ P.actions.map (·.name) then .done (privilegeBackend P q.subject q.action)
  else .done (rbacBackend q.subject q.action)

theorem looksAtRoles_eq_true {q : Question} (hkind : q.subject.kind = "user")
    (hsuper : "superadmin" ∉ q.subject.roles)
    (haction : (CASE_ACTIONS.lookup q.action).isSome = true ∧ q.caseId.isSome = true ∨
      q.action ∈ P.actions.map (·.name)) : looksAtRoles P q = true := by
  rw [looksAtRoles]
  simp only [hkind, hsuper, Bool.and_eq_true, Bool.or_eq_true, decide_eq_true_eq, decide_true,
    decide_false, Bool.not_false, true_and]
  exact haction

theorem evaluate_indifferent {q : Question} (huses : looksAtRoles P q = false)
    (r r' : String → List Privilege) : evaluateQuestion P r q = evaluateQuestion P r' q := by
  have hnot : ∀ (hkind : q.subject.kind = "user") (hsuper : "superadmin" ∉ q.subject.roles),
      ¬ ((CASE_ACTIONS.lookup q.action).isSome = true ∧ q.caseId.isSome = true ∨
        q.action ∈ P.actions.map (·.name)) := by
    intro hkind hsuper haction
    rw [looksAtRoles_eq_true hkind hsuper haction] at huses
    cases huses
  rw [evaluateQuestion, evaluateQuestion]
  by_cases hcase : (CASE_ACTIONS.lookup q.action).isSome = true
  · rw [if_pos hcase, if_pos hcase, rebacDialogue, rebacDialogue]
    obtain ⟨relations, hrelations⟩ := Option.isSome_iff_exists.mp hcase
    rw [hrelations]
    cases hid : q.caseId with
    | none => rfl
    | some caseId =>
      dsimp only
      by_cases hkind : q.subject.kind = "user"
      · rw [if_neg (not_not_intro hkind), if_neg (not_not_intro hkind)]
        by_cases hsuper : "superadmin" ∈ q.subject.roles
        · rw [if_pos hsuper, if_pos hsuper]
        · exact absurd (Or.inl ⟨hcase, by rw [hid]; rfl⟩) (hnot hkind hsuper)
      · rw [if_pos hkind, if_pos hkind]
  · rw [if_neg hcase, if_neg hcase]
    by_cases hplatform : q.action ∈ P.actions.map (·.name)
    · rw [if_pos hplatform, if_pos hplatform, privilegeBackend, privilegeBackend]
      rw [if_neg (not_not_intro hplatform), if_neg (not_not_intro hplatform)]
      by_cases hkind : q.subject.kind = "user"
      · rw [if_neg (not_not_intro hkind), if_neg (not_not_intro hkind)]
        by_cases hsuper : "superadmin" ∈ q.subject.roles
        · rw [if_pos hsuper, if_pos hsuper]
        · exact absurd (Or.inr hplatform) (hnot hkind hsuper)
      · rw [if_pos hkind, if_pos hkind]
    · rw [if_neg hplatform, if_neg hplatform]

theorem kind_of_looksAtRoles {q : Question} (huses : looksAtRoles P q = true) :
    q.subject.kind = "user" := by
  rw [looksAtRoles, Bool.and_eq_true, Bool.and_eq_true, decide_eq_true_eq] at huses
  exact huses.1.1

def hxguard (P : Policy) : Evaluator CaseTables (String → List Privilege) where
  evaluate := evaluateQuestion P
  usesRoles := looksAtRoles P
  indifferent _ huses := evaluate_indifferent huses
  users _ huses := kind_of_looksAtRoles huses

end HxGuard
