import Velaris.Base.Latest
import Velaris.Base.Run
import Velaris.Base.Traverse
import Velaris.CaseActions.Statuses

/-!
# Completing the steps of a stage

`complete_step` and `_auto_advance_if_complete` of `case_service/api/routers/cases.py`, on one case.

* `autoAdvance`   the stage after the one that is named, once its required steps are completed;
* `completeStep`   a submission: who may make it, the row it leaves, and the advance;
* `Event`, `step`   submissions, and whatever else happens to the case between them;
* `Forward`   a change of stage is to the stage that follows the current one;
* `Due`   a submission that advances the case, read off the case before it.

`advancesForward_iff`: the cases go forward one stage at a time where a submission that advances
names the current stage, and only there if the stages have different ids.  The advance follows the
stage of the request, not the stage of the case.
-/

namespace CaseActions.Steps
open Py Base

/-! ## rows -/

structure StepCompletion where
  stageId : String
  stepType : String
  status : String
  data : Dict
  completedBy : String
  completedAt : Int

structure Assignment where
  id : Uuid
  stepId : String
  status : String
  assignedAt : Int
  lockedBy : Option String
  lockedAt : Option Int
  lockExpiresAt : Option Int
  completedAt : Option Int

structure Case where
  status : String
  isDeleted : Bool := false
  tenantId : Option Uuid := none
  caseTypeId : Uuid
  currentStageId : Option String
  /-- `case_step_completions`, of which a case has one for a step -/
  completions : String → Option StepCompletion := fun _ => none
  assignments : List Assignment := []

inductive Failure where
  | notFound
  | sealed
  | locked (by' : String)
  /-- a definition that is not of the shape that is read, or a stage id that is no text -/
  | raised

structure Moment where
  now : Int
  /-- `definition_json` of the case type, empty without one -/
  definition : Dict
  table : Option (List CaseStatus)
  /-- `case_visible_to`, of the caller -/
  visible : Bool
  callerTenant : Option Uuid
  /-- `advance_blocked` -/
  heldByRisk : Bool
  /-- the text a string column stores for a value that is no string, unless the driver refuses it -/
  bind : Value → Option String

structure StepCompleteBody where
  stageId : String
  stepType : String := "user_task"
  status : String := "completed"
  data : Dict := []
  actorId : Option String := none

structure Request where
  stepId : String
  body : StepCompleteBody
  userId : String

/-! ## the definition -/

def orRaise {α : Type} (o : Option α) : Except Failure α := o.elim (.error .raised) .ok

/-- `s["id"]` -/
def idOf (s : Dict) : Except Failure Value := orRaise (s.lookup "id")

def orderOf (s : Dict) : Value := getOr s "order" (.int 0)

/-- `sorted(definition["stages"], key=...)`: the sort fails where two keys do not compare -/
def sortedStages (definition : Dict) : Except Failure (List Dict) := do
  let items ← orRaise (getOr definition "stages" (.list [])).iter
  let stages ← orRaise (items.mapM Value.dict?)
  if stages.Pairwise fun s t => (Value.cmp (orderOf s) (orderOf t)).isSome then
    return stages.insertionSort fun s t => Value.cmp (orderOf s) (orderOf t) ≠ some .gt
  else throw .raised

def findStage (stageId : String) : List Dict → Except Failure (Option (Dict × List Dict))
  | [] => .ok none
  | s :: rest => do
    let id ← idOf s
    if id.eq (.str stageId) then return some (s, rest) else findStage stageId rest

def isRequired (step : Dict) : Bool :=
  (getOr step "required" (.bool true)).truthy &&
    !(Dict.get step "step_type").eq (.str "automated")

def requiredStepIds (stage : Dict) : Except Failure (List Value) := do
  let items ← orRaise (getOr stage "steps" (.list [])).iter
  let steps ← orRaise (items.mapM Value.dict?)
  let ids ← (steps.filter isRequired).mapM idOf
  if ids.all Value.hashable then return ids else throw .raised

/-! ## the advance -/

def Case.hasCompleted (c : Case) (stageId : String) (stepId : Value) : Bool :=
  match stepId with
  | .str s => (c.completions s).any fun row => row.stageId = stageId && row.status = "completed"
  | _ => false

def Moment.text (m : Moment) : Value → Option String
  | .str s => some s
  | v => m.bind v

/-- what the stage column stores: `None` is NULL -/
def Moment.stageColumn (m : Moment) : Value → Except Failure (Option String)
  | .none => .ok none
  | v => (m.text v).elim (.error .raised) fun s => .ok (some s)

def nextStage (m : Moment) (stageId : String) (c : Case) : Except Failure (Option Dict) := do
  let stages ← sortedStages m.definition
  match ← findStage stageId stages with
  | none => return none
  | some (stage, rest) =>
    let required ← requiredStepIds stage
    if required.isEmpty then return none
    else if !required.all (c.hasCompleted stageId) then return none
    else if m.heldByRisk then return none
    else return rest.head?

variable (R : Runtime)

/-- the stage's own status is applied after it is entered -/
def Case.enter (m : Moment) (stage : Dict) (column : Option String) (c : Case) : Case :=
  { c with
    currentStageId := column
    status := (enterStatus? R m.table stage c.status none (some c.caseTypeId)).getD c.status }

/-- `_auto_advance_if_complete` -/
def autoAdvance (m : Moment) (stageId : String) (c : Case) : Except Failure Case := do
  match ← nextStage m stageId c with
  | none => return c
  | some next =>
    let id ← idOf next
    let column ← m.stageColumn id
    return c.enter R m next column

/-! ## a submission -/

/-- `ORDER BY assigned_at DESC LIMIT 1` -/
def activeAssignment (stepId : String) (c : Case) : Option Assignment :=
  latest? (·.assignedAt) (c.assignments.filter fun a => a.stepId = stepId && a.status = "active")

def lockedByOther (m : Moment) (r : Request) (c : Case) : Option String :=
  (activeAssignment r.stepId c).bind fun a =>
    a.lockedBy.filter fun owner => a.lockExpiresAt.any (m.now < ·) && owner ≠ r.userId

def completionOf (m : Moment) (r : Request) : StepCompletion where
  stageId := r.body.stageId
  stepType := r.body.stepType
  status := r.body.status
  data := r.body.data
  completedBy := if r.body.actorId.getD "" = "" then r.userId else r.body.actorId.getD ""
  completedAt := m.now

def Assignment.closed (a : Assignment) (now : Int) : Assignment :=
  { a with
    status := "completed", completedAt := some now, lockedBy := none, lockedAt := none
    lockExpiresAt := none }

def Case.recorded (m : Moment) (r : Request) (c : Case) : Case :=
  { c with
    completions := Function.update c.completions r.stepId (some (completionOf m r))
    assignments := c.assignments.map fun a =>
      if (activeAssignment r.stepId c).any (·.id = a.id) then a.closed m.now else a }

/-- `apply_auto_in_progress`, whose failure is logged -/
def progressed (m : Moment) (r : Request) (c : Case) : String :=
  ((stageDef R m.definition r.body.stageId).bind fun stage =>
    autoInProgress? R m.table stage c.status m.callerTenant (some c.caseTypeId)).getD c.status

def completeStep (m : Moment) (r : Request) (c : Case) : Except Failure Case :=
  if c.isDeleted || !m.visible then .error .notFound
  else if c.status = "archived" then .error .sealed
  else
    match lockedByOther m r c with
    | some owner => .error (.locked owner)
    | none =>
      if r.body.status ≠ "completed" then .ok (c.recorded m r)
      else
        let c' := { c.recorded m r with status := progressed R m r c }
        if isWorkable m.table c'.status c'.tenantId (some c'.caseTypeId) then
          autoAdvance R m r.body.stageId c'
        else .ok c'

/-! ## runs -/

inductive Event where
  | completeStep (m : Moment) (r : Request)
  /-- whatever else is done to the case: stages moved by hand, statuses, other rows -/
  | other (change : Case → Case)

def step (c : Case) : Event → Case
  | .completeStep m r => (Steps.completeStep R m r c).toOption.getD c
  | .other change => change c

/-- `stage` is followed by `next` -/
def Follows (m : Moment) (stage next : Dict) : Prop :=
  ∃ before after, sortedStages m.definition = .ok (before ++ stage :: next :: after)

def Case.AllCompleted (c : Case) (stageId : String) (stage : Dict) : Prop :=
  ∃ ids, requiredStepIds stage = .ok ids ∧ ∀ id ∈ ids, c.hasCompleted stageId id

/-- a submission that changes the stage of the case takes it to the stage that follows, and all that
is required in the stage it leaves is completed -/
def Forward (c : Case) : Event → Prop
  | .completeStep m r =>
    (step R c (.completeStep m r)).currentStageId ≠ c.currentStageId →
      ∃ current stage next id, c.currentStageId = some current ∧
        stage.lookup "id" = some (.str current) ∧ Follows m stage next ∧
        next.lookup "id" = some id ∧
        m.stageColumn id = .ok (step R c (.completeStep m r)).currentStageId ∧
        (step R c (.completeStep m r)).AllCompleted current stage
  | .other _ => True

/-- the submission is taken, and completes what the stage it names requires; the stage that follows
is another than the case's -/
structure Due (m : Moment) (r : Request) (c : Case) : Prop where
  found : c.isDeleted = false ∧ m.visible = true
  writable : c.status ≠ "archived"
  unlocked : lockedByOther m r c = none
  completed : r.body.status = "completed"
  workable : isWorkable m.table (progressed R m r c) c.tenantId (some c.caseTypeId) = true
  notHeld : m.heldByRisk = false
  outstanding : ∃ stages stage next rest ids id column, sortedStages m.definition = .ok stages ∧
    findStage r.body.stageId stages = .ok (some (stage, next :: rest)) ∧
    requiredStepIds stage = .ok ids ∧ ids ≠ [] ∧
    (∀ id ∈ ids, id = .str r.stepId ∨ c.hasCompleted r.body.stageId id) ∧
    next.lookup "id" = some id ∧ m.stageColumn id = .ok column ∧ column ≠ c.currentStageId

/-- a submission that advances the case names the stage it is in -/
def NamesCurrent (c : Case) : Event → Prop
  | .completeStep m r => Due R m r c → c.currentStageId = some r.body.stageId
  | .other _ => True

/-- the ids of the stages are texts, and no two stages share one -/
def Moment.DistinctIds (m : Moment) : Prop :=
  ∀ stages, sortedStages m.definition = .ok stages →
    ∃ names : List String, names.Nodup ∧
      stages.map (·.lookup "id") = names.map fun name => some (.str name)

def Event.DistinctIds : Event → Prop
  | .completeStep m _ => m.DistinctIds
  | .other _ => True

/-! ## the stage that is found -/

theorem orRaise_eq_ok {α : Type} {o : Option α} {a : α} : orRaise o = .ok a ↔ o = some a := by
  cases o with
  | none => exact ⟨fun h => (by cases h), fun h => (by cases h)⟩
  | some b => exact ⟨fun h => (by cases h; rfl), fun h => (by cases h; rfl)⟩

theorem eq_str_iff {v : Value} {s : String} : v.eq (.str s) = true ↔ v = .str s := by
  cases v <;> simp [Value.eq, Value.num?]

theorem findStage_eq_some {stageId : String} {stages rest : List Dict} {stage : Dict}
    (h : findStage stageId stages = .ok (some (stage, rest))) :
    stage.lookup "id" = some (.str stageId) ∧ ∃ before, stages = before ++ stage :: rest := by
  induction stages with
  | nil => cases h
  | cons s stages ih =>
    obtain ⟨id, hid, h⟩ := exists_of_bind_ok h
    split at h
    · next heq =>
      cases h
      rw [orRaise_eq_ok.mp hid, eq_str_iff.mp heq]
      exact ⟨rfl, [], rfl⟩
    · obtain ⟨hs, before, rfl⟩ := ih h
      exact ⟨hs, s :: before, rfl⟩

theorem eq_of_follow {α : Type} {n x y : α} {before after before' after' : List α}
    (hnodup : (before ++ x :: n :: after).Nodup)
    (h : before ++ x :: n :: after = before' ++ y :: n :: after') : x = y := by
  have hsplit : ∀ (b a : List α) (z : α), b ++ z :: n :: a = (b ++ [z]) ++ n :: a := fun b a z => by
    simp
  rw [hsplit] at hnodup h
  rw [hsplit before'] at h
  obtain ⟨hleft, hright⟩ := List.nodup_append.mp hnodup |>.2
  have hbefore : n ∉ before ++ [x] := fun hn => hright n hn n List.mem_cons_self rfl
  have hafter : n ∉ after := (List.nodup_cons.mp hleft).1
  have hsame := ((List.append_cons_inj_of_notMem hbefore hafter).mp h).1
  exact (List.append_inj_right' hsame rfl |> List.cons.inj).1

/-! ## what an advance does -/

theorem nextStage_eq_some_iff {m : Moment} {stageId : String} {c : Case} {next : Dict} :
    nextStage m stageId c = .ok (some next) ↔
      m.heldByRisk = false ∧ ∃ stages stage rest ids, sortedStages m.definition = .ok stages ∧
        findStage stageId stages = .ok (some (stage, next :: rest)) ∧
        requiredStepIds stage = .ok ids ∧ ids ≠ [] ∧ ∀ id ∈ ids, c.hasCompleted stageId id := by
  constructor
  · intro h
    obtain ⟨stages, hstages, h⟩ := exists_of_bind_ok h
    obtain ⟨found, hfound, h⟩ := exists_of_bind_ok h
    obtain _ | ⟨stage, rest⟩ := found
    · cases h
    · obtain ⟨ids, hids, h⟩ := exists_of_bind_ok h
      split at h
      · cases h
      · next hne =>
        split at h
        · cases h
        · next hall =>
          split at h
          · cases h
          · next hheld =>
            obtain _ | ⟨first, rest⟩ := rest
            · cases h
            · cases h
              refine ⟨eq_false_of_ne_true hheld, stages, stage, rest, ids, hstages, hfound, hids,
                fun hnil => hne (List.isEmpty_iff.mpr hnil), ?_⟩
              have htrue : ids.all (c.hasCompleted stageId) = true := by simpa using hall
              exact List.all_eq_true.mp htrue
  · intro hx
    obtain ⟨hheld, stages, stage, rest, ids, hstages, hfound, hids, hne, hall⟩ := hx
    have hall : ids.all (c.hasCompleted stageId) = true := List.all_eq_true.mpr hall
    have hnil : ids.isEmpty = false := by simpa using hne
    simp [nextStage, hstages, hfound, hids, hnil, hall, hheld, bind, Except.bind, pure, Except.pure]

variable {R}

theorem autoAdvance_cases {m : Moment} {stageId : String} {c c' : Case}
    (h : autoAdvance R m stageId c = .ok c') :
    c' = c ∨ ∃ next id column, nextStage m stageId c = .ok (some next) ∧
      next.lookup "id" = some id ∧ m.stageColumn id = .ok column ∧ c' = c.enter R m next column := by
  obtain ⟨found, hfound, h⟩ := exists_of_bind_ok h
  cases found with
  | none =>
    cases h
    exact Or.inl rfl
  | some next =>
    obtain ⟨id, hid, h⟩ := exists_of_bind_ok h
    obtain ⟨column, hcolumn, h⟩ := exists_of_bind_ok h
    cases h
    exact Or.inr ⟨next, id, column, hfound, orRaise_eq_ok.mp hid, hcolumn, rfl⟩

theorem hasCompleted_recorded {m : Moment} {r : Request} {c : Case}
    (h : r.body.status = "completed") (id : Value) :
    (c.recorded m r).hasCompleted r.body.stageId id = true ↔
      id = .str r.stepId ∨ c.hasCompleted r.body.stageId id = true := by
  cases id with
  | str s =>
    show ((Function.update c.completions r.stepId (some (completionOf m r))) s).any _ = true ↔ _
    by_cases hs : s = r.stepId
    · subst hs
      rw [Function.update_self]
      simp [completionOf, h]
    · rw [Function.update_of_ne hs]
      simp [hs, Case.hasCompleted]
  | _ => simp [Case.hasCompleted]

theorem completeStep_cases {m : Moment} {r : Request} {c c' : Case}
    (h : completeStep R m r c = .ok c') :
    (c.isDeleted = false ∧ m.visible = true) ∧ c.status ≠ "archived" ∧ lockedByOther m r c = none ∧
      (c'.currentStageId = c.currentStageId ∨
        r.body.status = "completed" ∧
          isWorkable m.table (progressed R m r c) c.tenantId (some c.caseTypeId) = true ∧
          autoAdvance R m r.body.stageId { c.recorded m r with status := progressed R m r c } =
            .ok c') := by
  rw [completeStep] at h
  split at h
  · cases h
  · next hfound =>
    split at h
    · cases h
    · next hsealed =>
      cases hlock : lockedByOther m r c with
      | some owner =>
        rw [hlock] at h
        cases h
      | none =>
        rw [hlock] at h
        have hopen : c.isDeleted = false ∧ m.visible = true := by simpa using hfound
        refine ⟨hopen, hsealed, rfl, ?_⟩
        dsimp only at h
        split at h
        · cases h
          exact Or.inl rfl
        · next hstatus =>
          split at h
          · next hwork => exact Or.inr ⟨not_not.mp hstatus, hwork, h⟩
          · cases h
            exact Or.inl rfl

theorem step_eq_of_ok {m : Moment} {r : Request} {c c' : Case} (h : completeStep R m r c = .ok c') :
    step R c (.completeStep m r) = c' := by
  show (completeStep R m r c).toOption.getD c = c'
  rw [h]
  rfl

theorem step_of_moved {m : Moment} {r : Request} {c : Case}
    (h : (step R c (.completeStep m r)).currentStageId ≠ c.currentStageId) :
    Due R m r c ∧ (step R c (.completeStep m r)).completions = (c.recorded m r).completions ∧
      ∀ stages stage next rest id, sortedStages m.definition = .ok stages →
        findStage r.body.stageId stages = .ok (some (stage, next :: rest)) →
        next.lookup "id" = some id →
        m.stageColumn id = .ok (step R c (.completeStep m r)).currentStageId := by
  cases hrun : completeStep R m r c with
  | error e =>
    refine absurd ?_ h
    show ((completeStep R m r c).toOption.getD c).currentStageId = _
    rw [hrun]
    rfl
  | ok c' =>
    rw [step_eq_of_ok hrun] at h ⊢
    obtain ⟨hfound, hwritable, hlock, hstay | ⟨hcompleted, hwork, hadv⟩⟩ := completeStep_cases hrun
    · exact absurd hstay h
    · obtain rfl | ⟨next, id, column, hnext, hid, hcolumn, rfl⟩ := autoAdvance_cases hadv
      · exact absurd rfl h
      · obtain ⟨hheld, stages, stage, rest, ids, hstages, hstage, hids, hne, hall⟩ :=
          nextStage_eq_some_iff.mp hnext
        refine ⟨⟨hfound, hwritable, hlock, hcompleted, hwork, hheld, stages, stage, next, rest, ids,
          id, column, hstages, hstage, hids, hne, ?_, hid, hcolumn, h⟩, rfl, ?_⟩
        · intro v hv
          exact (hasCompleted_recorded hcompleted v).mp (hall v hv)
        · intro stages' stage' next' rest' id' hstages' hstage' hid'
          cases hstages.symm.trans hstages'
          cases hstage.symm.trans hstage'
          cases hid.symm.trans hid'
          exact hcolumn

theorem moved_of_due {m : Moment} {r : Request} {c : Case} (h : Due R m r c) :
    (step R c (.completeStep m r)).currentStageId ≠ c.currentStageId := by
  obtain ⟨stages, stage, next, rest, ids, id, column, hstages, hstage, hids, hne, hall, hid, hcolumn,
    hother⟩ := h.outstanding
  have hnext : nextStage m r.body.stageId { c.recorded m r with status := progressed R m r c } =
      .ok (some next) := by
    refine nextStage_eq_some_iff.mpr ⟨h.notHeld, stages, stage, rest, ids, hstages, hstage, hids, hne,
      fun v hv => ?_⟩
    exact (hasCompleted_recorded h.completed v).mpr (hall v hv)
  have hadv : autoAdvance R m r.body.stageId { c.recorded m r with status := progressed R m r c } =
      .ok (Case.enter R m next column { c.recorded m r with status := progressed R m r c }) := by
    simp [autoAdvance, hnext, idOf, orRaise, hid, hcolumn, bind, Except.bind, pure, Except.pure]
  have hrun : completeStep R m r c =
      .ok (Case.enter R m next column { c.recorded m r with status := progressed R m r c }) := by
    have hopen : (c.isDeleted || !m.visible) = false := by simp [h.found]
    rw [completeStep, hopen, h.unlocked]
    simp only [Bool.false_eq_true, if_false, if_neg h.writable, h.completed, ne_eq, not_true_eq_false]
    exact (if_pos h.workable).trans hadv
  rw [step_eq_of_ok hrun]
  exact hother

theorem forward_of_named {c : Case} {e : Event} (h : NamesCurrent R c e) : Forward R c e := by
  cases e with
  | other change => trivial
  | completeStep m r =>
    intro hmoved
    obtain ⟨hdue, hrows, hto⟩ := step_of_moved hmoved
    obtain ⟨stages, stage, next, rest, ids, id, column, hstages, hstage, hids, -, hall, hid, -, -⟩ :=
      hdue.outstanding
    obtain ⟨hname, before, rfl⟩ := findStage_eq_some hstage
    refine ⟨r.body.stageId, stage, next, id, h hdue, hname, ⟨before, rest, hstages⟩, hid,
      hto _ stage next rest id hstages hstage hid, ids, hids, fun v hv => ?_⟩
    have hsame : (step R c (.completeStep m r)).hasCompleted r.body.stageId v =
        (c.recorded m r).hasCompleted r.body.stageId v := by
      cases v with
      | str s =>
        show ((step R c (.completeStep m r)).completions s).any _ = _
        rw [hrows]
        rfl
      | _ => rfl
    rw [hsame]
    exact (hasCompleted_recorded hdue.completed v).mpr (hall v hv)

theorem stageColumn_str_inj {m : Moment} {n n' : String} {column : Option String}
    (h : m.stageColumn (.str n) = .ok column) (h' : m.stageColumn (.str n') = .ok column) :
    n = n' := by
  cases h
  cases h'
  rfl

theorem named_of_forward {c : Case} {e : Event} (hids : e.DistinctIds) (h : Forward R c e) :
    NamesCurrent R c e := by
  cases e with
  | other change => trivial
  | completeStep m r =>
    intro hdue
    have hmoved := moved_of_due hdue
    obtain ⟨current, stage', next', id', hcurrent, hname', ⟨before', after', hstages'⟩, hid', hto',
      -⟩ := h hmoved
    obtain ⟨stages, stage, next, rest, -, id, -, hstages, hstage, -, -, -, hid, -, -⟩ :=
      hdue.outstanding
    have hto := (step_of_moved hmoved).2.2 stages stage next rest id hstages hstage hid
    obtain ⟨hname, before, rfl⟩ := findStage_eq_some hstage
    obtain ⟨names, hnodup, hnames⟩ := hids _ hstages
    have htext : ∀ s ∈ before ++ stage :: next :: rest, ∃ n, s.lookup "id" = some (.str n) := by
      intro s hs
      have hmem := hnames ▸ List.mem_map_of_mem (f := List.lookup "id") hs
      obtain ⟨n, -, hn⟩ := List.mem_map.mp hmem
      exact ⟨n, hn.symm⟩
    have hsame : before ++ stage :: next :: rest = before' ++ stage' :: next' :: after' :=
      Except.ok.inj (hstages.symm.trans hstages')
    obtain ⟨n, hn⟩ := htext next (by simp)
    obtain ⟨n', hn'⟩ := htext next' (hsame ▸ by simp)
    cases hid.symm.trans hn
    cases hid'.symm.trans hn'
    cases stageColumn_str_inj hto hto'
    have hkeys : ((before ++ stage :: next :: rest).map (·.lookup "id")).Nodup := by
      rw [hnames]
      refine hnodup.map fun a b hab => ?_
      cases hab
      rfl
    have hmap := congrArg (List.map (List.lookup "id")) hsame
    simp only [List.map_append, List.map_cons, hid, hid'] at hkeys hmap
    have heq := eq_of_follow hkeys hmap
    rw [hname, hname'] at heq
    cases heq
    exact hcurrent

/-- cases go forward where the submissions that advance them name the stage they are in; where the
stages of a definition have different ids, only there -/
theorem advancesForward_iff (R : Runtime) (c : Case) (events : List Event) :
    (Along (step R) (NamesCurrent R) c events → Along (step R) (Forward R) c events) ∧
      ((∀ e ∈ events, e.DistinctIds) → Along (step R) (Forward R) c events →
        Along (step R) (NamesCurrent R) c events) := by
  constructor
  · intro h
    exact h.mono (I := fun _ => True) (fun _ _ _ _ => trivial) (fun _ _ _ => forward_of_named) trivial
  · intro hids h
    induction events generalizing c with
    | nil => trivial
    | cons e events ih =>
      exact ⟨named_of_forward (hids e List.mem_cons_self) h.1,
        ih _ (fun e' he' => hids e' (List.mem_cons_of_mem e he')) h.2⟩

/-! ## a stage that is passed over -/

def stageOf (id step : String) : Value :=
  .dict [("id", .str id), ("steps", .list [.dict [("id", .str step)]])]

def threeStages : Dict :=
  [("stages", .list [stageOf "intake" "register", stageOf "review" "assess", stageOf "payout" "pay"])]

def anyMoment : Moment where
  now := 0
  definition := threeStages
  table := none
  visible := true
  callerTenant := none
  heldByRisk := false
  bind := fun _ => none

/-- the step of the second stage, of a case that is in the first -/
def ahead : Event :=
  .completeStep anyMoment ⟨"assess", { stageId := "review" }, "worker"⟩

def atIntake : Case where
  status := "open"
  caseTypeId := 1
  currentStageId := some "intake"

theorem threeStages_ids : (sortedStages threeStages).map (List.map (List.lookup "id")) =
    .ok [some (.str "intake"), some (.str "review"), some (.str "payout")] := by rfl

theorem stage_passed_over : ¬ Along (step .silent) (Forward .silent) atIntake [ahead] := by
  intro h
  have hids : ahead.DistinctIds := by
    intro stages hstages
    have hmap := threeStages_ids
    rw [show sortedStages threeStages = .ok stages from hstages] at hmap
    exact ⟨["intake", "review", "payout"], by decide, Except.ok.inj hmap⟩
  have hto : (step .silent atIntake ahead).currentStageId = some "payout" := by decide +kernel
  have hdue := (step_of_moved (R := .silent) (c := atIntake) (by rw [ahead] at hto; rw [hto]; decide)).1
  have hnamed := named_of_forward hids h.1 hdue
  exact absurd hnamed (by decide)

end CaseActions.Steps
