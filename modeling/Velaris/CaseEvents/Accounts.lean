import Velaris.Base.Run
import Velaris.Base.Traverse
import Velaris.CaseEvents.Lifecycle

/-!
# The stream accounts for the row

* `Agrees`, `Accounted`   the stream of a case says what its row says;
* `record_spec`   what recording an event does to the streams;
* `Recorded`   the writes of an operation are followed by their events;
* `step_accounted`, `run_accounted`   what a recorded operation keeps, and a recorded run.

The actions of an escalation level write the status without an event, and so does the opening of a
parent: `run_consistent` is about the runs without them.
-/

namespace CaseEvents
open Py Base

variable {R : Runtime} {ctx : Context} {db : Db} {caseId : Uuid}

/-! ## projections -/

theorem foldl_projectEvent (es : List CaseEvent) (s : Projection) (n : Nat) :
    es.foldl projectEvent { s with events := n } =
      { es.foldl projectEvent s with events := n } := by
  induction es generalizing s with
  | nil => rfl
  | cons e es ih =>
    have he : projectEvent { s with events := n } e = { projectEvent s e with events := n } := by
      unfold projectEvent
      cases e.eventType <;> rfl
    rw [List.foldl_cons, he, ih, List.foldl_cons]

theorem project_concat (es : List CaseEvent) (e : CaseEvent) :
    project (es ++ [e]) = { projectEvent (project es) e with events := es.length + 1 } := by
  have h := foldl_projectEvent es { events := es.length } (es ++ [e]).length
  rw [project, List.foldl_append, List.foldl_cons, List.foldl_nil, h, List.length_append]
  unfold projectEvent
  cases e.eventType <;> rfl

/-! ## streams -/

def Numbered (db : Db) (caseId : Uuid) : Prop :=
  (eventsOf db caseId).map (·.seq) = List.range' 1 (eventsOf db caseId).length

structure Agrees (row : CaseInstance) (es : List CaseEvent) : Prop where
  status : (project es).status = .str row.status
  stage : (project es).currentStageId = actualStage row

/-- what holds of a case, and of its stream, in every state of a recorded run -/
structure Accounted (db : Db) (caseId : Uuid) : Prop where
  numbered : Numbered db caseId
  short : (eventsOf db caseId).length ≤ VERIFY_LIMIT
  absent : db.cases caseId = none → eventsOf db caseId = []
  agrees : ∀ row, db.cases caseId = some row → row.eventSourced →
    Agrees row (eventsOf db caseId)

theorem foldl_max_range' (n : Nat) : (List.range' 1 n).foldl max 0 = n := by
  induction n with
  | zero => rfl
  | succ n ih =>
    rw [List.range'_1_concat, List.foldl_append, ih]
    show max n (1 + n) = n + 1
    omega

theorem nextSeq_eq (h : Numbered db caseId) :
    nextSeq db caseId = (eventsOf db caseId).length + 1 := by
  rw [nextSeq, h, foldl_max_range']

theorem seq_bounds (h : Numbered db caseId) {e : CaseEvent} (he : e ∈ eventsOf db caseId) :
    0 < e.seq ∧ e.seq ≤ (eventsOf db caseId).length := by
  have hmem : e.seq ∈ List.range' 1 (eventsOf db caseId).length := h ▸ List.mem_map_of_mem he
  have := List.mem_range'_1.mp hmem
  omega

/-! ## recording -/

/-- the event is written: the store is on and the payload within the cap -/
def Recordable (R : Runtime) (ctx : Context) (data : Dict) : Prop :=
  ctx.eventSourcingEnabled = true ∧ tooBig R data = false

instance (data : Dict) : Decidable (Recordable R ctx data) := instDecidableAnd

theorem record_spec (h : Numbered db caseId) (eventType : EventType) (data : Dict)
    (actorId : Option String) (actorType : String) :
    record R ctx.eventSourcingEnabled db caseId eventType data actorId actorType =
      if Recordable R ctx data ∧ isEventSourced db caseId then
        { db with
          events := db.events ++
            [⟨caseId, (eventsOf db caseId).length + 1, eventType, data, actorId, actorType⟩] }
      else db := by
  have hfree : (eventsOf db caseId).any (fun e => e.seq = (eventsOf db caseId).length + 1) = false := by
    rw [List.any_eq_false]
    intro e he
    have := seq_bounds h he
    simp only [decide_eq_true_eq]
    omega
  by_cases hon : ctx.eventSourcingEnabled = true
  · by_cases hes : isEventSourced db caseId = true
    · by_cases hbig : tooBig R data = true
      · simp [record, Recordable, append, hon, hes, hbig]
      · simp [record, Recordable, append, hon, hes, hbig, nextSeq_eq h, hfree]
    · simp [record, hon, hes]
  · simp [record, Recordable, hon]

variable (R ctx) in
theorem record_cases (h : Numbered db caseId) (eventType : EventType) (data : Dict)
    (actorId : Option String) (actorType : String) :
    (record R ctx.eventSourcingEnabled db caseId eventType data actorId actorType).cases =
      db.cases := by
  rw [record_spec h]
  split <;> rfl

theorem eventsOf_concat (db : Db) (e : CaseEvent) (id : Uuid) :
    eventsOf { db with events := db.events ++ [e] } id =
      eventsOf db id ++ if e.caseId = id then [e] else [] := by
  simp [eventsOf, List.filter_append, List.filter_cons]

variable (R ctx) in
theorem eventsOf_record (h : Numbered db caseId) (eventType : EventType) (data : Dict)
    (actorId : Option String) (actorType : String) (id : Uuid) :
    eventsOf (record R ctx.eventSourcingEnabled db caseId eventType data actorId actorType) id =
      eventsOf db id ++
        if (Recordable R ctx data ∧ isEventSourced db caseId) ∧ caseId = id then
          [⟨caseId, (eventsOf db caseId).length + 1, eventType, data, actorId, actorType⟩]
        else [] := by
  rw [record_spec h]
  by_cases hrec : Recordable R ctx data ∧ isEventSourced db caseId
  · rw [if_pos hrec, eventsOf_concat]
    exact congrArg (eventsOf db id ++ ·) (if_congr (and_iff_right hrec).symm rfl rfl)
  · rw [if_neg hrec, if_neg fun hx => hrec hx.1, List.append_nil]

/-! ## what an operation touches -/

/-- a case whose row and stream stay is accounted for as before -/
theorem Accounted.congr {db db' : Db} {id : Uuid} (h : Accounted db id)
    (hcases : db'.cases id = db.cases id) (hevents : eventsOf db' id = eventsOf db id) :
    Accounted db' id := by
  obtain ⟨hn, hs, ha, hg⟩ := h
  refine ⟨?_, ?_, ?_, ?_⟩
  · rw [Numbered, hevents]
    exact hn
  · rw [hevents]
    exact hs
  · rw [hevents, hcases]
    exact ha
  · rw [hevents, hcases]
    exact hg

theorem Accounted.of_row {row : CaseInstance} (hcase : db.cases caseId = some row)
    (hnumbered : Numbered db caseId) (hshort : (eventsOf db caseId).length ≤ VERIFY_LIMIT)
    (hagrees : row.eventSourced → Agrees row (eventsOf db caseId)) : Accounted db caseId := by
  refine ⟨hnumbered, hshort, ?_, ?_⟩
  · intro hnone
    rw [hcase] at hnone
    cases hnone
  · intro row' hrow'
    obtain rfl : row = row' := Option.some.inj (hcase ▸ hrow')
    exact hagrees

theorem update_self (db : Db) (caseId : Uuid) (values : CaseInstance → CaseInstance) :
    (db.update caseId values).cases caseId = (db.cases caseId).map values :=
  Function.update_self ..

theorem update_of_ne {id : Uuid} (hne : id ≠ caseId) (values : CaseInstance → CaseInstance) :
    (db.update caseId values).cases id = db.cases id :=
  Function.update_of_ne hne ..

theorem eventsOf_update (db : Db) (caseId id : Uuid) (values : CaseInstance → CaseInstance) :
    eventsOf (db.update caseId values) id = eventsOf db id := rfl

variable (R ctx) in
theorem accounted_write (h : ∀ id, Accounted db id) (values : CaseInstance → CaseInstance)
    (eventType : EventType) (data : Dict) (actorId : Option String) (actorType : String)
    (hwrite : ∀ row, db.cases caseId = some row → (values row).eventSourced →
      if Recordable R ctx data then
        (eventsOf db caseId).length < VERIFY_LIMIT ∧
          Agrees (values row) (eventsOf db caseId ++
            [⟨caseId, (eventsOf db caseId).length + 1, eventType, data, actorId, actorType⟩])
      else Agrees (values row) (eventsOf db caseId)) (id : Uuid) :
    Accounted (record R ctx.eventSourcingEnabled (db.update caseId values) caseId eventType data
      actorId actorType) id := by
  have hnum : Numbered (db.update caseId values) caseId := (h caseId).numbered
  have hev := eventsOf_record R ctx hnum eventType data actorId actorType id
  have hcs := record_cases R ctx hnum eventType data actorId actorType
  by_cases hid : caseId = id
  · subst hid
    have hcase : (record R ctx.eventSourcingEnabled (db.update caseId values) caseId eventType data
        actorId actorType).cases caseId = (db.cases caseId).map values := by
      rw [hcs, update_self]
    rcases hrow : db.cases caseId with _ | row
    · have hnot : ¬ isEventSourced (db.update caseId values) caseId := by
        rw [isEventSourced, update_self, hrow]
        simp
      rw [if_neg fun hx => hnot hx.1.2, List.append_nil] at hev
      refine (h caseId).congr ?_ hev
      rw [hcase, hrow]
      rfl
    · rw [hrow, Option.map_some] at hcase
      have hes : isEventSourced (db.update caseId values) caseId = (values row).eventSourced := by
        rw [isEventSourced, update_self, hrow]
        rfl
      rw [hes, eventsOf_update] at hev
      by_cases hrec : Recordable R ctx data ∧ (values row).eventSourced
      · rw [if_pos ⟨hrec, rfl⟩] at hev
        have hw := hwrite row hrow hrec.2
        rw [if_pos hrec.1] at hw
        refine .of_row hcase ?_ ?_ fun _ => ?_
        · rw [Numbered, hev, List.map_append, (h caseId).numbered, List.length_append]
          show List.range' 1 _ ++ [_] = List.range' 1 (_ + 1)
          rw [List.range'_1_concat, Nat.add_comm]
        · rw [hev, List.length_append]
          exact hw.1
        · rw [hev]
          exact hw.2
      · rw [if_neg fun hx => hrec hx.1, List.append_nil] at hev
        refine .of_row hcase ?_ ?_ fun hs => ?_
        · rw [Numbered, hev]
          exact (h caseId).numbered
        · rw [hev]
          exact (h caseId).short
        · have hw := hwrite row hrow hs
          rw [if_neg fun hx => hrec ⟨hx, hs⟩] at hw
          rw [hev]
          exact hw
  · rw [if_neg fun hx => hid hx.2, List.append_nil] at hev
    refine (h id).congr ?_ hev
    rw [hcs, update_of_ne (Ne.symm hid)]

/-! ## parents -/

/-- only the opened parents are written, and no case gains or loses its stream -/
structure Opens (cases cases' : Uuid → Option CaseInstance) (opened : List Uuid) : Prop where
  rest : ∀ id, id ∉ opened → cases' id = cases id
  sourced : ∀ id, (cases' id).map (·.eventSourced) = (cases id).map (·.eventSourced)

theorem unblock_opens {cases : Uuid → Option CaseInstance}
    {acc : (Uuid → Option CaseInstance) × List Uuid} (h : Opens cases acc.1 acc.2)
    (rel : Relationship) : Opens cases (unblock ctx acc rel).1 (unblock ctx acc rel).2 := by
  unfold unblock
  split
  · split
    · exact h
    · rename_i parent hparent
      split
      · refine ⟨?_, ?_⟩ <;> dsimp only
        · intro id hid
          have hne : id ≠ rel.sourceCaseId := fun he => hid (by simp [he])
          rw [Function.update_of_ne hne]
          exact h.rest id fun hx => hid (List.mem_append_left _ hx)
        · intro id
          by_cases hid : id = rel.sourceCaseId
          · rw [hid, Function.update_self, ← h.sourced, hparent]
            rfl
          · rw [Function.update_of_ne hid]
            exact h.sourced id
      · exact h
  · exact h

theorem propagate_opens (cases : Uuid → Option CaseInstance) (caseId : Uuid) (newStatus : String) :
    Opens cases (propagateStatusChange ctx cases caseId newStatus).1
      (propagateStatusChange ctx cases caseId newStatus).2 := by
  have hstart : Opens cases cases [] := ⟨fun _ _ => rfl, fun _ => rfl⟩
  unfold propagateStatusChange
  dsimp only
  split
  · exact hstart
  · generalize ctx.relationships.filter (fun rel => rel.targetCaseId = caseId && rel.propagateStatus)
      = rels
    have hfold : ∀ acc : (Uuid → Option CaseInstance) × List Uuid, Opens cases acc.1 acc.2 →
        Opens cases (rels.foldl (unblock ctx) acc).1 (rels.foldl (unblock ctx) acc).2 := by
      induction rels with
      | nil => exact fun acc h => h
      | cons rel rels ih => exact fun acc h => ih _ (unblock_opens h rel)
    exact hfold _ hstart

theorem accounted_opens (h : ∀ id, Accounted db id) {cases' : Uuid → Option CaseInstance}
    {opened : List Uuid} (ho : Opens db.cases cases' opened)
    (hopened : ∀ p ∈ opened, ¬ isEventSourced db p) (id : Uuid) :
    Accounted { db with cases := cases' } id := by
  by_cases hid : id ∈ opened
  · have hs := ho.sourced id
    rcases hrow : cases' id with _ | row
    · rw [hrow] at hs
      have hnone : db.cases id = none := Option.map_eq_none_iff.mp hs.symm
      exact (h id).congr (hrow.trans hnone.symm) rfl
    · refine .of_row hrow (h id).numbered (h id).short fun hes => ?_
      obtain ⟨r, hr, hre⟩ := Option.map_eq_some_iff.mp (hs.symm.trans (congrArg _ hrow))
      have hsourced : isEventSourced db id = true := by
        rw [isEventSourced, hr]
        exact hre.trans hes
      exact absurd hsourced (hopened id hid)
  · exact (h id).congr (ho.rest id hid) rfl

/-! ## the operations -/

/-- a change of the status to `newStatus` is on record, if it is one, and opens no parent that has
a stream -/
def StatusRecorded (R : Runtime) (ctx : Context) (db : Db) (caseId : Uuid) (newStatus : String) :
    Prop :=
  ∀ row ∈ db.cases caseId,
    (row.eventSourced →
      if Recordable R ctx (statusData row.status newStatus) then
        (eventsOf db caseId).length < VERIFY_LIMIT
      else newStatus = row.status) ∧
    ∀ p ∈ (propagateStatusChange ctx
        (db.update caseId fun row => { row with status := newStatus }).cases caseId newStatus).2,
      ¬ isEventSourced db p

theorem isEventSourced_update {values : CaseInstance → CaseInstance}
    (hvalues : ∀ row, (values row).eventSourced = row.eventSourced) (id : Uuid) :
    isEventSourced (db.update caseId values) id = isEventSourced db id := by
  by_cases hid : id = caseId
  · subst hid
    rw [isEventSourced, update_self, isEventSourced]
    cases db.cases id with
    | none => rfl
    | some row => exact hvalues row
  · rw [isEventSourced, update_of_ne hid, isEventSourced]

theorem Agrees.changeStatus {row : CaseInstance} {es : List CaseEvent} (h : Agrees row es)
    (newStatus : String) {e : CaseEvent} (htype : e.eventType = .statusChanged)
    (hdata : e.data = statusData row.status newStatus) :
    Agrees { row with status := newStatus } (es ++ [e]) := by
  refine ⟨?_, ?_⟩ <;> rw [project_concat]
  · simp [projectEvent, htype, hdata, statusData, getOr, List.lookup_cons]
  · simp only [projectEvent, htype]
    exact h.stage

theorem changeStatus_accounted (h : ∀ id, Accounted db id) {newStatus : String}
    (hrec : StatusRecorded R ctx db caseId newStatus) (id : Uuid) :
    Accounted (applyStatusChange R ctx db caseId newStatus) id := by
  rcases hrow : db.cases caseId with _ | row
  · rw [applyStatusChange, hrow]
    exact h id
  · obtain ⟨hevent, hparents⟩ := hrec row hrow
    have hwritten := accounted_write R ctx h
      (fun row => { row with status := newStatus }) .statusChanged (statusData row.status newStatus)
      none "system" fun row' hrow' hs => by
        obtain rfl : row = row' := Option.some.inj (hrow ▸ hrow')
        have hagrees := (h caseId).agrees row hrow hs
        by_cases hable : Recordable R ctx (statusData row.status newStatus)
        · have hshort := hevent hs
          rw [if_pos hable] at hshort ⊢
          exact ⟨hshort, hagrees.changeStatus newStatus rfl rfl⟩
        · have hsame := hevent hs
          rw [if_neg hable] at hsame ⊢
          rw [hsame]
          exact hagrees
    have hnum : Numbered (db.update caseId fun row => { row with status := newStatus }) caseId :=
      (h caseId).numbered
    have hcases := record_cases R ctx hnum .statusChanged (statusData row.status newStatus) none
      "system"
    rw [applyStatusChange, hrow]
    show Accounted (onStatusChanged R ctx _ caseId row.status newStatus) id
    refine accounted_opens hwritten (propagate_opens _ caseId newStatus) (fun p hp => ?_) id
    rw [hcases] at hp
    have hnot := hparents p hp
    have hupdate : isEventSourced (db.update caseId fun row => { row with status := newStatus }) p =
        isEventSourced db p := by
      apply isEventSourced_update
      intro _
      rfl
    rw [← hupdate] at hnot
    rw [isEventSourced, hcases]
    exact hnot

/-- `verify` shows the entered stage as its event has it -/
def shown : Value → Bool
  | .none => true
  | .str s => s ≠ ""
  | _ => false

/-- entering the stage is on record, or enters the stage the case is on; and so is the status that
entering it sets -/
def StageRecorded (R : Runtime) (ctx : Context) (db : Db) (caseId : Uuid) (stage : Dict) : Prop :=
  ∀ stageId ∈ stage.lookup "id", ∀ column ∈ (ctx.stageColumn stageId).toOption,
    (∀ row ∈ db.cases caseId, row.eventSourced →
      if Recordable R ctx (stageData stage stageId) then
        (eventsOf db caseId).length < VERIFY_LIMIT ∧ shown stageId
      else actualStage { row with currentStageId := column } = actualStage row) ∧
    ∀ target ∈ enterStatus? R ctx (enterStage R ctx db caseId stage stageId column) caseId stage,
      StatusRecorded R ctx (enterStage R ctx db caseId stage stageId column) caseId target

theorem actualStage_of_shown {stageId : Value} {column : Option String} (row : CaseInstance)
    (hshown : shown stageId) (hcolumn : ctx.stageColumn stageId = .ok column) :
    actualStage { row with currentStageId := column } = stageId := by
  cases stageId with
  | none =>
    cases hcolumn
    rfl
  | str s =>
    cases hcolumn
    exact if_neg (of_decide_eq_true hshown)
  | bool b | int n | float q | list xs | dict items => cases hshown

theorem Agrees.enterStage {row : CaseInstance} {es : List CaseEvent} (h : Agrees row es)
    {column : Option String} {stage : Dict} {stageId : Value} {e : CaseEvent}
    (htype : e.eventType = .stageEntered) (hdata : e.data = stageData stage stageId)
    (hstage : actualStage { row with currentStageId := column } = stageId) :
    Agrees { row with currentStageId := column } (es ++ [e]) := by
  refine ⟨?_, ?_⟩ <;> rw [project_concat]
  · simp only [projectEvent, htype]
    exact h.status
  · rw [hstage]
    simp [projectEvent, htype, hdata, stageData, Dict.get]

theorem onStageEntered_cases {stage : Dict} {db' : Db}
    (hok : onStageEntered R ctx db caseId stage = .ok db') :
    ∃ stageId column, stage.lookup "id" = some stageId ∧ ctx.stageColumn stageId = .ok column ∧
      db' = applyOnEnterStatus R ctx (enterStage R ctx db caseId stage stageId column) caseId
        stage := by
  rw [onStageEntered] at hok
  obtain ⟨stageId, hid, hok⟩ := exists_of_bind_ok hok
  obtain ⟨column, hcolumn, hok⟩ := exists_of_bind_ok hok
  cases hlookup : stage.lookup "id" with
  | none =>
    rw [hlookup] at hid
    cases hid
  | some v =>
    rw [hlookup] at hid
    cases hid
    cases hok
    exact ⟨stageId, column, rfl, hcolumn, rfl⟩

theorem enterStage_accounted (h : ∀ id, Accounted db id) {stage : Dict} {db' : Db}
    (hrec : StageRecorded R ctx db caseId stage)
    (hok : onStageEntered R ctx db caseId stage = .ok db') (id : Uuid) : Accounted db' id := by
  obtain ⟨stageId, column, hid, hcolumn, rfl⟩ := onStageEntered_cases hok
  have hstored : column ∈ (ctx.stageColumn stageId).toOption := by
    rw [hcolumn]
    rfl
  obtain ⟨hevent, hstatus⟩ := hrec stageId hid column hstored
  have hentered : ∀ id, Accounted (enterStage R ctx db caseId stage stageId column) id :=
    accounted_write R ctx h (fun row => { row with currentStageId := column }) .stageEntered
      (stageData stage stageId) none "system" fun row hrow hs => by
        have hagrees := (h caseId).agrees row hrow hs
        have hone := hevent row hrow hs
        by_cases hable : Recordable R ctx (stageData stage stageId)
        · rw [if_pos hable] at hone ⊢
          exact ⟨hone.1, hagrees.enterStage rfl rfl (actualStage_of_shown row hone.2 hcolumn)⟩
        · rw [if_neg hable] at hone ⊢
          exact ⟨hagrees.status, hagrees.stage.trans hone.symm⟩
  rw [applyOnEnterStatus]
  cases htarget : enterStatus? R ctx (enterStage R ctx db caseId stage stageId column) caseId stage with
  | none => exact hentered id
  | some target => exact changeStatus_accounted hentered (hstatus target htarget) id

/-! ### escalation -/

def statusSet? (action : Dict) : Option Value :=
  if Dict.get action "type" = .str "status" ∧ (Dict.get action "set").truthy then
    some (Dict.get action "set")
  else none

/-- the driver takes the value the action writes -/
def accepts (ctx : Context) (action : Dict) : Bool :=
  if Dict.get action "type" = .str "priority" then
    (ctx.text (getOr action "set" (.str "high"))).isSome
  else (statusSet? action).all fun v => (ctx.text v).isSome

def lastStatus (ctx : Context) (actions : List Dict) (status : String) : String :=
  actions.foldl (fun s action => ((statusSet? action).bind ctx.text).getD s) status

structure Escalates (values : CaseInstance → CaseInstance) (status : String → String) : Prop where
  sourced : ∀ row, (values row).eventSourced = row.eventSourced
  stage : ∀ row, (values row).currentStageId = row.currentStageId
  status : ∀ row, (values row).status = status row.status

theorem update_id (db : Db) (caseId : Uuid) : db.update caseId id = db := by
  rw [Db.update, Option.map_id]
  exact congrArg (Db.mk · db.events) (Function.update_eq_self caseId db.cases)

theorem update_update (db : Db) (caseId : Uuid) (v w : CaseInstance → CaseInstance) :
    (db.update caseId v).update caseId w = db.update caseId (w ∘ v) := by
  rw [Db.update, update_self, Option.map_map]
  exact congrArg (Db.mk · db.events) (Function.update_idem ..)

theorem setColumn_ok {value : Value} {set : String → CaseInstance → CaseInstance} {db' : Db}
    (h : setColumn ctx db caseId value set = .ok db') :
    (db.cases caseId = none ∧ db' = db) ∨
      ∃ s, ctx.text value = some s ∧ db' = db.update caseId (set s) := by
  rw [setColumn] at h
  cases hrow : db.cases caseId with
  | none =>
    rw [hrow] at h
    cases h
    exact Or.inl ⟨rfl, rfl⟩
  | some row =>
    rw [hrow] at h
    cases htext : ctx.text value with
    | none =>
      rw [htext] at h
      cases h
    | some s =>
      rw [htext] at h
      cases h
      exact Or.inr ⟨s, rfl, rfl⟩

theorem executeAction_ok {row : CaseInstance} (hrow : db.cases caseId = some row) {action : Dict}
    {db' : Db} {result : ActionResult} (h : executeAction ctx db caseId action = .ok (db', result)) :
    accepts ctx action ∧ ∃ values, db' = db.update caseId values ∧
      Escalates values fun s => ((statusSet? action).bind ctx.text).getD s := by
  have hkeep (hset : statusSet? action = none) :
      Escalates id fun s => ((statusSet? action).bind ctx.text).getD s :=
    ⟨fun _ => rfl, fun _ => rfl, fun _ => by rw [hset]; rfl⟩
  have hnot {t : String} (htype : Dict.get action "type" = .str t) (ht : t ≠ "status") :
      statusSet? action = none := if_neg fun hx => ht (Value.str.inj (htype.symm.trans hx.1))
  rw [executeAction] at h
  simp only at h
  split at h
  · rename_i htype
    cases h
    have hset := hnot htype (by decide)
    exact ⟨by simp [accepts, htype, hset], id, (update_id db caseId).symm, hkeep hset⟩
  split at h
  · rename_i htype
    cases h
    have hset := hnot htype (by decide)
    exact ⟨by simp [accepts, htype, hset], id, (update_id db caseId).symm, hkeep hset⟩
  split at h
  · rename_i htype
    have hset := hnot htype (by decide)
    obtain ⟨db₁, hdb₁, hpair⟩ := exists_of_map_ok h
    obtain rfl : db₁ = db' := congrArg Prod.fst hpair
    rcases setColumn_ok hdb₁ with ⟨hnone, -⟩ | ⟨s, htext, rfl⟩
    · rw [hrow] at hnone
      cases hnone
    · refine ⟨by simp [accepts, htype, htext], _, rfl, fun _ => rfl, fun _ => rfl, fun _ => ?_⟩
      rw [hset]
      rfl
  split at h
  · rename_i hpri htype
    split at h
    · rename_i htruthy
      have hset : statusSet? action = some (Dict.get action "set") := if_pos ⟨htype, htruthy⟩
      obtain ⟨db₁, hdb₁, hpair⟩ := exists_of_map_ok h
      obtain rfl : db₁ = db' := congrArg Prod.fst hpair
      rcases setColumn_ok hdb₁ with ⟨hnone, -⟩ | ⟨s, htext, rfl⟩
      · rw [hrow] at hnone
        cases hnone
      · refine ⟨by simp [accepts, hpri, hset, htext], _, rfl, fun _ => rfl, fun _ => rfl,
          fun _ => ?_⟩
        rw [hset, Option.bind_some, htext]
        rfl
    · rename_i htruthy
      have hset : statusSet? action = none := if_neg fun hx => htruthy hx.2
      cases h
      exact ⟨by simp [accepts, hpri, hset], id, (update_id db caseId).symm, hkeep hset⟩
  · rename_i hpri htype
    have hset : statusSet? action = none := if_neg fun hx => htype hx.1
    cases h
    exact ⟨by simp [accepts, hpri, hset], id, (update_id db caseId).symm, hkeep hset⟩

theorem executeAction_absent (hrow : db.cases caseId = none) {action : Dict} {db' : Db}
    {result : ActionResult} (h : executeAction ctx db caseId action = .ok (db', result)) :
    db' = db := by
  have hset (value : Value) (set : String → CaseInstance → CaseInstance) :
      setColumn ctx db caseId value set = .ok db := by rw [setColumn, hrow]
  simp only [executeAction, hset] at h
  split_ifs at h <;> cases h <;> rfl

theorem applyLevel_ok {row : CaseInstance} {actions : List Dict} {db' : Db}
    {results : List ActionResult} (hrow : db.cases caseId = some row)
    (h : applyLevel ctx db caseId actions = .ok (db', results)) :
    actions.all (accepts ctx) ∧ ∃ values, db' = db.update caseId values ∧
      Escalates values (lastStatus ctx actions) := by
  induction actions generalizing db row results with
  | nil =>
    cases h
    exact ⟨rfl, id, (update_id _ caseId).symm, fun _ => rfl, fun _ => rfl, fun _ => rfl⟩
  | cons action actions ih =>
    rw [applyLevel] at h
    obtain ⟨⟨db₁, result⟩, h₁, h⟩ := exists_of_bind_ok h
    obtain ⟨⟨db₂, rest⟩, h₂, h⟩ := exists_of_bind_ok h
    obtain rfl : db₂ = db' := congrArg Prod.fst (Except.ok.inj h)
    obtain ⟨hacc, v, rfl, hv⟩ := executeAction_ok hrow h₁
    have hrow₁ : (db.update caseId v).cases caseId = some (v row) := by
      rw [update_self, hrow]
      rfl
    obtain ⟨haccs, w, hdb₂, hw⟩ := ih hrow₁ h₂
    refine ⟨?_, w ∘ v, hdb₂.trans (update_update db caseId v w), ?_, ?_, ?_⟩
    · rw [List.all_cons, hacc]
      exact haccs
    · exact fun r => (hw.sourced (v r)).trans (hv.sourced r)
    · exact fun r => (hw.stage (v r)).trans (hv.stage r)
    · intro r
      rw [Function.comp, hw.status, hv.status]
      rfl

theorem applyLevel_absent {actions : List Dict} {db' : Db} {results : List ActionResult}
    (hrow : db.cases caseId = none) (h : applyLevel ctx db caseId actions = .ok (db', results)) :
    db' = db := by
  induction actions generalizing results with
  | nil =>
    cases h
    rfl
  | cons action actions ih =>
    rw [applyLevel] at h
    obtain ⟨⟨db₁, result⟩, h₁, h⟩ := exists_of_bind_ok h
    obtain ⟨⟨db₂, rest⟩, h₂, h⟩ := exists_of_bind_ok h
    obtain rfl : db₂ = db' := congrArg Prod.fst (Except.ok.inj h)
    rw [executeAction_absent hrow h₁] at h₂
    exact ih h₂

/-- the level is refused, or leaves the status of an event-sourced case as it was -/
def LevelRecorded (ctx : Context) (db : Db) (caseId : Uuid) (actions : List Dict) : Prop :=
  ∀ row ∈ db.cases caseId, row.eventSourced → actions.all (accepts ctx) →
    lastStatus ctx actions row.status = row.status

theorem actualStage_congr {row row' : CaseInstance}
    (h : row'.currentStageId = row.currentStageId) : actualStage row' = actualStage row := by
  rw [actualStage, actualStage, h]

theorem escalate_accounted (h : ∀ id, Accounted db id) {actions : List Dict} {db' : Db}
    {results : List ActionResult} (hrec : LevelRecorded ctx db caseId actions)
    (hok : applyLevel ctx db caseId actions = .ok (db', results)) (id : Uuid) :
    Accounted db' id := by
  rcases hrow : db.cases caseId with _ | row
  · rw [applyLevel_absent hrow hok]
    exact h id
  · obtain ⟨haccepts, values, rfl, hvalues⟩ := applyLevel_ok hrow hok
    by_cases hid : id = caseId
    · subst hid
      have hrow' : (db.update id values).cases id = some (values row) := by
        rw [update_self, hrow]
        rfl
      refine .of_row hrow' (h id).numbered (h id).short fun hs => ?_
      rw [hvalues.sourced] at hs
      have hagrees := (h id).agrees row hrow hs
      refine ⟨?_, ?_⟩
      · rw [hvalues.status, hrec row hrow hs haccepts]
        exact hagrees.status
      · rw [actualStage_congr (hvalues.stage row)]
        exact hagrees.stage
    · exact (h id).congr (update_of_ne hid values) rfl

/-! ### creation -/

theorem createdData_fits (caseTypeId : Uuid) (tenantId : Option Uuid) :
    tooBig R (createdData caseTypeId "new" tenantId) = false := by
  have hkeys : textBytes "case_type_id" = 14 ∧ textBytes "status" = 8 ∧
      textBytes "tenant_id" = 11 ∧ textBytes "new" = 5 := by decide
  obtain ⟨h₁, h₂, h₃, h₄⟩ := hkeys
  cases tenantId <;>
    simp [tooBig, createdData, dumpedBytes, dumpedPairs, textBytes_uuidText, h₁, h₂, h₃, h₄,
      MAX_EVENT_BYTES]

theorem accounted_insert (h : ∀ id, Accounted db id) (hnew : db.cases caseId = none)
    {row : CaseInstance} (hplain : row.eventSourced = false) (id : Uuid) :
    Accounted { db with cases := Function.update db.cases caseId (some row) } id := by
  by_cases hid : id = caseId
  · subst hid
    refine .of_row (Function.update_self ..) (h id).numbered (h id).short fun hs => ?_
    rw [hplain] at hs
    cases hs
  · exact (h id).congr (Function.update_of_ne hid ..) rfl

theorem create_accounted (h : ∀ id, Accounted db id) (hnew : db.cases caseId = none)
    {row : CaseInstance} (hplain : row.eventSourced = false) (hstatus : row.status = "new")
    (hstage : row.currentStageId = none) (tenantId : Option Uuid) (id : Uuid) :
    Accounted (onCaseCreated R ctx
      { db with cases := Function.update db.cases caseId (some row) } caseId row.caseTypeId
      tenantId) id := by
  have hinserted := accounted_insert h hnew hplain
  have hrow : (Function.update db.cases caseId (some row)) caseId = some row :=
    Function.update_self ..
  rw [onCaseCreated]
  by_cases hon : ctx.eventSourcingEnabled = true
  · simp only [hon, hrow, hplain]
    have hempty : eventsOf { db with cases := Function.update db.cases caseId (some row) } caseId =
        [] := (h caseId).absent hnew
    have hable : Recordable R ctx (createdData row.caseTypeId row.status tenantId) :=
      ⟨hon, hstatus ▸ createdData_fits row.caseTypeId tenantId⟩
    have hw := accounted_write R ctx hinserted
      (fun row => { row with eventSourced := true }) .caseCreated
      (createdData row.caseTypeId row.status tenantId) row.createdBy
      (if row.createdBy.any (· ≠ "") then "user" else "system") fun row' hrow' _ => by
        obtain rfl : row = row' := Option.some.inj (hrow ▸ hrow')
        rw [if_pos hable, hempty]
        refine ⟨by decide, ?_, ?_⟩
        · simp [project, projectEvent, createdData, getOr, List.lookup_cons]
        · simp [project, projectEvent, actualStage, hstage]
    rw [hon] at hw
    exact hw id
  · simp only [hon]
    exact hinserted id

/-! ## runs -/

instance (db : Db) (caseId : Uuid) (newStatus : String) :
    Decidable (StatusRecorded R ctx db caseId newStatus) :=
  inferInstanceAs (Decidable (∀ _ ∈ db.cases caseId, _))

instance (db : Db) (caseId : Uuid) (stage : Dict) :
    Decidable (StageRecorded R ctx db caseId stage) :=
  inferInstanceAs (Decidable (∀ _ ∈ stage.lookup "id", _))

instance (db : Db) (caseId : Uuid) (actions : List Dict) :
    Decidable (LevelRecorded ctx db caseId actions) :=
  inferInstanceAs (Decidable (∀ _ ∈ db.cases caseId, _))

/-- what the operation writes to a case with a stream is on the stream -/
def Recorded (R : Runtime) (db : Db) : Context × Op → Prop
  | (_, .create ..) => True
  | (ctx, .enterStage caseId stage) => StageRecorded R ctx db caseId stage
  | (ctx, .changeStatus caseId newStatus) => StatusRecorded R ctx db caseId newStatus
  | (ctx, .escalate caseId actions) => LevelRecorded ctx db caseId actions

instance (db : Db) : ∀ act, Decidable (Recorded R db act)
  | (_, .create ..) => inferInstanceAs (Decidable True)
  | (ctx, .enterStage caseId stage) =>
    inferInstanceAs (Decidable (StageRecorded R ctx db caseId stage))
  | (ctx, .changeStatus caseId newStatus) =>
    inferInstanceAs (Decidable (StatusRecorded R ctx db caseId newStatus))
  | (ctx, .escalate caseId actions) =>
    inferInstanceAs (Decidable (LevelRecorded ctx db caseId actions))

theorem step_accounted (h : ∀ id, Accounted db id) {act : Context × Op} (hrec : Recorded R db act)
    (id : Uuid) : Accounted (step R db act) id := by
  obtain ⟨ctx, op⟩ := act
  show Accounted ((perform R ctx db op).toOption.getD db) id
  cases hp : perform R ctx db op with
  | error e => exact h id
  | ok db' =>
    show Accounted db' id
    cases op with
    | create caseId caseTypeId priority createdBy tenantId =>
      simp only [perform] at hp
      split at hp
      · cases hp
      · rename_i hnew
        cases hp
        exact create_accounted h (Option.not_isSome_iff_eq_none.mp hnew) rfl rfl rfl tenantId id
    | enterStage caseId stage =>
      have hok : onStageEntered R ctx db caseId stage = .ok db' := by
        rw [perform] at hp
        cases hs : onStageEntered R ctx db caseId stage with
        | error f =>
          rw [hs] at hp
          cases hp
        | ok db₁ =>
          rw [hs] at hp
          cases hp
          rfl
      exact enterStage_accounted h hrec hok id
    | changeStatus caseId newStatus =>
      cases hp
      exact changeStatus_accounted h hrec id
    | escalate caseId actions =>
      rw [perform] at hp
      cases hl : applyLevel ctx db caseId actions with
      | error f =>
        rw [hl] at hp
        cases hp
      | ok pair =>
        rw [hl] at hp
        cases hp
        exact escalate_accounted h hrec hl id

theorem run_accounted {acts : List (Context × Op)}
    (hrec : Along (step R) (Recorded R) Db.empty acts) (id : Uuid) :
    Accounted (exec (step R) Db.empty acts) id := by
  have hempty : ∀ id, Accounted Db.empty id := fun id =>
    ⟨rfl, Nat.zero_le _, fun _ => rfl, fun row hrow => by cases hrow⟩
  have hrun := exec_inv (I := fun db => ∀ id, Accounted db id)
    (fun db act h hact => step_accounted h hact) hempty hrec
  exact hrun id

end CaseEvents
