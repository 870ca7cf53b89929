import Velaris.CaseEvents.Accounts

/-!
# Parents that wait for their children

`core/relationship_manager.py` over whole runs: cases, the relationships between them, and what
writes a status.

* `Links`, `LinkOp`, `linkStep`   cases with `case_relationships`, and the operations on them;
* `Stuck`   a parent waits, and every child that it is required to wait for has ended;
* `StaysWaiting`   a child keeps its parent waiting once a case has another status;
* `Noticed`   the operation leaves no parent stuck, for what it finds in the tables.

`run_released`: where every operation is noticed, no parent is ever stuck.  A parent is released by
the end of a child only, told through a relationship that propagates it.
-/

namespace CaseEvents
open Py Base

/-- the cases with `case_relationships`; a relationship is unique in its two cases and its type -/
structure Links where
  db : Db := .empty
  relationships : List Relationship := []

inductive LinkOp where
  | create (caseId caseTypeId : Uuid) (priority : String) (createdBy : Option String)
      (tenantId : Option Uuid)
  | relate (rel : Relationship)
  | unrelate (sourceCaseId targetCaseId : Uuid) (relationshipType : String)
  /-- the row's new status is written, and `on_status_changed` runs -/
  | changeStatus (caseId : Uuid) (newStatus : String)
  | escalate (caseId : Uuid) (actions : List Dict)

def Relationship.key (rel : Relationship) : Uuid × Uuid × String :=
  (rel.sourceCaseId, rel.targetCaseId, rel.relationshipType)

variable (R : Runtime) (ctx : Context)

/-- what an operation reads, with the relationships of the moment -/
def Links.context (s : Links) : Context := { ctx with relationships := s.relationships }

/-- the foreign keys and the unique constraint hold -/
def Links.takes (s : Links) (rel : Relationship) : Bool :=
  (s.db.cases rel.sourceCaseId).isSome && (s.db.cases rel.targetCaseId).isSome &&
    s.relationships.all (·.key ≠ rel.key)

/-- an operation on rows, which changes nothing where it raises -/
def Links.perform (s : Links) (op : Op) : Links :=
  { s with db := (CaseEvents.perform R (s.context ctx) s.db op).toOption.getD s.db }

def linkStep (s : Links) : LinkOp → Links
  | .create caseId caseTypeId priority createdBy tenantId =>
    s.perform R ctx (.create caseId caseTypeId priority createdBy tenantId)
  | .relate rel =>
    if s.takes rel then { s with relationships := s.relationships ++ [rel] } else s
  | .unrelate sourceCaseId targetCaseId relationshipType =>
    { s with
      relationships :=
        s.relationships.filter (·.key ≠ (sourceCaseId, targetCaseId, relationshipType)) }
  | .changeStatus caseId newStatus => s.perform R ctx (.changeStatus caseId newStatus)
  | .escalate caseId actions => s.perform R ctx (.escalate caseId actions)

/-! ## waiting -/

/-- the source of the relationship is required to wait for its target -/
def Relationship.binds (rel : Relationship) : Bool :=
  rel.required && rel.relationshipType ∈ childTypes

def Relationship.tells (rel : Relationship) : Bool :=
  rel.propagateStatus && rel.relationshipType ∈ childTypes

def waits (cases : Uuid → Option CaseInstance) (caseId : Uuid) : Bool :=
  (cases caseId).any (·.status = "pending_subcase")

def isOpen (cases : Uuid → Option CaseInstance) (caseId : Uuid) : Bool :=
  (cases caseId).any fun row => !ctx.isTerminalForCase row

/-- a parent waits, and none of the children that it is required to wait for is open -/
def Stuck (s : Links) (parentId : Uuid) : Prop :=
  waits s.db.cases parentId ∧
    (∃ rel ∈ s.relationships, rel.sourceCaseId = parentId ∧ rel.binds) ∧
    ∀ rel ∈ s.relationships, rel.sourceCaseId = parentId → rel.binds →
      isOpen ctx s.db.cases rel.targetCaseId = false

def Released (s : Links) : Prop := ∀ parentId, ¬ Stuck ctx s parentId

/-! ## operations that are noticed -/

/-- the case is open once `caseId` has the status -/
def opensWith (cases : Uuid → Option CaseInstance) (caseId : Uuid) (newStatus : String)
    (target : Uuid) : Bool :=
  (cases target).any fun row =>
    !ctx.isTerminal (if target = caseId then newStatus else row.status) row.tenantId
      (some row.caseTypeId)

/-- a child that the parent is required to wait for is open once `caseId` has the status -/
def StaysWaiting (s : Links) (caseId : Uuid) (newStatus : String) (parentId : Uuid) : Prop :=
  ∃ rel ∈ s.relationships, rel.sourceCaseId = parentId ∧ rel.binds ∧
    opensWith ctx s.db.cases caseId newStatus rel.targetCaseId

/-- a case that starts to wait has something to wait for, unless it is no parent -/
def Entered (s : Links) (caseId : Uuid) (newStatus : String) : Prop :=
  newStatus = "pending_subcase" →
    (∃ rel ∈ s.relationships, rel.sourceCaseId = caseId ∧ rel.binds) →
      StaysWaiting ctx s caseId newStatus caseId

def Told (s : Links) (caseId : Uuid) (newStatus : String) (told : Relationship → Bool) : Prop :=
  ∀ rel ∈ s.relationships, rel.targetCaseId = caseId → rel.binds → rel.sourceCaseId ≠ caseId →
    waits s.db.cases rel.sourceCaseId →
      StaysWaiting ctx s caseId newStatus rel.sourceCaseId ∨
        ∃ rel' ∈ s.relationships, rel'.sourceCaseId = rel.sourceCaseId ∧
          rel'.targetCaseId = caseId ∧ told rel'

/-- a parent that the end of the case may open is open when it has the status `open` -/
def OpensOpen (s : Links) (caseId : Uuid) : Prop :=
  ∀ rel ∈ s.relationships, rel.targetCaseId = caseId → rel.tells →
    waits s.db.cases rel.sourceCaseId ∨ rel.sourceCaseId = caseId →
      opensWith ctx s.db.cases rel.sourceCaseId "open" rel.sourceCaseId

instance (s : Links) (caseId parentId : Uuid) (newStatus : String) :
    Decidable (StaysWaiting ctx s caseId newStatus parentId) :=
  inferInstanceAs (Decidable (∃ rel ∈ s.relationships, rel.sourceCaseId = parentId ∧ rel.binds ∧
    opensWith ctx s.db.cases caseId newStatus rel.targetCaseId))

instance (s : Links) (caseId : Uuid) (newStatus : String) :
    Decidable (Entered ctx s caseId newStatus) :=
  inferInstanceAs (Decidable (newStatus = "pending_subcase" →
    (∃ rel ∈ s.relationships, rel.sourceCaseId = caseId ∧ rel.binds) →
      StaysWaiting ctx s caseId newStatus caseId))

instance (s : Links) (caseId : Uuid) (newStatus : String) (told : Relationship → Bool) :
    Decidable (Told ctx s caseId newStatus told) :=
  inferInstanceAs (Decidable (∀ rel ∈ s.relationships, rel.targetCaseId = caseId → rel.binds →
    rel.sourceCaseId ≠ caseId → waits s.db.cases rel.sourceCaseId →
      StaysWaiting ctx s caseId newStatus rel.sourceCaseId ∨
        ∃ rel' ∈ s.relationships, rel'.sourceCaseId = rel.sourceCaseId ∧
          rel'.targetCaseId = caseId ∧ told rel'))

instance (s : Links) (caseId : Uuid) : Decidable (OpensOpen ctx s caseId) :=
  inferInstanceAs (Decidable (∀ rel ∈ s.relationships, rel.targetCaseId = caseId → rel.tells →
    waits s.db.cases rel.sourceCaseId ∨ rel.sourceCaseId = caseId →
      opensWith ctx s.db.cases rel.sourceCaseId "open" rel.sourceCaseId))

/-- what the operation finds in the tables, and what it is asked to do, leave no parent stuck -/
def Noticed (s : Links) : LinkOp → Prop
  | .create .. => True
  | .relate rel =>
    s.takes rel → waits s.db.cases rel.sourceCaseId → rel.binds →
      isOpen ctx s.db.cases rel.targetCaseId ∨
        ∃ rel' ∈ s.relationships, rel'.sourceCaseId = rel.sourceCaseId ∧ rel'.binds
  | .unrelate sourceCaseId targetCaseId relationshipType =>
    waits s.db.cases sourceCaseId →
      ∀ rel ∈ s.relationships, rel.sourceCaseId = sourceCaseId → rel.binds →
        rel.key ≠ (sourceCaseId, targetCaseId, relationshipType) →
          ∃ rel' ∈ s.relationships, rel'.sourceCaseId = sourceCaseId ∧ rel'.binds ∧
            rel'.key ≠ (sourceCaseId, targetCaseId, relationshipType) ∧
            isOpen ctx s.db.cases rel'.targetCaseId
  | .changeStatus caseId newStatus =>
    (s.db.cases caseId).isSome →
      Entered ctx s caseId newStatus ∧ Told ctx s caseId newStatus Relationship.tells ∧
        OpensOpen ctx s caseId
  -- nobody is told
  | .escalate caseId actions =>
    ∀ row, s.db.cases caseId = some row → actions.all (accepts ctx) →
      Entered ctx s caseId (lastStatus ctx actions row.status) ∧
        Told ctx s caseId (lastStatus ctx actions row.status) fun _ => false

variable {R ctx} {s : Links} {db : Db} {cases cases' cases'' : Uuid → Option CaseInstance}
  {caseId : Uuid} {newStatus : String}

/-! ## a status is written -/

def Wrote (cases cases' : Uuid → Option CaseInstance) (caseId : Uuid) (newStatus : String) : Prop :=
  ∃ row row', cases caseId = some row ∧ row'.status = newStatus ∧ row'.tenantId = row.tenantId ∧
    row'.caseTypeId = row.caseTypeId ∧ cases' = Function.update cases caseId (some row')

theorem waits_iff {id : Uuid} :
    waits cases id = true ↔ ∃ row, cases id = some row ∧ row.status = "pending_subcase" := by
  rw [waits, Option.any_eq_true]
  exact exists_congr fun row => and_congr_right fun _ => decide_eq_true_iff

theorem Wrote.isOpen (h : Wrote cases cases' caseId newStatus) (target : Uuid) :
    isOpen ctx cases' target = opensWith ctx cases caseId newStatus target := by
  obtain ⟨row, row', hrow, rfl, htenant, htype, rfl⟩ := h
  by_cases ht : target = caseId
  · subst ht
    simp only [CaseEvents.isOpen, opensWith, Function.update_self, hrow, Option.any_some, if_true,
      Context.isTerminalForCase, htenant, htype]
  · simp only [CaseEvents.isOpen, opensWith, Function.update_of_ne ht, if_neg ht]
    rfl

theorem Wrote.waits_of_ne (h : Wrote cases cases' caseId newStatus) {parentId : Uuid}
    (hne : parentId ≠ caseId) : waits cases' parentId = waits cases parentId := by
  obtain ⟨row, row', -, -, -, -, rfl⟩ := h
  rw [waits, Function.update_of_ne hne, waits]

theorem Wrote.waits_self (h : Wrote cases cases' caseId newStatus) :
    waits cases' caseId = decide (newStatus = "pending_subcase") := by
  obtain ⟨row, row', -, rfl, -, -, rfl⟩ := h
  rw [waits, Function.update_self]
  rfl

theorem opensWith_of_ne {target : Uuid} (hne : target ≠ caseId) :
    opensWith ctx cases caseId newStatus target = isOpen ctx cases target := by
  simp only [opensWith, if_neg hne]
  rfl

theorem not_staysWaiting (h : Wrote s.db.cases db.cases caseId newStatus) {parentId : Uuid}
    (hstuck : Stuck ctx { s with db := db } parentId) :
    ¬ StaysWaiting ctx s caseId newStatus parentId := by
  intro hx
  obtain ⟨rel, hrel, hsource, hbinds, hopen⟩ := hx
  have hclosed := hstuck.2.2 rel hrel hsource hbinds
  rw [h.isOpen, hopen] at hclosed
  cases hclosed

theorem stuck_of_wrote {d : Db} (hs : Released ctx s)
    (h : Wrote s.db.cases d.cases caseId newStatus) {told : Relationship → Bool}
    (hentered : Entered ctx s caseId newStatus)
    (htold : Told ctx s caseId newStatus told) {p : Uuid}
    (hstuck : Stuck ctx { s with db := d } p) :
    opensWith ctx s.db.cases caseId newStatus caseId = false ∧
      ∃ rel ∈ s.relationships, rel.sourceCaseId = p ∧ rel.targetCaseId = caseId ∧ told rel := by
  have hno := not_staysWaiting h hstuck
  by_cases hp : p = caseId
  · subst hp
    have hwaits := hstuck.1
    rw [h.waits_self] at hwaits
    exact absurd (hentered (of_decide_eq_true hwaits) hstuck.2.1) hno
  · have hwaits : waits s.db.cases p := (h.waits_of_ne hp).symm.trans hstuck.1
    -- the parent waited before, for a child that was open
    obtain ⟨rel, hrel, hsource, hbinds, hopen⟩ : ∃ rel ∈ s.relationships,
        rel.sourceCaseId = p ∧ rel.binds ∧ isOpen ctx s.db.cases rel.targetCaseId := by
      by_contra hall
      refine hs p ⟨hwaits, hstuck.2.1, fun rel hrel hsource hbinds => ?_⟩
      exact eq_false_of_ne_true fun hopen => hall ⟨rel, hrel, hsource, hbinds, hopen⟩
    have hclosed := hstuck.2.2 rel hrel hsource hbinds
    rw [h.isOpen] at hclosed
    have htarget : rel.targetCaseId = caseId := by
      by_contra hne
      rw [opensWith_of_ne hne, hopen] at hclosed
      cases hclosed
    rw [htarget] at hclosed
    refine ⟨hclosed, ?_⟩
    rcases htold rel hrel htarget hbinds (hsource ▸ hp) (hsource ▸ hwaits) with hstays | hx
    · exact absurd (hsource ▸ hstays) hno
    · obtain ⟨rel', hrel', hsource', htarget', htells⟩ := hx
      exact ⟨rel', hrel', hsource'.trans hsource, htarget', htells⟩

/-! ## parents are opened -/

def Opened (sources : Uuid → Prop) (cases cases' : Uuid → Option CaseInstance) : Prop :=
  ∀ id, cases' id = cases id ∨ sources id ∧ ∃ row, cases id = some row ∧
    row.status = "pending_subcase" ∧ cases' id = some { row with status := "open" }

theorem Opened.refl (sources : Uuid → Prop) (cases : Uuid → Option CaseInstance) :
    Opened sources cases cases := fun _ => Or.inl rfl

theorem Opened.trans {sources : Uuid → Prop} (h : Opened sources cases cases')
    (h' : Opened sources cases' cases'') : Opened sources cases cases'' := by
  intro id
  rcases h id with hsame | ⟨hin, row, hrow, hstatus, hopened⟩
  · rw [← hsame]
    exact h' id
  · refine Or.inr ⟨hin, row, hrow, hstatus, ?_⟩
    rcases h' id with hsame' | ⟨-, row', hrow', hstatus', -⟩
    · exact hsame'.trans hopened
    · cases hopened.symm.trans hrow'
      exact absurd hstatus' (by simp)

theorem Opened.mono {sources sources' : Uuid → Prop} (h : Opened sources cases cases')
    (hle : ∀ id, sources id → sources' id) : Opened sources' cases cases' :=
  fun id => (h id).imp_right fun hx => ⟨hle id hx.1, hx.2⟩

theorem Opened.eq_of_waits {sources : Uuid → Prop} (h : Opened sources cases cases') {id : Uuid}
    (hwaits : waits cases' id) : cases' id = cases id := by
  rcases h id with hsame | ⟨-, row, -, -, hopened⟩
  · exact hsame
  · rw [waits, hopened] at hwaits
    exact absurd hwaits (by simp)

/-- an open case stays open, where it is open when it has the status `open` -/
theorem Opened.isOpen {sources : Uuid → Prop} (h : Opened sources cases cases')
    (hopen : ∀ id row, sources id → cases id = some row → row.status = "pending_subcase" →
      ctx.isTerminal "open" row.tenantId (some row.caseTypeId) = false) {id : Uuid}
    (hid : isOpen ctx cases id) : isOpen ctx cases' id := by
  rcases h id with hsame | ⟨hin, row, hrow, hstatus, hopened⟩
  · rw [CaseEvents.isOpen, hsame]
    exact hid
  · rw [CaseEvents.isOpen, hopened]
    show (!ctx.isTerminal "open" row.tenantId (some row.caseTypeId)) = true
    rw [hopen id row hin hrow hstatus]
    rfl

theorem allRequired_iff {parentId : Uuid} :
    allRequiredTargetsResolved ctx cases parentId = true ↔
      ∀ rel ∈ ctx.relationships, rel.sourceCaseId = parentId → rel.binds →
        isOpen ctx cases rel.targetCaseId = false := by
  rw [allRequiredTargetsResolved, List.all_eq_true]
  constructor
  · intro h rel hrel hsource hbinds
    have hin := h rel (List.mem_filter.mpr ⟨hrel, by
      rw [decide_eq_true hsource, Bool.true_and]
      exact hbinds⟩)
    rw [isOpen]
    cases hrow : cases rel.targetCaseId with
    | none => rfl
    | some row =>
      rw [hrow] at hin
      exact congrArg (!·) hin
  · intro h rel hrel
    obtain ⟨hrel, hp⟩ := List.mem_filter.mp hrel
    obtain ⟨hsource, htype⟩ := Bool.and_eq_true_iff.mp hp
    obtain ⟨hsource, hrequired⟩ := Bool.and_eq_true_iff.mp hsource
    have hclosed := h rel hrel (of_decide_eq_true hsource)
      (Bool.and_eq_true_iff.mpr ⟨hrequired, htype⟩)
    rw [isOpen] at hclosed
    cases hrow : cases rel.targetCaseId with
    | none => rfl
    | some row =>
      rw [hrow] at hclosed
      simpa using hclosed

def childSource (rels : List Relationship) (id : Uuid) : Prop :=
  ∃ rel ∈ rels, rel.sourceCaseId = id ∧ rel.relationshipType ∈ childTypes

variable {acc : (Uuid → Option CaseInstance) × List Uuid}

variable (ctx acc) in
theorem unblock_opened (rel : Relationship) :
    Opened (childSource [rel]) acc.1 (unblock ctx acc rel).1 := by
  unfold unblock
  split
  · next hgo =>
    split
    · exact .refl _ _
    · next parent hparent =>
      split
      · next hwaits =>
        intro id
        show Function.update acc.1 rel.sourceCaseId _ id = _ ∨ _
        by_cases hid : id = rel.sourceCaseId
        · subst hid
          exact Or.inr ⟨⟨rel, List.mem_singleton.mpr rfl, rfl, hgo.1⟩, parent, hparent, hwaits,
            Function.update_self ..⟩
        · exact Or.inl (Function.update_of_ne hid ..)
      · exact .refl _ _
  · exact .refl _ _

variable (ctx) in
theorem foldl_opened (acc : (Uuid → Option CaseInstance) × List Uuid) (rels : List Relationship) :
    Opened (childSource rels) acc.1 (rels.foldl (unblock ctx) acc).1 := by
  induction rels generalizing acc with
  | nil => exact .refl _ _
  | cons rel rels ih =>
    have hhead : Opened (childSource (rel :: rels)) acc.1 (unblock ctx acc rel).1 := by
      refine (unblock_opened ctx acc rel).mono fun id hx => ?_
      obtain ⟨rel', hrel', hsource⟩ := hx
      exact ⟨rel', List.mem_singleton.mp hrel' ▸ List.mem_cons_self, hsource⟩
    refine hhead.trans ((ih (unblock ctx acc rel)).mono fun id hx => ?_)
    obtain ⟨rel', hrel', hsource⟩ := hx
    exact ⟨rel', List.mem_cons_of_mem rel hrel', hsource⟩

theorem unblock_source {rel : Relationship} {parent : CaseInstance}
    (htype : rel.relationshipType ∈ childTypes)
    (hresolved : allRequiredTargetsResolved ctx acc.1 rel.sourceCaseId = true)
    (hparent : acc.1 rel.sourceCaseId = some parent) (hstatus : parent.status = "pending_subcase") :
    (unblock ctx acc rel).1 rel.sourceCaseId = some { parent with status := "open" } := by
  rw [unblock, if_pos ⟨htype, hresolved⟩, hparent]
  show (if parent.status = "pending_subcase" then _ else acc).1 rel.sourceCaseId = _
  rw [if_pos hstatus]
  exact Function.update_self ..

theorem foldl_released {rels : List Relationship}
    (hopen : ∀ id row, childSource rels id → acc.1 id = some row → row.status = "pending_subcase" →
      ctx.isTerminal "open" row.tenantId (some row.caseTypeId) = false) {rel : Relationship}
    (hrel : rel ∈ rels) (htype : rel.relationshipType ∈ childTypes)
    (hwaits : waits (rels.foldl (unblock ctx) acc).1 rel.sourceCaseId) :
    allRequiredTargetsResolved ctx (rels.foldl (unblock ctx) acc).1 rel.sourceCaseId = false := by
  induction rels generalizing acc with
  | nil => cases hrel
  | cons r rels ih =>
    have hhead := unblock_opened ctx acc r
    rcases List.mem_cons.mp hrel with rfl | hin
    · have hall := foldl_opened ctx acc (rel :: rels)
      have hrest := foldl_opened ctx (unblock ctx acc rel) rels
      have hsame := hrest.eq_of_waits hwaits
      obtain ⟨parent, hparent, hstatus⟩ := waits_iff.mp hwaits
      -- the loop's first step has not opened it, so it waits for an open child
      have hunresolved : ¬ allRequiredTargetsResolved ctx acc.1 rel.sourceCaseId = true := by
        intro hresolved
        have hparent₀ := (hall.eq_of_waits hwaits).symm.trans hparent
        have hopened := unblock_source htype hresolved hparent₀ hstatus
        have hstill := Option.some.inj (hopened.symm.trans (hsame.symm.trans hparent))
        have hopen := congrArg CaseInstance.status hstill
        rw [hstatus] at hopen
        exact absurd hopen (show "open" ≠ "pending_subcase" by decide)
      refine eq_false_of_ne_true fun hresolved => hunresolved (allRequired_iff.mpr ?_)
      intro rel' hrel' hsource hbinds
      refine eq_false_of_ne_true fun hchild => ?_
      have hclosed := allRequired_iff.mp hresolved rel' hrel' hsource hbinds
      rw [hall.isOpen hopen hchild] at hclosed
      cases hclosed
    · refine ih ?_ hin hwaits
      intro id row hx hrow hstatus
      obtain ⟨rel', hrel', hsource⟩ := hx
      refine hopen id row ⟨rel', List.mem_cons_of_mem r hrel', hsource⟩ ?_ hstatus
      have hid : waits (unblock ctx acc r).1 id := waits_iff.mpr ⟨row, hrow, hstatus⟩
      rw [← hhead.eq_of_waits hid]
      exact hrow

/-! ## the operations -/

theorem record_keeps_cases (eventSourcingEnabled : Bool) (db : Db) (eventType : EventType)
    (data : Dict) (actorId : Option String) (actorType : String) :
    (record R eventSourcingEnabled db caseId eventType data actorId actorType).cases = db.cases := by
  rw [record]
  split
  · rfl
  · split
    · rfl
    · split
      · next db' happend =>
        rw [append] at happend
        split at happend
        · cases happend
        · simp only at happend
          split at happend
          · cases happend
          · cases happend
            rfl
      · rfl

def Links.heard (s : Links) (caseId : Uuid) : List Relationship :=
  s.relationships.filter fun rel => rel.targetCaseId = caseId && rel.propagateStatus

theorem propagate_of_terminal {row : CaseInstance} (hrow : cases caseId = some row)
    (h : ctx.isTerminal newStatus row.tenantId (some row.caseTypeId) = true) :
    propagateStatusChange (s.context ctx) cases caseId newStatus =
      (s.heard caseId).foldl (unblock (s.context ctx)) (cases, []) := by
  have hnot : ¬ (!ctx.isTerminal newStatus row.tenantId (some row.caseTypeId)) = true := by
    rw [h]
    decide
  rw [propagateStatusChange, hrow]
  exact if_neg hnot

theorem propagate_of_open {row : CaseInstance} (hrow : cases caseId = some row)
    (h : ctx.isTerminal newStatus row.tenantId (some row.caseTypeId) = false) :
    propagateStatusChange (s.context ctx) cases caseId newStatus = (cases, []) := by
  rw [propagateStatusChange, hrow]
  exact if_pos (congrArg (!·) h)

theorem released_of_propagate {d : Db} (hs : Released ctx s)
    (hwrote : Wrote s.db.cases cases caseId newStatus) (hentered : Entered ctx s caseId newStatus)
    (htold : Told ctx s caseId newStatus Relationship.tells) (hopens : OpensOpen ctx s caseId)
    (hdb : d.cases = (propagateStatusChange (s.context ctx) cases caseId newStatus).1) :
    Released ctx { s with db := d } := by
  intro parentId hstuck
  have hstuck_of (hp : waits cases parentId)
      (hclosed : ∀ id, isOpen ctx cases id → isOpen ctx d.cases id) :=
    stuck_of_wrote (p := parentId) (d := { d with cases := cases }) hs hwrote hentered htold
      ⟨hp, hstuck.2.1, fun rel hrel hsource hbinds =>
        eq_false_of_ne_true fun hx => by
          have hfalse := hstuck.2.2 rel hrel hsource hbinds
          rw [hclosed _ hx] at hfalse
          cases hfalse⟩
  obtain ⟨row, row', hrow, hnew, htenant, htype, hcases⟩ := id hwrote
  have hself : cases caseId = some row' := by
    rw [hcases]
    exact Function.update_self ..
  have hother {id : Uuid} (hne : id ≠ caseId) : cases id = s.db.cases id := by
    rw [hcases]
    exact Function.update_of_ne hne ..
  cases hterminal : ctx.isTerminal newStatus row'.tenantId (some row'.caseTypeId) with
  | false =>
    rw [propagate_of_open hself hterminal] at hdb
    have hp : waits cases parentId := by
      have hwaits := hstuck.1
      rwa [hdb] at hwaits
    obtain ⟨hclosed, -⟩ := hstuck_of hp fun id hx => by rwa [hdb]
    rw [opensWith, hrow, Option.any_some, if_pos rfl, ← htenant, ← htype, hterminal] at hclosed
    cases hclosed
  | true =>
    rw [propagate_of_terminal hself hterminal] at hdb
    have hopen : ∀ id r, childSource (s.heard caseId) id → cases id = some r →
        r.status = "pending_subcase" →
        ctx.isTerminal "open" r.tenantId (some r.caseTypeId) = false := by
      intro id r hsource hr hstatus
      obtain ⟨rel, hrel, rfl, hchild⟩ := hsource
      obtain ⟨hrel, hp⟩ := List.mem_filter.mp hrel
      obtain ⟨htarget, hpropagates⟩ := Bool.and_eq_true_iff.mp hp
      have hopen := hopens rel hrel (of_decide_eq_true htarget)
        (Bool.and_eq_true_iff.mpr ⟨hpropagates, decide_eq_true hchild⟩)
      by_cases hid : rel.sourceCaseId = caseId
      · rw [hid, hself] at hr
        cases hr
        have hopen := hopen (Or.inr hid)
        rw [hid, opensWith, hrow] at hopen
        rw [htenant, htype]
        simpa using hopen
      · rw [hother hid] at hr
        have hopen := hopen (Or.inl (waits_iff.mpr ⟨r, hr, hstatus⟩))
        rw [opensWith, hr] at hopen
        simpa using hopen
    have hall := foldl_opened (s.context ctx) (cases, []) (s.heard caseId)
    rw [← hdb] at hall
    have hp : waits cases parentId := by
      have hwaits := hstuck.1
      rwa [waits, hall.eq_of_waits hstuck.1] at hwaits
    obtain ⟨-, rel, hrel, rfl, htarget, htells⟩ := hstuck_of hp fun id hx => hall.isOpen hopen hx
    obtain ⟨hpropagates, hchild⟩ := Bool.and_eq_true_iff.mp htells
    have hin : rel ∈ s.heard caseId :=
      List.mem_filter.mpr ⟨hrel, Bool.and_eq_true_iff.mpr ⟨decide_eq_true htarget, hpropagates⟩⟩
    have hwaits := hstuck.1
    have hresolved : allRequiredTargetsResolved (s.context ctx) d.cases rel.sourceCaseId = true :=
      allRequired_iff.mpr hstuck.2.2
    rw [hdb] at hwaits hresolved
    have hfalse := foldl_released hopen hin (of_decide_eq_true hchild) hwaits
    rw [hresolved] at hfalse
    cases hfalse

def scopeOf (row : CaseInstance) : Option Uuid × Uuid := (row.tenantId, row.caseTypeId)

theorem setColumn_scope {value : Value} {set : String → CaseInstance → CaseInstance} {db' : Db}
    (hset : ∀ text row, scopeOf (set text row) = scopeOf row)
    (h : setColumn ctx db caseId value set = .ok db') (id : Uuid) :
    (db'.cases id).map scopeOf = (db.cases id).map scopeOf := by
  rcases setColumn_ok h with ⟨-, rfl⟩ | ⟨text, -, rfl⟩
  · rfl
  · by_cases hid : id = caseId
    · rw [hid, update_self, Option.map_map]
      exact congrArg (Option.map · (db.cases caseId)) (funext (hset text))
    · rw [update_of_ne hid]

theorem executeAction_scope {action : Dict} {db' : Db} {result : ActionResult}
    (h : executeAction ctx db caseId action = .ok (db', result)) (id : Uuid) :
    (db'.cases id).map scopeOf = (db.cases id).map scopeOf := by
  have hcolumn {value : Value} {set : String → CaseInstance → CaseInstance} {result' : ActionResult}
      (h : (setColumn ctx db caseId value set).map (·, result') = .ok (db', result))
      (hset : ∀ text row, scopeOf (set text row) = scopeOf row) :
      (db'.cases id).map scopeOf = (db.cases id).map scopeOf := by
    obtain ⟨db₁, hdb₁, hpair⟩ := exists_of_map_ok h
    cases hpair
    exact setColumn_scope hset hdb₁ id
  simp only [executeAction] at h
  split_ifs at h
  · cases h
    rfl
  · cases h
    rfl
  · exact hcolumn h fun _ _ => rfl
  · exact hcolumn h fun _ _ => rfl
  · cases h
    rfl
  · cases h
    rfl

theorem applyLevel_scope {actions : List Dict} {db' : Db} {results : List ActionResult}
    (h : applyLevel ctx db caseId actions = .ok (db', results)) (id : Uuid) :
    (db'.cases id).map scopeOf = (db.cases id).map scopeOf := by
  induction actions generalizing db results with
  | nil =>
    cases h
    rfl
  | cons action actions ih =>
    rw [applyLevel] at h
    obtain ⟨⟨db₁, result⟩, h₁, h⟩ := exists_of_bind_ok h
    obtain ⟨⟨db₂, rest⟩, h₂, h⟩ := exists_of_bind_ok h
    obtain rfl : db₂ = db' := congrArg Prod.fst (Except.ok.inj h)
    exact (ih h₂).trans (executeAction_scope h₁ id)

/-! ## one operation -/

variable (R ctx) in
theorem onCaseCreated_cases {d : Db} {row : CaseInstance} (hrow : d.cases caseId = some row)
    (caseTypeId : Uuid) (tenantId : Option Uuid) :
    ∃ b, (onCaseCreated R ctx d caseId caseTypeId tenantId).cases =
      Function.update d.cases caseId (some { row with eventSourced := b }) := by
  have hself : d.cases = Function.update d.cases caseId (some { row with eventSourced :=
      row.eventSourced }) := by
    rw [← hrow, Function.update_eq_self]
  rw [onCaseCreated]
  split
  · exact ⟨row.eventSourced, hself⟩
  · rw [hrow]
    dsimp only
    split
    · exact ⟨row.eventSourced, hself⟩
    · refine ⟨true, ?_⟩
      rw [record_keeps_cases, Db.update, hrow]
      rfl

def createdRow (caseTypeId : Uuid) (priority : String) (createdBy : Option String)
    (tenantId : Option Uuid) : CaseInstance :=
  { caseTypeId := caseTypeId, priority := priority, createdBy := createdBy, tenantId := tenantId }

variable (R) in
theorem create_released (hs : Released ctx s) (caseTypeId : Uuid) (priority : String)
    (createdBy : Option String) (tenantId : Option Uuid) :
    Released ctx (s.perform R ctx (.create caseId caseTypeId priority createdBy tenantId)) := by
  by_cases hrow : (s.db.cases caseId).isSome
  · have hsame : s.perform R ctx (.create caseId caseTypeId priority createdBy tenantId) = s := by
      rw [Links.perform, CaseEvents.perform, if_pos hrow]
      rfl
    rw [hsame]
    exact hs
  · have hnone : s.db.cases caseId = none := by simpa using hrow
    have hperform : s.perform R ctx (.create caseId caseTypeId priority createdBy tenantId) =
        { s with
          db := onCaseCreated R (s.context ctx)
            ⟨Function.update s.db.cases caseId
              (some (createdRow caseTypeId priority createdBy tenantId)), s.db.events⟩
            caseId caseTypeId tenantId } := by
      rw [Links.perform, CaseEvents.perform, if_neg hrow]
      rfl
    obtain ⟨b, hcases⟩ := onCaseCreated_cases R (s.context ctx)
      (d := ⟨Function.update s.db.cases caseId
        (some (createdRow caseTypeId priority createdBy tenantId)), s.db.events⟩)
      (Function.update_self ..) caseTypeId tenantId
    rw [hperform]
    intro parentId hstuck
    obtain ⟨hwaits, hbound, hclosed⟩ := hstuck
    rw [hcases, Function.update_idem] at hwaits hclosed
    have hne : parentId ≠ caseId := by
      intro he
      rw [he, waits, Function.update_self] at hwaits
      exact absurd hwaits (by simp [createdRow])
    rw [waits, Function.update_of_ne hne] at hwaits
    refine hs parentId ⟨hwaits, hbound, fun rel hrel hsource hbinds => ?_⟩
    by_cases htarget : rel.targetCaseId = caseId
    · rw [htarget, isOpen, hnone]
      rfl
    · have hfalse := hclosed rel hrel hsource hbinds
      rwa [isOpen, Function.update_of_ne htarget] at hfalse

variable (R) in
theorem changeStatus_released (hs : Released ctx s)
    (h : Noticed ctx s (.changeStatus caseId newStatus)) :
    Released ctx (s.perform R ctx (.changeStatus caseId newStatus)) := by
  cases hrow : s.db.cases caseId with
  | none =>
    have hsame : s.perform R ctx (.changeStatus caseId newStatus) = s := by
      show { s with db := applyStatusChange R (s.context ctx) s.db caseId newStatus } = s
      rw [applyStatusChange, hrow]
    rw [hsame]
    exact hs
  | some row =>
    obtain ⟨hentered, htold, hopens⟩ := h (Option.isSome_iff_exists.mpr ⟨row, hrow⟩)
    have hwrote : Wrote s.db.cases
        (s.db.update caseId fun row => { row with status := newStatus }).cases caseId newStatus := by
      refine ⟨row, { row with status := newStatus }, hrow, rfl, rfl, rfl, ?_⟩
      rw [Db.update, hrow]
      rfl
    refine released_of_propagate (d := applyStatusChange R (s.context ctx) s.db caseId newStatus) hs
      hwrote hentered htold hopens ?_
    rw [applyStatusChange, hrow]
    show (propagateStatusChange (s.context ctx) (record R _ _ caseId _ _).cases caseId newStatus).1 = _
    rw [record_keeps_cases]

variable (R) in
theorem escalate_released {actions : List Dict} (hs : Released ctx s)
    (h : Noticed ctx s (.escalate caseId actions)) :
    Released ctx (s.perform R ctx (.escalate caseId actions)) := by
  cases hlevel : applyLevel (s.context ctx) s.db caseId actions with
  | error e =>
    have hsame : s.perform R ctx (.escalate caseId actions) = s := by
      rw [Links.perform, CaseEvents.perform, hlevel]
      rfl
    rw [hsame]
    exact hs
  | ok result =>
    obtain ⟨db, results⟩ := result
    have hdb : s.perform R ctx (.escalate caseId actions) = { s with db := db } := by
      rw [Links.perform, CaseEvents.perform, hlevel]
      rfl
    rw [hdb]
    cases hrow : s.db.cases caseId with
    | none =>
      rw [applyLevel_absent hrow hlevel]
      exact hs
    | some row =>
      obtain ⟨haccepts, values, rfl, hvalues⟩ := applyLevel_ok hrow hlevel
      obtain ⟨hentered, htold⟩ := h row hrow haccepts
      have hscope := applyLevel_scope hlevel caseId
      rw [update_self, hrow] at hscope
      obtain ⟨htenant, htype⟩ := Prod.mk.inj (Option.some.inj hscope)
      have hwrote : Wrote s.db.cases (s.db.update caseId values).cases caseId
          (lastStatus ctx actions row.status) := by
        refine ⟨row, values row, hrow, hvalues.status row, htenant, htype, ?_⟩
        rw [Db.update, hrow]
        rfl
      intro parentId hstuck
      obtain ⟨-, rel, -, -, -, hfalse⟩ := stuck_of_wrote hs hwrote hentered htold hstuck
      cases hfalse

theorem relate_released {rel : Relationship} (hs : Released ctx s)
    (h : Noticed ctx s (.relate rel)) : Released ctx (linkStep R ctx s (.relate rel)) := by
  rw [linkStep]
  split
  · next htakes =>
    intro parentId hstuck
    obtain ⟨hwaits, hbound, hclosed⟩ := hstuck
    have hold : ∀ rel' ∈ s.relationships, rel'.sourceCaseId = parentId → rel'.binds →
        isOpen ctx s.db.cases rel'.targetCaseId = false :=
      fun rel' hrel' => hclosed rel' (List.mem_append_left _ hrel')
    by_cases hnew : rel.sourceCaseId = parentId ∧ rel.binds
    · obtain ⟨rfl, hbinds⟩ := hnew
      rcases h htakes hwaits hbinds with hopen | hx
      · rw [hclosed rel (by simp) rfl hbinds] at hopen
        cases hopen
      · exact hs _ ⟨hwaits, hx, hold⟩
    · obtain ⟨rel', hrel', hsource, hbinds⟩ := hbound
      rcases List.mem_append.mp hrel' with hrel' | hrel'
      · exact hs _ ⟨hwaits, ⟨rel', hrel', hsource, hbinds⟩, hold⟩
      · rw [List.mem_singleton.mp hrel'] at hsource hbinds
        exact hnew ⟨hsource, hbinds⟩
  · exact hs

theorem unrelate_released {sourceCaseId targetCaseId : Uuid} {relationshipType : String}
    (hs : Released ctx s) (h : Noticed ctx s (.unrelate sourceCaseId targetCaseId relationshipType)) :
    Released ctx (linkStep R ctx s (.unrelate sourceCaseId targetCaseId relationshipType)) := by
  intro parentId hstuck
  obtain ⟨hwaits, ⟨rel, hin, hsource, hbinds⟩, hclosed⟩ := hstuck
  obtain ⟨hrel, hkey⟩ := List.mem_filter.mp hin
  by_cases hp : parentId = sourceCaseId
  · subst hp
    obtain ⟨rel', hrel', hsource', hbinds', hkey', hopen⟩ :=
      h hwaits rel hrel hsource hbinds (of_decide_eq_true hkey)
    have hfalse := hclosed rel' (List.mem_filter.mpr ⟨hrel', decide_eq_true hkey'⟩) hsource' hbinds'
    rw [show isOpen ctx s.db.cases rel'.targetCaseId = false from hfalse] at hopen
    cases hopen
  · refine hs parentId ⟨hwaits, ⟨rel, hrel, hsource, hbinds⟩, fun rel' hrel' hsource' hbinds' => ?_⟩
    refine hclosed rel' (List.mem_filter.mpr ⟨hrel', decide_eq_true fun hkey' => ?_⟩) hsource' hbinds'
    exact hp (hsource'.symm.trans (congrArg Prod.fst hkey'))

theorem linkStep_released (hs : Released ctx s) {op : LinkOp} (h : Noticed ctx s op) :
    Released ctx (linkStep R ctx s op) := by
  cases op with
  | create caseId caseTypeId priority createdBy tenantId =>
    exact create_released R hs caseTypeId priority createdBy tenantId
  | relate rel => exact relate_released hs h
  | unrelate sourceCaseId targetCaseId relationshipType => exact unrelate_released hs h
  | changeStatus caseId newStatus => exact changeStatus_released R hs h
  | escalate caseId actions => exact escalate_released R hs h

/-! ## runs -/

theorem run_released (R : Runtime) (ctx : Context) {ops : List LinkOp}
    (h : Along (linkStep R ctx) (Noticed ctx) {} ops) {before after : List LinkOp}
    (hops : ops = before ++ after) : Released ctx (exec (linkStep R ctx) {} before) := by
  rw [hops, along_append] at h
  refine exec_inv (I := Released ctx) (fun s op hs hop => linkStep_released hs hop) ?_ h.1
  intro parentId hstuck
  obtain ⟨hwaits, -⟩ := hstuck
  cases hwaits

/-- `resolved` ends a case -/
def plainContext : Context where
  eventSourcingEnabled := false
  resolveSet := fun _ _ name => some ⟨name = "resolved", true, []⟩
  relationships := []
  bind := fun _ => none
  resolveDynamicTarget := fun _ _ _ => ("", "")

def waiting : List LinkOp :=
  [.create 1 9 "medium" none none, .create 2 9 "medium" none none,
    .relate ⟨1, 2, "child", true, true⟩, .changeStatus 1 "pending_subcase"]

theorem run_released_resolved :
    Released plainContext (exec (linkStep .silent plainContext) {}
      (waiting ++ [.changeStatus 2 "resolved"])) := by
  refine run_released .silent plainContext ?_
    (List.append_nil (waiting ++ [.changeStatus 2 "resolved"])).symm
  refine ⟨trivial, trivial, ?_, fun _ => ?_, fun _ => ?_, trivial⟩
  · intro _ hwaits
    exact absurd hwaits (by decide +kernel)
  · exact ⟨by decide +kernel, by decide +kernel, by decide +kernel⟩
  · exact ⟨by decide +kernel, by decide +kernel, by decide +kernel⟩

def escalated : List LinkOp :=
  waiting ++ [.escalate 2 [[("type", .str "status"), ("set", .str "resolved")]]]

theorem escalated_child_unnoticed :
    ¬ ∀ before after, escalated = before ++ after →
      Released plainContext (exec (linkStep .silent plainContext) {} before) := by
  intro h
  refine h escalated [] (List.append_nil _).symm 1 ⟨by decide +kernel, ?_, ?_⟩
  · exact ⟨⟨1, 2, "child", true, true⟩, by decide +kernel, rfl, rfl⟩
  · intro rel hrel _ _
    have hall : ∀ rel ∈ (exec (linkStep .silent plainContext) {} escalated).relationships,
        isOpen plainContext (exec (linkStep .silent plainContext) {} escalated).db.cases
          rel.targetCaseId = false := by decide +kernel
    exact hall rel hrel

end CaseEvents
