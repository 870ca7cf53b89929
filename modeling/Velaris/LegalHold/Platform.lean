import Velaris.Retention.Store
import Velaris.TenantTransfer.Scrub
import Velaris.Base.Run
import Velaris.Base.Table
import Velaris.Base.Traverse
import Mathlib.Data.List.Nodup

/-!
# What a legal hold is to freeze

The operations that ask for a hold before they write, each of them one transaction: it asks first,
and what it writes is seen when it commits.  Between the two, others commit.

* `Db`   the tables of the retention run, with assignments and replay results;
* `start`   what an operation asks, and what it has decided when it is let through;
* `commit`   what it writes;
* `step`   an operation starts, or one that was let through commits;
* `commit_start_retention`   where nothing comes between, a policy leaves what its handler leaves.

What an operation asks besides the hold is given with it.
-/

namespace LegalHold
open Py Base
open TenantTransfer (pseudonym anonId)
open Retention (Case AuditRow EventRow CaseText TextTable Config)

/-! ## tables -/

structure Assignment where
  id : Uuid
  caseId : Uuid
  assigneeId : Option String
  status : String := "active"

/-- a row of `replay_results` -/
structure ReplayResult where
  id : Uuid
  caseId : Uuid
  trace : Dict

structure Db extends Retention.Db where
  assignments : List Assignment := []
  replayResults : List ReplayResult := []

/-! ## operations -/

structure Transfer where
  caseId : Uuid
  sourceTenantId : Uuid
  destinationTenantId : Uuid
  approvedBy : Option String := none
  recordId : Uuid
  now : Int

structure Reach where
  cutoff : Int
  scope : Option Uuid := none
  exclude : List Uuid := []

inductive Request where
  | place (p : Placing) (recordId : Uuid)
  | release (r : Releasing) (recordId : Uuid)
  /-- `refused` by what `perform` asks besides the hold -/
  | delete (caseId : Uuid) (refused : Bool) (now : Int)
  | restore (caseId : Uuid) (refused : Bool) (now : Int)
  /-- `why` are the blockers besides the hold -/
  | transfer (t : Transfer) (why : List String)
  | anonymizeUserData (userId : String)
  | anonymizeCases (cfg : Config) (reach : Reach)
  | resolvedCases (reach : Reach)
  | auditLog (reach : Reach)
  | eventLog (reach : Reach)

inductive Pending where
  | place (row : Hold) (recordId : Uuid)
  | release (hold : Hold) (r : Releasing) (why : String) (recordId : Uuid)
  | delete (caseId : Uuid) (now : Int)
  | restore (caseId : Uuid) (now : Int)
  | transfer (t : Transfer)
  | anonymizeUserData (userId : String)
  | anonymizeCases (cfg : Config) (rows : List Case)
  | resolvedCases (ids : List Uuid)
  | auditLog (ids : List Uuid)
  | eventLog (ids : List Uuid)

/-! ## asking -/

/-- `user_held_cases`, which counts no case of an empty id -/
def userHeld (s : Db) (userId : String) : Bool :=
  userId ≠ "" &&
    (s.cases.any (fun c => c.createdBy = some userId && held s.holds c.id) ||
      s.auditLog.any (fun r => r.actorId = some userId && held s.holds r.caseId) ||
      s.assignments.any fun a => a.assigneeId = some userId && held s.holds a.caseId)

def dueCases (s : Db) (reach : Reach) : List Case :=
  s.cases.filter (Retention.dueCase s.toDb reach.cutoff reach.scope reach.exclude)

def dueAudit (s : Db) (reach : Reach) : List AuditRow :=
  s.auditLog.filter fun r => Retention.dueLogged s.toDb reach.cutoff r.caseId r.timestamp

def dueEvents (s : Db) (reach : Reach) : List EventRow :=
  s.eventLog.filter fun e => Retention.dueLogged s.toDb reach.cutoff e.caseId e.timestamp

/-- the hold that `place` is to add, where the case is free -/
def start (s : Db) : Request → Option Pending
  | .place p recordId =>
    match s.holds, clean p.matterRef p.reason with
    | some holds, .ok (matter, why) =>
      if held (some holds) p.caseId then none else some (.place (p.row matter why) recordId)
    | _, _ => none
  | .release r recordId =>
    (s.holds.bind fun holds => holds.find? fun h => h.id = r.holdId).bind fun h =>
      match clean h.matterRef r.reason with
      | .ok (_, why) => if h.status ≠ "active" then none else some (.release h r why recordId)
      | .error _ => none
  | .delete caseId refused now =>
    if refused || held s.holds caseId then none else some (.delete caseId now)
  | .restore caseId refused now => if refused then none else some (.restore caseId now)
  | .transfer t why =>
    if why = [] && t.sourceTenantId ≠ t.destinationTenantId && !held s.holds t.caseId &&
        s.cases.any fun c => c.id = t.caseId && c.tenantId = some t.sourceTenantId then
      some (.transfer t)
    else none
  | .anonymizeUserData userId => if userHeld s userId then none else some (.anonymizeUserData userId)
  | .anonymizeCases cfg reach =>
    some (.anonymizeCases cfg ((dueCases s reach).filter (·.isTouched cfg)))
  | .resolvedCases reach => some (.resolvedCases ((dueCases s reach).map (·.id)))
  | .auditLog reach => some (.auditLog ((dueAudit s reach).map (·.id)))
  | .eventLog reach => some (.eventLog ((dueEvents s reach).map (·.id)))

/-! ## writing -/

section
variable (R : Runtime) (hexdigest : String → String)

def record (s : Db) (row : AuditRow) : Db := { s with auditLog := s.auditLog ++ [row] }

def hide (caseId : Uuid) (deleting : Bool) (now : Int) (c : Case) : Case :=
  if c.id = caseId && c.isDeleted ≠ deleting then
    { c with isDeleted := deleting, updatedAt := now }
  else c

def moveCase (t : Transfer) (c : Case) : Case :=
  if c.id = t.caseId then
    { c with
      tenantId := some t.destinationTenantId
      createdBy := pseudonym hexdigest t.sourceTenantId c.createdBy
      portalTrackingToken := none
      updatedAt := t.now }
  else c

def moveAudit (t : Transfer) (r : AuditRow) : AuditRow :=
  if r.caseId = t.caseId then
    { r with actorId := pseudonym hexdigest t.sourceTenantId r.actorId }
  else r

/-- the threads of the source's channels stay with it, detached from the case -/
def moveTexts (t : Transfer) (texts : List CaseText) : List CaseText :=
  (texts.filter fun x =>
    x.caseId ≠ t.caseId || (x.table ≠ .channelMessages && x.table ≠ .channelConversations)).map
    fun x =>
      if x.caseId = t.caseId && x.table = .caseMessages then
        { x with author := pseudonym hexdigest t.sourceTenantId x.author }
      else x

def closeAssignment (t : Transfer) (a : Assignment) : Assignment :=
  if a.caseId = t.caseId && a.status = "active" then { a with status := "cancelled" } else a

def accept (t : Transfer) (s : Db) : Db :=
  record
    { s with
      cases := s.cases.map (moveCase hexdigest t)
      auditLog := s.auditLog.map (moveAudit hexdigest t)
      texts := moveTexts hexdigest t s.texts
      assignments := s.assignments.map (closeAssignment t) }
    { id := t.recordId
      caseId := t.caseId
      actorId := pseudonym hexdigest t.sourceTenantId t.approvedBy
      timestamp := t.now }

/-- the user, under the name that erasure gives -/
def renamed (userId : String) (person : Option String) : Option String :=
  if person = some userId then some (anonId hexdigest userId) else person

def scrubNode (userId : String) : Value → Value
  | .dict node =>
    if Dict.get node "actor_id" = .str userId then
      .dict (Dict.set "actor_id" (.str (anonId hexdigest userId)) node)
    else .dict node
  | node => node

def scrubNodes (userId : String) : Value → Value
  | .list nodes => .list (nodes.map (scrubNode hexdigest userId))
  | nodes => nodes

/-- a trace whose text does not name the user is passed over -/
def scrubTrace (userId : String) (res : ReplayResult) : ReplayResult :=
  if res.trace ≠ [] && substr userId.toList (R.str (.dict res.trace)).toList then
    { res with
      trace := res.trace.map fun item =>
        if item.1 = "nodes" then (item.1, scrubNodes hexdigest userId item.2) else item }
  else res

def anonymizeUser (userId : String) (s : Db) : Db :=
  { s with
    cases := s.cases.map fun c => { c with createdBy := renamed hexdigest userId c.createdBy }
    auditLog := s.auditLog.map fun r => { r with actorId := renamed hexdigest userId r.actorId }
    assignments := s.assignments.map fun a =>
      { a with assigneeId := renamed hexdigest userId a.assigneeId }
    replayResults := s.replayResults.map (scrubTrace R hexdigest userId) }

/-- the columns that are set on the case as it was read, in the row as it is -/
def writeBack (cfg : Config) (read c : Case) : Case :=
  let scrubbed := read.scrubbed R cfg
  let strip := read.isPending || read.isBackfill
  { c with
    data := if read.isPending || read.isTextDue cfg then scrubbed.data else c.data
    createdBy := if read.isPending then scrubbed.createdBy else c.createdBy
    portalSubmitterEmail := if strip then none else c.portalSubmitterEmail
    portalSubmitterName := if strip then none else c.portalSubmitterName
    portalTrackingToken := if strip then none else c.portalTrackingToken
    updatedAt := cfg.now }

def anonymizeRow (cfg : Config) (rows : List Case) (c : Case) : Case :=
  ((rows.find? fun read => read.id = c.id).map fun read => writeBack R cfg read c).getD c

def anonymizeRows (cfg : Config) (rows : List Case) (s : Db) : Db :=
  let scrubbed := (rows.filter fun c => c.isPending || c.isBackfill).map (·.id)
  let textDue := (rows.filter (·.isTextDue cfg)).map (·.id)
  { s with
    cases := s.cases.map (anonymizeRow R cfg rows)
    texts := Retention.anonymizeCaseText textDue (Retention.dropDerived scrubbed s.texts) }

def deleteCases (ids : List Uuid) (s : Db) : Db :=
  match Retention.deleteCases s.toDb ids with
  | .ok s' => { s with toDb := s' }
  | .error _ => s

/-- the keys of the table are checked as the row is flushed -/
def addHold (row : Hold) (recordId : Uuid) (s : Db) : Db :=
  match s.holds.map fun holds => insert holds row with
  | some (.ok holds) =>
    record { s with holds := some holds }
      { id := recordId, caseId := row.caseId, actorId := some row.placedBy
        timestamp := row.placedAt }
  | _ => s

def liftHold (hold : Hold) (r : Releasing) (why : String) (holds : List Hold) : List Hold :=
  holds.map fun h => if h.id = hold.id then h.releasedRow r why else h

def commit (s : Db) : Pending → Db
  | .place row recordId => addHold row recordId s
  | .release hold r why recordId =>
    record { s with holds := s.holds.map (liftHold hold r why) }
      { id := recordId, caseId := hold.caseId, actorId := some r.actor, timestamp := r.now }
  | .delete caseId now => { s with cases := s.cases.map (hide caseId true now) }
  | .restore caseId now => { s with cases := s.cases.map (hide caseId false now) }
  | .transfer t => accept hexdigest t s
  | .anonymizeUserData userId => anonymizeUser R hexdigest userId s
  | .anonymizeCases cfg rows => anonymizeRows R cfg rows s
  | .resolvedCases ids => deleteCases ids s
  | .auditLog ids => { s with auditLog := s.auditLog.filter (·.id ∉ ids) }
  | .eventLog ids => { s with eventLog := s.eventLog.filter (·.id ∉ ids) }

/-! ## runs -/

structure World where
  db : Db
  inFlight : List Pending := []

inductive Op where
  | start (request : Request)
  /-- the operation in this place, which is let go -/
  | commit (place : Nat)

def step (w : World) : Op → World
  | .start request =>
    match start w.db request with
    | some pending => { w with inFlight := w.inFlight ++ [pending] }
    | none => w
  | .commit place =>
    match w.inFlight[place]? with
    | some pending =>
      { db := commit R hexdigest w.db pending, inFlight := w.inFlight.eraseIdx place }
    | none => w

end

/-! ## an operation that commits as it asks -/

section
variable {R : Runtime} {hexdigest : String → String} {s : Db} {cfg : Config} {reach : Reach}

theorem writeBack_self (c : Case) : writeBack R cfg c c = c.scrubbed R cfg := by
  unfold writeBack Retention.Case.scrubbed
  cases hpending : c.isPending <;> cases hbackfill : c.isBackfill <;>
    cases htext : c.isTextDue cfg <;> rfl

theorem anonymizeRow_eq (hkeys : (s.cases.map (·.id)).Nodup) {c : Case} (hc : c ∈ s.cases) :
    anonymizeRow R cfg ((dueCases s reach).filter (·.isTouched cfg)) c =
      if Retention.dueCase s.toDb reach.cutoff reach.scope reach.exclude c && c.isTouched cfg then
        c.scrubbed R cfg
      else c := by
  have hsub : ((dueCases s reach).filter (·.isTouched cfg)).Sublist s.cases :=
    List.filter_sublist.trans List.filter_sublist
  unfold anonymizeRow
  split
  · rename_i hdue
    rw [Bool.and_eq_true] at hdue
    have hmem : c ∈ (dueCases s reach).filter (·.isTouched cfg) :=
      List.mem_filter.mpr ⟨List.mem_filter.mpr ⟨hc, hdue.1⟩, hdue.2⟩
    rw [(find?_key_iff (hkeys.sublist (hsub.map _))).mpr ⟨hmem, rfl⟩]
    exact writeBack_self c
  · rename_i hdue
    have hnone : (((dueCases s reach).filter (·.isTouched cfg)).find? fun read => read.id = c.id) =
        none := by
      apply find?_key_eq_none.mpr
      intro read hread hid
      obtain rfl := List.inj_on_of_nodup_map hkeys (hsub.subset hread) hc hid
      obtain ⟨hdue', htouched⟩ := List.mem_filter.mp hread
      exact hdue (by rw [(List.mem_filter.mp hdue').2, htouched]; rfl)
    rw [hnone]
    rfl

/-- nothing comes between, and the cases are those that `_anonymize_cases` leaves -/
theorem anonymizeRows_at_once (hkeys : (s.cases.map (·.id)).Nodup) :
    anonymizeRows R cfg ((dueCases s reach).filter (·.isTouched cfg)) s =
      { s with
        toDb := (Retention.anonymizeCases R cfg s.toDb reach.cutoff true reach.scope
          reach.exclude).1 } := by
  have hcases : s.cases.map (anonymizeRow R cfg ((dueCases s reach).filter (·.isTouched cfg))) =
      s.cases.map fun c =>
        if Retention.dueCase s.toDb reach.cutoff reach.scope reach.exclude c && c.isTouched cfg then
          c.scrubbed R cfg
        else c := List.map_congr_left fun c hc => anonymizeRow_eq hkeys hc
  have hsame : ∀ p : Case → Bool, (∀ c, p c = true → c.isTouched cfg = true) →
      (((dueCases s reach).filter (·.isTouched cfg)).filter p).map (·.id) =
        ((dueCases s reach).filter p).map (·.id) := by
    intro p hp
    rw [List.filter_filter, List.filter_congr fun c _ => ?_]
    cases hpc : p c with
    | false => rfl
    | true => rw [hp c hpc]; rfl
  unfold anonymizeRows
  rw [hcases, hsame, hsame]
  · rfl
  · intro c hc
    unfold Retention.Case.isTouched
    rw [hc, Bool.or_true]
  · intro c hc
    unfold Retention.Case.isTouched
    rw [hc, Bool.true_or]

theorem deleteCases_at_once {s' : Retention.Db} {count : Nat}
    (h : Retention.resolvedCases s.toDb reach.cutoff true reach.scope reach.exclude =
      .ok (s', count)) :
    deleteCases ((dueCases s reach).map (·.id)) s = { s with toDb := s' } := by
  unfold Retention.resolvedCases at h
  obtain ⟨s'', hdel, he⟩ := exists_of_map_ok h
  cases he
  unfold deleteCases dueCases
  rw [hdel]

theorem filter_at_once {α : Type} {key : α → Uuid} {due : α → Bool} {rows : List α}
    (hkeys : (rows.map key).Nodup) :
    rows.filter (fun r => key r ∉ (rows.filter due).map key) = rows.filter (!due ·) := by
  apply List.filter_congr
  intro r hr
  cases hdue : due r with
  | true =>
    have hmem : key r ∈ (rows.filter due).map key :=
      List.mem_map.mpr ⟨r, List.mem_filter.mpr ⟨hr, hdue⟩, rfl⟩
    exact decide_eq_false (not_not.mpr hmem)
  | false =>
    apply decide_eq_true
    intro hmem
    obtain ⟨r', hr', hid⟩ := List.mem_map.mp hmem
    obtain ⟨hin, hdue'⟩ := List.mem_filter.mp hr'
    obtain rfl := List.inj_on_of_nodup_map hkeys hin hr hid
    rw [hdue] at hdue'
    cases hdue'

/-- **A retention policy that commits as it asks leaves what its handler leaves.** -/
theorem commit_start_retention (hcases : (s.cases.map (·.id)).Nodup)
    (haudit : (s.auditLog.map (·.id)).Nodup) (hevents : (s.eventLog.map (·.id)).Nodup)
    {s' : Retention.Db} {count : Nat} :
    ((start s (.anonymizeCases cfg reach)).map (commit R hexdigest s) =
      some { s with
        toDb := (Retention.anonymizeCases R cfg s.toDb reach.cutoff true reach.scope
          reach.exclude).1 }) ∧
    (Retention.resolvedCases s.toDb reach.cutoff true reach.scope reach.exclude = .ok (s', count) →
      (start s (.resolvedCases reach)).map (commit R hexdigest s) =
        some { s with toDb := s' }) ∧
    (Retention.auditLog s.toDb reach.cutoff true reach.scope reach.exclude = .ok (s', count) →
      (start s (.auditLog reach)).map (commit R hexdigest s) = some { s with toDb := s' }) ∧
    (Retention.eventLog s.toDb reach.cutoff true reach.scope reach.exclude = .ok (s', count) →
      (start s (.eventLog reach)).map (commit R hexdigest s) = some { s with toDb := s' }) := by
  refine ⟨congrArg some (anonymizeRows_at_once hcases), fun h => ?_, fun h => ?_, fun h => ?_⟩
  · exact congrArg some (deleteCases_at_once h)
  · cases h
    show some { s with auditLog := s.auditLog.filter (·.id ∉ (dueAudit s reach).map AuditRow.id) } = _
    rw [dueAudit, filter_at_once haudit]
    rfl
  · cases h
    show some { s with eventLog := s.eventLog.filter (·.id ∉ (dueEvents s reach).map EventRow.id) } = _
    rw [dueEvents, filter_at_once hevents]
    rfl

end
end LegalHold
