import Velaris.LegalHold.Holds
import Velaris.Py.Runtime

/-!
# Retention policies

`case_service/compliance/retention.py`: the rows a policy reaches, and what it makes of them.

* `resolvedCases`, `auditLog`, `eventLog`, `securityEvents`   the handlers, one for each resource;
* `anonymizeCases`   a case keeps its row and loses its identity;
* `applyPolicy`   one policy, which may be refused;
* `runAll`   every policy, and the tenants a default is to leave alone.

Times are microseconds since 1970.  `Failure.raised` is what no caller of a policy handles: the
transaction of the whole run is rolled back.
-/

namespace Retention
open Py LegalHold

/-! ## tables -/

structure Case where
  id : Uuid
  tenantId : Option Uuid
  status : String
  updatedAt : Int
  isDeleted : Bool := false
  data : Dict := []
  createdBy : Option String := none
  portalSubmitterEmail : Option String := none
  portalSubmitterName : Option String := none
  portalTrackingToken : Option Uuid := none

/-- `case_audit_log` -/
structure AuditRow where
  id : Uuid
  caseId : Uuid
  actorId : Option String := none
  timestamp : Int

/-- `case_event_log` -/
structure EventRow where
  id : Uuid
  caseId : Uuid
  timestamp : Int
deriving DecidableEq

structure SecurityEvent where
  id : Uuid
  userId : Option String := none
  timestamp : Int

inductive TextTable where
  | documentChunks
  | documentIndexJobs
  | caseMessages
  | channelMessages
  | channelConversations
  /-- the messages of the conversations about the case -/
  | copilotMessages
deriving DecidableEq

/-- a row of one of these tables; the body of an index job is the key of what waits in storage -/
structure CaseText where
  table : TextTable
  caseId : Uuid
  body : String
  author : Option String := none
  status : String := ""

structure Policy where
  /-- empty or absent in a platform default -/
  tenantId : Option String
  resourceType : String
  retentionDays : Int
  action : String := "archive"
  enabled : Bool := true
deriving DecidableEq

structure Tenant where
  id : Uuid
  slug : String

structure Db where
  cases : List Case := []
  auditLog : List AuditRow := []
  eventLog : List EventRow := []
  securityEvents : List SecurityEvent := []
  texts : List CaseText := []
  /-- the cases that a row of another table refers to, where the case is not to go before it -/
  referenced : List Uuid := []
  holds : Option (List Hold) := some []
  tenants : List Tenant := []

inductive Failure where
  /-- `RetentionError` -/
  | refused (message : String)
  | raised

structure Config where
  now : Int
  /-- `retention_anonymize_case_text` -/
  textEnabled : Bool := false
  /-- the fields that a person has confirmed to be personal -/
  confirmedPiiKeys : List String := []
  lower : String → String := id

variable (R : Runtime) (cfg : Config) (db : Db)

/-! ## which rows -/

def microsPerDay : Int := 86400000000

/-- the first moment a `datetime` can be -/
def minTime : Int := -62135596800000000

def cutoffOf (now days : Int) : Int := now - max 1 days * microsPerDay

def cutoff (days : Int) : Except Failure Int :=
  if cutoffOf cfg.now days < minTime then .error .raised else .ok (cutoffOf cfg.now days)

def terminal : List String := ["closed", "resolved", "cancelled", "rejected"]

def notOverridden (exclude : List Uuid) (tenantId : Option Uuid) : Bool :=
  tenantId.all (· ∉ exclude)

def inScope (scope : Option Uuid) (exclude : List Uuid) (tenantId : Option Uuid) : Bool :=
  match scope with
  | some tenant => tenantId = some tenant
  | none => notOverridden exclude tenantId

def dueCase (cutoff : Int) (scope : Option Uuid) (exclude : List Uuid) (c : Case) : Bool :=
  c.status ∈ terminal && c.updatedAt < cutoff && inScope scope exclude c.tenantId &&
    !held db.holds c.id

/-- the rows of the two logs of the cases; neither has a tenant to be told by -/
def dueLogged (cutoff : Int) (caseId : Uuid) (timestamp : Int) : Bool :=
  timestamp < cutoff && !held db.holds caseId

def heldDue (cutoff : Int) (scope : Option Uuid) (exclude : List Uuid) : Nat :=
  (db.cases.filter fun c =>
    c.status ∈ terminal && c.updatedAt < cutoff && inScope scope exclude c.tenantId &&
      held db.holds c.id).length

/-! ## the handlers -/

/-- a handler leaves the tables, and how many rows it deleted or would delete -/
def Handler := Int → Bool → Option Uuid → List Uuid → Except Failure (Db × Nat)

/-- the foreign keys of a case: the events and messages of a case go with it, and it does not go
while an audit row is left -/
def deleteCases (gone : List Uuid) : Except Failure Db :=
  if gone.any fun id => db.auditLog.any (·.caseId = id) || id ∈ db.referenced then .error .raised
  else
    .ok { db with
      cases := db.cases.filter (·.id ∉ gone)
      eventLog := db.eventLog.filter (·.caseId ∉ gone)
      texts := db.texts.filter fun t => t.table ≠ .caseMessages || t.caseId ∉ gone }

def resolvedCases : Handler := fun cutoff apply scope exclude =>
  let due := db.cases.filter (dueCase db cutoff scope exclude)
  if apply then (deleteCases db (due.map (·.id))).map fun db' => (db', due.length)
  else .ok (db, due.length)

def auditLog : Handler := fun cutoff apply _ _ =>
  let due := fun r : AuditRow => dueLogged db cutoff r.caseId r.timestamp
  let count := (db.auditLog.filter due).length
  .ok (if apply then { db with auditLog := db.auditLog.filter (!due ·) } else db, count)

/-- `CaseEventLogModel` has no column `tenant_id` either, so neither filter is set -/
def eventLog : Handler := fun cutoff apply _ _ =>
  let due := fun e : EventRow => dueLogged db cutoff e.caseId e.timestamp
  let count := (db.eventLog.filter due).length
  .ok (if apply then { db with eventLog := db.eventLog.filter (!due ·) } else db, count)

def securityEvents : Handler := fun cutoff apply _ _ =>
  let due := fun e : SecurityEvent => decide (e.timestamp < cutoff)
  let count := (db.securityEvents.filter due).length
  .ok (if apply then { db with securityEvents := db.securityEvents.filter (!due ·) } else db, count)

def handlers (resourceType : String) : Option Handler :=
  match resourceType with
  | "resolved_cases" => some (resolvedCases db)
  | "audit_log" => some (auditLog db)
  | "event_log" => some (eventLog db)
  | "security_events" => some (securityEvents db)
  | _ => none

def unscopable : List String := ["audit_log", "security_events"]

/-! ## anonymizing -/

def anonMarker : String := "_anonymized_at"
def anonTextMarker : String := "_anonymized_text_at"

def alwaysStrip : List String :=
  ["_raw_payload", "submitter_email", "portal_submitter_email", "submitter_name", "email", "phone"]

def Case.marked (marker : String) (c : Case) : Bool := (Dict.get c.data marker).truthy

def Case.hasSubmitter (c : Case) : Bool :=
  c.portalSubmitterEmail.any (· ≠ "") || c.portalSubmitterName.any (· ≠ "") ||
    c.portalTrackingToken.isSome

def Case.isPending (c : Case) : Bool := !c.marked anonMarker
def Case.isBackfill (c : Case) : Bool := c.marked anonMarker && c.hasSubmitter
def Case.isTextDue (c : Case) : Bool := cfg.textEnabled && !c.marked anonTextMarker

/-- `_strip_submitter_columns` -/
def Case.stripped (c : Case) : Case :=
  { c with portalSubmitterEmail := none, portalSubmitterName := none, portalTrackingToken := none }

def Case.anonymized (c : Case) : Case :=
  let strip := alwaysStrip ++ cfg.confirmedPiiKeys
  let data := c.data.map fun item =>
    if cfg.lower item.1 ∈ strip then (item.1, Value.str "[anonymized]") else item
  { c.stripped with
    data := Dict.set anonMarker (.str (R.isoformat cfg.now)) data
    createdBy := some "anonymized" }

def Case.textAnonymized (c : Case) : Case :=
  { c with data := Dict.set anonTextMarker (.str (R.isoformat cfg.now)) c.data }

/-- what becomes of a case that is reached; a row that is written is updated now -/
def Case.scrubbed (c : Case) : Case :=
  let c' :=
    if c.isPending then c.anonymized R cfg else if c.isBackfill then c.stripped else c
  let c'' := if c.isTextDue cfg then c'.textAnonymized R cfg else c'
  { c'' with updatedAt := cfg.now }

def Case.isTouched (c : Case) : Bool := c.isPending || c.isBackfill || c.isTextDue cfg

/-- `_delete_chunks_for` and `_discard_queued_uploads_for` -/
def dropDerived (ids : List Uuid) (texts : List CaseText) : List CaseText :=
  (texts.filter fun t => t.table ≠ .documentChunks || t.caseId ∉ ids).map fun t =>
    if t.table = .documentIndexJobs && t.caseId ∈ ids && t.status = "pending" && t.body ≠ "" then
      { t with status := "cancelled" }
    else t

def CaseText.blanked (t : CaseText) : CaseText :=
  match t.table with
  | .caseMessages => { t with body := "[anonymized]", author := none }
  | .channelMessages | .copilotMessages => { t with body := "[anonymized]" }
  | .channelConversations => { t with body := "[anonymized]", status := "closed" }
  | .documentChunks | .documentIndexJobs => t

def anonymizeCaseText (ids : List Uuid) (texts : List CaseText) : List CaseText :=
  texts.map fun t => if t.caseId ∈ ids then t.blanked else t

def anonymizeCases (cutoff : Int) (apply : Bool) (scope : Option Uuid) (exclude : List Uuid) :
    Db × Nat :=
  let due := dueCase db cutoff scope exclude
  let rows := db.cases.filter due
  let count := (rows.filter (·.isTouched cfg)).length
  if apply then
    let scrubbed := (rows.filter fun c => c.isPending || c.isBackfill).map (·.id)
    let textDue := (rows.filter (·.isTextDue cfg)).map (·.id)
    ({ db with
      cases := db.cases.map fun c => if due c && c.isTouched cfg then c.scrubbed R cfg else c
      texts := anonymizeCaseText textDue (dropDerived scrubbed db.texts) }, count)
  else (db, count)

/-! ## policies -/

/-- `identity.resolve_tenant`, of which the id is read -/
def resolveTenant (token : String) : Option Uuid :=
  let key := String.ofList (strip token.toList)
  if key = "" then none
  else
    (db.tenants.find? fun tenant =>
      match uuid key with
      | some id => tenant.id = id
      | none => tenant.slug = key).map (·.id)

/-- the tenant of a policy, which is none in a platform default -/
def Policy.scoped (p : Policy) : Option String := p.tenantId.filter (· ≠ "")

/-- `_resolve_tenant_key`, where the policy names a tenant -/
def scopeOf (p : Policy) : Except Failure (Option Uuid) :=
  match p.scoped with
  | none => .ok none
  | some token =>
    match resolveTenant db token with
    | some tenant => .ok (some tenant)
    | none =>
      .error (.refused ("policy names tenant " ++ R.repr (.str token) ++
        ", which resolves to no tenant. Refusing rather than running unscoped."))

structure PolicyResult where
  resourceType : String
  tenantId : Option String
  action : String
  retentionDays : Int
  applied : Bool := false
  rows : Nat := 0
  skipped : Option String := none
  effectiveDays : Option Int := none
  cutoff : Option Int := none
  excludedTenants : Option Nat := none
  heldByLegalHold : Option Nat := none
  error : Option String := none

def Policy.result (p : Policy) : PolicyResult :=
  { resourceType := p.resourceType
    tenantId := p.tenantId
    action := p.action
    retentionDays := p.retentionDays }

def Policy.report (p : Policy) (cutoff : Int) (apply : Bool) (scope : Option Uuid)
    (exclude : List Uuid) (db' : Db) (rows : Nat) : PolicyResult :=
  { p.result with
    applied := apply
    rows := rows
    effectiveDays := some p.retentionDays
    cutoff := some cutoff
    excludedTenants := if scope.isNone then some exclude.length else none
    heldByLegalHold :=
      if p.resourceType = "resolved_cases" then some (heldDue db' cutoff scope exclude) else none }

def applyPolicy (p : Policy) (apply : Bool) (exclude : List Uuid) :
    Except Failure (Db × PolicyResult) :=
  if !p.enabled then .ok (db, { p.result with skipped := some "policy disabled" })
  else if p.action ∉ ["archive", "delete", "anonymize"] then
    .error (.refused ("unknown retention action " ++ R.repr (.str p.action)))
  else if p.action = "anonymize" then
    if p.resourceType ≠ "resolved_cases" then
      .error (.refused ("'anonymize' applies to resolved_cases only — " ++
        R.repr (.str p.resourceType) ++
        " has no identity to strip, so anonymising it would be a no-op dressed as an action"))
    else do
      let cutoff ← cutoff cfg p.retentionDays
      let scope ← scopeOf R db p
      let (db', rows) := anonymizeCases R cfg db cutoff apply scope exclude
      .ok (db', p.report cutoff apply scope exclude db' rows)
  else if p.scoped.isSome && p.resourceType ∈ unscopable then
    .error (.refused (R.repr (.str p.resourceType) ++ " has no tenant column, so a policy scoped to " ++
      R.repr (.str (p.tenantId.getD "")) ++ " cannot be honoured. Running it anyway would delete " ++
      "every tenant's rows while claiming to be scoped — refused."))
  else
    match handlers db p.resourceType with
    | none =>
      .error (.refused ("no handler for resource type " ++ R.repr (.str p.resourceType) ++
        " — refusing, because a policy that quietly does nothing still looks enforced"))
    | some handler => do
      let cutoff ← cutoff cfg p.retentionDays
      let scope ← scopeOf R db p
      let (db', rows) ← handler cutoff apply scope exclude
      .ok (db', p.report cutoff apply scope exclude db' rows)

/-- the tenants that have a policy of their own for the resource, in a run of all tenants -/
def overrides (tenantId : Option String) (policies : List Policy) (resourceType : String) :
    List Uuid :=
  if tenantId.isSome then []
  else
    policies.filterMap fun p =>
      if p.enabled && p.resourceType = resourceType then p.scoped.bind (resolveTenant db) else none

def runPolicies (apply : Bool) (exclude : String → List Uuid) :
    List Policy → Db → Except Failure (Db × List PolicyResult)
  | [], db => .ok (db, [])
  | p :: ps, db =>
    match applyPolicy R cfg db p apply (exclude p.resourceType) with
    | .error .raised => .error .raised
    | .error (.refused message) =>
      (runPolicies apply exclude ps db).map fun (db', results) =>
        (db', { p.result with error := some message } :: results)
    | .ok (db', result) =>
      (runPolicies apply exclude ps db').map fun (db'', results) => (db'', result :: results)

def runAll (policies : List Policy) (apply : Bool) (tenantId : Option String) :
    Except Failure (Db × List PolicyResult) :=
  let selected := policies.filter fun p => tenantId.all fun t => p.tenantId = some t
  runPolicies R cfg apply (overrides db tenantId policies) selected db

/-- `POST /retention-policies/run` with `confirm`, or the scheduled run, which has no user -/
def runRetention (policies : List Policy) (userTenant : Option String) :
    Except Failure (Db × List PolicyResult) :=
  runAll R cfg db policies true (userTenant.filter (· ≠ ""))

end Retention
