import Velaris.TenantTransfer.Scrub
import Velaris.Py.Runtime
import Mathlib.Data.List.Sort

/-!
# Accepting a transfer

`case_service/case_actions/tenant_transfer.py`: `accept`, pass by pass over the tables that hang
off a case.

* `retagRows`, `scrubRows`   what moves is tagged anew, and its people are replaced;
* `closeRows`, `severs`, `detachRow`   what is closed, severed and left behind with the source;
* `transcript`   the note of the threads that are left behind;
* `manifestOf`, `entry`   what the case's history is told of it;
* `accept`   the checks and the passes in order.

A row is its table, its two keys and its other columns.  What `blockers` and the policy engine
answer is given with the call, and so are the ids and the moment of the rows that are added.
-/

namespace TenantTransfer
open Py

/-! ## tables -/

structure Row where
  table : String
  id : Uuid
  caseId : Option Uuid
  columns : Dict

structure Case where
  id : Uuid
  tenantId : Option Uuid
  parentCaseId : Option Uuid := none
  portalTrackingToken : Option Uuid := none
  createdBy : Option String := none
  columns : Dict := []

structure Tenant where
  id : Uuid
  slug : String
  name : String

/-- a row of `case_tenant_transfers` -/
structure Transfer where
  id : Uuid
  caseId : Uuid
  sourceTenantId : Uuid
  destinationTenantId : Uuid
  state : String
  activeKey : Option String := none
  reason : String := ""
  approvedBy : Option String := none
  decidedBy : Option String := none
  decidedAt : Option Int := none
  decisionNote : Option String := none
  manifest : Value := .none
  completedAt : Option Int := none

structure Db where
  cases : List Case := []
  rows : List Row := []
  tenants : List Tenant := []
  transfers : List Transfer := []

structure TransferError where
  message : String
  code : String
  statusCode : Nat := 409

/-! ## the classification -/

def moveRetag : List String :=
  ["case_outcomes", "doc_extraction_jobs", "document_index_jobs", "documents",
    "hxnexus_document_chunks", "sms_messages"]

def moveWithCase : List String :=
  ["case_audit_log", "case_event_log", "case_events", "case_instance_variables", "case_messages",
    "case_step_completions", "document_verifications"]

def severTables : List String :=
  ["portal_customer_cases", "portal_submission_refs", "hxwork_sprint_cards",
    "content_rollout_cases", "content_rollout_shadow"]

def rehome : List String := ["channel_conversations", "channel_messages", "email_messages"]

def personColumns : String → List String
  | "case_audit_log" | "case_events" | "case_event_log" => ["actor_id"]
  | "case_messages" => ["author", "author_name"]
  | "case_instance_variables" => ["written_by"]
  | "case_step_completions" => ["completed_by"]
  | "case_outcomes" => ["labelled_by"]
  | "document_index_jobs" => ["requested_by"]
  | "document_verifications" => ["verified_by"]
  | "documents" => ["uploaded_by", "deleted_by"]
  | _ => []

def personJsonColumns : String → List String
  | "case_audit_log" => ["details"]
  | "case_events" => ["data"]
  | "case_event_log" => ["metadata"]
  | _ => []

/-- the row hangs off the case, in a table of the list -/
def Row.of (tables : List String) (caseId : Uuid) (r : Row) : Bool :=
  r.table ∈ tables && r.caseId = some caseId

def Row.moves (caseId : Uuid) (r : Row) : Bool := r.of (moveRetag ++ moveWithCase) caseId

/-! ## the passes -/

section
variable (R : Runtime) (hexdigest : String → String) (strftime : Int → String)
  (source destination : Tenant) (caseId : Uuid)

def retag : Value → Value
  | .str text =>
    if text = source.slug then .str destination.slug
    else if text.toList.map Char.toLower = (uuidText source.id).toList.map Char.toLower then
      .str (uuidText destination.id)
    else .str text
  | value => value

def odd (r : Row) : Bool :=
  r.of moveRetag caseId &&
    match Dict.get r.columns "tenant_id" with
    | .str text => Value.same (retag source destination (.str text)) (.str text)
    | _ => false

def retagRow (r : Row) : Row :=
  if r.of moveRetag caseId then
    { r with
      columns := r.columns.map fun item =>
        if item.1 = "tenant_id" then (item.1, retag source destination item.2) else item }
  else r

/-- `pseudonym`, of a column that holds a text or nothing -/
def pseudonymCell : Value → Value
  | .str actor =>
    match pseudonym hexdigest source.id (some actor) with
    | some stand => .str stand
    | none => .none
  | value => value

def scrubCell (table : String) (item : String × Value) : String × Value :=
  if item.1 ∈ personColumns table then (item.1, pseudonymCell hexdigest source item.2)
  else if item.1 ∈ personJsonColumns table then (item.1, scrubDetails item.2)
  else item

def scrubRow (r : Row) : Row :=
  if r.caseId = some caseId then
    { r with columns := r.columns.map (scrubCell hexdigest source r.table) }
  else r

def statusOf (r : Row) : String :=
  match Dict.get r.columns "status" with
  | .str status => status
  | _ => ""

def closes (r : Row) : Bool :=
  (r.of ["case_assignments"] caseId && statusOf r = "active") ||
    (r.of ["case_sla_instances"] caseId &&
      statusOf r ∈ ["on_track", "at_risk", "paused", "breached"])

def closeRow (r : Row) : Row :=
  if closes caseId r then { r with columns := Dict.set "status" (.str "cancelled") r.columns }
  else r

/-- a text column that holds the case's id -/
def pointsAt (column : String) (r : Row) : Bool :=
  match Dict.get r.columns column with
  | .str text => text = uuidText caseId
  | _ => false

def isKind (column kind : String) (r : Row) : Bool :=
  match Dict.get r.columns column with
  | .str text => text = kind
  | _ => false

def severs (r : Row) : Bool :=
  r.of severTables caseId ||
    (r.table = "case_relationships" &&
      (pointsAt caseId "source_case_id" r || pointsAt caseId "target_case_id" r)) ||
    (r.table = "customer_links" && isKind "object_kind" "case" r && pointsAt caseId "object_id" r) ||
    (r.table = "hxguard_tuples" && isKind "object_type" "case" r && pointsAt caseId "object_id" r)

def detachRow (r : Row) : Row :=
  if r.of rehome caseId then
    { r with
      caseId := none
      columns :=
        if r.table = "channel_conversations" then
          Dict.set "assigned_to" .none (Dict.set "status" (.str "closed") r.columns)
        else r.columns }
  else r

def clearConnector (r : Row) : Row :=
  if r.of ["sms_messages"] caseId then
    { r with
      columns := r.columns.map fun item =>
        if item.1 = "connector_id" then (item.1, .none) else item }
  else r

/-! ## the transcript -/

def TRANSCRIPT_MAX_CHARS : Nat := 200000

def textOf (r : Row) (column : String) : Option String :=
  match Dict.get r.columns column with
  | .str text => some text
  | _ => none

def timeOf (r : Row) (column : String) : Option Int :=
  match Dict.get r.columns column with
  | .int time => some time
  | _ => none

/-- `m.received_at or m.sent_at or m.created_at` -/
def happenedAt (r : Row) : Option Int :=
  ((timeOf r "received_at").or (timeOf r "sent_at")).or (timeOf r "created_at")

/-- `_when` -/
def whenText : Option Int → String
  | some time => strftime time
  | none => "—"

def isInbound (r : Row) : Bool := isKind "direction" "inbound" r

def messageText (r : Row) : String :=
  let who :=
    if isInbound r then "customer (" ++ R.str (Dict.get r.columns "peer_address") ++ ")"
    else "agent " ++ (pseudonym hexdigest source.id (textOf r "author")).getD "—"
  "[" ++ whenText strftime (happenedAt r) ++ "] " ++
    String.ofList ((((textOf r "channel").filter (· ≠ "")).getD "channel").toList.map Char.toUpper) ++
    " · " ++ who ++ "\n" ++ (textOf r "body").getD ""

def addresses (r : Row) : List String :=
  match Dict.get r.columns "to_addresses" with
  | .list items => items.map R.str
  | _ => []

def emailText (r : Row) : String :=
  let head :=
    if isInbound r then "from " ++ R.str (Dict.get r.columns "from_address")
    else "to " ++ ", ".intercalate (addresses R r)
  "[" ++ whenText strftime (happenedAt r) ++ "] EMAIL · " ++
    R.str (Dict.get r.columns "direction") ++ " · " ++ head ++ "\nSubject: " ++
    (textOf r "subject").getD "" ++ "\n" ++ (textOf r "body_text").getD ""

def transcriptEntries (rows : List Row) : List (Option Int × String) :=
  (rows.filter (Row.of ["channel_messages"] caseId)).map
      (fun r => (happenedAt r, messageText R hexdigest strftime source r)) ++
    (rows.filter (Row.of ["email_messages"] caseId)).map
      fun r => (happenedAt r, emailText R strftime r)

def notAfter (a b : Option Int × String) : Prop :=
  match a.1, b.1 with
  | _, none => True
  | none, some _ => False
  | some s, some t => s ≤ t

instance : DecidableRel notAfter := fun a b => by
  unfold notAfter
  split <;> infer_instance

def transcriptBody (transferId : Uuid) (entries : List (Option Int × String)) : String :=
  let body := "\n\n".intercalate ((entries.insertionSort notAfter).map (·.2))
  let cut := body.length > TRANSCRIPT_MAX_CHARS
  let header := "Customer communication history carried from " ++ source.name ++
    " when this case moved here (transfer " ++ uuidText transferId ++
    "). Read-only: the live threads stay on " ++ source.name ++
    "'s own channels. Reply from this tenant's channels." ++
    if cut then " Truncated at 200000 characters." else ""
  header ++ "\n\n" ++
    if cut then String.ofList (body.toList.take TRANSCRIPT_MAX_CHARS) else body

/-- the note on the case, where there are threads to tell of -/
def transcript (transferId noteId : Uuid) (rows : List Row) : List Row :=
  let entries := transcriptEntries R hexdigest strftime source caseId rows
  if entries.isEmpty then []
  else
    [{ table := "case_messages"
       id := noteId
       caseId := some caseId
       columns :=
        [("author", .str "velaris:tenant-transfer"), ("author_name", .str "Tenant transfer"),
          ("body", .str (transcriptBody source transferId entries)),
          ("portal_visible", .bool false)] }]

/-! ## the history -/

/-- an entry of the manifest, where there is something to count -/
def noted (name : String) (count : Nat) : Dict := if count = 0 then [] else [(name, .int count)]

def countOf (rows : List Row) (table : String) : Nat :=
  (rows.filter (Row.of [table] caseId)).length

/-- `manifest`, without what stayed -/
def manifestOf (s : Db) (case : Case) : Value :=
  let count := countOf caseId s.rows
  .dict
    [("moved", .dict
        ((moveRetag ++ moveWithCase.erase "case_audit_log" ++ ["case_audit_log"]).flatMap fun name =>
          noted name (count name))),
      ("closed", .dict
        (noted "case_assignments"
            (s.rows.filter fun r => r.table = "case_assignments" && closes caseId r).length ++
          noted "case_sla_instances"
            (s.rows.filter fun r => r.table = "case_sla_instances" && closes caseId r).length)),
      ("severed", .dict
        (noted "case_relationships"
            (s.rows.filter fun r => r.table = "case_relationships" && severs caseId r).length ++
          (severTables.flatMap fun name => noted name (count name)) ++
          noted "child_cases" (s.cases.filter (·.parentCaseId = some caseId)).length ++
          noted "parent_case" (if case.parentCaseId.isSome then 1 else 0) ++
          noted "portal_tracking_token" (if case.portalTrackingToken.isSome then 1 else 0) ++
          noted "customer_links"
            (s.rows.filter fun r => r.table = "customer_links" && severs caseId r).length ++
          noted "hxguard_tuples"
            (s.rows.filter fun r => r.table = "hxguard_tuples" && severs caseId r).length)),
      ("rehomed", .dict
        ((rehome.flatMap fun name => noted name (count name)) ++
          noted "transcript_entries" (count "channel_messages" + count "email_messages")))]

def nullable : Option String → Value
  | some text => .str text
  | none => .none

/-- the row of the case's history that tells of the transfer -/
def entry (t : Transfer) (actor : String) (manifest : Value) (entryId : Uuid) (now : Int) : Row where
  table := "case_audit_log"
  id := entryId
  caseId := some t.caseId
  columns :=
    [("action", .str "tenant_transferred"),
      ("actor_id", nullable (pseudonym hexdigest source.id t.approvedBy)),
      ("actor_type", .str "user"),
      ("details", .dict
        [("transfer_id", .str (uuidText t.id)), ("reason", .str t.reason),
          ("from_tenant", .str source.name), ("accepted_by", .str actor), ("manifest", manifest)]),
      ("timestamp", .int now), ("previous_value", .none), ("new_value", .none)]

/-! ## accepting -/

/-- what `accept` is called with, and finds besides the tables -/
structure Call where
  transferId : Uuid
  actor : String
  note : Option String := none
  /-- what `blockers` returns -/
  why : List String := []
  policyAllows : Bool := true
  noteId : Uuid
  entryId : Uuid
  now : Int

def moveRows (rows : List Row) : List Row :=
  ((((rows.map (retagRow source destination caseId)).map
    (scrubRow hexdigest source caseId)).map (closeRow caseId)).filter (!severs caseId ·)).map
      (detachRow caseId)

def moveCase (case : Case) (c : Case) : Case :=
  if c.id = case.id then
    { c with
      tenantId := some destination.id
      parentCaseId := none
      portalTrackingToken := none
      createdBy := pseudonym hexdigest source.id c.createdBy }
  else if c.parentCaseId = some case.id then { c with parentCaseId := none }
  else c

def Transfer.completed (t : Transfer) (call : Call) (manifest : Value) : Transfer :=
  { t with
    state := "completed"
    activeKey := none
    decidedBy := some call.actor
    decidedAt := some call.now
    decisionNote := call.note
    manifest := manifest
    completedAt := some call.now }

def blocked (message : String) : TransferError :=
  { message, code := "VEL-CASE-TENANT-TRANSFER-BLOCKED-409" }

def moved (t : Transfer) (case : Case) (call : Call) (s : Db) : Db :=
  let manifest := manifestOf caseId s case
  { s with
    cases := s.cases.map (moveCase hexdigest source destination case)
    rows := (moveRows hexdigest source destination caseId s.rows ++
      transcript R hexdigest strftime source caseId t.id call.noteId s.rows).map
        (clearConnector caseId) ++
      [entry hexdigest source t call.actor manifest call.entryId call.now]
    transfers := s.transfers.map fun t' => if t'.id = t.id then t'.completed call manifest else t' }

end

variable (R : Runtime) (hexdigest : String → String) (strftime : Int → String)

def tenant (s : Db) (id : Uuid) : Except TransferError Tenant :=
  match s.tenants.find? fun tenant => tenant.id = id with
  | some tenant => .ok tenant
  | none =>
    .error
      { message := "No such tenant.", code := "VEL-CASE-TENANT-TRANSFER-404", statusCode := 404 }

/-- `accept`, which raises before it writes -/
def accept (s : Db) (t : Transfer) (call : Call) : Except TransferError Db :=
  if t.state ≠ "pending" then
    .error
      { message := "This transfer is " ++ t.state ++ "."
        code := "VEL-CASE-TENANT-TRANSFER-STATE-409" }
  else
    match s.cases.find? fun c => c.id = t.caseId && c.tenantId = some t.sourceTenantId with
    | none => .error (blocked "The case is no longer where the request found it.")
    | some case => do
      let source ← tenant s t.sourceTenantId
      let destination ← tenant s t.destinationTenantId
      if call.why ≠ [] then
        .error (blocked ("This case can no longer move: " ++ "; ".intercalate call.why ++ "."))
      else if !call.policyAllows then
        .error
          { message := "Policy refuses moving this case to that tenant."
            code := "VEL-CASE-TENANT-TRANSFER-POLICY-403"
            statusCode := 403 }
      else
        match moveRetag.find? fun name =>
            s.rows.any fun r => r.table = name && odd source destination t.caseId r with
        | some name =>
          .error (blocked (name ++ " holds rows for this case tagged with another tenant; " ++
            "refusing rather than guessing whose they are."))
        | none => .ok (moved R hexdigest strftime source destination t.caseId t case call s)

end TenantTransfer
