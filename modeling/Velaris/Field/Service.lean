import Velaris.Py.Runtime
import Velaris.Py.Text
import Velaris.Base.Table
import Velaris.Handoff.Projection

/-!
# Field nodes, the hub's side

`case_service/field/service.py`: what a charter admits, the bundle a dispatch hands out, and the
sync that takes a node's stream back.

* `charterCases`, `inCharter`   the two readings of a charter;
* `dispatch`   the bundle, and the row the hub keeps of it;
* `mergeOne`   one event, with the reason it is refused or queued;
* `sync`   the whole stream, all or nothing.

Moments are microseconds.  An exception that no handler names ends a call without effect.

`velaris_shared/field/subchain.py`: the chain a field node keeps.  What is hashed of an event, how a
node builds its stream, and how the hub checks it; `none` stands for the exception `int` raises on a
`seq` it cannot read.
-/

namespace Field
open Py

abbrev Event := Dict

namespace Subchain

variable (R : Runtime)

def payloadHash (payload : Value) : String := R.sha256 (R.dumps payload)

/-- `int(event.get("seq") or 0)` -/
def seqOf (event : Event) : Option Int := ((event.get "seq").or (.int 0)).toInt

/-- `str(event.get(key) or "")` -/
def textOf (event : Event) (key : String) : String := R.str ((event.get key).or (.str ""))

def eventDocument (event : Event) : Option Value :=
  (seqOf event).map fun seq =>
    .dict [("seq", .int seq), ("case_id", .str (textOf R event "case_id")),
      ("kind", .str (textOf R event "kind")), ("target", event.get "target"),
      ("payload_sha256", .str (textOf R event "payload_sha256")),
      ("node_time", event.get "node_time")]

def link (document : Value) (prevHash : String) : String := R.sha256 (prevHash ++ R.dumps document)

def chainEvent (index : Nat) (prev : String) (raw : Event) : Option Event :=
  let seq := if raw.has "seq" then raw.get "seq" else .int index
  let event := Dict.set "seq" seq raw
  let hash := (event.get "payload_sha256").or (.str (payloadHash R (event.get "payload")))
  let event := Dict.set "prev_hash" (.str prev) (Dict.set "payload_sha256" hash event)
  (eventDocument R event).map fun document =>
    Dict.set "content_hash" (.str (link R document prev)) event

def buildFrom : Nat → String → List Event → Option (List Event)
  | _, _, [] => some []
  | index, prev, raw :: raws =>
    (chainEvent R index prev raw).bind fun event =>
      (buildFrom (index + 1) (R.str (event.get "content_hash")) raws).map (event :: ·)

def build (events : List Event) (genesis : String) : Option (List Event) :=
  buildFrom R 1 genesis events

/-- `(ok, head, reason)` -/
structure Verified where
  ok : Bool
  head : String
  reason : String
  deriving DecidableEq

def verifyFrom : Nat → String → List Event → Option Verified
  | _, prev, [] => some ⟨true, prev, ""⟩
  | expectedSeq, prev, event :: events =>
    (seqOf event).bind fun seq =>
      if seq ≠ expectedSeq then
        some ⟨false, prev, "sequence " ++ R.str (event.get "seq") ++ " arrived where " ++
          toString expectedSeq ++ " was expected — a gap is a lost stream, not a late one"⟩
      else if event.get "prev_hash" ≠ .str prev then
        some ⟨false, prev, "event " ++ toString expectedSeq ++
          " does not follow the one before it"⟩
      else
        (eventDocument R event).bind fun document =>
          let recomputed := link R document prev
          let declared := event.get "payload_sha256"
          if event.get "content_hash" ≠ .str recomputed then
            some ⟨false, prev, "event " ++ toString expectedSeq ++
              " no longer hashes to its own address"⟩
          else if !declared.truthy || declared ≠ .str (payloadHash R (event.get "payload")) then
            some ⟨false, prev, "event " ++ toString expectedSeq ++
              "'s payload does not match the hash the chain commits to"⟩
          else verifyFrom (expectedSeq + 1) recomputed events

def verify (events : List Event) (genesis : String) : Option Verified :=
  verifyFrom R 1 genesis events

end Subchain
end Field

namespace Field
open Py Base Handoff

def EVENT_KINDS : List String := ["variable_set", "note", "step_complete"]

def DEFAULT_OFFLINE_DENY : List String := ["export", "vault", "auth"]

def MAX_CHARTER_CASES : Int := 500

def REQUIRE_SIGNATURE_ENV : String := "VELARIS_FIELD_REQUIRE_SIGNATURE"

/-! ## tables -/

inductive NodeStatus where
  | active
  | suspended
  | shredOrdered
  | shredded
  deriving DecidableEq

def NodeStatus.text : NodeStatus → String
  | active => "active"
  | suspended => "suspended"
  | shredOrdered => "shred_ordered"
  | shredded => "shredded"

structure Node where
  id : Uuid
  tenantId : Uuid
  slug : String
  publicKey : String
  status : NodeStatus := .active
  charter : Dict
  ceiling : Ceiling := .internal
  snapshotMaxAgeHours : Int := 72
  subchainHead : Option String := none
  lastContactAt : Option Int := none
  shreddedAt : Option Int := none

inductive DispatchStatus where
  | issued
  | superseded
  | synced
  deriving DecidableEq

def DispatchStatus.text : DispatchStatus → String
  | issued => "issued"
  | superseded => "superseded"
  | synced => "synced"

/-- the names of the fields of a case that were sent, and of those that were not -/
structure Disclosure where
  caseId : String
  disclosed : List String
  withheld : List String

structure Dispatch where
  id : Uuid
  nodeId : Uuid
  tenantId : Uuid
  caseIds : List String
  projection : List Disclosure
  policySnapshot : Value
  policySnapshotHash : String
  offlineDeny : List String
  subchainGenesis : String
  status : DispatchStatus
  staleAfter : Int
  createdBy : Option String
  syncedAt : Option Int := none

inductive MergeState where
  | applied
  | conflict
  | rejected
  deriving DecidableEq

structure SyncEvent where
  nodeId : Uuid
  dispatchId : Uuid
  tenantId : Uuid
  caseId : Option Uuid
  seq : Int
  kind : String
  target : Value
  payload : Value
  payloadSha256 : String
  nodeTime : Option Int
  prevHash : String
  contentHash : String
  mergeState : MergeState
  conflictReason : Option String

structure NamespaceRow where
  ns : String
  defaultEffect : String
  maxMode : String

structure Hub where
  cases : List Case := []
  nodes : List Node := []
  dispatches : List Dispatch := []
  events : List SyncEvent := []
  /-- the confirmed findings of the tenant, where they can be read -/
  findings : Option (List PiiFinding) := some []
  namespaces : Option (List NamespaceRow) := some []

def Hub.putNode (hub : Hub) (node : Node) : Hub :=
  { hub with nodes := hub.nodes.map fun n => if n.id = node.id then node else n }

def Hub.putDispatch (hub : Hub) (row : Dispatch) : Hub :=
  { hub with dispatches := hub.dispatches.map fun d => if d.id = row.id then row else d }

/-- what the hub runs on: signatures, and the switch that requires them -/
structure Setup extends Runtime where
  verifies : (publicKey message signature : String) → Bool
  signatureRequired : Bool

variable (R : Setup)

def sha (payload : Value) : String := R.sha256 (R.dumps payload)

/-! ## the charter -/

/-- the elements of a list of the charter, `[]` where it has none -/
def charterList (node : Node) (key : String) : Option (List Value) :=
  ((node.charter.get key).or (.list [])).iter

/-- `uuid.UUID(str(v))`, for those that are not empty -/
def uuids (vs : List Value) : Option (List Uuid) :=
  (vs.filter (·.truthy)).mapM fun v => uuid (R.str v)

/-- `min(int(charter.get("max_cases") or 500), 500)`; the database refuses a negative limit -/
def charterCap (node : Node) : Option Nat :=
  (((node.charter.get "max_cases").or (.int MAX_CHARTER_CASES)).toInt).bind fun n =>
    if n < 0 then none else some (min n MAX_CHARTER_CASES).toNat

/-- the cases a charter admits, as `charter_cases` reads them -/
def charterCases (scan : Scan Case) (cases : List Case) (node : Node) : Option (List Case) :=
  let ofTenant := cases.filter fun c => c.tenantId = node.tenantId
  (charterList node "case_ids").bind fun given =>
    if given.any (·.truthy) then
      (uuids R given).bind fun ids => (charterCap node).map fun cap =>
        (scan.order (ofTenant.filter fun c => c.id ∈ ids)).take cap
    else
      (charterList node "case_type_ids").bind fun given => (uuids R given).bind fun types =>
        if types = [] then some []
        else (charterCap node).map fun cap =>
          (scan.order (ofTenant.filter fun c => c.caseTypeId ∈ types)).take cap

def inCharter (node : Node) (case : Case) : Option Bool :=
  (charterList node "case_ids").bind fun ids =>
    if ids ≠ [] then some (decide (uuidText case.id ∈ ids.map R.str))
    else (charterList node "case_type_ids").map fun types =>
      decide (uuidText case.caseTypeId ∈ types.map R.str)

/-! ## dispatch -/

inductive Failure where
  | fieldError (message : String)
  | uncaught

def policySnapshot (namespaces : Option (List NamespaceRow)) : Value :=
  let rows := (namespaces.getD []).insertionSort fun a b => a.ns ≤ b.ns
  .dict [("namespaces", .list (rows.map fun r =>
    .dict [("namespace", .str r.ns), ("default_effect", .str r.defaultEffect),
      ("max_mode", .str r.maxMode)]))]

structure Bundle where
  dispatchId : String
  slug : String
  ceiling : Ceiling
  cases : List CaseView
  policySnapshot : Value
  policySnapshotHash : String
  offlineDeny : List String
  subchainGenesis : String
  staleAfter : String
  note : String

structure Dispatched where
  hub : Hub
  row : Dispatch
  bundle : Bundle

structure DispatchArgs where
  policySnapshot : Option Value := none
  offlineDeny : Option (List String) := none
  createdBy : Option String := none

def dispatch (scan : Scan Case) (now : Int) (id : Uuid) (args : DispatchArgs) (hub : Hub)
    (node : Node) : Except Failure Dispatched :=
  if node.status ≠ .active then .error (.fieldError ("this node is " ++ node.status.text))
  else
    match charterCases R scan hub.cases node with
    | none => .error .uncaught
    | some cases =>
      let views := cases.map fun c => project R.toRuntime c node.ceiling hub.findings
      let snapshot := args.policySnapshot.getD (policySnapshot hub.namespaces)
      let asked := args.offlineDeny.getD []
      let deny := (if asked = [] then DEFAULT_OFFLINE_DENY else asked).dedup.insertionSort (· ≤ ·)
      let caseIds := cases.map fun c => uuidText c.id
      let genesis := sha R (.dict [("node", .str (uuidText node.id)),
        ("at", .str (R.isoformat now)),
        ("cases", .list ((caseIds.insertionSort (· ≤ ·)).map .str))])
      -- a dispatch that was never synced is superseded, not left open
      let older := hub.dispatches.map fun d =>
        if d.nodeId = node.id ∧ d.status = .issued then { d with status := .superseded } else d
      let row : Dispatch :=
        { id := id
          nodeId := node.id
          tenantId := node.tenantId
          caseIds := caseIds
          projection := views.map fun v =>
            ⟨v.case.caseId, v.disclosed, v.withheld.map (·.field)⟩
          policySnapshot := snapshot
          policySnapshotHash := sha R snapshot
          offlineDeny := deny
          subchainGenesis := genesis
          status := .issued
          staleAfter := now + seconds (3600 * node.snapshotMaxAgeHours)
          createdBy := args.createdBy }
      .ok
        { hub := { hub with dispatches := older ++ [row] }
          row := row
          bundle :=
            { dispatchId := uuidText id
              slug := node.slug
              ceiling := node.ceiling
              cases := views.map (·.case)
              policySnapshot := snapshot
              policySnapshotHash := row.policySnapshotHash
              offlineDeny := deny
              subchainGenesis := genesis
              staleAfter := R.isoformat row.staleAfter
              note := "Stop acting on this snapshot after `stale_after`. Work " ++
                "recorded later than that is refused at sync." } }

/-! ## merging one event -/

/-- `_parse_time`, of a value that came out of JSON -/
def parseTime (v : Value) : Option Int :=
  if v.truthy then
    R.fromisoformat (String.ofList ((R.str v).toList.flatMap fun c =>
      if c = 'Z' then "+00:00".toList else [c]))
  else none

/-- recorded after the node's policy snapshot went stale, as far as its time can be read -/
def late (staleAfter : Int) (event : Event) : Bool :=
  (parseTime R (event.get "node_time")).any fun t => staleAfter < t

/-- the case an event names: `uuid.UUID(str(case_id))`, where there is a `case_id` -/
def namedCase (event : Event) : Option (Option Uuid) :=
  let caseId := event.get "case_id"
  if caseId.truthy then (uuid (R.str caseId)).map some else some none

structure Merge where
  state : MergeState
  reason : Option String
  cases : List Case

/-- `(event.get("payload") or {}).get("value")` -/
def payloadValue (event : Event) : Option Value :=
  ((event.get "payload").or (.dict [])).dict?.map fun payload => payload.get "value"

/-- a `variable_set` on a case of the charter -/
def mergeVariable (cases : List Case) (case : Case) (event : Event) : Option Merge :=
  let target := Subchain.textOf R.toRuntime event "target"
  if target = "" then
    some ⟨.rejected, some "a variable_set with no target changes nothing", cases⟩
  else
    let data := case.data.dict?.getD []
    (payloadValue event).map fun fieldValue =>
      if (data.get target).eq fieldValue then ⟨.applied, none, cases⟩
      else if !data.has target then
        ⟨.applied, none, cases.map fun c =>
          if c.id = case.id then { c with data := .dict (Dict.set target fieldValue data) } else c⟩
      else
        let (category, special) := classify target []
        if special || category.getD "" ≠ "" then
          ⟨.conflict, some (R.repr (.str target) ++ " carries " ++
            (if category.getD "" ≠ "" then category.getD "" else "personal") ++
            " data and the hub and the node disagree. Nothing sensitive merges itself: a person " ++
            "decides whether the field value or the hub's is right."), cases⟩
        else
          ⟨.conflict, some (R.repr (.str target) ++ " was changed on both sides. The hub's " ++
            "value stands unless a person chooses the field's."), cases⟩

/-- `_merge_one`, with the cases it leaves -/
def mergeOne (node : Node) (staleAfter : Int) (cases : List Case) (event : Event) :
    Option Merge :=
  let kind := Subchain.textOf R.toRuntime event "kind"
  if kind ∉ EVENT_KINDS then
    some ⟨.rejected, some (R.repr (.str kind) ++ " is not something a node may record; a node " ++
      "reports what a worker did to a case, never what an administrator did to the platform"),
      cases⟩
  else
    (namedCase R event).bind fun caseId =>
      match caseId.bind fun id => cases.find? fun c => c.id = id with
      | none => some ⟨.rejected, some "the case this event is about does not exist here", cases⟩
      | some case =>
        (inCharter R node case).bind fun inside =>
          if !inside then
            some ⟨.rejected, some ("this case is outside the node's charter — it was never " ++
              "dispatched, so work about it cannot be accepted back"), cases⟩
          else if late R staleAfter event then
            some ⟨.rejected, some ("recorded after the node's policy snapshot went stale; a " ++
              "node that ignored its own lockout is the node whose work must not be trusted"), cases⟩
          else if kind = "note" ∨ kind = "step_complete" then some ⟨.applied, none, cases⟩
          else mergeVariable R cases case event

/-! ## sync -/

def syncEvent (node : Node) (row : Dispatch) (event : Event) (merged : Merge) :
    Option SyncEvent :=
  (namedCase R event).bind fun caseId => (Subchain.seqOf event).map fun seq =>
    { nodeId := node.id
      dispatchId := row.id
      tenantId := node.tenantId
      caseId := caseId
      seq := seq
      kind := R.str (event.get "kind")
      target := event.get "target"
      payload := event.get "payload"
      payloadSha256 := Subchain.textOf R.toRuntime event "payload_sha256"
      nodeTime := parseTime R (event.get "node_time")
      prevHash := R.str (event.get "prev_hash")
      contentHash := R.str (event.get "content_hash")
      mergeState := merged.state
      conflictReason := merged.reason }

/-- the loop: the cases as the events leave them, and the rows kept of the events -/
def mergeAll (node : Node) (row : Dispatch) :
    List Case → List Event → Option (List Case × List SyncEvent)
  | cases, [] => some (cases, [])
  | cases, event :: events =>
    (mergeOne R node row.staleAfter cases event).bind fun merged =>
      (syncEvent R node row event merged).bind fun kept =>
        (mergeAll node row merged.cases events).map fun (cases', rest) => (cases', kept :: rest)

structure SyncReport where
  verified : Bool
  head : String
  applied : Nat
  conflicts : Nat
  rejected : Nat
  shredOrdered : Bool
  note : String

/-- how a sync ends: refused with a message, with an exception, or done -/
inductive SyncOutcome where
  | refused (hub : Hub) (message : String)
  | uncaught
  | done (hub : Hub) (events : List SyncEvent) (report : SyncReport)

def SyncOutcome.kept? : SyncOutcome → Option (List SyncEvent)
  | .done _ kept _ => some kept
  | _ => none

def signatureProblem (node : Node) (head : String) (signature : Option String) : Option String :=
  match signature with
  | none =>
    if R.signatureRequired then
      some ("this hub requires every sync to be signed by the node's pinned key (" ++
        REQUIRE_SIGNATURE_ENV ++ "); a staff token alone cannot hand work back")
    else none
  | some signature =>
    if R.verifies node.publicKey head signature then none
    else some ("the sync is not signed by the node's pinned key: the signature does not verify " ++
      "against the pinned key")

def finish (now : Int) (hub : Hub) (node : Node) (row : Dispatch) (head : String)
    (cases : List Case) (kept : List SyncEvent) : SyncOutcome :=
  let shred := node.status = .shredOrdered
  let node' :=
    { node with
      subchainHead := some head
      lastContactAt := some now
      status := if shred then .shredded else node.status
      shreddedAt := if shred then some now else node.shreddedAt }
  let row' := { row with status := .synced, syncedAt := some now }
  let conflicts := kept.countP fun e => e.mergeState = .conflict
  .done
    ((({ hub with cases := cases, events := hub.events ++ kept }).putNode node').putDispatch row')
    kept
    { verified := true
      head := head
      applied := kept.countP fun e => e.mergeState = .applied
      conflicts := conflicts
      rejected := kept.countP fun e => e.mergeState = .rejected
      shredOrdered := shred
      note :=
        if shred then "Wipe the node now."
        else if conflicts ≠ 0 then
          "Conflicts are queued for a person; nothing sensitive merged itself."
        else "Converged." }

def sync (now : Int) (hub : Hub) (node : Node) (row : Dispatch) (events : List Event)
    (signature : Option String) : SyncOutcome :=
  if node.status = .shredded then .refused hub "this node has been shredded and may not sync"
  else if row.status ≠ .issued then
    .refused hub ("this dispatch is " ++ row.status.text ++ ", not outstanding. A dispatch is " ++
      "synced once — issue a new one for further work.")
  else
    match Subchain.verify R.toRuntime events row.subchainGenesis with
    | none => .uncaught
    | some ⟨false, _, reason⟩ =>
      .refused (hub.putNode { node with lastContactAt := some now })
        ("the node's log does not verify: " ++ reason)
    | some ⟨true, head, _⟩ =>
      match signatureProblem R node head signature with
      | some message => .refused hub message
      | none =>
        match mergeAll R node row hub.cases events with
        | none => .uncaught
        | some (cases, kept) => finish now hub node row head cases kept

end Field
