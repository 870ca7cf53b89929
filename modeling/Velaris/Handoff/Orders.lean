import Velaris.Base.Table
import Velaris.Handoff.Projection
import Mathlib.Data.List.Dedup

/-!
# Work orders

`case_service/handoff/service.py`, with the routes that call it.

* `enrol`, `suspend`   the counterparties and their pinned keys;
* `externalAgentToken`, `issue`  one order for a case, carried by an agent token;
* `guard`   why a verb may not run;
* `accept`, `read`, `propose`, `handBack`   the verbs of the counterparty;
* `revoke`   the order taken away.
-/

namespace Handoff.Orders

open Py Base

/-! ## rows -/

inductive Standing where
  | active
  | suspended
  deriving DecidableEq

def Standing.text : Standing → String
  | active => "active"
  | suspended => "suspended"

structure Counterparty where
  id : Uuid
  tenantId : Uuid
  slug : String
  displayName : String
  publicKey : String
  keyId : String
  status : Standing
  maxCeiling : Ceiling
  notes : Option String
  createdBy : Option String

inductive Status where
  | issued
  | accepted
  | returned
  | revoked
  | expired
  deriving DecidableEq

def Status.text : Status → String
  | issued => "issued"
  | accepted => "accepted"
  | returned => "returned"
  | revoked => "revoked"
  | expired => "expired"

def OPEN_STATUSES : List Status := [.issued, .accepted]

inductive Verb where
  | accept
  | read
  | propose
  | handBack

def Verb.text : Verb → String
  | accept => "accept"
  | read => "read"
  | propose => "propose"
  | handBack => "return"

def ACTIONS : List String := [Verb.accept, .read, .propose, .handBack].map Verb.text

structure WorkOrder where
  id : Uuid
  tenantId : Uuid
  caseId : Uuid
  counterpartyId : Uuid
  agentId : Uuid
  ceiling : Ceiling
  allowedActions : List String
  obligations : Value
  status : Status := .issued
  expiresAt : Int
  tokenGrantId : Uuid
  orderSignature : Option String := none
  acceptanceSignature : Option String := none
  acceptedAt : Option Int := none
  returnedAt : Option Int := none
  returnSummary : Option String := none
  revokedAt : Option Int := none
  revokedReason : Option String := none
  createdBy : Option String := none

structure HandoffAction where
  workOrderId : Uuid
  kind : Verb
  allowed : Bool
  reason : Option String := none
  projection : Option (List String × List Withheld) := none
  payloadSha256 : Option String := none
  proposalId : Option Uuid := none

structure Variable where
  caseTypeId : Uuid
  nameSpace : String
  fullKey : String
  definitionStatus : String

/-- a proposal of the capture inbox, with what names its run -/
structure Proposal where
  id : Uuid
  tenantId : Uuid
  caseId : Uuid
  sourceRef : String
  requestedBy : String
  target : String
  currentValue : Value
  proposedValue : Value
  snippet : Option String

structure Agent where
  id : Uuid
  tenantId : Uuid
  slug : String
  kind : String
  displayName : String
  status : String
  capabilities : List String

structure Grant where
  id : Uuid
  agentId : Uuid
  tenantId : Uuid
  capabilities : List String
  audienceCaseId : Uuid
  label : String
  issuedBy : Option Uuid
  expiresAt : Int
  revoked : Bool := false
  revokedAt : Option Int := none

structure Db where
  counterparties : List Counterparty
  orders : List WorkOrder
  actions : List HandoffAction := []
  proposals : List Proposal := []
  cases : List Case
  caseVariables : List Variable := []
  /-- the confirmed findings of a tenant, where they can be read -/
  findings : String → Option (List PiiFinding) := fun _ => none
  agents : List Agent := []
  grants : List Grant := []

structure Setup extends Runtime where
  /-- `base64.b64decode(text, validate=True)` -/
  b64decode : String → Option (List UInt8)
  /-- `hashlib.sha256(raw).hexdigest()` -/
  sha256Raw : List UInt8 → String
  /-- `Ed25519PublicKey.from_public_bytes(key).verify(signature, message)` -/
  ed25519 : List UInt8 → List UInt8 → String → Bool
  /-- `_our_signature`, by a key derived from the tenant's -/
  sign : Uuid → String → Option String
  agentTokensEnabled : Bool
  agentTokenMaxTtlMinutes : Int
  agentTokenDefaultTtlMinutes : Int

variable (S : Setup)

def minutes (n : Int) : Int := seconds (60 * n)

def Setup.sha (payload : Value) : String := S.sha256 (S.dumps payload)

/-! ## counterparties -/

/-- `rank`, which refuses what it cannot name -/
def rankText (ceiling : String) : Except String Ceiling :=
  match [Ceiling.none, .internal, .personal].find? fun c => c.text = ceiling with
  | some c => .ok c
  | none =>
    .error (S.repr (.str ceiling) ++ " is not a ceiling this protocol can express; it is one " ++
      "of none, internal, personal. Article 9 data is never projected to an external party, so " ++
      "there is no ceiling that would admit it.")

def keyFingerprint (publicKey : String) : Except String String :=
  match S.b64decode publicKey with
  | none => .error "the public key is not valid base64"
  | some raw =>
    if raw.length ≠ 32 then
      .error ("an Ed25519 public key is 32 bytes; this one is " ++ toString raw.length ++
        ". A key of the wrong length is a key from the wrong algorithm, and accepting it would " ++
        "pin nothing.")
    else .ok (String.ofList ((S.sha256Raw raw).toList.take 32))

structure EnrolIn where
  slug : String
  displayName : String
  publicKey : String
  maxCeiling : String := "internal"
  notes : Option String := none

def Db.counterparty (db : Db) (tenant : Uuid) (slug : String) : Option Counterparty :=
  db.counterparties.find? fun c => c.tenantId = tenant ∧ c.slug = slug

def enrol (fresh tenant : Uuid) (body : EnrolIn) (createdBy : Option String) (db : Db) :
    Except String (Db × Counterparty) :=
  match rankText S body.maxCeiling with
  | .error e => .error e
  | .ok maxCeiling =>
    match keyFingerprint S body.publicKey with
    | .error e => .error e
    | .ok fingerprint =>
      if (db.counterparty tenant body.slug).isSome then
        .error ("a counterparty " ++ S.repr (.str body.slug) ++ " is already enrolled. " ++
          "Rotating a key is a deliberate act on the existing row, not a second enrolment — two " ++
          "rows for one organisation is how an old key stays live.")
      else if fresh ∈ db.counterparties.map (·.id) then .error "duplicate key"
      else
        let row : Counterparty :=
          { id := fresh, tenantId := tenant, slug := body.slug, displayName := body.displayName
            publicKey := body.publicKey, keyId := fingerprint, status := .active
            maxCeiling := maxCeiling, notes := body.notes, createdBy := createdBy }
        .ok ({ db with counterparties := db.counterparties ++ [row] }, row)

def Counterparty.suspended (c : Counterparty) : Counterparty := { c with status := .suspended }

/-- `suspend_counterparty` -/
def suspend (tenant : Uuid) (slug : String) (db : Db) : Db :=
  match db.counterparty tenant slug with
  | none => db
  | some row =>
    { db with
      counterparties := modify Counterparty.id row.id Counterparty.suspended db.counterparties }

def verifySignature (counterparty : Counterparty) (message signature : String) : Bool :=
  match S.b64decode counterparty.publicKey, S.b64decode signature with
  | some key, some sig => S.ed25519 key sig message
  | _, _ => false

/-! ## issuing -/

/-- `order_document`: what both signatures cover -/
def WorkOrder.document (order : WorkOrder) : Value :=
  .dict [("work_order_id", .str (uuidText order.id)), ("case_id", .str (uuidText order.caseId)),
    ("counterparty_id", .str (uuidText order.counterpartyId)),
    ("ceiling", .str order.ceiling.text),
    ("allowed_actions", .list (order.allowedActions.map .str)),
    ("expires_at", .str (S.isoformat order.expiresAt)), ("obligations", order.obligations)]

def WorkOrder.digest (order : WorkOrder) : String := S.sha (order.document S)

def TOKENABLE_KINDS : List String := ["internal", "marketplace", "external"]

def CAPABILITIES : List String := ["agent.propose", "agent.read_case"]

def ensureAgent (fresh : Uuid) (counterparty : Counterparty) (db : Db) : Db × Agent :=
  let slug := "handoff." ++ counterparty.slug
  match db.agents.find? fun a => a.tenantId = counterparty.tenantId ∧ a.slug = slug with
  | some agent => (db, agent)
  | none =>
    let agent : Agent :=
      { id := fresh, tenantId := counterparty.tenantId, slug := slug, kind := "external"
        displayName := if counterparty.displayName = "" then slug else counterparty.displayName
        status := "active", capabilities := CAPABILITIES }
    ({ db with agents := db.agents ++ [agent] }, agent)

def Setup.grantTtl (ttl : Int) : Int := if ttl = 0 then S.agentTokenDefaultTtlMinutes else ttl

/-- `_external_agent_token`: the agent of the counterparty, and its grant for the case -/
def externalAgentToken (now : Int) (freshAgent freshGrant : Uuid) (counterparty : Counterparty)
    (caseId : Uuid) (ttl : Int) (issuedBy : Option String) (db : Db) :
    Except String (Db × Agent × Grant) :=
  let (db, agent) := ensureAgent freshAgent counterparty db
  let beyond := CAPABILITIES.filter (· ∉ agent.capabilities)
  let ttl := S.grantTtl ttl
  if S.agentTokensEnabled = false then
    .error "agent tokens are disabled on this deployment (VELARIS_CASE_AGENT_TOKENS_ENABLED)"
  else if agent.status ≠ "active" then
    .error ("agent " ++ S.repr (.str agent.slug) ++ " is " ++ agent.status)
  else if agent.kind ∉ TOKENABLE_KINDS then
    .error ("tokens are not issued to " ++ S.repr (.str agent.kind) ++ " agents in this build")
  else if beyond ≠ [] then
    .error ("these capabilities are outside the agent's ceiling: " ++
      ", ".intercalate (beyond.map fun c => S.repr (.str c)))
  else if ttl ≤ 0 then .error "ttl_minutes must be positive"
  else if ttl > S.agentTokenMaxTtlMinutes then
    .error ("ttl_minutes exceeds this deployment's ceiling of " ++
      toString S.agentTokenMaxTtlMinutes)
  else if issuedBy.any fun issuer => (uuid issuer).isNone then .error "issuer id is not a valid id"
  else if freshGrant ∈ db.grants.map (·.id) then .error "duplicate key"
  else
    let grant : Grant :=
      { id := freshGrant, agentId := agent.id, tenantId := agent.tenantId
        capabilities := CAPABILITIES, audienceCaseId := caseId
        label := "handoff:" ++ counterparty.slug, issuedBy := issuedBy.bind uuid
        expiresAt := now + minutes ttl }
    .ok ({ db with grants := db.grants ++ [grant] }, agent, grant)

def DEFAULT_TTL_MINUTES : Int := 8 * 60
def MAX_TTL_MINUTES : Int := 24 * 60

structure IssueIn where
  caseId : Uuid
  counterparty : String
  ceiling : String := "internal"
  allowedActions : List String := ACTIONS
  ttlMinutes : Option Int := none
  obligations : Value := .none

structure Fresh where
  order : Uuid
  agent : Uuid
  grant : Uuid

def atMost (requested allowed : Ceiling) : Ceiling :=
  if requested.rank ≤ allowed.rank then requested else allowed

/-- `sorted({str(a) for a in allowed_actions})` -/
def verbsOf (allowedActions : List String) : List String :=
  allowedActions.dedup.insertionSort (· ≤ ·)

def ttlOf (ttlMinutes : Option Int) : Int :=
  match ttlMinutes with
  | none => DEFAULT_TTL_MINUTES
  | some ttl => if ttl = 0 then DEFAULT_TTL_MINUTES else ttl

def Db.openOrder (db : Db) (caseId : Uuid) : Option WorkOrder :=
  db.orders.find? fun o => o.caseId = caseId ∧ o.status ∈ OPEN_STATUSES

/-- `issue`, for a counterparty that was found -/
def issueTo (now : Int) (fresh : Fresh) (tenant : Uuid) (counterparty : Counterparty)
    (body : IssueIn) (createdBy : Option String) (db : Db) : Except String (Db × WorkOrder) :=
  let verbs := verbsOf body.allowedActions
  let unknown := verbs.filter (· ∉ ACTIONS)
  let ttl := ttlOf body.ttlMinutes
  if counterparty.status ≠ .active then
    .error (S.repr (.str counterparty.slug) ++ " is " ++ counterparty.status.text)
  else
    match rankText S body.ceiling with
    | .error e => .error e
    | .ok requested =>
      if unknown ≠ [] then .error ("unknown handoff verb(s): " ++ ", ".intercalate unknown)
      else if verbs = [] then .error "a work order with no verbs can do nothing"
      else if body.caseId ∉ db.cases.map (·.id) then .error "no such case"
      else if (db.openOrder body.caseId).isSome then
        .error ("this case already has an open work order; two external parties working one " ++
          "case at once is a merge conflict nobody asked for")
      else if ttl ≤ 0 ∨ ttl > MAX_TTL_MINUTES then
        .error ("ttl_minutes must be between 1 and " ++ toString MAX_TTL_MINUTES)
      else
        let granted := min ttl S.agentTokenMaxTtlMinutes
        match externalAgentToken S now fresh.agent fresh.grant counterparty body.caseId granted
          createdBy db with
        | .error e => .error e
        | .ok (db, agent, grant) =>
          if fresh.order ∈ db.orders.map (·.id) then .error "duplicate key"
          else
            let order : WorkOrder :=
              { id := fresh.order, tenantId := tenant, caseId := body.caseId
                counterpartyId := counterparty.id, agentId := agent.id
                ceiling := atMost requested counterparty.maxCeiling, allowedActions := verbs
                obligations := body.obligations, expiresAt := now + minutes granted
                tokenGrantId := grant.id, createdBy := createdBy }
            let signed := { order with orderSignature := S.sign tenant (order.digest S) }
            .ok ({ db with orders := db.orders ++ [signed] }, signed)

/-- `issue_order` -/
def issue (now : Int) (fresh : Fresh) (tenant : Uuid) (body : IssueIn) (createdBy : Option String)
    (db : Db) : Except String (Db × WorkOrder) :=
  match db.counterparty tenant body.counterparty with
  | none =>
    .error ("VEL-HANDOFF-404: no such counterparty. A case is never handed to a party nobody " ++
      "enrolled.")
  | some counterparty => issueTo S now fresh tenant counterparty body createdBy db

/-! ## what is written to an order -/

def WorkOrder.lapsed (o : WorkOrder) : WorkOrder := { o with status := .expired }

def WorkOrder.signed (o : WorkOrder) (now : Int) (signature : String) : WorkOrder :=
  { o with
    status := .accepted
    acceptedAt := some now
    acceptanceSignature := some signature }

def WorkOrder.handedBack (o : WorkOrder) (now : Int) (summary : String) : WorkOrder :=
  { o with
    status := .returned
    returnedAt := some now
    returnSummary := some (String.ofList (summary.toList.take 4000)) }

def WorkOrder.taken (o : WorkOrder) (now : Int) (reason : String) : WorkOrder :=
  { o with
    status := .revoked
    revokedAt := some now
    revokedReason := some reason }

/-! ## the verbs of the protocol -/

def Db.write (db : Db) (order : Uuid) (f : WorkOrder → WorkOrder) : Db :=
  { db with orders := modify WorkOrder.id order f db.orders }

def Db.record (db : Db) (action : HandoffAction) : Db :=
  { db with actions := db.actions ++ [action] }

def denied (order : WorkOrder) (verb : Verb) (reason : String) : HandoffAction :=
  { workOrderId := order.id, kind := verb, allowed := false, reason := some reason }

def Db.active (db : Db) (order : WorkOrder) : Option Counterparty :=
  (db.counterparties.find? fun c => c.id = order.counterpartyId).filter (·.status = .active)

/-- `guard`; the refusals are recorded -/
def guard (now : Int) (order : WorkOrder) (verb : Verb) (db : Db) :
    Db × Except String Counterparty :=
  match db.active order with
  | none =>
    (db.record (denied order verb "the counterparty is suspended or gone"),
      .error "this counterparty is not active")
  | some counterparty =>
    if order.status ∉ OPEN_STATUSES then
      (db.record (denied order verb ("the work order is " ++ order.status.text)),
        .error ("this work order is " ++ order.status.text))
    else if order.expiresAt ≤ now then
      ((db.write order.id WorkOrder.lapsed).record
          (denied order verb "the work order has expired"),
        .error "this work order has expired")
    else if verb.text ∉ order.allowedActions then
      (db.record
          (denied order verb (S.repr (.str verb.text) ++ " is not a verb this order permits")),
        .error ("this work order does not permit " ++ S.repr (.str verb.text)))
    else (db, .ok counterparty)

def UNVERIFIED : String := "the signature does not verify against the pinned key"

def accept (now : Int) (order : WorkOrder) (signature : String) (db : Db) :
    Db × Except String Unit :=
  match guard S now order .accept db with
  | (db, .error e) => (db, .error e)
  | (db, .ok counterparty) =>
    if order.status = .accepted then (db, .error "this work order has already been accepted")
    else if verifySignature S counterparty (order.digest S) signature = false then
      (db.record (denied order .accept UNVERIFIED), .error UNVERIFIED)
    else
      ((db.write order.id fun o => o.signed now signature).record
          { workOrderId := order.id, kind := .accept, allowed := true
            reason := some ("signature verified against pinned key " ++ counterparty.keyId) },
        .ok ())

def read (now : Int) (order : WorkOrder) (db : Db) : Db × Except String Projected :=
  match guard S now order .read db with
  | (db, .error e) => (db, .error e)
  | (db, .ok _) =>
    match db.cases.find? fun c => c.id = order.caseId with
    | none => (db, .error "the case no longer exists")
    | some case =>
      let view := project S.toRuntime case order.ceiling (db.findings (uuidText order.tenantId))
      (db.record
          { workOrderId := order.id, kind := .read, allowed := true
            projection := some (view.disclosed, view.withheld) },
        .ok view)

def BLOCKED_NAMESPACES : List String := ["velaris", "form", "portal", "legacy"]

def allowedTargets (db : Db) (case : Case) : List String :=
  (db.caseVariables.filter fun v =>
    v.caseTypeId = case.caseTypeId ∧ v.definitionStatus = "defined" ∧
      v.nameSpace ∉ BLOCKED_NAMESPACES).map (·.fullKey)

def captureBox (value : Value) : Value := .dict [("__v", value)]

def storeProposal (fresh : Uuid) (order : WorkOrder) (case : Case) (target : String) (value : Value)
    (note : Option String) : Proposal where
  id := fresh
  tenantId := order.tenantId
  caseId := case.id
  sourceRef := uuidText order.id
  requestedBy := "handoff:" ++ uuidText order.counterpartyId
  target := target
  -- what is known of a target has no value in it
  currentValue := captureBox .none
  proposedValue := captureBox value
  snippet := (note.map fun n => String.ofList (n.toList.take 2000)).filter (· ≠ "")

def propose (now : Int) (fresh : Uuid) (order : WorkOrder) (target : String) (value : Value)
    (note : Option String) (db : Db) : Db × Except String Proposal :=
  match guard S now order .propose db with
  | (db, .error e) => (db, .error e)
  | (db, .ok _) =>
    match db.cases.find? fun c => c.id = order.caseId with
    | none => (db, .error "the case no longer exists")
    | some case =>
      let payload := S.sha (.dict [("target", .str target), ("value", value)])
      if target ∉ allowedTargets db case then
        (db.record
            { denied order .propose
                (S.repr (.str target) ++ " is not a variable this case type defines") with
              payloadSha256 := some payload },
          .error (S.repr (.str target) ++ " is not one of the variables this case type defines; " ++
            "proposals are bounded by the case type, not by the sender"))
      else
        let proposal := storeProposal fresh order case target value note
        ({ db with proposals := db.proposals ++ [proposal] }.record
            { workOrderId := order.id, kind := .propose, allowed := true
              proposalId := some fresh, payloadSha256 := some payload },
          .ok proposal)

def Db.revokeToken (db : Db) (now : Int) (order : WorkOrder) : Db :=
  { db with
    grants := modify Grant.id order.tokenGrantId
      (fun g => if g.revoked then g else { g with revoked := true, revokedAt := some now })
      db.grants }

def handBack (now : Int) (order : WorkOrder) (summary : String) (db : Db) :
    Db × Except String Unit :=
  match guard S now order .handBack db with
  | (db, .error e) => (db, .error e)
  | (db, .ok _) =>
    (((db.write order.id fun o => o.handedBack now summary).revokeToken now order).record
        { workOrderId := order.id, kind := .handBack, allowed := true
          reason := some "handed back by the counterparty" },
      .ok ())

def revoke (now : Int) (order : WorkOrder) (reason : String) (db : Db) : Except String Db :=
  if order.status ∉ OPEN_STATUSES then .error ("this work order is " ++ order.status.text)
  else
    .ok (((db.write order.id fun o => o.taken now reason).revokeToken now order).record
      { workOrderId := order.id, kind := .handBack, allowed := true
        reason := some ("revoked: " ++ reason) })

end Handoff.Orders
