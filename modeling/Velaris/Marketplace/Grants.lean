import Mathlib.Data.List.Dedup
import Mathlib.Data.List.Sort
import Velaris.Base.Run
import Velaris.Py.Runtime
import Velaris.Py.Text

/-!
# Marketplace: the capability grant of a descriptor-based package

`marketplace/grants.py`, and the OpenAPI parser of `devconn/service.py`.  A package's descriptor is
mapped into the configuration of one connector.  The connector is installed disabled; an admin
approves a subset of what the manifest requests, and a changed descriptor is classified.

* `mapDescriptor`   the configuration that a descriptor gives;
* `classifyDrift`   additive, widening or breaking, with the reasons;
* `install`   `create_pending_grant`, for a package that has no grant;
* `approveGrant`, `revokeGrant`, `applyDescriptorDrift`, `approveDrift`, `rejectDrift`;
* `step`   one call; a call that raises leaves everything as it was.
-/

namespace Marketplace

open Py

inductive Tier where
  | official | community
  deriving DecidableEq

inductive DescriptorFormat where
  | openapi | connectorTemplate
  deriving DecidableEq

inductive Status where
  | pending | granted | pendingReapproval | revoked
  deriving DecidableEq

inductive Classification where
  | additive | widening | breaking
  deriving DecidableEq

structure Requested where
  outboundDomains : List String
  scopes : List String

structure Manifest where
  outboundDomains : List String
  scopes : List String
  descriptorSha256 : Option String
  descriptorText : String
  descriptorFormat : Option DescriptorFormat

def Manifest.requested (m : Manifest) : Requested := ⟨m.outboundDomains, m.scopes⟩

inductive Refusal where
  | valueError (text : String)
  /-- the `TypeError` or `AttributeError` of a descriptor of another shape -/
  | typeError

structure Library where
  /-- `str(v)` -/
  str : Value → String
  /-- `s.upper()` -/
  upper : String → String
  /-- `json.loads(text)`, or the text of its `JSONDecodeError` -/
  loads : String → Except String Value
  /-- `yaml.safe_load(text)` -/
  safeLoad : String → Option Value

/-! ## the descriptor -/

/-- `d.get(k, default)` -/
def getOr (d : Dict) (k : String) (default : Value) : Value := (d.lookup k).getD default

/-- a value whose `get` or `items` is called -/
def asDict : Value → Except Refusal Dict
  | .dict d => .ok d
  | _ => .error .typeError

def asText : Value → Except Refusal String
  | .str s => .ok s
  | _ => .error .typeError

def METHODS : List String := ["get", "post", "put", "patch", "delete"]

def baseUrl (spec : Dict) : Except Refusal Value :=
  match getOr spec "servers" (.list [.dict []]) with
  | .list (.dict first :: _) => .ok (getOr first "url" (.str ""))
  | servers => if servers.truthy then .error .typeError else .ok (.str "")

section
variable (lib : Library)

def operation (spec : Dict) (base : Value) (path method : String) (op : Value) :
    Except Refusal Dict := do
  let op ← asDict op
  let base ← asText base
  let components ← asDict (getOr spec "components" (.dict []))
  return [
    ("operation_id", getOr op "operationId"
      (.str (method ++ "_" ++ path.map fun c => if c = '/' then '_' else c))),
    ("summary", getOr op "summary" (.str "")),
    ("method", .str (lib.upper method)),
    ("url", .str (base ++ path)),
    ("headers", .dict []),
    ("auth_type", .str (if (components.get "securitySchemes").truthy then "bearer" else "none")),
    ("body_template", .str ""),
    ("response_mapping", .dict []),
    ("step_type_suggestion", .str ("http_" ++ method))]

/-- the `suggested_operations` of `_heuristic_parse` -/
def suggestedOperations (spec : Value) : Except Refusal (List Dict) := do
  let spec ← asDict spec
  let base ← baseUrl spec
  let paths ← asDict (getOr spec "paths" (.dict []))
  let ops ← (paths.take 10).mapM fun item => do
    let methods ← asDict item.2
    (methods.filter (·.1 ∈ METHODS)).mapM fun m => operation lib spec base item.1 m.1 m.2
  return ops.flatten

def heuristicParse (text : String) : Except Refusal (List Dict) :=
  match lib.loads text with
  | .ok spec => suggestedOperations lib spec
  | .error _ =>
    match lib.safeLoad text with
    | some spec => suggestedOperations lib spec
    | none => .ok []

def configOf (active : Dict) (url operations : Value) : Dict := [
  ("method", .str (lib.upper (lib.str (getOr active "method" (.str "POST"))))),
  ("url", url),
  ("headers", getOr active "headers" (.dict [])),
  ("auth_type", getOr active "auth_type" (.str "none")),
  ("body_template", getOr active "body_template" (.str "")),
  ("response_mapping", getOr active "response_mapping" (.dict [])),
  ("operations", operations)]

def mapDescriptor (m : Manifest) : Except Refusal Dict :=
  if m.descriptorFormat = some .connectorTemplate then
    match lib.loads m.descriptorText with
    | .error e =>
      .error (.valueError ("connector_template descriptor is not valid JSON: " ++ e))
    | .ok template =>
      match template with
      | .dict d =>
        if (Dict.get d "url").truthy then
          .ok (configOf lib d (Dict.get d "url") (getOr d "operations" (.list [])))
        else
          .error (.valueError
            "connector_template descriptor must be an object with at least a 'url'")
      | _ =>
        .error (.valueError "connector_template descriptor must be an object with at least a 'url'")
  else
    match heuristicParse lib m.descriptorText with
    | .error e => .error e
    | .ok [] =>
      .error (.valueError ("descriptor mapping produced no operations — " ++
        "the OpenAPI spec has no usable paths"))
    | .ok (first :: rest) =>
      .ok (configOf lib first (getOr first "url" (.str ""))
        (.list ((first :: rest).map .dict)))

/-! ## the classification -/

/-- `sorted(set(old) - set(new))` -/
def missing (old new : List String) : List String :=
  (old.filter (· ∉ new)).dedup.insertionSort (· ≤ ·)

/-- the keys of `_op_index` -/
def opIndex (config : Dict) : Except Refusal (List String) :=
  if (config.get "operations").truthy then
    match (config.get "operations").iter with
    | none => .error .typeError
    | some ops => do
      let ops ← ops.mapM asDict
      return (ops.filter fun op => (op.get "operation_id").truthy).map fun op =>
        lib.str (op.get "operation_id")
  else .ok []

/-- `set(config.get("response_mapping") or {})` -/
def responseFields (config : Dict) : Except Refusal (List Value) :=
  if (config.get "response_mapping").truthy then
    match (config.get "response_mapping").iter with
    | none => .error .typeError
    | some fields => if fields.all Value.hashable then .ok fields else .error .typeError
  else .ok []

/-- the response fields that are gone; only texts can be sorted and joined -/
def removedFields (old new : Dict) : Except Refusal (List String) := do
  let before ← responseFields old
  let after ← responseFields new
  let removed ← (before.filter fun field => !field.elem after).mapM asText
  return removed.dedup.insertionSort (· ≤ ·)

def joined (names : List String) : String := ", ".intercalate names

def wideningReasons (addedDomains addedScopes : List String) : List String :=
  (if addedDomains = [] then [] else
    ["new outbound domains requested: " ++ joined addedDomains]) ++
  (if addedScopes = [] then [] else ["new scopes requested: " ++ joined addedScopes])

def changed (old new : Dict) (key what : String) : List String :=
  if (old.get key).eq (new.get key) then [] else
    ["active operation " ++ what ++ " changed: " ++ lib.str (old.get key) ++ " > " ++
      lib.str (new.get key)]

def breakingReasons (old new : Dict) (removedOps removedFields : List String) : List String :=
  changed lib old new "url" "URL" ++ changed lib old new "method" "method" ++
  (if removedOps = [] then [] else ["operations removed: " ++ joined removedOps]) ++
  (if removedFields = [] then [] else ["response fields removed: " ++ joined removedFields])

def classifyDrift (oldConfig : Dict) (oldRequested : Requested) (newConfig : Dict)
    (newRequested : Requested) : Except Refusal (Classification × List String) :=
  let widening := wideningReasons
    (missing newRequested.outboundDomains oldRequested.outboundDomains)
    (missing newRequested.scopes oldRequested.scopes)
  if widening ≠ [] then .ok (.widening, widening) else do
    let oldOps ← opIndex lib oldConfig
    let newOps ← opIndex lib newConfig
    let removed ← removedFields oldConfig newConfig
    let breaking := breakingReasons lib oldConfig newConfig (missing oldOps newOps) removed
    if breaking ≠ [] then return (.breaking, breaking)
    else return (.additive, ["descriptor changed within the granted envelope"])

end

/-! ## the grant and its connector -/

structure Proposed where
  config : Dict
  requested : Requested
  descriptorSha256 : Option String
  descriptorFormat : Option DescriptorFormat
  classification : Classification
  reasons : List String

structure Grant where
  requested : Requested
  granted : Option Requested
  proposed : Option Proposed
  status : Status
  grantedAt : Option Int
  descriptorSha256 : Option String
  descriptorFormat : Option DescriptorFormat
  mappingVersion : Nat

/-- `config` is what the row's configuration has beside `_marketplace` -/
structure Connector where
  config : Dict
  grantedDomains : Option (List String)
  enabled : Bool

inductive Entry where
  | approved (domains scopes : List String)
  | revoked
  | autoApplied (reasons : List String)
  | held (classification : Classification) (reasons : List String)
  | driftApproved (domains : List String)
  | driftRejected

structure State where
  grant : Grant
  connector : Connector
  log : List Entry

inductive Action where
  | approveGrant (outboundDomains scopes : List String) (now : Int)
  | revokeGrant
  | applyDescriptorDrift (manifest : Manifest) (publisherTier : Tier)
  | approveDrift (outboundDomains scopes : List String) (now : Int)
  | rejectDrift

def subsetOrRaise (ticked requested : List String) (what : String) :
    Except Refusal (List String) :=
  let extra := ticked.filter (· ∉ requested)
  if extra ≠ [] then
    .error (.valueError (what ++ " not requested by the package: " ++ joined extra))
  else .ok ticked

/-- what the admin ticked, where the connector can reach something with it -/
def ticked (requested : Requested) (outboundDomains scopes : List String) :
    Except Refusal Requested := do
  let grantedDomains ← subsetOrRaise outboundDomains requested.outboundDomains "outbound_domains"
  let grantedScopes ← subsetOrRaise scopes requested.scopes "scopes"
  if grantedDomains = [] then
    throw (.valueError ("an empty outbound_domains grant would activate a connector that can " ++
      "reach nothing — revoke instead"))
  return ⟨grantedDomains, grantedScopes⟩

def approveGrant (s : State) (outboundDomains scopes : List String) (now : Int) :
    Except Refusal State := do
  let granted ← ticked s.grant.requested outboundDomains scopes
  return {
    grant := { s.grant with granted := some granted, status := .granted, grantedAt := some now }
    connector := { s.connector with
      grantedDomains := some granted.outboundDomains, enabled := true }
    log := .approved granted.outboundDomains granted.scopes :: s.log }

def revokeGrant (s : State) : State where
  grant := { s.grant with status := .revoked }
  connector := { s.connector with grantedDomains := none, enabled := false }
  log := .revoked :: s.log

/-- `(mapping_version or 1) + 1` -/
def nextVersion (version : Nat) : Nat := (if version = 0 then 1 else version) + 1

section
variable (lib : Library)

def install (m : Manifest) : Except Refusal State := do
  let config ← mapDescriptor lib m
  return {
    grant := ⟨m.requested, none, none, .pending, none, m.descriptorSha256, m.descriptorFormat, 1⟩
    connector := ⟨config, none, false⟩
    log := [] }

def autoApply (s : State) (m : Manifest) (newConfig : Dict) (reasons : List String) : State where
  grant := { s.grant with
    requested := m.requested, descriptorSha256 := m.descriptorSha256
    descriptorFormat := m.descriptorFormat
    mappingVersion := nextVersion s.grant.mappingVersion }
  connector := { s.connector with config := newConfig }
  log := .autoApplied reasons :: s.log

def hold (s : State) (m : Manifest) (newConfig : Dict) (classification : Classification)
    (reasons : List String) : State where
  grant := { s.grant with
    proposed := some ⟨newConfig, m.requested, m.descriptorSha256, m.descriptorFormat,
      classification, reasons⟩
    status := .pendingReapproval }
  connector := s.connector
  log := .held classification reasons :: s.log

def applyDescriptorDrift (s : State) (m : Manifest) (publisherTier : Tier) :
    Except Refusal State :=
  if m.descriptorSha256.getD "" = "" ∨ m.descriptorSha256 = s.grant.descriptorSha256 then .ok s
  else do
    let newConfig ← mapDescriptor lib m
    let drift ← classifyDrift lib s.connector.config s.grant.requested newConfig m.requested
    if drift.1 = .additive ∧ publisherTier = .official then
      return autoApply s m newConfig drift.2
    else return hold s m newConfig drift.1 drift.2

def approveDrift (s : State) (outboundDomains scopes : List String) (now : Int) :
    Except Refusal State :=
  match s.grant.status, s.grant.proposed with
  | .pendingReapproval, some proposed => do
    let granted ← ticked proposed.requested outboundDomains scopes
    return {
      grant := ⟨proposed.requested, some granted, none, .granted, some now,
        proposed.descriptorSha256, proposed.descriptorFormat,
        nextVersion s.grant.mappingVersion⟩
      connector := ⟨proposed.config, some granted.outboundDomains, true⟩
      log := .driftApproved granted.outboundDomains :: s.log }
  | _, _ => .error (.valueError "no drift is pending re-approval on this grant")

def rejectDrift (s : State) : Except Refusal State :=
  if s.grant.status = .pendingReapproval then
    .ok {
      grant := { s.grant with
        proposed := none
        status := if s.grant.grantedAt.isSome then .granted else .pending }
      connector := s.connector
      log := .driftRejected :: s.log }
  else .error (.valueError "no drift is pending re-approval on this grant")

def perform (s : State) : Action → Except Refusal State
  | .approveGrant outboundDomains scopes now => approveGrant s outboundDomains scopes now
  | .revokeGrant => .ok (revokeGrant s)
  | .applyDescriptorDrift m publisherTier => applyDescriptorDrift lib s m publisherTier
  | .approveDrift outboundDomains scopes now => approveDrift s outboundDomains scopes now
  | .rejectDrift => rejectDrift s

def step (s : State) (a : Action) : State :=
  match perform lib s a with
  | .ok t => t
  | .error _ => s

end

end Marketplace
