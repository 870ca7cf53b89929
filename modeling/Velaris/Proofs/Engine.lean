import Velaris.Base.Links
import Velaris.Base.Table
import Velaris.Py.Runtime
import Velaris.Py.Value
import Mathlib.Data.List.MinMax

/-!
# Compliance proofs

`case_service/proofs/engine.py`.  A proof stores what a policy version would have decided, under the
digest of a document, and follows the proof before it.

* `Policy`, `Proof`, `Document`   the rows, and what is hashed;
* `tip`, `store`, `generate`   a new proof, for what the replay of the cohort has found;
* `rebuildDocument`, `verify`   the document made again of the columns, and what is found of it;
* `Act`, `step`   proofs, and changes to the policies.
-/

namespace Proofs

open Py Base

-- JSON values, digests of rules and inputs, canonical texts, and digests of documents
variable {J ρ γ δ : Type}

structure PolicyVersion (J : Type) where
  version : Nat
  rules : J

/-- `ArbiterPolicyModel` with its versions -/
structure Policy (J : Type) where
  id : Uuid
  name : String
  namespaceName : String
  status : String := "draft"
  activeVersion : Option Nat := none
  versions : List (PolicyVersion J) := []

structure Document (J ρ : Type) where
  tenantId : Option Uuid
  subjectKind : String
  policyId : Option Uuid
  policyName : Option String
  policyVersion : Option Nat
  namespaceName : String
  status : String
  refusalReason : Option String
  cohort : J
  inputsSha256 : ρ
  rulesSha256 : ρ
  result : J
  divergent : J
  aggregateOnly : Bool
  sequence : Nat
  deriving DecidableEq

/-- `ComplianceProofModel` -/
structure Proof (J ρ δ : Type) where
  id : Uuid
  tenantId : Option Uuid
  subjectKind : String
  policyId : Option Uuid
  policyVersion : Option Nat
  namespaceName : String
  status : String
  refusalReason : Option String
  cohort : J
  inputsSha256 : ρ
  rulesSha256 : ρ
  result : J
  divergent : J
  aggregateOnly : Bool
  prevHash : δ
  contentSha256 : δ
  sequence : Nat
  generatedBy : Option Uuid

structure State (J ρ δ : Type) where
  policies : List (Policy J) := []
  proofs : List (Proof J ρ δ) := []

/-- `rules_digest`, and the digests of documents -/
structure Engine (J ρ γ δ : Type) where
  hashing : Hashing (Document J ρ) γ δ
  rulesDigest : J → ρ

structure Replay (J ρ : Type) where
  status : String
  refusalReason : Option String
  cohort : J
  inputsSha256 : ρ
  result : J
  divergent : J
  aggregateOnly : Bool

/-- the arguments of `generate`, and the id of the row -/
structure Request where
  id : Uuid
  policyId : Uuid
  policyVersion : Nat
  tenantId : Option Uuid
  generatedBy : Option Uuid

variable (G : Engine J ρ γ δ)

def contentDigest (document : Document J ρ) (prevHash : δ) : δ :=
  G.hashing.sha256 prevHash (G.hashing.canonical document)

def tip (proofs : List (Proof J ρ δ)) : Nat × δ :=
  match proofs.argmax Proof.sequence with
  | none => (0, G.hashing.genesis)
  | some row => (row.sequence, row.contentSha256)

/-- what the columns of a proof say of its document; the name of the policy is not one of them -/
def rebuildDocument (proof : Proof J ρ δ) (policyName : Option String) : Document J ρ where
  tenantId := proof.tenantId
  subjectKind := proof.subjectKind
  policyId := proof.policyId
  policyName := policyName
  policyVersion := proof.policyVersion
  namespaceName := proof.namespaceName
  status := proof.status
  refusalReason := proof.refusalReason
  cohort := proof.cohort
  inputsSha256 := proof.inputsSha256
  rulesSha256 := proof.rulesSha256
  result := proof.result
  divergent := proof.divergent
  aggregateOnly := proof.aggregateOnly
  sequence := proof.sequence

/-! ## a new proof -/

def store (proofs : List (Proof J ρ δ)) (q : Request) (policy : Policy J)
    (version : PolicyVersion J) (found : Replay J ρ) : Proof J ρ δ :=
  let document : Document J ρ :=
    { tenantId := q.tenantId
      subjectKind := "policy_version"
      policyId := some policy.id
      policyName := some policy.name
      policyVersion := some version.version
      namespaceName := policy.namespaceName
      status := found.status
      refusalReason := found.refusalReason
      cohort := found.cohort
      inputsSha256 := found.inputsSha256
      rulesSha256 := G.rulesDigest version.rules
      result := found.result
      divergent := found.divergent
      aggregateOnly := found.aggregateOnly
      sequence := (tip G proofs).1 + 1 }
  { id := q.id
    tenantId := q.tenantId
    subjectKind := "policy_version"
    policyId := some policy.id
    policyVersion := some version.version
    namespaceName := policy.namespaceName
    status := found.status
    refusalReason := found.refusalReason
    cohort := found.cohort
    inputsSha256 := found.inputsSha256
    rulesSha256 := G.rulesDigest version.rules
    result := found.result
    divergent := found.divergent
    aggregateOnly := found.aggregateOnly
    prevHash := (tip G proofs).2
    contentSha256 := contentDigest G document (tip G proofs).2
    sequence := (tip G proofs).1 + 1
    generatedBy := q.generatedBy }

variable (s : State J ρ δ)

def loadRules (policyId : Uuid) (version : Nat) : Except String (Policy J × PolicyVersion J) :=
  match s.policies.find? (·.id = policyId) with
  | none => .error "no such policy"
  | some policy =>
    match policy.versions.find? (·.version = version) with
    | none => .error ("policy has no version " ++ toString version)
    | some row => .ok (policy, row)

/-- `generate`; an id that is taken is refused by the database -/
def generate (q : Request) (found : Replay J ρ) : Except String (Proof J ρ δ) := do
  let (policy, version) ← loadRules s q.policyId q.policyVersion
  if s.proofs.any (·.id = q.id) then .error "IntegrityError"
  else .ok (store G s.proofs q policy version found)

/-! ## verification -/

/-- what `verify` finds of the document, of the chain, and of the rules -/
structure Verdict where
  contentAddressHolds : Bool
  chainLinks : Bool
  rulesUnchanged : Option Bool

def policyNameOf (policies : List (Policy J)) (policyId : Option Uuid) : Option String :=
  (policyId.bind fun id => policies.find? (·.id = id)).map Policy.name

variable [DecidableEq ρ] [DecidableEq δ]

def chainLinks (proofs : List (Proof J ρ δ)) (proof : Proof J ρ δ) : Bool :=
  if proof.sequence = 1 then proof.prevHash = G.hashing.genesis
  else
    match proofs.find? fun r => r.sequence + 1 = proof.sequence with
    | none => false
    | some prior => prior.contentSha256 = proof.prevHash

def rulesUnchanged (proof : Proof J ρ δ) : Option Bool :=
  match proof.policyId, proof.policyVersion with
  | some id, some version =>
    if proof.status ≠ "complete" ∨ (s.policies.find? (·.id = id)).isNone then none
    else
      match loadRules s id version with
      | .error _ => some false
      | .ok (_, row) => some (G.rulesDigest row.rules = proof.rulesSha256)
  | _, _ => none

def verify (proof : Proof J ρ δ) : Verdict :=
  let document := rebuildDocument proof (policyNameOf s.policies proof.policyId)
  { contentAddressHolds := contentDigest G document proof.prevHash = proof.contentSha256
    chainLinks := chainLinks G s.proofs proof
    rulesUnchanged := rulesUnchanged G s proof }

/-! ## what happens to policies and proofs -/

inductive Act (J ρ : Type) where
  | create (id : Uuid) (name namespaceName : String)
  | addVersion (id : Uuid) (version : PolicyVersion J)
  | activate (id : Uuid) (status : String) (version : Option Nat)
  | rename (id : Uuid) (name : String)
  | generate (q : Request) (found : Replay J ρ)

def State.setPolicy (s : State J ρ δ) (id : Uuid) (f : Policy J → Policy J) : State J ρ δ :=
  { s with policies := modify Policy.id id f s.policies }

/-- Nothing under a version is ever rewritten, and no policy is deleted.  A refused proof leaves
everything as it was. -/
def step (G : Engine J ρ γ δ) (s : State J ρ δ) : Act J ρ → State J ρ δ
  | .create id name namespaceName =>
    if s.policies.any (·.id = id) then s
    else { s with policies := s.policies ++ [{ id, name, namespaceName }] }
  | .addVersion id version =>
    s.setPolicy id fun p =>
      if p.versions.any (·.version = version.version) then p
      else { p with versions := p.versions ++ [version] }
  | .activate id status version =>
    s.setPolicy id fun p =>
      { p with
        status := status
        activeVersion := version }
  | .rename id name => s.setPolicy id fun p => { p with name := name }
  | .generate q found =>
    match generate G s q found with
    | .ok proof => { s with proofs := s.proofs ++ [proof] }
    | .error _ => s

end Proofs
