import Velaris.Arbiter.Unresolved

/-!
# HxArbiter: `decide`, and what it does when something fails

`case_service/hxarbiter/pdp.py`.  Everything `decide` awaits is a `Backend`: the tenant lookup, the
policy generation, the namespace table, the active policies, the attribute resolvers and the write
of the decision row.  Each either gives a value or raises; a resolver may also miss the budget.

* `resolveAttributes`   the attributes, with `"pip_error"` or `"pip_timeout"`;
* `decide`   the decision, with the error it answers for;
* `Loaded`   the backend got as far as the evaluation;
* `decide_of_loaded`, `decide_of_not_loaded`   the two ways a decision comes about.
-/

namespace HxArbiter
open Py

/-! ## requests -/

inductive SubjectKind where
  | user | service | app | workflow | agent

structure SubjectRef where
  kind : SubjectKind
  id : String
  attrs : List (String × Value) := []

structure ResourceRef where
  kind : String
  id : Option String := none
  attrs : List (String × Value) := []

structure DecisionRequest where
  tenantId : String
  subject : SubjectRef
  action : String
  resource : ResourceRef
  context : List (String × Value) := []

/-- `s.split(".", 1)[0]` -/
def beforeDot (s : String) : String := String.ofList (s.toList.takeWhile (· ≠ '.'))

/-- `ai.external_call` gives `ai` -/
def DecisionRequest.ns (req : DecisionRequest) : String := beforeDot req.action

/-- the length limits of the request's fields -/
def DecisionRequest.valid (req : DecisionRequest) : Bool :=
  1 ≤ req.subject.id.length && req.subject.id.length ≤ 255 &&
  1 ≤ req.action.length && req.action.length ≤ 128 &&
  1 ≤ req.resource.kind.length && req.resource.kind.length ≤ 128 &&
  req.resource.id.all (·.length ≤ 255)

namespace Pdp

/-! ## what `decide` awaits -/

inductive Awaited (α : Type) where
  | value (a : α)
  | raised

/-- what a resolver answers; `late` is an answer that misses `PIP_BUDGET_SECONDS` -/
inductive Reply where
  | values (items : List (String × Value))
  | raised
  | late
  deriving DecidableEq

structure AttributeResolver where
  /-- the dotted prefix it owns, `"*"` for every path -/
  owns : String
  resolve : DecisionRequest → List String → Reply

structure Backend where
  /-- `resolve_tenant`, for the request's tenant text -/
  resolveTenant : String → Awaited (Option Uuid)
  /-- the reading behind `policy_generation`, which gives `""` where it raises -/
  generation : Awaited String
  namespaces : Awaited (List NamespaceSpec)
  /-- the policies compiled for a tenant and a namespace -/
  policies : Uuid → String → Awaited (List CompiledPolicy)
  resolvers : List AttributeResolver
  /-- `write_decision`: the new row's id, `none` where sampling keeps no row -/
  writeDecision : Awaited (Option Uuid)
  now : Int

def UNREGISTERED_DEFAULT : Effect := .deny

/-! ## attributes -/

/-- the resolvers that own some of the paths, each with the paths it owns -/
def wanted (resolvers : List AttributeResolver) (paths : List String) :
    List (AttributeResolver × List String) :=
  (resolvers.map fun r =>
    (r, if r.owns = "*" then paths else paths.filter (beforeDot · = r.owns))).filter
      fun w => w.2 ≠ []

def noAttrs : Attrs := fun _ => none

/-- `attrs.update(items)` -/
def update (attrs : Attrs) (items : List (String × Value)) : Attrs :=
  fun path => (items.lookup path).or (attrs path)

/-- the results in the order of the resolvers; one that raised contributes nothing -/
def gather (acc : Attrs × Option String) (reply : Reply) : Attrs × Option String :=
  match reply with
  | .values items => (update acc.1 items, acc.2)
  | _ => (acc.1, some "pip_error")

def resolveAttributes (req : DecisionRequest) (resolvers : List AttributeResolver)
    (paths : List String) : Attrs × Option String :=
  let replies := (wanted resolvers paths).map fun w => w.1.resolve req w.2
  if Reply.late ∈ replies then (noAttrs, some "pip_timeout")
  else replies.foldl gather (noAttrs, none)

def needed (policies : List CompiledPolicy) : List String :=
  (policies.flatMap (·.requiredAttrs)).dedup

/-! ## `decide` -/

/-- `_cache._sync`: a generation that could not be read is `""`, which is never fresh -/
def fresh (b : Backend) : Bool :=
  match b.generation with
  | .value gen => gen ≠ ""
  | .raised => false

def unanswered (b : Backend) (error : String) : Decision where
  effect := UNREGISTERED_DEFAULT
  enforced := false
  defaultApplied := true
  error := some error
  evaluatedAt := some b.now

def recordedId (b : Backend) : Option Uuid :=
  match b.writeDecision with
  | .value id => id
  | .raised => none

/-- the decision once the policy set is loaded -/
def evaluated (ev : Evaluator) (b : Backend) (req : DecisionRequest) (spec : Option NamespaceSpec)
    (policies : List CompiledPolicy) : Decision :=
  let defaultEffect := match spec with
    | some s => s.defaultEffect
    | none => UNREGISTERED_DEFAULT
  let ceiling := match spec with
    | some s => s.maxMode
    | none => .shadow
  let (attrs, pipError) := resolveAttributes req b.resolvers (needed policies)
  { ev.evaluate policies attrs defaultEffect ceiling with
    error := pipError
    evaluatedAt := some b.now
    decisionId := recordedId b }

def decide (ev : Evaluator) (b : Backend) (req : DecisionRequest) : Decision :=
  match b.resolveTenant req.tenantId with
  | .value (some tenant) =>
    if fresh b then
      match b.namespaces, b.policies tenant req.ns with
      | .value namespaces, .value policies =>
        evaluated ev b req (namespaces.find? (·.ns = req.ns)) policies
      | _, _ => unanswered b "policy_load_failed"
    else unanswered b "policy_store_unavailable"
  | _ => unanswered b "tenant_unresolved"

/-! ## how a decision comes about -/

/-- tenant, generation, namespaces and policies were all there -/
def Loaded (b : Backend) (req : DecisionRequest) (spec : Option NamespaceSpec)
    (policies : List CompiledPolicy) : Prop :=
  ∃ tenant namespaces,
    b.resolveTenant req.tenantId = .value (some tenant) ∧ fresh b = true ∧
    b.namespaces = .value namespaces ∧ b.policies tenant req.ns = .value policies ∧
    namespaces.find? (·.ns = req.ns) = spec

variable {ev : Evaluator} {b : Backend} {req : DecisionRequest}

theorem decide_of_loaded {spec : Option NamespaceSpec} {policies : List CompiledPolicy}
    (h : Loaded b req spec policies) : decide ev b req = evaluated ev b req spec policies := by
  obtain ⟨tenant, namespaces, ht, hf, hn, hp, rfl⟩ := h
  rw [decide, ht]
  simp only [hf, hn, hp, if_true]

/-- the errors of the three failures before the evaluation -/
def loadErrors : List String :=
  ["tenant_unresolved", "policy_store_unavailable", "policy_load_failed"]

theorem decide_of_not_loaded (h : ∀ spec policies, ¬ Loaded b req spec policies) :
    ∃ error ∈ loadErrors, decide ev b req = unanswered b error := by
  unfold decide
  split
  · rename_i tenant ht
    split
    · rename_i hf
      split
      · rename_i namespaces policies hn hp
        exact absurd ⟨tenant, namespaces, ht, hf, hn, hp, rfl⟩ (h _ policies)
      · exact ⟨_, by simp [loadErrors], rfl⟩
    · exact ⟨_, by simp [loadErrors], rfl⟩
  · exact ⟨_, by simp [loadErrors], rfl⟩

end Pdp
end HxArbiter
