import Velaris.Py.Value
import Mathlib.Data.List.Sort
import Mathlib.Data.String.Basic

/-!
# HxArbiter: the policy model, as data

`hxarbiter_core/schema.py` and the compiled forms of `hxarbiter_core/compiler.py`: effects, rollout
modes and their clamp, the closed operator set, the condition tree, obligations, compiled rules and
policies, decisions.

* `PolicyMode.rank`, `clamp`   the weaker of a version's mode and its namespace's ceiling;
* `Obligation.key`   what two obligations are told apart by.
-/

namespace HxArbiter
open Py

inductive Effect where
  | allow
  | deny
  deriving DecidableEq

/-! ## rollout modes -/

inductive PolicyMode where
  | shadow
  | dryRun
  | enforce
  deriving DecidableEq

/-- `_MODE_RANK` -/
def PolicyMode.rank : PolicyMode → Nat
  | .shadow => 0
  | .dryRun => 1
  | .enforce => 2

def clamp (mode ceiling : PolicyMode) : PolicyMode :=
  if mode.rank ≤ ceiling.rank then mode else ceiling

theorem rank_lt_enforce_iff (mode : PolicyMode) :
    mode.rank < PolicyMode.enforce.rank ↔ mode ≠ .enforce := by
  cases mode <;> decide

/-! ## the condition language -/

inductive Op where
  | eq | ne | isIn | notIn | contains | notContains | intersects
  | gt | gte | lt | lte | matchesDomain | isSubsetOf | isPresent | isAbsent
  deriving DecidableEq

structure Comparison where
  attr : String
  op : Op
  /-- a literal, or `{"attr": path}` for another attribute; `None` for the unary operators -/
  value : Value := .none

inductive Condition where
  | allOf (all : List Condition)
  | anyOf (any : List Condition)
  | notOf (cond : Condition)
  | comparison (cmp : Comparison)

/-! ## obligations -/

inductive ObligationKind where
  | pseudonymize
  | requireStepUp
  | recordPurpose
  | notify
  | watermarkExport
  deriving DecidableEq

def ObligationKind.value : ObligationKind → String
  | .pseudonymize => "pseudonymize"
  | .requireStepUp => "require_step_up"
  | .recordPurpose => "record_purpose"
  | .notify => "notify"
  | .watermarkExport => "watermark_export"

/-- the enumeration member's `repr` -/
def ObligationKind.repr : ObligationKind → String
  | .pseudonymize => "<ObligationKind.PSEUDONYMIZE: 'pseudonymize'>"
  | .requireStepUp => "<ObligationKind.REQUIRE_STEP_UP: 'require_step_up'>"
  | .recordPurpose => "<ObligationKind.RECORD_PURPOSE: 'record_purpose'>"
  | .notify => "<ObligationKind.NOTIFY: 'notify'>"
  | .watermarkExport => "<ObligationKind.WATERMARK_EXPORT: 'watermark_export'>"

structure Obligation where
  kind : ObligationKind
  params : List (String × Value) := []

abbrev ObligationKey := ObligationKind × List (String × Value)

/-- `f"{o.kind}:{sorted(o.params.items())}"`, before it is written as text: the keys of a
dictionary are distinct, so the items are sorted by key alone, and the text of a value determines
the value as written -/
def Obligation.key (o : Obligation) : ObligationKey :=
  (o.kind, o.params.insertionSort fun a b => a.1 ≤ b.1)

/-! ## compiled policies -/

structure CompiledRule where
  ruleId : String
  effect : Effect
  condition : Condition
  obligations : List Obligation := []

structure CompiledPolicy where
  policyId : Uuid
  tenantId : Option String := none
  ns : String := ""
  version : Nat
  mode : PolicyMode
  rules : List CompiledRule
  requiredAttrs : List String := []

structure NamespaceSpec where
  ns : String
  defaultEffect : Effect
  maxMode : PolicyMode := .shadow
  deriving DecidableEq

/-! ## decisions -/

structure MatchedRule where
  policyId : Uuid
  version : Nat
  ruleId : String
  effect : Effect

structure Decision where
  effect : Effect
  enforced : Bool
  matched : List MatchedRule := []
  obligations : List Obligation := []
  defaultApplied : Bool := false
  decisionId : Option Uuid := none
  evaluatedAt : Option Int := none
  error : Option String := none

/-- a resolved attribute map; `none` is `MISSING` -/
abbrev Attrs := String → Option Value

end HxArbiter
