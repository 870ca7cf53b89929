import Velaris.Arbiter.Impossible
import Velaris.Arbiter.Pdp
import Mathlib.Data.List.Dedup

/-!
# HxArbiter: what a compiled version promises

`compile_version` of `hxarbiter_core/compiler.py`.

* `checkVersion`, `compileVersion`   the checks of all rules, and the compiled policy;
* `Condition.comparisons`   the comparisons of a condition, whatever stands around them;
* `walk_spec`   each is checked, and what it reads is recorded;
* `resolve_required`   a decision reads the required attributes only;
* `Permitted`, `wellTyped_iff`   the operators that a type may have, and when the compiler
    holds a version to them.
-/

namespace HxArbiter

open Py Base

structure PolicyVersion where
  policyId : Uuid
  version : Nat
  rules : List Rule
  mode : PolicyMode := .shadow

/-- what a rule that is refused has recorded before is left out -/
structure CompileReport where
  ok : Bool
  errors : List String := []
  requiredAttrs : List String := []
  nodeCount : Nat := 0
  maxDepth : Nat := 0

namespace PolicyCompiler

variable (C : PolicyCompiler)

def checkOne (report : CompileReport) (r : Rule) : CompileReport :=
  match C.checkRule r with
  | .ok w =>
    { report with
      requiredAttrs := report.requiredAttrs ++ w.requiredAttrs
      nodeCount := report.nodeCount + w.nodes
      maxDepth := max report.maxDepth w.depth }
  | .error message =>
    { report with ok := false, errors := report.errors ++ ["rule " ++ r.id ++ ": " ++ message] }

/-- every rule is checked, and everything that is found is collected -/
def checkVersion (v : PolicyVersion) : CompileReport :=
  if v.rules.isEmpty then
    { ok := false, errors := ["a policy version must contain at least one rule"] }
  else v.rules.foldl C.checkOne { ok := true }

def compiledRule (r : Rule) : CompiledRule :=
  { ruleId := r.id, effect := r.effect, condition := r.condition, obligations := r.obligations }

def compileVersion (policyId : Uuid) (tenantId : Option String) (ns : String) (v : PolicyVersion)
    (mode : PolicyMode) : Except String CompiledPolicy :=
  let report := C.checkVersion v
  if report.ok then
    .ok
      { policyId := policyId
        tenantId := tenantId
        ns := ns
        version := v.version
        mode := mode
        rules := v.rules.map compiledRule
        requiredAttrs := report.requiredAttrs.dedup }
  else .error ("; ".intercalate report.errors)

end PolicyCompiler

/-! ## the comparisons of a condition -/

namespace Condition

mutual

def comparisons : Condition → List Comparison
  | .allOf cs => comparisonsList cs
  | .anyOf cs => comparisonsList cs
  | .notOf c => comparisons c
  | .comparison cmp => [cmp]

def comparisonsList : List Condition → List Comparison
  | [] => []
  | c :: cs => comparisons c ++ comparisonsList cs

end

end Condition

section
variable {C : PolicyCompiler}

theorem requiredAttrs_enter {depth : Nat} {w w' : Walked} (h : C.enter depth w = .ok w') :
    w'.requiredAttrs = w.requiredAttrs := by
  rw [PolicyCompiler.enter] at h
  split at h
  · cases h
  · split at h
    · cases h
    · cases h
      rfl

/-- a walk that goes through has checked some comparisons and recorded what they read -/
structure Recorded (C : PolicyCompiler) (cmps : List Comparison) (w w' : Walked) : Prop where
  checked : ∀ cmp ∈ cmps, C.checkComparison cmp = .ok ()
  attrs : w'.requiredAttrs = w.requiredAttrs ++ cmps.flatMap Comparison.paths

theorem Recorded.append {cs ds : List Comparison} {w w₁ w' : Walked} (h : Recorded C cs w w₁)
    (h' : Recorded C ds w₁ w') : Recorded C (cs ++ ds) w w' where
  checked := List.forall_mem_append.mpr ⟨h.checked, h'.checked⟩
  attrs := by rw [h'.attrs, h.attrs, List.flatMap_append, List.append_assoc]

theorem Recorded.of_enter {cs : List Comparison} {depth : Nat} {w w₁ w' : Walked}
    (hw : C.enter depth w = .ok w₁) (h : Recorded C cs w₁ w') : Recorded C cs w w' :=
  ⟨h.checked, by rw [h.attrs, requiredAttrs_enter hw]⟩

mutual

theorem walk_spec : ∀ (c : Condition) {depth : Nat} {w w' : Walked},
    C.walk depth c w = .ok w' → Recorded C c.comparisons w w'
  | .comparison cmp, depth, w, w', h => by
    rw [PolicyCompiler.walk] at h
    obtain ⟨w₁, hw, h⟩ := exists_of_bind_ok h
    obtain ⟨u, hcheck, h⟩ := exists_of_bind_ok h
    cases h
    refine .of_enter hw ⟨?_, ?_⟩
    · simpa [Condition.comparisons] using hcheck
    · simp [Condition.comparisons]
  | .allOf cs, depth, w, w', h => by
    rw [PolicyCompiler.walk] at h
    obtain ⟨w₁, hw, h⟩ := exists_of_bind_ok h
    exact .of_enter hw (walkAll_spec cs h)
  | .anyOf cs, depth, w, w', h => by
    rw [PolicyCompiler.walk] at h
    obtain ⟨w₁, hw, h⟩ := exists_of_bind_ok h
    exact .of_enter hw (walkAll_spec cs h)
  | .notOf c, depth, w, w', h => by
    rw [PolicyCompiler.walk] at h
    obtain ⟨w₁, hw, h⟩ := exists_of_bind_ok h
    exact .of_enter hw (walk_spec c h)

theorem walkAll_spec : ∀ (cs : List Condition) {depth : Nat} {w w' : Walked},
    C.walkAll depth cs w = .ok w' → Recorded C (Condition.comparisonsList cs) w w'
  | [], depth, w, w', h => by
    cases h
    exact ⟨by simp [Condition.comparisonsList], by simp [Condition.comparisonsList]⟩
  | c :: cs, depth, w, w', h => by
    rw [PolicyCompiler.walkAll] at h
    obtain ⟨w₁, hc, h⟩ := exists_of_bind_ok h
    exact (walk_spec c hc).append (walkAll_spec cs h)

end

/-! ## a version -/

theorem checkRules_spec {rules : List Rule} {report report' : CompileReport}
    (h : rules.foldl C.checkOne report = report') (hok : report'.ok = true) :
    report.ok = true ∧ report.requiredAttrs ⊆ report'.requiredAttrs ∧
      ∀ r ∈ rules, ∀ cmp ∈ r.condition.comparisons, C.checkComparison cmp = .ok () ∧
        cmp.paths ⊆ report'.requiredAttrs := by
  induction rules generalizing report with
  | nil =>
    cases h
    exact ⟨hok, fun _ => id, by simp⟩
  | cons r rules ih =>
    obtain ⟨hfirst, hattrs, hrest⟩ := ih h
    unfold PolicyCompiler.checkOne at hfirst hattrs
    split at hfirst
    · rename_i w hw
      rw [hw] at hattrs
      have hrecorded := walk_spec r.condition hw
      refine ⟨hfirst, fun x hx => hattrs (List.mem_append_left _ hx), ?_⟩
      intro r' hr' cmp hcmp
      rcases List.mem_cons.mp hr' with rfl | hr'
      · refine ⟨hrecorded.checked cmp hcmp, fun path hpath => hattrs (List.mem_append_right _ ?_)⟩
        rw [hrecorded.attrs]
        exact List.mem_append_right _ (List.mem_flatMap.mpr ⟨cmp, hcmp, hpath⟩)
      · exact hrest r' hr' cmp hcmp
    · cases hfirst

/-- a version that compiles: its rules are those of the policy, each comparison is checked, and
what it reads is required -/
structure Accepted (C : PolicyCompiler) (v : PolicyVersion) (p : CompiledPolicy) : Prop where
  rules : p.rules = v.rules.map PolicyCompiler.compiledRule
  checked : ∀ r ∈ v.rules, ∀ cmp ∈ r.condition.comparisons, C.checkComparison cmp = .ok ()
  attrs : ∀ r ∈ v.rules, ∀ cmp ∈ r.condition.comparisons, cmp.paths ⊆ p.requiredAttrs

theorem accepted_of_compiles {policyId : Uuid} {tenantId : Option String} {ns : String}
    {v : PolicyVersion} {mode : PolicyMode} {p : CompiledPolicy}
    (h : C.compileVersion policyId tenantId ns v mode = .ok p) : Accepted C v p := by
  unfold PolicyCompiler.compileVersion at h
  dsimp only at h
  split at h
  · rename_i hok
    cases h
    have hreport : v.rules.foldl C.checkOne { ok := true } = C.checkVersion v := by
      rw [PolicyCompiler.checkVersion]
      split
      · rename_i hempty
        rw [PolicyCompiler.checkVersion, if_pos hempty] at hok
        cases hok
      · rfl
    obtain ⟨-, -, hrules⟩ := checkRules_spec hreport hok
    refine ⟨rfl, fun r hr cmp hcmp => (hrules r hr cmp hcmp).1, ?_⟩
    intro r hr cmp hcmp path hpath
    exact List.mem_dedup.mpr ((hrules r hr cmp hcmp).2 hpath)
  · cases h

end

/-! ## what a decision reads -/

section
variable {ev : Evaluator} {A B : Attrs}

mutual

theorem matchesCond_congr : ∀ c : Condition,
    (∀ cmp ∈ c.comparisons, ∀ path ∈ cmp.paths, A path = B path) →
      ev.matchesCond A c = ev.matchesCond B c
  | .allOf cs, h => matchesAll_congr cs h
  | .anyOf cs, h => matchesAny_congr cs h
  | .notOf c, h => by
    rw [Evaluator.matchesCond, Evaluator.matchesCond, matchesCond_congr c h]
  | .comparison cmp, h =>
    Evaluator.compare_congr cmp fun path hpath => h cmp (List.mem_singleton_self _) path hpath

theorem matchesAll_congr : ∀ cs : List Condition,
    (∀ cmp ∈ Condition.comparisonsList cs, ∀ path ∈ cmp.paths, A path = B path) →
      ev.matchesAll A cs = ev.matchesAll B cs
  | [], _ => rfl
  | c :: cs, h => by
    rw [Evaluator.matchesAll, Evaluator.matchesAll,
      matchesCond_congr c fun cmp hcmp => h cmp (List.mem_append_left _ hcmp),
      matchesAll_congr cs fun cmp hcmp => h cmp (List.mem_append_right _ hcmp)]

theorem matchesAny_congr : ∀ cs : List Condition,
    (∀ cmp ∈ Condition.comparisonsList cs, ∀ path ∈ cmp.paths, A path = B path) →
      ev.matchesAny A cs = ev.matchesAny B cs
  | [], _ => rfl
  | c :: cs, h => by
    rw [Evaluator.matchesAny, Evaluator.matchesAny,
      matchesCond_congr c fun cmp hcmp => h cmp (List.mem_append_left _ hcmp),
      matchesAny_congr cs fun cmp hcmp => h cmp (List.mem_append_right _ hcmp)]

end

theorem evaluate_of_matches {P : List CompiledPolicy}
    (h : ∀ p ∈ P, ∀ r ∈ p.rules, ev.matchesCond A r.condition = ev.matchesCond B r.condition)
    (dflt : Effect) (ceiling : PolicyMode) :
    ev.evaluate P A dflt ceiling = ev.evaluate P B dflt ceiling := by
  have hhits : ev.hits P A ceiling = ev.hits P B ceiling := by
    rw [Evaluator.hits, Evaluator.hits]
    refine List.flatMap_congr fun p hp => ?_
    rw [List.filter_congr fun r hr => h p hp r hr]
  rw [Evaluator.evaluate, Evaluator.evaluate, Evaluator.tally_eq, Evaluator.tally_eq, hhits]

/-- **Resolving the required attributes is enough**: two maps that agree on them give one
decision. -/
theorem resolve_required (ev : Evaluator) (P : List CompiledPolicy)
    (hP : ∀ p ∈ P, ∃ (C : PolicyCompiler) (policyId : Uuid) (tenantId : Option String)
      (ns : String) (v : PolicyVersion) (mode : PolicyMode),
      C.compileVersion policyId tenantId ns v mode = .ok p)
    (A B : Attrs) (h : ∀ path ∈ Pdp.needed P, A path = B path) (dflt : Effect)
    (ceiling : PolicyMode) : ev.evaluate P A dflt ceiling = ev.evaluate P B dflt ceiling := by
  refine evaluate_of_matches ?_ dflt ceiling
  intro p hp r hr
  obtain ⟨C, policyId, tenantId, ns, v, mode, hcompiles⟩ := hP p hp
  have haccepted := accepted_of_compiles hcompiles
  rw [haccepted.rules] at hr
  obtain ⟨r', hr', rfl⟩ := List.mem_map.mp hr
  refine matchesCond_congr r'.condition ?_
  intro cmp hcmp path hpath
  exact h path (List.mem_dedup.mpr
    (List.mem_flatMap.mpr ⟨p, hp, haccepted.attrs r' hr' cmp hcmp hpath⟩))

end

/-! ## the operators of a type -/

/-- no `contains` and no order on a domain, order on numbers only, `matches_domain` on domains
only, and an operator of lists on a set or beside a list -/
structure Permitted (type : AttrType) (cmp : Comparison) : Prop where
  domain : type = .domain → cmp.op ∈ DOMAIN_OPS
  set : type = .stringSet → cmp.op ∈ SET_OPS
  ordering : cmp.op ∈ ORDERING_OPS → type = .number
  host : cmp.op = .matchesDomain → type = .domain
  list : cmp.op ∈ LIST_VALUE_OPS → type = .stringSet ∨ ∃ xs, cmp.value = .list xs

def WellTyped (C : PolicyCompiler) (v : PolicyVersion) : Prop :=
  ∀ r ∈ v.rules, ∀ cmp ∈ r.condition.comparisons, ∃ spec, C.catalog cmp.attr = some spec ∧
    Permitted spec.type cmp

/-- the operators that a type may have beside an attribute of the same type -/
def besideAttribute : AttrType → List Op
  | .string | .boolean => [.eq, .ne, .contains, .notContains]
  | .number => [.eq, .ne, .contains, .notContains, .gt, .gte, .lt, .lte]
  | .domain => [.eq, .ne, .matchesDomain]
  | .stringSet => [.eq, .ne, .contains, .notContains, .intersects, .isSubsetOf]

section
variable {C : PolicyCompiler} {spec : AttrSpec} {cmp : Comparison}

theorem permitted_of_unary {type : AttrType} (h : cmp.op ∈ UNARY_OPS) : Permitted type cmp := by
  obtain ⟨attr, op, value⟩ := cmp
  have hop : op = .isPresent ∨ op = .isAbsent := by simpa [UNARY_OPS] using h
  constructor <;> rcases hop with rfl | rfl <;>
    simp [DOMAIN_OPS, SET_OPS, ORDERING_OPS, LIST_VALUE_OPS]

theorem permitted_iff_of_reference {type : AttrType} {path : Value} (hop : cmp.op ∉ UNARY_OPS)
    (h : cmp.reference? = some path) : Permitted type cmp ↔ cmp.op ∈ besideAttribute type := by
  have hlist : ¬∃ xs, cmp.value = .list xs := by
    intro hxs
    obtain ⟨xs, hxs⟩ := hxs
    rw [Comparison.reference?, hxs] at h
    cases h
  constructor
  · intro hp
    obtain ⟨hdomain, hset, hordering, hhost, hlists⟩ := hp
    generalize cmp.op = op at *
    cases type <;> cases op <;>
      simp_all [UNARY_OPS, DOMAIN_OPS, SET_OPS, ORDERING_OPS, LIST_VALUE_OPS, besideAttribute]
  · intro hmem
    constructor <;> generalize cmp.op = op at * <;> cases type <;> cases op <;>
      simp_all [UNARY_OPS, DOMAIN_OPS, SET_OPS, ORDERING_OPS, LIST_VALUE_OPS, besideAttribute]

theorem list_of_shape (h : C.checkShape spec cmp = .ok ()) (hop : cmp.op ∈ LIST_VALUE_OPS) :
    ∃ xs, cmp.value = .list xs := by
  rw [PolicyCompiler.checkShape] at h
  split at h
  · rename_i hvalue
    exact ⟨_, hvalue⟩
  · rw [if_pos hop] at h
    split at h
    · exact ⟨_, by assumption⟩
    · cases h

theorem permitted_of_literal (hoperator : C.checkOperator spec cmp = .ok ())
    (hshape : C.checkShape spec cmp = .ok ()) : Permitted spec.type cmp := by
  rw [PolicyCompiler.checkOperator] at hoperator
  split_ifs at hoperator with hdomain hset hordering hhost
  exact
    { domain := fun htype => not_not.mp fun hop => hdomain ⟨htype, hop⟩
      set := fun htype => not_not.mp fun hop => hset ⟨htype, hop⟩
      ordering := fun hop => not_not.mp fun htype => hordering ⟨hop, htype⟩
      host := fun hop => not_not.mp fun htype => hhost ⟨hop, htype⟩
      list := fun hop => .inr (list_of_shape hshape hop) }

theorem permitted_of_checked (h : C.checkComparison cmp = .ok ()) :
    ∃ spec, C.catalog cmp.attr = some spec ∧
      (Permitted spec.type cmp ∨ cmp.op ∉ UNARY_OPS ∧ ∃ path, cmp.reference? = some path) := by
  rw [PolicyCompiler.checkComparison] at h
  cases hspec : C.catalog cmp.attr with
  | none =>
    rw [hspec] at h
    cases h
  | some spec =>
    refine ⟨spec, rfl, ?_⟩
    rw [hspec] at h
    dsimp only at h
    by_cases hunary : cmp.op ∈ UNARY_OPS
    · exact .inl (permitted_of_unary hunary)
    · rw [if_neg hunary] at h
      split at h
      · cases h
      · split at h
        · rename_i path href
          exact .inr ⟨hunary, path, href⟩
        · obtain ⟨u, hoperator, hshape⟩ := exists_of_bind_ok h
          exact .inl (permitted_of_literal hoperator hshape)

end

/-- **A version that compiles uses each operator on the types it is permitted on** exactly if it
does so beside other attributes, where the compiler does not look. -/
theorem wellTyped_iff (C : PolicyCompiler) {policyId : Uuid} {tenantId : Option String}
    {ns : String} {v : PolicyVersion} {mode : PolicyMode} {p : CompiledPolicy}
    (h : C.compileVersion policyId tenantId ns v mode = .ok p) :
    WellTyped C v ↔ ∀ r ∈ v.rules, ∀ cmp ∈ r.condition.comparisons, ∀ path spec,
      cmp.op ∉ UNARY_OPS → cmp.reference? = some path → C.catalog cmp.attr = some spec →
        cmp.op ∈ besideAttribute spec.type := by
  have haccepted := accepted_of_compiles h
  constructor
  · intro hv r hr cmp hcmp path spec hop href hspec
    obtain ⟨spec', hspec', hpermitted⟩ := hv r hr cmp hcmp
    rw [hspec] at hspec'
    cases hspec'
    exact (permitted_iff_of_reference hop href).mp hpermitted
  · intro hbeside r hr cmp hcmp
    obtain ⟨spec, hspec, hcase⟩ := permitted_of_checked (haccepted.checked r hr cmp hcmp)
    refine ⟨spec, hspec, ?_⟩
    rcases hcase with hpermitted | ⟨hop, path, href⟩
    · exact hpermitted
    · exact (permitted_iff_of_reference hop href).mpr
        (hbeside r hr cmp hcmp path spec hop href hspec)

/-! ## runs -/

def hosts : PolicyCompiler where
  catalog := fun path =>
    if path = "target.host" ∨ path = "tenant.domain" then some { type := .domain } else none
  repr := fun _ => ""

def hostVersion (op : Op) : PolicyVersion where
  policyId := 1
  version := 1
  rules := [
    { id := "own hosts"
      effect := .allow
      condition := .comparison
        ⟨"target.host", op, .dict [("attr", .str "tenant.domain")]⟩ }]

def hostPolicy (op : Op) : CompiledPolicy where
  policyId := 1
  version := 1
  mode := .enforce
  rules := (hostVersion op).rules.map PolicyCompiler.compiledRule
  requiredAttrs := ["target.host", "tenant.domain"]

theorem hostVersion_compiles {op : Op} (hop : op ∉ UNARY_OPS) :
    hosts.compileVersion 1 none "" (hostVersion op) .enforce = .ok (hostPolicy op) := by
  cases op <;> first | rfl | exact absurd (by decide) hop

theorem suffix_wellTyped : WellTyped hosts (hostVersion .matchesDomain) := by
  refine (wellTyped_iff hosts (hostVersion_compiles (by decide))).mpr ?_
  intro r hr cmp hcmp path spec hop href hspec
  rw [List.mem_singleton.mp hr] at hcmp
  rw [List.mem_singleton.mp hcmp] at hspec ⊢
  cases hspec
  decide

theorem not_always_wellTyped : ¬∀ (C : PolicyCompiler) (policyId : Uuid)
    (tenantId : Option String) (ns : String) (v : PolicyVersion) (mode : PolicyMode)
    (p : CompiledPolicy), C.compileVersion policyId tenantId ns v mode = .ok p →
      WellTyped C v := by
  intro h
  obtain ⟨spec, hspec, hpermitted⟩ := h hosts 1 none "" (hostVersion .contains) .enforce
    (hostPolicy .contains) (hostVersion_compiles (by decide)) _ (List.mem_singleton_self _)
    _ (List.mem_singleton_self _)
  cases hspec
  exact absurd (hpermitted.domain rfl) (by decide)

theorem host_required : Evaluator.evaluate ⟨id⟩ [hostPolicy .eq]
      (fun path => if path = "subject.name" then some (.str "ann") else none) .deny .enforce =
    Evaluator.evaluate ⟨id⟩ [hostPolicy .eq] (fun _ => none) .deny .enforce := by
  refine resolve_required ⟨id⟩ [hostPolicy .eq] ?_ _ _ ?_ .deny .enforce
  · intro p hp
    rw [List.mem_singleton.mp hp]
    exact ⟨hosts, 1, none, "", hostVersion .eq, .enforce, hostVersion_compiles (by decide)⟩
  · decide

end HxArbiter
