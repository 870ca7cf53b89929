import Velaris.Arbiter.Analyzer
import Velaris.Base.Traverse

/-!
# HxArbiter: what the analyzer calls impossible

A branch is a list of comparisons.  The analyzer sees each as a constraint whose value is a tuple
where it is a list or another attribute: it tells two sets apart that are written in another order,
and another attribute from what that attribute may be.

* `matchesCond_iff`   a condition matches when one of its branches is met;
* `literal_of_checked`  the literals that the compiler lets through;
* `Candidate`   a value that every constraint on an attribute leaves;
* `Readable`   the branches that are read as they are meant;
* `met_satisfiable`   such a branch, if it is met, is not called impossible;
* `impossible_sound`   two rules, and the rules of a draft.
-/

set_option linter.unusedSectionVars false

namespace HxArbiter

open Py Base

/-! ## the normal form -/

section
variable {γ : Type} {leaf : Comparison → γ}

/-- the branches are those of the comparisons, each read as a leaf -/
def leaves (leaf : Comparison → γ) (bs : List (List Comparison)) : List (List γ) :=
  bs.map (·.map leaf)

theorem leaves_append (bs cs : List (List Comparison)) :
    leaves leaf (bs ++ cs) = leaves leaf bs ++ leaves leaf cs := List.map_append

theorem leaves_join (bs cs : List (List Comparison)) :
    leaves leaf (bs.flatMap fun a => cs.map fun b => a ++ b) =
      (leaves leaf bs).flatMap fun a => (leaves leaf cs).map fun b => a ++ b := by
  simp [leaves, List.map_flatMap, List.flatMap_map, Function.comp_def]

mutual

theorem dnf_eq : ∀ c : Condition, dnf leaf c = (dnf id c).map (leaves leaf)
  | .comparison cmp => rfl
  | .allOf cs => by
    rw [dnf, dnf]
    exact dnfAll_eq [[]] cs
  | .anyOf cs => by
    rw [dnf, dnf]
    exact dnfAny_eq [] cs
  | .notOf c => rfl

theorem dnfAll_eq (out : List (List Comparison)) : ∀ cs : List Condition,
    dnfAll leaf (leaves leaf out) cs = (dnfAll id out cs).map (leaves leaf)
  | [] => rfl
  | c :: cs => by
    rw [dnfAll, dnfAll, dnf_eq c]
    cases dnf id c with
    | none => rfl
    | some sub =>
      show (if 256 < (List.flatMap _ _).length then none else dnfAll leaf (List.flatMap _ _) cs) = _
      rw [← leaves_join, dnfAll_eq _ cs, leaves, List.length_map]
      dsimp only
      rw [apply_ite (Option.map (leaves leaf))]
      rfl

theorem dnfAny_eq (out : List (List Comparison)) : ∀ cs : List Condition,
    dnfAny leaf (leaves leaf out) cs = (dnfAny id out cs).map (leaves leaf)
  | [] => rfl
  | c :: cs => by
    rw [dnfAny, dnfAny, dnf_eq c]
    cases dnf id c with
    | none => rfl
    | some sub =>
      show dnfAny leaf (leaves leaf out ++ leaves leaf sub) cs = _
      rw [← leaves_append, dnfAny_eq _ cs]

end
end

section
variable {holds : Comparison → Bool}

mutual

/-- `_matches`, with what every comparison comes to -/
def Condition.matchesBy (holds : Comparison → Bool) : Condition → Bool
  | .allOf cs => matchesAllBy holds cs
  | .anyOf cs => matchesAnyBy holds cs
  | .notOf c => !c.matchesBy holds
  | .comparison cmp => holds cmp

def matchesAllBy (holds : Comparison → Bool) : List Condition → Bool
  | [] => true
  | c :: cs => c.matchesBy holds && matchesAllBy holds cs

def matchesAnyBy (holds : Comparison → Bool) : List Condition → Bool
  | [] => false
  | c :: cs => c.matchesBy holds || matchesAnyBy holds cs

end

def OneHolds (holds : Comparison → Bool) (bs : List (List Comparison)) : Prop :=
  ∃ b ∈ bs, ∀ c ∈ b, holds c = true

theorem oneHolds_append {bs cs : List (List Comparison)} :
    OneHolds holds (bs ++ cs) ↔ OneHolds holds bs ∨ OneHolds holds cs := by
  simp [OneHolds, or_and_right, exists_or]

theorem oneHolds_join {bs cs : List (List Comparison)} :
    OneHolds holds (bs.flatMap fun a => cs.map fun b => a ++ b) ↔
      OneHolds holds bs ∧ OneHolds holds cs := by
  constructor
  · intro h
    obtain ⟨b, hb, hmeets⟩ := h
    obtain ⟨l, hl, hb⟩ := List.mem_flatMap.mp hb
    obtain ⟨r, hr, rfl⟩ := List.mem_map.mp hb
    rw [List.forall_mem_append] at hmeets
    exact ⟨⟨l, hl, hmeets.1⟩, ⟨r, hr, hmeets.2⟩⟩
  · intro h
    obtain ⟨⟨l, hl, hmeetsl⟩, ⟨r, hr, hmeetsr⟩⟩ := h
    exact ⟨l ++ r, List.mem_flatMap.mpr ⟨l, hl, List.mem_map.mpr ⟨r, hr, rfl⟩⟩,
      List.forall_mem_append.mpr ⟨hmeetsl, hmeetsr⟩⟩

mutual

theorem matchesBy_iff : ∀ (c : Condition) {bs : List (List Comparison)}, dnf id c = some bs →
    (c.matchesBy holds = true ↔ OneHolds holds bs)
  | .comparison cmp, bs, h => by
    cases h
    simp [OneHolds, Condition.matchesBy]
  | .allOf cs, bs, h => by
    rw [Condition.matchesBy, matchesAllBy_iff [[]] cs h]
    exact (and_iff_right ⟨[], List.mem_singleton_self _, by simp⟩).symm
  | .anyOf cs, bs, h => by
    rw [Condition.matchesBy, matchesAnyBy_iff [] cs h]
    simp [OneHolds]
  | .notOf c, bs, h => by cases h

theorem matchesAllBy_iff (out : List (List Comparison)) : ∀ (cs : List Condition)
    {bs : List (List Comparison)}, dnfAll id out cs = some bs →
    (OneHolds holds bs ↔ OneHolds holds out ∧ matchesAllBy holds cs = true)
  | [], bs, h => by
    cases h
    simp [matchesAllBy]
  | c :: cs, bs, h => by
    rw [dnfAll] at h
    cases hc : dnf id c with
    | none =>
      rw [hc] at h
      cases h
    | some sub =>
      rw [hc] at h
      dsimp only at h
      split at h
      · cases h
      · rw [matchesAllBy_iff _ cs h, oneHolds_join, matchesAllBy, Bool.and_eq_true,
          matchesBy_iff c hc, and_assoc]

theorem matchesAnyBy_iff (out : List (List Comparison)) : ∀ (cs : List Condition)
    {bs : List (List Comparison)}, dnfAny id out cs = some bs →
    (OneHolds holds bs ↔ OneHolds holds out ∨ matchesAnyBy holds cs = true)
  | [], bs, h => by
    cases h
    simp [matchesAnyBy]
  | c :: cs, bs, h => by
    rw [dnfAny] at h
    cases hc : dnf id c with
    | none =>
      rw [hc] at h
      cases h
    | some sub =>
      rw [hc] at h
      rw [matchesAnyBy_iff _ cs h, oneHolds_append, matchesAnyBy, Bool.or_eq_true,
        matchesBy_iff c hc, or_assoc]

end
end

section
variable {ev : Evaluator} {attrs : Attrs}

mutual

theorem matchesCond_eq (attrs : Attrs) : ∀ c : Condition,
    ev.matchesCond attrs c = c.matchesBy (ev.compare attrs)
  | .allOf cs => by
    rw [Evaluator.matchesCond, Condition.matchesBy, matchesAll_eq]
  | .anyOf cs => by
    rw [Evaluator.matchesCond, Condition.matchesBy, matchesAny_eq]
  | .notOf c => by
    rw [Evaluator.matchesCond, Condition.matchesBy, matchesCond_eq attrs c]
  | .comparison cmp => rfl

theorem matchesAll_eq (attrs : Attrs) : ∀ cs : List Condition,
    ev.matchesAll attrs cs = matchesAllBy (ev.compare attrs) cs
  | [] => rfl
  | c :: cs => by
    rw [Evaluator.matchesAll, matchesAllBy, matchesCond_eq attrs c, matchesAll_eq attrs cs]

theorem matchesAny_eq (attrs : Attrs) : ∀ cs : List Condition,
    ev.matchesAny attrs cs = matchesAnyBy (ev.compare attrs) cs
  | [] => rfl
  | c :: cs => by
    rw [Evaluator.matchesAny, matchesAnyBy, matchesCond_eq attrs c, matchesAny_eq attrs cs]

end

def Meets (ev : Evaluator) (attrs : Attrs) (branch : List Comparison) : Prop :=
  ∀ c ∈ branch, ev.compare attrs c = true

def MeetsOne (ev : Evaluator) (attrs : Attrs) (bs : List (List Comparison)) : Prop :=
  ∃ b ∈ bs, Meets ev attrs b

theorem meetsOne_join {bs cs : List (List Comparison)} :
    MeetsOne ev attrs (bs.flatMap fun a => cs.map fun b => a ++ b) ↔
      MeetsOne ev attrs bs ∧ MeetsOne ev attrs cs := oneHolds_join

theorem matchesCond_iff (c : Condition) {bs : List (List Comparison)} (h : dnf id c = some bs) :
    ev.matchesCond attrs c = true ↔ MeetsOne ev attrs bs := by
  rw [matchesCond_eq]
  exact matchesBy_iff c h

end

/-! ## what the compiler promises of a comparison -/

section
variable {C : PolicyCompiler}

def AllChecked (C : PolicyCompiler) (bs : List (List Comparison)) : Prop :=
  ∀ b ∈ bs, ∀ cmp ∈ b, C.checkComparison cmp = .ok ()

theorem allChecked_append {bs cs : List (List Comparison)} (hbs : AllChecked C bs)
    (hcs : AllChecked C cs) : AllChecked C (bs ++ cs) :=
  List.forall_mem_append.mpr ⟨hbs, hcs⟩

theorem allChecked_join {bs cs : List (List Comparison)} (hbs : AllChecked C bs)
    (hcs : AllChecked C cs) : AllChecked C (bs.flatMap fun a => cs.map fun b => a ++ b) := by
  intro b hb
  obtain ⟨l, hl, hb⟩ := List.mem_flatMap.mp hb
  obtain ⟨r, hr, rfl⟩ := List.mem_map.mp hb
  exact List.forall_mem_append.mpr ⟨hbs l hl, hcs r hr⟩

mutual

theorem walk_checked : ∀ (c : Condition) {depth : Nat} {w w' : Walked}
    {bs : List (List Comparison)}, C.walk depth c w = .ok w' → dnf id c = some bs → AllChecked C bs
  | .comparison cmp, depth, w, w', bs, h, hbs => by
    rw [PolicyCompiler.walk] at h
    obtain ⟨w₁, -, h⟩ := exists_of_bind_ok h
    obtain ⟨u, hcheck, -⟩ := exists_of_bind_ok h
    cases hbs
    simpa [AllChecked] using hcheck
  | .allOf cs, depth, w, w', bs, h, hbs => by
    rw [PolicyCompiler.walk] at h
    obtain ⟨w₁, -, h⟩ := exists_of_bind_ok h
    exact (walkAll_checked cs h).1 (by simp [AllChecked]) hbs
  | .anyOf cs, depth, w, w', bs, h, hbs => by
    rw [PolicyCompiler.walk] at h
    obtain ⟨w₁, -, h⟩ := exists_of_bind_ok h
    exact (walkAll_checked cs h).2 (by simp [AllChecked]) hbs
  | .notOf c, depth, w, w', bs, h, hbs => by cases hbs

theorem walkAll_checked : ∀ (cs : List Condition) {depth : Nat} {w w' : Walked},
    C.walkAll depth cs w = .ok w' →
      (∀ {out bs : List (List Comparison)}, AllChecked C out → dnfAll id out cs = some bs →
        AllChecked C bs) ∧
      (∀ {out bs : List (List Comparison)}, AllChecked C out → dnfAny id out cs = some bs →
        AllChecked C bs)
  | [], depth, w, w', h => by
    constructor
    · intro out bs hout hbs
      cases hbs
      exact hout
    · intro out bs hout hbs
      cases hbs
      exact hout
  | c :: cs, depth, w, w', h => by
    rw [PolicyCompiler.walkAll] at h
    obtain ⟨w₁, hc, h⟩ := exists_of_bind_ok h
    have hcs := walkAll_checked cs h
    constructor
    · intro out bs hout hbs
      rw [dnfAll] at hbs
      cases hsub : dnf id c with
      | none =>
        rw [hsub] at hbs
        cases hbs
      | some sub =>
        rw [hsub] at hbs
        dsimp only at hbs
        split at hbs
        · cases hbs
        · exact hcs.1 (allChecked_join hout (walk_checked c hc hsub)) hbs
    · intro out bs hout hbs
      rw [dnfAny] at hbs
      cases hsub : dnf id c with
      | none =>
        rw [hsub] at hbs
        cases hbs
      | some sub =>
        rw [hsub] at hbs
        exact hcs.2 (allChecked_append hout (walk_checked c hc hsub)) hbs

end

def Scalar (v : Value) : Prop := ∃ k, v.atom = some k ∧ k ≠ .null

theorem scalar_of_takes {type : AttrType} {v : Value} (h : type.takes v = true) : Scalar v := by
  cases type <;> cases v <;> simp [AttrType.takes, Scalar, Value.atom] at h ⊢

theorem takes_of_checked {spec : AttrSpec} {path : String} {v : Value}
    (h : C.checkLiteral spec path v = .ok ()) : spec.type.takes v = true := by
  by_contra htakes
  unfold PolicyCompiler.checkLiteral at h
  dsimp only at h
  split at h
  · cases h
  · rw [if_pos htakes] at h
    cases h

theorem scalar_of_checked {spec : AttrSpec} {path : String} {v : Value}
    (h : C.checkLiteral spec path v = .ok ()) : Scalar v :=
  scalar_of_takes (takes_of_checked h)

theorem forM_ok {α ε : Type} {f : α → Except ε Unit} {xs : List α} (h : xs.forM f = .ok ()) :
    ∀ x ∈ xs, f x = .ok () := by
  induction xs with
  | nil => simp
  | cons x xs ih =>
    rw [List.forM_eq_forM, List.forM_cons] at h
    obtain ⟨u, hx, h⟩ := exists_of_bind_ok h
    intro y hy
    rcases List.mem_cons.mp hy with rfl | hy
    · exact hx
    · exact ih h y hy

structure Literal (type : AttrType) (cmp : Comparison) : Prop where
  scalar : cmp.op = .eq ∨ cmp.op = .ne → type ≠ .stringSet → Scalar cmp.value
  set : cmp.op = .eq ∨ cmp.op = .ne → type = .stringSet → ∃ xs, cmp.value = .list xs
  list : cmp.op = .isIn ∨ cmp.op = .notIn →
    type ≠ .stringSet ∧ ∃ xs, cmp.value = .list xs ∧ xs ≠ [] ∧ ∀ x ∈ xs, Scalar x

theorem checkShape_list {spec : AttrSpec} {cmp : Comparison}
    (hop : cmp.op = .isIn ∨ cmp.op = .notIn) (h : C.checkShape spec cmp = .ok ()) :
    ∃ xs, cmp.value = .list xs ∧ xs ≠ [] ∧ ∀ x ∈ xs, Scalar x := by
  have hmem : cmp.op ∈ LIST_VALUE_OPS := by
    rcases hop with hop | hop <;> rw [hop] <;> decide
  rw [PolicyCompiler.checkShape] at h
  split at h
  · rename_i hdomain _
    rcases hop with hop | hop <;> rw [hop] at hdomain <;> cases hdomain
  · rw [if_pos hmem] at h
    split at h
    · rename_i xs hvalue
      rw [PolicyCompiler.checkLiterals] at h
      split at h
      · cases h
      · rename_i hne
        exact ⟨xs, hvalue, hne, fun x hx => scalar_of_checked (forM_ok h x hx)⟩
    · cases h

theorem checkShape_single {spec : AttrSpec} {cmp : Comparison}
    (hop : cmp.op = .eq ∨ cmp.op = .ne) (h : C.checkShape spec cmp = .ok ()) :
    if spec.type = .stringSet then ∃ xs, cmp.value = .list xs else Scalar cmp.value := by
  have hmem : cmp.op ∉ LIST_VALUE_OPS ∧ cmp.op ∉ [Op.contains, .notContains] := by
    rcases hop with hop | hop <;> rw [hop] <;> decide
  rw [PolicyCompiler.checkShape] at h
  split at h
  · rename_i hdomain _
    rcases hop with hop | hop <;> rw [hop] at hdomain <;> cases hdomain
  · rw [if_neg hmem.1] at h
    split at h
    · rename_i htype
      rw [if_pos htype]
      rw [if_neg hmem.2] at h
      split at h
      · rename_i xs hvalue
        exact ⟨xs, hvalue⟩
      · cases h
    · rename_i htype
      rw [if_neg htype]
      exact scalar_of_checked h

theorem checkOperator_set {spec : AttrSpec} {cmp : Comparison}
    (hop : cmp.op = .isIn ∨ cmp.op = .notIn) (h : C.checkOperator spec cmp = .ok ()) :
    spec.type ≠ .stringSet := by
  intro htype
  have hmem : cmp.op ∉ SET_OPS := by
    rcases hop with hop | hop <;> rw [hop] <;> decide
  rw [PolicyCompiler.checkOperator] at h
  rw [if_neg (by simp [htype]), if_pos ⟨htype, hmem⟩] at h
  cases h

theorem takes_of_single {spec : AttrSpec} {cmp : Comparison} (hlist : cmp.op ∉ LIST_VALUE_OPS)
    (hdomain : cmp.op ≠ .matchesDomain) (htype : spec.type ≠ .stringSet)
    (h : C.checkShape spec cmp = .ok ()) : spec.type.takes cmp.value = true := by
  rw [PolicyCompiler.checkShape] at h
  split at h
  · rename_i hop _
    exact absurd hop hdomain
  · rw [if_neg hlist, if_neg htype] at h
    exact takes_of_checked h

theorem shape_of_checked {cmp : Comparison} (h : C.checkComparison cmp = .ok ())
    (href : cmp.reference? = none) (hunary : cmp.op ∉ UNARY_OPS) :
    ∃ spec, C.catalog cmp.attr = some spec ∧ C.checkOperator spec cmp = .ok () ∧
      C.checkShape spec cmp = .ok () := by
  rw [PolicyCompiler.checkComparison] at h
  cases hspec : C.catalog cmp.attr with
  | none =>
    rw [hspec] at h
    cases h
  | some spec =>
    rw [hspec] at h
    dsimp only at h
    rw [if_neg hunary] at h
    split at h
    · cases h
    · rw [href] at h
      obtain ⟨u, hoperator, hshape⟩ := exists_of_bind_ok h
      exact ⟨spec, rfl, hoperator, hshape⟩

theorem literal_of_checked {cmp : Comparison} (h : C.checkComparison cmp = .ok ()) :
    ∃ spec, C.catalog cmp.attr = some spec ∧
      (cmp.reference? = none → cmp.op ∉ UNARY_OPS → Literal spec.type cmp) := by
  have hspec : ∃ spec, C.catalog cmp.attr = some spec := by
    rw [PolicyCompiler.checkComparison] at h
    cases hspec : C.catalog cmp.attr with
    | none =>
      rw [hspec] at h
      cases h
    | some spec => exact ⟨spec, rfl⟩
  obtain ⟨spec, hspec⟩ := hspec
  refine ⟨spec, hspec, fun href hunary => ?_⟩
  obtain ⟨spec', hspec', hoperator, hshape⟩ := shape_of_checked h href hunary
  rw [hspec] at hspec'
  cases hspec'
  refine ⟨?_, ?_, ?_⟩
  · intro hop htype
    have hsingle := checkShape_single hop hshape
    rw [if_neg htype] at hsingle
    exact hsingle
  · intro hop htype
    have hsingle := checkShape_single hop hshape
    rw [if_pos htype] at hsingle
    exact hsingle
  · intro hop
    exact ⟨checkOperator_set hop hoperator, checkShape_list hop hshape⟩

end

/-! ## what a comparison that holds says of its attribute -/

section
variable {ev : Evaluator} {attrs : Attrs} {cmp : Comparison}

theorem compare_iff (hop : cmp.op ∉ UNARY_OPS) :
    ev.compare attrs cmp = true ↔ ∃ left right, attrs cmp.attr = some left ∧
      Evaluator.rightHand attrs cmp.value = some right ∧ ev.apply cmp.op left right = .ok true := by
  have hcompare : ev.compare attrs cmp = ev.compareSides attrs cmp cmp.op := by
    unfold Evaluator.compare
    split
    · rename_i h
      exact absurd (by rw [h]; decide) hop
    · rename_i h
      exact absurd (by rw [h]; decide) hop
    · rfl
  rw [hcompare, Evaluator.compareSides]
  cases hleft : attrs cmp.attr with
  | none => simp
  | some left =>
    cases hright : Evaluator.rightHand attrs cmp.value with
    | none => simp
    | some right =>
      cases happly : ev.apply cmp.op left right with
      | error e => cases e; simp [happly]
      | ok b => simp [happly]

theorem rightHand_literal (h : cmp.reference? = none) :
    Evaluator.rightHand attrs cmp.value = some cmp.value := by
  rw [Comparison.reference?] at h
  unfold Evaluator.rightHand
  split at h
  · cases h
  · rename_i hvalue
    split
    · rename_i path h'
      exact (hvalue _ h').elim
    · rename_i path _ h'
      exact (hvalue _ h').elim
    · rfl

theorem rightHand_reference {path right : Value} (h : cmp.reference? = some path)
    (hright : Evaluator.rightHand attrs cmp.value = some right) :
    ∃ y, path = .str y ∧ cmp.value = .dict [("attr", .str y)] ∧ attrs y = some right := by
  rw [Comparison.reference?] at h
  split at h
  · rename_i p hvalue
    rw [hvalue] at hright
    cases p with
    | str y =>
      obtain rfl := Option.some.inj h
      exact ⟨y, rfl, hvalue, hright⟩
    | none | bool _ | int _ | float _ | list _ | dict _ => cases hright
  · cases h

theorem applyEq_scalar {left right : Value} {k : Atom} {b : Bool} (hk : right.atom = some k)
    (h : Evaluator.applyEq left right = .ok b) : b = true ↔ left.atom = some k := by
  have hset : Evaluator.asSet right = .ok none := by
    cases right with
    | list xs => cases hk
    | none | bool _ | int _ | float _ | str _ | dict _ => rfl
  rw [← Value.eq_iff_atom hk]
  rw [Evaluator.applyEq] at h
  obtain ⟨l, -, h⟩ := exists_of_bind_ok h
  cases l with
  | none => rw [← Except.ok.inj h]
  | some l =>
    rw [hset] at h
    rw [← Except.ok.inj h]

theorem mkSet_ok {xs : List Value} {l : Option (List Value)}
    (h : Evaluator.asSet (.list xs) = .ok l) : xs.all Value.hashable = true ∧ l = some xs := by
  rw [Evaluator.asSet, Value.mkSet] at h
  split at h
  · rename_i hall
    exact ⟨hall, (Except.ok.inj h).symm⟩
  · cases h

theorem applyEq_list {left : Value} {xs : List Value} {b : Bool}
    (h : Evaluator.applyEq left (.list xs) = .ok b) :
    (b = false ∧ ∀ ls, left ≠ .list ls) ∨
      ∃ ls, left = .list ls ∧ ls.all Value.hashable = true ∧ xs.all Value.hashable = true ∧
        b = Value.setEq ls xs := by
  cases left with
  | list ls =>
    rw [Evaluator.applyEq] at h
    obtain ⟨l, hl, h⟩ := exists_of_bind_ok h
    obtain ⟨hls, rfl⟩ := mkSet_ok hl
    obtain ⟨r, hr, h⟩ := exists_of_bind_ok h
    obtain ⟨hxs, rfl⟩ := mkSet_ok hr
    exact Or.inr ⟨ls, rfl, hls, hxs, (Except.ok.inj h).symm⟩
  | none | bool _ | int _ | float _ | str _ | dict _ =>
    cases h
    exact Or.inl ⟨rfl, by simp⟩

def Sides (attrs : Attrs) (cmp : Comparison) (left right : Value) : Prop :=
  attrs cmp.attr = some left ∧ Evaluator.rightHand attrs cmp.value = some right

theorem holds_eq_iff (hop : cmp.op = .eq) : ev.compare attrs cmp = true ↔
    ∃ left right, Sides attrs cmp left right ∧ Evaluator.applyEq left right = .ok true := by
  rw [compare_iff (by rw [hop]; decide), hop]
  simp only [Sides, and_assoc]
  rfl

theorem holds_ne_iff (hop : cmp.op = .ne) : ev.compare attrs cmp = true ↔
    ∃ left right, Sides attrs cmp left right ∧ Evaluator.applyEq left right = .ok false := by
  rw [compare_iff (by rw [hop]; decide), hop]
  simp only [Sides, and_assoc]
  refine exists_congr fun left => exists_congr fun right => and_congr_right fun _ =>
    and_congr_right fun _ => ?_
  show (Evaluator.applyEq left right).map (!·) = _ ↔ _
  cases Evaluator.applyEq left right with
  | error e => simp [Except.map]
  | ok b => simp [Except.map]

theorem holds_in_iff (hop : cmp.op = .isIn) : ev.compare attrs cmp = true ↔
    ∃ left right, Sides attrs cmp left right ∧ Evaluator.applyIn left right = true := by
  rw [compare_iff (by rw [hop]; decide), hop]
  simp only [Sides, and_assoc, Evaluator.apply, Except.ok.injEq]

theorem holds_notIn_iff (hop : cmp.op = .notIn) : ev.compare attrs cmp = true ↔
    ∃ left right, Sides attrs cmp left right ∧ Evaluator.applyIn left right = false := by
  rw [compare_iff (by rw [hop]; decide), hop]
  simp only [Sides, and_assoc, Evaluator.apply, Except.ok.injEq, Bool.not_eq_true']

theorem Sides.literal {left right : Value} (h : Sides attrs cmp left right)
    (href : cmp.reference? = none) : right = cmp.value := by
  have hright := h.2
  rw [rightHand_literal href] at hright
  exact (Option.some.inj hright).symm

end

/-! ## one attribute -/

theorem mem_insertSorted {x : Value} {xs ys : List Value} (h : insertSorted x xs = .ok ys)
    (v : Value) : v ∈ ys ↔ v = x ∨ v ∈ xs := by
  induction xs generalizing ys with
  | nil =>
    cases h
    simp
  | cons y xs ih =>
    rw [insertSorted] at h
    split at h
    · cases h
    · obtain ⟨zs, hzs, h⟩ := exists_of_bind_ok h
      cases h
      rw [List.mem_cons, ih hzs, List.mem_cons]
      tauto
    · cases h
      rw [List.mem_cons]

theorem mem_sortedValues {xs ys : List Value} (h : sortedValues xs = .ok ys) (v : Value) :
    v ∈ ys ↔ v ∈ xs := by
  induction xs generalizing ys with
  | nil =>
    cases h
    rfl
  | cons x xs ih =>
    rw [sortedValues] at h
    obtain ⟨zs, hzs, h⟩ := exists_of_bind_ok h
    rw [mem_insertSorted h, ih hzs, List.mem_cons]

/-- a value that every constraint on the attribute leaves -/
structure Candidate (group : List Constraint) (x : Value) : Prop where
  first : ∀ p rest, group.filter positive = p :: rest → ∀ vs, values p = some vs → x ∈ vs
  among : ∀ p ∈ group, positive p = true → ∀ vs, values p = some vs → x.elem vs = true
  left : ∀ c ∈ group, ∀ out, excluded c = some out → x.elem out = false

theorem weighRest_possible {group positives : List Constraint} {decidedAny : Bool} {x : Value}
    (hfirst : ∀ p rest, positives = p :: rest → ∀ vs, values p = some vs → x ∈ vs)
    (hleft : ∀ c ∈ group, ∀ out, excluded c = some out → x.elem out = false)
    (hboth : ¬ (group.any (·.op = .isPresent) = true ∧ group.any (·.op = .isAbsent) = true))
    (habsent : group.any (·.op = .isAbsent) = true → positives = []) :
    weighRest group positives decidedAny ≠ .impossible := by
  have hempty : ¬ (group.filterMap (leftOver positives)).any List.isEmpty = true := by
    intro h
    obtain ⟨vs, hvs, hnil⟩ := List.any_eq_true.mp h
    obtain ⟨c, hc, hvs⟩ := List.mem_filterMap.mp hvs
    cases positives with
    | nil => cases hvs
    | cons p rest =>
      rw [leftOver] at hvs
      split at hvs
      · rename_i out allowed hout hallowed
        cases hvs
        have hmem : x ∈ allowed.filter fun v => !v.elem out :=
          List.mem_filter.mpr ⟨hfirst p rest rfl allowed hallowed, by rw [hleft c hc out hout]; rfl⟩
        rw [List.isEmpty_iff.mp hnil] at hmem
        cases hmem
      · cases hvs
  rw [weighRest]
  rw [if_neg hempty, if_neg (by rw [Bool.and_eq_true]; exact hboth)]
  split
  · rename_i h
    rw [Bool.and_eq_true] at h
    rw [habsent h.1] at h
    exact absurd h.2 (by decide)
  · split <;> decide

theorem weigh_possible {attr : String} {group : List Constraint} {x : Value}
    (hx : Candidate group x)
    (hboth : ¬ (group.any (·.op = .isPresent) = true ∧ group.any (·.op = .isAbsent) = true))
    (habsent : group.any (·.op = .isAbsent) = true → group.filter positive = []) :
    weigh attr group ≠ .ok .impossible := by
  rw [weigh]
  split
  · rename_i hmany
    split
    · intro h
      cases h
    · rename_i sets hsets
      -- the candidate is in the intersection
      have hmem : x ∈ intersection sets := by
        cases hp : group.filter positive with
        | nil =>
          rw [hp] at hmany
          exact absurd hmany (by decide)
        | cons p rest =>
          rw [hp] at hsets
          have hall := forall₂_of_mapM hsets
          cases hall with
          | cons hvs hrest =>
            refine List.mem_filter.mpr ⟨hx.first p rest hp _ hvs, List.all_eq_true.mpr ?_⟩
            intro t ht
            obtain ⟨q, hq, hqt⟩ := mem_left_of_forall₂ hrest ht
            have hq' : q ∈ group.filter positive := by
              rw [hp]
              exact List.mem_cons_of_mem _ hq
            exact hx.among q (List.mem_filter.mp hq').1 (List.mem_filter.mp hq').2 t hqt
      rw [if_neg (List.ne_nil_of_mem hmem)]
      intro h
      obtain ⟨common, hcommon, h⟩ := exists_of_bind_ok h
      refine weighRest_possible ?_ hx.left hboth ?_ (Except.ok.inj h)
      · intro p rest hp vs hvs
        cases hp
        cases hvs
        exact (mem_sortedValues hcommon x).mpr hmem
      · intro h
        rw [habsent h] at hmany
        exact absurd hmany (by decide)
  · intro h
    exact weighRest_possible hx.first hx.left hboth habsent (Except.ok.inj h)

theorem weigh_unrequired {attr : String} {group : List Constraint}
    (hboth : ¬ (group.any (·.op = .isPresent) = true ∧ group.any (·.op = .isAbsent) = true))
    (h : group.filter positive = []) : weigh attr group ≠ .ok .impossible := by
  rw [weigh]
  rw [h, if_neg (by decide)]
  intro himpossible
  rw [weighRest] at himpossible
  have hnone : group.filterMap (leftOver []) = [] := by
    rw [List.filterMap_eq_nil_iff]
    intro c _
    rfl
  rw [hnone, if_neg (by decide), if_neg (by rw [Bool.and_eq_true]; exact hboth),
    if_neg (by simp)] at himpossible
  cases himpossible

/-! ## the branches that are read as they are meant -/

structure Readable (cs : List Comparison) : Prop where
  /-- a reference is the only thing that is required of its attribute -/
  references : ∀ p ∈ cs, positive p.constraint = true → p.reference? ≠ none →
    ∀ q ∈ cs, q.attr = p.attr →
      (positive q.constraint = true → q.op = p.op ∧ q.value = p.value) ∧ q.op ≠ .isAbsent
  /-- no list is written like the tuple that stands for a reference -/
  spelled : ∀ p ∈ cs, ∀ q ∈ cs, q.attr = p.attr → (p.reference? = none ↔ q.reference? ≠ none) →
    ∀ vs out, values p.constraint = some vs → excluded q.constraint = some out →
      ∀ v ∈ vs, v.elem out = false
  /-- sets with the same elements are written alike -/
  sets : ∀ p ∈ cs, ∀ q ∈ cs, q.attr = p.attr → p.op = .eq → q.op = .eq →
    ∀ xs ys, p.value = .list xs → q.value = .list ys → xs.all Value.hashable = true →
      ys.all Value.hashable = true → Value.setEq xs ys = true → Value.eqList xs ys = true

theorem positive_iff {cmp : Comparison} :
    positive cmp.constraint = true ↔ cmp.op = .eq ∨ cmp.op = .isIn := by
  rw [positive, decide_eq_true_eq]
  rfl

theorem values_eq {cmp : Comparison} (hop : cmp.op = .eq) :
    values cmp.constraint = some [hashableOf cmp.value] := by
  rw [values, Comparison.constraint, hop]

theorem excluded_op {cmp : Comparison} {out : List Value} (h : excluded cmp.constraint = some out) :
    cmp.op = .ne ∧ out = [hashableOf cmp.value] ∨
      cmp.op = .notIn ∧ hashableOf cmp.value = .list out := by
  rw [excluded] at h
  split at h
  · rename_i hop
    exact Or.inl ⟨hop, (Option.some.inj h).symm⟩
  · rename_i hop hvalue
    rw [← Option.some.inj h]
    exact Or.inr ⟨hop, hvalue⟩
  · cases h

theorem binary_of_positive {cmp : Comparison} (h : positive cmp.constraint = true) :
    cmp.op ∉ UNARY_OPS := by
  rcases positive_iff.mp h with hop | hop <;> rw [hop] <;> decide

theorem binary_of_excluded {cmp : Comparison} {out : List Value}
    (h : excluded cmp.constraint = some out) : cmp.op ∉ UNARY_OPS := by
  rcases excluded_op h with ⟨hop, -⟩ | ⟨hop, -⟩ <;> rw [hop] <;> decide

theorem hashableOf_atom {v : Value} {k : Atom} (h : v.atom = some k) : hashableOf v = v := by
  cases v with
  | list _ | dict _ => cases h
  | none | bool _ | int _ | float _ | str _ => rfl

theorem hashableList_atoms {xs : List Value} (h : xs.all Value.hashable = true) :
    hashableList xs = xs := by
  induction xs with
  | nil => rfl
  | cons x xs ih =>
    rw [List.all_cons, Bool.and_eq_true] at h
    obtain ⟨k, hk⟩ := Value.hashable_iff.mp h.1
    rw [hashableList, hashableOf_atom hk, ih h.2]

section
variable {C : PolicyCompiler} {ev : Evaluator} {attrs : Attrs} {A : String} {g : List Comparison}

theorem candidate_of {p : Comparison} {rest : List Comparison} {x : Value} {vs : List Value}
    (hp : g.filter (fun c => positive c.constraint) = p :: rest)
    (hvs : values p.constraint = some vs) (hx : x ∈ vs)
    (hamong : ∀ q ∈ g, positive q.constraint = true → ∀ ws, values q.constraint = some ws →
      x.elem ws = true)
    (hleft : ∀ q ∈ g, ∀ out, excluded q.constraint = some out → x.elem out = false) :
    Candidate (g.map Comparison.constraint) x := by
  constructor
  · intro c cs hc ws hws
    rw [List.filter_map] at hc
    change (g.filter fun c => positive c.constraint).map _ = _ at hc
    rw [hp] at hc
    cases hc
    rw [hvs] at hws
    rw [← Option.some.inj hws]
    exact hx
  · intro c hc hpos ws hws
    obtain ⟨q, hq, rfl⟩ := List.mem_map.mp hc
    exact hamong q hq hpos ws hws
  · intro c hc out hout
    obtain ⟨q, hq, rfl⟩ := List.mem_map.mp hc
    exact hleft q hq out hout

theorem candidate_reference (hattr : ∀ c ∈ g, c.attr = A) (hmeets : Meets ev attrs g)
    (hread : Readable g) {p : Comparison} {rest : List Comparison}
    (hp : g.filter (fun c => positive c.constraint) = p :: rest) (href : p.reference? ≠ none) :
    ∃ x, Candidate (g.map Comparison.constraint) x := by
  have hpg : p ∈ g.filter fun c => positive c.constraint := by rw [hp]; exact List.mem_cons_self
  obtain ⟨hpg, hpos⟩ := List.mem_filter.mp hpg
  obtain ⟨path, hpath⟩ := Option.ne_none_iff_exists'.mp href
  have hsame : ∀ q ∈ g, positive q.constraint = true →
      values q.constraint = values p.constraint := by
    intro q hq hqpos
    obtain ⟨hop, hvalue⟩ := (hread.references p hpg hpos href q hq
      ((hattr q hq).trans (hattr p hpg).symm)).1 hqpos
    rw [values, values, Comparison.constraint, Comparison.constraint, hop, hvalue]
  have hmixed : ∀ q ∈ g, q.reference? = none → ∀ vs out, values p.constraint = some vs →
      excluded q.constraint = some out → ∀ v ∈ vs, v.elem out = false := by
    intro q hq hqref
    refine hread.spelled p hpg q hq ((hattr q hq).trans (hattr p hpg).symm) ?_
    simp [href, hqref]
  rcases positive_iff.mp hpos with hop | hop
  · obtain ⟨left, right, ⟨hleft, hright⟩, heq⟩ := (holds_eq_iff hop).mp (hmeets p hpg)
    obtain ⟨y, -, hvalue, hy⟩ := rightHand_reference hpath hright
    have hvs : values p.constraint = some [.list [.list [.str "attr", .str y]]] := by
      rw [values_eq hop, hvalue]
      rfl
    refine ⟨_, candidate_of hp hvs List.mem_cons_self ?_ ?_⟩
    · intro q hq hqpos ws hws
      rw [hsame q hq hqpos, hvs] at hws
      rw [← Option.some.inj hws]
      simp [Value.elem, Value.eq, Value.eqList]
    · intro q hq out hout
      by_cases hqref : q.reference? = none
      · exact hmixed q hq hqref _ out hvs hout _ List.mem_cons_self
      · obtain ⟨path', hpath'⟩ := Option.ne_none_iff_exists'.mp hqref
        rcases excluded_op hout with ⟨hqop, rfl⟩ | ⟨hqop, hqvalue⟩
        · obtain ⟨left', right', ⟨hleft', hright'⟩, hne⟩ := (holds_ne_iff hqop).mp (hmeets q hq)
          obtain ⟨z, -, hvalue', hz⟩ := rightHand_reference hpath' hright'
          rw [hvalue']
          by_cases hyz : y = z
          · rw [hattr q hq, ← hattr p hpg, hleft] at hleft'
            rw [← hyz, hy] at hz
            rw [← Option.some.inj hleft', ← Option.some.inj hz, heq] at hne
            cases hne
          · show Value.elem _ [.list [.list [.str "attr", .str z]]] = false
            simp [Value.elem, Value.eq, Value.eqList, hyz]
        · obtain ⟨left', right', ⟨-, hright'⟩, -⟩ := (holds_notIn_iff hqop).mp (hmeets q hq)
          obtain ⟨z, -, hvalue', -⟩ := rightHand_reference hpath' hright'
          rw [hvalue'] at hqvalue
          rw [← Value.list.inj hqvalue]
          simp [Value.elem, Value.eq, Value.eqList]
  · obtain ⟨left, right, ⟨hleft, hright⟩, hin⟩ := (holds_in_iff hop).mp (hmeets p hpg)
    obtain ⟨y, -, hvalue, hy⟩ := rightHand_reference hpath hright
    have hvs : values p.constraint = some [.list [.str "attr", .str y]] := by
      rw [values, Comparison.constraint, hop, hvalue]
      rfl
    refine ⟨_, candidate_of hp hvs List.mem_cons_self ?_ ?_⟩
    · intro q hq hqpos ws hws
      rw [hsame q hq hqpos, hvs] at hws
      rw [← Option.some.inj hws]
      simp [Value.elem, Value.eq, Value.eqList]
    · intro q hq out hout
      by_cases hqref : q.reference? = none
      · exact hmixed q hq hqref _ out hvs hout _ List.mem_cons_self
      · obtain ⟨path', hpath'⟩ := Option.ne_none_iff_exists'.mp hqref
        rcases excluded_op hout with ⟨hqop, rfl⟩ | ⟨hqop, hqvalue⟩
        · obtain ⟨left', right', ⟨-, hright'⟩, -⟩ := (holds_ne_iff hqop).mp (hmeets q hq)
          obtain ⟨z, -, hvalue', -⟩ := rightHand_reference hpath' hright'
          rw [hvalue']
          show Value.elem _ [.list [.list [.str "attr", .str z]]] = false
          simp [Value.elem, Value.eq, Value.eqList]
        · obtain ⟨left', right', ⟨hleft', hright'⟩, hnot⟩ := (holds_notIn_iff hqop).mp (hmeets q hq)
          obtain ⟨z, -, hvalue', hz⟩ := rightHand_reference hpath' hright'
          rw [hvalue'] at hqvalue
          rw [← Value.list.inj hqvalue]
          by_cases hyz : y = z
          · rw [hattr q hq, ← hattr p hpg, hleft] at hleft'
            rw [← hyz, hy] at hz
            rw [← Option.some.inj hleft', ← Option.some.inj hz, hin] at hnot
            cases hnot
          · show Value.elem _ [.list [.str "attr", .str z]] = false
            simp [Value.elem, Value.eq, Value.eqList, hyz]

variable {type : AttrType} {left : Value}

theorem required_scalar {q : Comparison} (htype : type ≠ .stringSet) (hlit : Literal type q)
    (href : q.reference? = none) (hpos : positive q.constraint = true)
    (hq : ev.compare attrs q = true) (hleft : attrs q.attr = some left) :
    ∃ vs k, values q.constraint = some vs ∧ left.atom = some k ∧ k ≠ .null ∧
      some k ∈ vs.map Value.atom := by
  rcases positive_iff.mp hpos with hop | hop
  · obtain ⟨left', right, hsides, heq⟩ := (holds_eq_iff hop).mp hq
    obtain ⟨k, hk, hnull⟩ := hlit.scalar (Or.inl hop) htype
    rw [hsides.literal href] at heq
    have hatom := (applyEq_scalar hk heq).mp rfl
    rw [hsides.1] at hleft
    rw [Option.some.inj hleft] at hatom
    refine ⟨_, k, values_eq hop, hatom, hnull, ?_⟩
    rw [hashableOf_atom hk, List.map_singleton, hk]
    exact List.mem_singleton_self _
  · obtain ⟨left', right, hsides, hin⟩ := (holds_in_iff hop).mp hq
    obtain ⟨-, xs, hvalue, -, hscalar⟩ := hlit.list (Or.inl hop)
    rw [hsides.literal href, hvalue] at hin
    obtain ⟨x, hx, heq⟩ := List.any_eq_true.mp hin
    obtain ⟨k, hk, hnull⟩ := hscalar x hx
    rw [hsides.1] at hleft
    rw [Option.some.inj hleft] at heq
    have hall : xs.all Value.hashable = true := List.all_eq_true.mpr fun y hy =>
      Value.hashable_iff.mpr ((hscalar y hy).imp fun _ h => h.1)
    refine ⟨xs, k, ?_, (Value.eq_iff_atom hk).mp heq, hnull, List.mem_map.mpr ⟨x, hx, hk⟩⟩
    rw [values, Comparison.constraint, hop, hvalue, hashableOf, hashableList_atoms hall]

theorem left_out_scalar {q : Comparison} {out : List Value} {k : Atom}
    (htype : type ≠ .stringSet) (hlit : Literal type q) (href : q.reference? = none)
    (hout : excluded q.constraint = some out) (hq : ev.compare attrs q = true)
    (hleft : attrs q.attr = some left) (hk : left.atom = some k) :
    some k ∉ out.map Value.atom := by
  rcases excluded_op hout with ⟨hop, rfl⟩ | ⟨hop, hvalue⟩
  · obtain ⟨left', right, hsides, hne⟩ := (holds_ne_iff hop).mp hq
    obtain ⟨k', hk', -⟩ := hlit.scalar (Or.inr hop) htype
    rw [hsides.literal href] at hne
    have hatom := (applyEq_scalar hk' hne).not.mp (by decide)
    rw [hsides.1] at hleft
    rw [Option.some.inj hleft, hk] at hatom
    rw [hashableOf_atom hk', List.map_singleton, hk', List.mem_singleton]
    exact hatom
  · obtain ⟨left', right, hsides, hnot⟩ := (holds_notIn_iff hop).mp hq
    obtain ⟨-, xs, hxs, -, hscalar⟩ := hlit.list (Or.inr hop)
    have hall : xs.all Value.hashable = true := List.all_eq_true.mpr fun y hy =>
      Value.hashable_iff.mpr ((hscalar y hy).imp fun _ h => h.1)
    rw [hxs, hashableOf, hashableList_atoms hall] at hvalue
    rw [hsides.literal href, hxs, Value.list.inj hvalue] at hnot
    rw [hsides.1] at hleft
    rw [Option.some.inj hleft] at hnot
    rw [← Value.elem_iff_atom hk]
    exact Bool.eq_false_iff.mp hnot

theorem required_set {q : Comparison} (htype : type = .stringSet) (hlit : Literal type q)
    (href : q.reference? = none) (hpos : positive q.constraint = true)
    (hq : ev.compare attrs q = true) (hleft : attrs q.attr = some left) :
    ∃ ls xs, q.op = .eq ∧ q.value = .list xs ∧ values q.constraint = some [.list xs] ∧
      left = .list ls ∧ ls.all Value.hashable = true ∧ xs.all Value.hashable = true ∧
      Value.setEq ls xs = true := by
  rcases positive_iff.mp hpos with hop | hop
  · obtain ⟨left', right, hsides, heq⟩ := (holds_eq_iff hop).mp hq
    obtain ⟨xs, hvalue⟩ := hlit.set (Or.inl hop) htype
    rw [hsides.literal href, hvalue] at heq
    rcases applyEq_list heq with ⟨hfalse, -⟩ | ⟨ls, hls, hall, hxs, hset⟩
    · cases hfalse
    · rw [hsides.1] at hleft
      refine ⟨ls, xs, hop, hvalue, ?_, (Option.some.inj hleft).symm.trans hls, hall, hxs, hset.symm⟩
      rw [values_eq hop, hvalue, hashableOf, hashableList_atoms hxs]
  · exact absurd htype (hlit.list (Or.inl hop)).1

theorem candidate_scalar (hattr : ∀ c ∈ g, c.attr = A) (hmeets : Meets ev attrs g)
    (hread : Readable g) (htype : type ≠ .stringSet)
    (hlit : ∀ c ∈ g, c.reference? = none → c.op ∉ UNARY_OPS → Literal type c)
    (hplain : ∀ c ∈ g, positive c.constraint = true → c.reference? = none) {p : Comparison}
    {rest : List Comparison} (hp : g.filter (fun c => positive c.constraint) = p :: rest)
    (hleft : attrs A = some left) : ∃ x, Candidate (g.map Comparison.constraint) x := by
  have hpg : p ∈ g.filter fun c => positive c.constraint := by rw [hp]; exact List.mem_cons_self
  obtain ⟨hpg, hpos⟩ := List.mem_filter.mp hpg
  have hrequired : ∀ q ∈ g, positive q.constraint = true → ∃ vs k, values q.constraint = some vs ∧
      left.atom = some k ∧ k ≠ .null ∧ some k ∈ vs.map Value.atom := by
    intro q hq hqpos
    exact required_scalar htype (hlit q hq (hplain q hq hqpos) (binary_of_positive hqpos))
      (hplain q hq hqpos) hqpos
      (hmeets q hq) (by rw [hattr q hq]; exact hleft)
  obtain ⟨vs, k, hvs, hk, -, hmem⟩ := hrequired p hpg hpos
  obtain ⟨x, hx, hxk⟩ := List.mem_map.mp hmem
  refine ⟨x, candidate_of hp hvs hx ?_ ?_⟩
  · intro q hq hqpos ws hws
    obtain ⟨vs', k', hvs', hk', -, hmem'⟩ := hrequired q hq hqpos
    rw [hvs'] at hws
    rw [hk] at hk'
    rw [← Option.some.inj hws, Value.elem_iff_atom hxk, Option.some.inj hk']
    exact hmem'
  · intro q hq out hout
    by_cases hqref : q.reference? = none
    · have hnot := left_out_scalar htype (hlit q hq hqref (binary_of_excluded hout)) hqref hout
        (hmeets q hq) (by rw [hattr q hq]; exact hleft) hk
      rw [← Value.elem_iff_atom hxk] at hnot
      exact Bool.eq_false_iff.mpr hnot
    · exact hread.spelled p hpg q hq ((hattr q hq).trans (hattr p hpg).symm)
        (by simp [hqref, hplain p hpg hpos]) vs out hvs hout x hx

theorem candidate_set (hattr : ∀ c ∈ g, c.attr = A) (hmeets : Meets ev attrs g)
    (hread : Readable g) (htype : type = .stringSet)
    (hlit : ∀ c ∈ g, c.reference? = none → c.op ∉ UNARY_OPS → Literal type c)
    (hplain : ∀ c ∈ g, positive c.constraint = true → c.reference? = none) {p : Comparison}
    {rest : List Comparison} (hp : g.filter (fun c => positive c.constraint) = p :: rest)
    (hleft : attrs A = some left) : ∃ x, Candidate (g.map Comparison.constraint) x := by
  have hpg : p ∈ g.filter fun c => positive c.constraint := by rw [hp]; exact List.mem_cons_self
  obtain ⟨hpg, hpos⟩ := List.mem_filter.mp hpg
  have hrequired : ∀ q ∈ g, positive q.constraint = true → ∃ ls xs, q.op = .eq ∧
      q.value = .list xs ∧ values q.constraint = some [.list xs] ∧ left = .list ls ∧
      ls.all Value.hashable = true ∧ xs.all Value.hashable = true ∧
      Value.setEq ls xs = true := by
    intro q hq hqpos
    exact required_set htype (hlit q hq (hplain q hq hqpos) (binary_of_positive hqpos))
      (hplain q hq hqpos) hqpos
      (hmeets q hq) (by rw [hattr q hq]; exact hleft)
  obtain ⟨ls, xs, hop, hvalue, hvs, hlist, hls, hxs, hset⟩ := hrequired p hpg hpos
  rw [Value.setEq_iff_atom hls hxs] at hset
  refine ⟨.list xs, candidate_of hp hvs List.mem_cons_self ?_ ?_⟩
  · intro q hq hqpos ws hws
    obtain ⟨ls', ys, hqop, hqvalue, hws', hlist', -, hys, hset'⟩ := hrequired q hq hqpos
    rw [hlist] at hlist'
    rw [← Value.list.inj hlist', Value.setEq_iff_atom hls hys] at hset'
    have hsame : Value.setEq xs ys = true :=
      (Value.setEq_iff_atom hxs hys).mpr fun k => (hset k).symm.trans (hset' k)
    have halike := hread.sets p hpg q hq ((hattr q hq).trans (hattr p hpg).symm) hop hqop xs ys
      hvalue hqvalue hxs hys hsame
    rw [hws'] at hws
    rw [← Option.some.inj hws]
    simp [Value.elem, Value.eq, halike]
  · intro q hq out hout
    by_cases hqref : q.reference? = none
    · rcases excluded_op hout with ⟨hqop, rfl⟩ | ⟨hqop, -⟩
      · have hqlit := hlit q hq hqref (by rw [hqop]; decide)
        obtain ⟨ys, hqvalue⟩ := hqlit.set (Or.inr hqop) htype
        obtain ⟨left', right, hsides, hne⟩ := (holds_ne_iff hqop).mp (hmeets q hq)
        have hleft' := hsides.1
        rw [hattr q hq, hleft] at hleft'
        rw [hsides.literal hqref, hqvalue, ← Option.some.inj hleft'] at hne
        rcases applyEq_list hne with ⟨-, hnot⟩ | ⟨ls', hls', -, hys, hset'⟩
        · exact absurd hlist (hnot ls)
        · rw [hlist] at hls'
          rw [← Value.list.inj hls'] at hset'
          rw [hqvalue, hashableOf, hashableList_atoms hys]
          by_contra halike
          have heq : Value.eqList xs ys = true := by
            simpa [Value.elem, Value.eq] using halike
          have hatoms := Value.eqList_map_atom hxs heq
          have hsame : Value.setEq ls ys = true := by
            rw [Value.setEq_iff_atom hls hys, hatoms]
            exact hset
          rw [hsame] at hset'
          cases hset'
      · have hqlit := hlit q hq hqref (by rw [hqop]; decide)
        exact absurd htype (hqlit.list (Or.inr hqop)).1
    · exact hread.spelled p hpg q hq ((hattr q hq).trans (hattr p hpg).symm)
        (by simp [hqref, hplain p hpg hpos]) _ out hvs hout _ List.mem_cons_self

theorem attr_present {cmp : Comparison} (hop : cmp.op ∉ UNARY_OPS)
    (h : ev.compare attrs cmp = true) : ∃ left, attrs cmp.attr = some left := by
  obtain ⟨left, right, hleft, -⟩ := (compare_iff hop).mp h
  exact ⟨left, hleft⟩

theorem holds_isPresent {cmp : Comparison} (hop : cmp.op = .isPresent)
    (h : ev.compare attrs cmp = true) : Evaluator.isPresent (attrs cmp.attr) = true := by
  rw [Evaluator.compare, hop] at h
  exact h

theorem holds_isAbsent {cmp : Comparison} (hop : cmp.op = .isAbsent)
    (h : ev.compare attrs cmp = true) : Evaluator.isPresent (attrs cmp.attr) = false := by
  rw [Evaluator.compare, hop] at h
  simpa using h

theorem isPresent_of_required {q : Comparison} (hlit : Literal type q) (href : q.reference? = none)
    (hpos : positive q.constraint = true) (hq : ev.compare attrs q = true) :
    Evaluator.isPresent (attrs q.attr) = true := by
  obtain ⟨left, hleft⟩ := attr_present (binary_of_positive hpos) hq
  rw [hleft]
  by_cases htype : type = .stringSet
  · obtain ⟨ls, xs, -, -, -, rfl, -⟩ := required_set htype hlit href hpos hq hleft
    rfl
  · obtain ⟨vs, k, -, hk, hnull, -⟩ := required_scalar htype hlit href hpos hq hleft
    cases left with
    | none => exact absurd (Option.some.inj hk).symm hnull
    | bool _ | int _ | float _ | str _ | list _ | dict _ => rfl

theorem any_op {op : Op} {group : List Comparison}
    (h : (group.map Comparison.constraint).any (·.op = op) = true) : ∃ c ∈ group, c.op = op := by
  obtain ⟨c, hc, hop⟩ := List.any_eq_true.mp h
  obtain ⟨q, hq, rfl⟩ := List.mem_map.mp hc
  exact ⟨q, hq, of_decide_eq_true hop⟩

theorem met_possible (hattr : ∀ c ∈ g, c.attr = A)
    (hchecked : ∀ c ∈ g, C.checkComparison c = .ok ()) (hmeets : Meets ev attrs g)
    (hread : Readable g) : weigh A (g.map Comparison.constraint) ≠ .ok .impossible := by
  have hboth : ¬ ((g.map Comparison.constraint).any (·.op = .isPresent) = true ∧
      (g.map Comparison.constraint).any (·.op = .isAbsent) = true) := by
    intro h
    obtain ⟨c, hc, hpresent⟩ := any_op h.1
    obtain ⟨d, hd, habsent⟩ := any_op h.2
    have hc' := holds_isPresent hpresent (hmeets c hc)
    have hd' := holds_isAbsent habsent (hmeets d hd)
    rw [hattr c hc] at hc'
    rw [hattr d hd, hc'] at hd'
    cases hd'
  cases hp : g.filter fun c => positive c.constraint with
  | nil =>
    refine weigh_unrequired hboth ?_
    rw [List.filter_map]
    change (g.filter fun c => positive c.constraint).map _ = _
    rw [hp]
    rfl
  | cons p rest =>
    have hpg : p ∈ g.filter fun c => positive c.constraint := by
      rw [hp]
      exact List.mem_cons_self
    obtain ⟨hpg, hpos⟩ := List.mem_filter.mp hpg
    obtain ⟨left, hleft⟩ := attr_present (binary_of_positive hpos) (hmeets p hpg)
    obtain ⟨spec, hspec, -⟩ := literal_of_checked (hchecked p hpg)
    have hlit : ∀ c ∈ g, c.reference? = none → c.op ∉ UNARY_OPS → Literal spec.type c := by
      intro c hc
      obtain ⟨spec', hspec', hlit⟩ := literal_of_checked (hchecked c hc)
      rw [hattr c hc, ← hattr p hpg, hspec] at hspec'
      rw [Option.some.inj hspec']
      exact hlit
    have habsent : (g.map Comparison.constraint).any (·.op = .isAbsent) = true →
        (g.map Comparison.constraint).filter positive = [] := by
      intro h
      obtain ⟨d, hd, habsent⟩ := any_op h
      by_cases href : p.reference? = none
      · have hpresent := isPresent_of_required (hlit p hpg href (binary_of_positive hpos)) href hpos
          (hmeets p hpg)
        have hd' := holds_isAbsent habsent (hmeets d hd)
        rw [hattr d hd, ← hattr p hpg, hpresent] at hd'
        cases hd'
      · exact absurd habsent (hread.references p hpg hpos href d hd
          ((hattr d hd).trans (hattr p hpg).symm)).2
    have hcandidate : ∃ x, Candidate (g.map Comparison.constraint) x := by
      by_cases href : p.reference? = none
      · have hplain : ∀ c ∈ g, positive c.constraint = true → c.reference? = none := by
          intro c hc hcpos
          by_contra hcref
          have hvalue := ((hread.references c hc hcpos hcref p hpg
            ((hattr p hpg).trans (hattr c hc).symm)).1 hpos).2
          rw [Comparison.reference?, hvalue] at href
          exact hcref href
        rw [hattr p hpg] at hleft
        by_cases htype : spec.type = .stringSet
        · exact candidate_set hattr hmeets hread htype hlit hplain hp hleft
        · exact candidate_scalar hattr hmeets hread htype hlit hplain hp hleft
      · exact candidate_reference hattr hmeets hread hp href
    obtain ⟨x, hx⟩ := hcandidate
    exact weigh_possible hx hboth habsent

theorem weighAll_false {constraints : List Constraint} {decidedAny : Bool} {names : List String}
    (h : weighAll constraints decidedAny names = .ok (some false)) :
    ∃ name, weigh name (constraints.filter (·.attr = name)) = .ok .impossible := by
  induction names generalizing decidedAny with
  | nil =>
    rw [weighAll] at h
    cases decidedAny <;> cases h
  | cons name names ih =>
    rw [weighAll] at h
    obtain ⟨weight, hweight, h⟩ := exists_of_bind_ok h
    cases weight with
    | impossible => exact ⟨name, hweight⟩
    | decided => exact ih h
    | undecided => exact ih h

theorem Readable.filter {cs : List Comparison} (h : Readable cs) (keep : Comparison → Bool) :
    Readable (cs.filter keep) := by
  have hsub : ∀ c ∈ cs.filter keep, c ∈ cs := fun c hc => (List.mem_filter.mp hc).1
  constructor
  · intro p hp hpos href q hq
    exact h.references p (hsub p hp) hpos href q (hsub q hq)
  · intro p hp q hq
    exact h.spelled p (hsub p hp) q (hsub q hq)
  · intro p hp q hq
    exact h.sets p (hsub p hp) q (hsub q hq)

theorem readable_plain {cs : List Comparison} (href : ∀ c ∈ cs, c.reference? = none)
    (hsets : ∀ c ∈ cs, c.op = .eq → ∀ xs, c.value ≠ .list xs) : Readable cs := by
  constructor
  · intro p hp _ hpref
    exact absurd (href p hp) hpref
  · intro p hp q hq _ hmixed
    exact absurd (href q hq) (hmixed.mp (href p hp))
  · intro p hp q _ _ hop _ xs _ hxs
    exact absurd hxs (hsets p hp hop xs)

/-- **A branch that is met is not called impossible.** -/
theorem met_satisfiable {cs : List Comparison} (hchecked : ∀ c ∈ cs, C.checkComparison c = .ok ())
    (hmeets : Meets ev attrs cs) (hread : Readable cs) :
    conjunctionSatisfiable (cs.map Comparison.constraint) ≠ .ok (some false) := by
  intro h
  obtain ⟨name, hname⟩ := weighAll_false h
  rw [List.filter_map] at hname
  have hattr : ∀ c ∈ cs.filter fun c => c.attr = name, c.attr = name := by
    intro c hc
    exact of_decide_eq_true (List.mem_filter.mp hc).2
  have hmeets' : Meets ev attrs (cs.filter fun c => c.attr = name) := by
    intro c hc
    exact hmeets c (List.mem_filter.mp hc).1
  exact met_possible hattr (fun c hc => hchecked c (List.mem_filter.mp hc).1) hmeets'
    (hread.filter _) hname

end

/-! ## two rules, and a draft -/

section
variable {C : PolicyCompiler} {ev : Evaluator} {a b : Rule}

/-- a branch of the one rule beside a branch of the other -/
def pairs (ba bb : List (List Comparison)) : List (List Comparison) :=
  ba.flatMap fun left => bb.map fun right => left ++ right

theorem overlapsFrom_false {sawUnknown : Bool} {bs : List (List Constraint)}
    (h : overlapsFrom sawUnknown bs = .ok (some false)) :
    sawUnknown = false ∧ ∀ branch ∈ bs, conjunctionSatisfiable branch = .ok (some false) := by
  induction bs generalizing sawUnknown with
  | nil =>
    rw [overlapsFrom] at h
    cases sawUnknown with
    | true => cases h
    | false => simp
  | cons branch rest ih =>
    rw [overlapsFrom] at h
    obtain ⟨verdict, hverdict, h⟩ := exists_of_bind_ok h
    match verdict, h with
    | some true, h => cases h
    | none, h => cases (ih h).1
    | some false, h => exact ⟨(ih h).1, List.forall_mem_cons.mpr ⟨hverdict, (ih h).2⟩⟩

theorem contradicts_true {bs : List (List Constraint)} (h : contradicts bs = .ok true) :
    ∃ branch ∈ bs, conjunctionSatisfiable branch = .ok (some false) := by
  induction bs with
  | nil => cases h
  | cons branch rest ih =>
    rw [contradicts] at h
    obtain ⟨verdict, hverdict, h⟩ := exists_of_bind_ok h
    split at h
    · rename_i hfalse
      rw [hfalse] at hverdict
      exact ⟨branch, List.mem_cons_self, hverdict⟩
    · obtain ⟨b, hb, hb'⟩ := ih h
      exact ⟨b, List.mem_cons_of_mem _ hb, hb'⟩

/-- every pair of branches is read as it is meant -/
def PairsReadable (a b : Rule) : Prop :=
  ∀ ba bb, dnf id a.condition = some ba → dnf id b.condition = some bb →
    ∀ cs ∈ pairs ba bb, Readable cs

/-- every branch is read as it is meant, and none is impossible beside one that is not -/
def BranchesReadable (r : Rule) : Prop :=
  ∀ bs, dnf id r.condition = some bs → (∀ cs ∈ bs, Readable cs) ∧
    ∀ cs ∈ bs, ∀ ds ∈ bs, conjunctionSatisfiable (cs.map Comparison.constraint) = .ok (some false) →
      conjunctionSatisfiable (ds.map Comparison.constraint) = .ok (some false)

theorem branches_eq (c : Condition) :
    branches c = (dnf id c).map fun bs => bs.map (·.map Comparison.constraint) := dnf_eq c

theorem PolicyCompiler.Compiles.checked (h : C.Compiles a) {bs : List (List Comparison)}
    (hbs : dnf id a.condition = some bs) : AllChecked C bs := by
  obtain ⟨w, hw⟩ := h
  exact walk_checked a.condition hw hbs

theorem overlaps_false (ha : C.Compiles a) (hb : C.Compiles b) (hread : PairsReadable a b)
    (h : overlaps a b = .ok (some false)) (attrs : Attrs) :
    ¬ (ev.matchesCond attrs a.condition = true ∧ ev.matchesCond attrs b.condition = true) := by
  intro hmatch
  rw [overlaps, branches_eq, branches_eq] at h
  cases hba : dnf id a.condition with
  | none =>
    rw [hba] at h
    cases h
  | some ba =>
    cases hbb : dnf id b.condition with
    | none =>
      rw [hba, hbb] at h
      cases h
    | some bb =>
      rw [hba, hbb] at h
      change overlapsFrom false ((leaves _ ba).flatMap fun left =>
        (leaves _ bb).map fun right => left ++ right) = _ at h
      rw [← leaves_join] at h
      rw [matchesCond_iff _ hba, matchesCond_iff _ hbb, ← meetsOne_join] at hmatch
      obtain ⟨cs, hcs, hmeets⟩ := hmatch
      have hchecked := allChecked_join (ha.checked hba) (hb.checked hbb) cs hcs
      exact met_satisfiable hchecked hmeets (hread ba bb hba hbb cs hcs)
        ((overlapsFrom_false h).2 _ (List.mem_map.mpr ⟨cs, hcs, rfl⟩))

variable {repr : String → String}

theorem pool_kinds {pool : List (Rule × Bool)} {findings : List Finding}
    (h : poolFindings repr pool = .ok findings) : ∀ f ∈ findings, f.kind ≠ .contradiction := by
  induction pool generalizing findings with
  | nil =>
    cases h
    simp
  | cons a rest ih =>
    rw [poolFindings] at h
    obtain ⟨here, hhere, h⟩ := exists_of_bind_ok h
    obtain ⟨later, hlater, h⟩ := exists_of_bind_ok h
    cases h
    refine List.forall_mem_append.mpr ⟨?_, ih hlater⟩
    intro f hf
    obtain ⟨fs, hfs, hf⟩ := List.mem_flatten.mp hf
    obtain ⟨b, -, hb⟩ := mem_left_of_forall₂ (forall₂_of_mapM_ok hhere) hfs
    rw [pairFindings] at hb
    split at hb
    · cases hb
      cases hf
    · split at hb
      · obtain ⟨verdict, -, hb⟩ := exists_of_bind_ok hb
        split at hb
        · cases hb
          simp [List.mem_singleton.mp hf]
        · cases hb
          cases hf
      · split at hb
        · cases hb
          simp [List.mem_singleton.mp hf]
        · cases hb
          cases hf

theorem ruleFindings_spec {findings : List Finding} (h : ruleFindings repr a = .ok findings) :
    ∀ f ∈ findings, f.ruleIds = [a.id] ∧ (f.kind = .contradiction →
      ∃ bs, branches a.condition = some bs ∧
        (bs = [] ∨ ∃ branch ∈ bs, conjunctionSatisfiable branch = .ok (some false))) := by
  rw [ruleFindings] at h
  intro f hf
  split at h
  · cases h
    simp [List.mem_singleton.mp hf]
  · rename_i hbs
    cases h
    rw [List.mem_singleton.mp hf]
    exact ⟨rfl, fun _ => ⟨[], hbs, Or.inl rfl⟩⟩
  · rename_i branch rest hbs
    obtain ⟨found, hfound, h⟩ := exists_of_bind_ok h
    cases h
    rcases List.mem_append.mp hf with hf | hf
    · split at hf
      · simp [List.mem_singleton.mp hf]
      · cases hf
    · split at hf
      · rename_i htrue
        rw [htrue] at hfound
        rw [List.mem_singleton.mp hf]
        exact ⟨rfl, fun _ => ⟨_, hbs, Or.inr (contradicts_true hfound)⟩⟩
      · cases hf

theorem contradiction_reported {rules existing : List Rule} {findings : List Finding} {f : Finding}
    (hids : (rules.map (·.id)).Nodup) (hr : a ∈ rules)
    (h : analyze repr rules existing = .ok findings) (hf : f ∈ findings)
    (hkind : f.kind = .contradiction) (hnames : f.ruleIds = [a.id]) :
    ∃ bs, branches a.condition = some bs ∧
      (bs = [] ∨ ∃ branch ∈ bs, conjunctionSatisfiable branch = .ok (some false)) := by
  rw [analyze] at h
  obtain ⟨alone, halone, h⟩ := exists_of_bind_ok h
  obtain ⟨pool, hpool, h⟩ := exists_of_bind_ok h
  cases h
  rcases List.mem_append.mp hf with hf | hf
  · obtain ⟨fs, hfs, hf⟩ := List.mem_flatten.mp hf
    obtain ⟨r, hrules, hfindings⟩ := mem_left_of_forall₂ (forall₂_of_mapM_ok halone) hfs
    obtain ⟨hid, hspec⟩ := ruleFindings_spec hfindings f hf
    rw [hnames] at hid
    have hsame := List.inj_on_of_nodup_map hids hr hrules (List.singleton_inj.mp hid)
    rw [hsame]
    exact hspec hkind
  · exact absurd hkind (pool_kinds hpool f hf)

theorem contradiction_sound {rules existing : List Rule} {findings : List Finding} {f : Finding}
    (hids : (rules.map (·.id)).Nodup) (hr : a ∈ rules) (ha : C.Compiles a)
    (hread : BranchesReadable a) (h : analyze repr rules existing = .ok findings)
    (hf : f ∈ findings) (hkind : f.kind = .contradiction) (hnames : f.ruleIds = [a.id])
    (attrs : Attrs) : ¬ ev.matchesCond attrs a.condition = true := by
  obtain ⟨bs, hbs, hreported⟩ := contradiction_reported hids hr h hf hkind hnames
  rw [branches_eq] at hbs
  obtain ⟨cbs, hcbs, rfl⟩ := Option.map_eq_some_iff.mp hbs
  rw [matchesCond_iff _ hcbs]
  intro hmatch
  obtain ⟨cs, hcs, hmeets⟩ := hmatch
  rcases hreported with hnil | ⟨branch, hbranch, hfalse⟩
  · rw [List.map_eq_nil_iff.mp hnil] at hcs
    cases hcs
  · obtain ⟨ds, hds, rfl⟩ := List.mem_map.mp hbranch
    obtain ⟨hreadable, halike⟩ := hread cbs hcbs
    exact met_satisfiable (ha.checked hcbs cs hcs) hmeets (hreadable cs hcs)
      (halike ds hds cs hcs hfalse)

end

/-! ## runs -/

def regionCompiler : PolicyCompiler where
  catalog := fun path =>
    if path = "resource.tags" then some ⟨.stringSet, none⟩
    else if path = "resource.region" ∨ path = "tenant.region" then some ⟨.string, none⟩
    else none
  repr := fun _ => "'value'"

def regionIs (value : Value) : Condition := .comparison ⟨"resource.region", .eq, value⟩

def tagsAre (tags : List Value) : Condition := .comparison ⟨"resource.tags", .eq, .list tags⟩

def inEurope : Rule := ⟨"eu", .allow, regionIs (.str "eu"), []⟩

def inAmerica : Rule := ⟨"us", .deny, regionIs (.str "us"), []⟩

def inBoth : Rule := ⟨"both", .allow, .allOf [regionIs (.str "eu"), regionIs (.str "us")], []⟩

theorem readable_regions {a b : String} :
    Readable [⟨"resource.region", .eq, .str a⟩, ⟨"resource.region", .eq, .str b⟩] := by
  refine readable_plain ?_ ?_
  · intro c hc
    rcases List.mem_pair.mp hc with rfl | rfl <;> rfl
  · intro c hc _ xs
    rcases List.mem_pair.mp hc with rfl | rfl <;> simp

def taggedOneWay : Rule := ⟨"one", .allow, tagsAre [.str "pii", .str "eu"], []⟩

def taggedOtherWay : Rule := ⟨"other", .deny, tagsAre [.str "eu", .str "pii"], []⟩

def atHome : Rule := ⟨"home", .allow, regionIs (.dict [("attr", .str "tenant.region")]), []⟩

def eitherWay : Rule :=
  ⟨"either", .allow, .anyOf [inBoth.condition, regionIs (.str "uk")], []⟩

def tagged : Attrs := fun path =>
  if path = "resource.tags" then some (.list [.str "pii", .str "eu"]) else none

def located (region : String) : Attrs := fun path =>
  if path = "resource.region" ∨ path = "tenant.region" then some (.str region) else none

end HxArbiter
