import Velaris.Arbiter.Impossible
import Velaris.Base.Latest
import Velaris.Base.Table
import Velaris.Py.Native
import Mathlib.Algebra.Order.Ring.Unbundled.Rat

/-!
# HxArbiter: the requests that are solved from a rule

`seed_requests` of `hxarbiter_core/analyzer.py`, and `hxarbiter_core/evaluator.py` on what it
returns: the values of a constraint are tuples where the rule has lists or another attribute.

* `compare_ofValue`   without tuples, a comparison comes to what it does in `Evaluator`;
* `solve`, `seedRequests`;
* `lookup_solve`   the last comparison on an attribute decides its value;
* `seeds_match_iff`   when every request that is returned matches;
* `plain_holds`   one literal for each attribute is enough.
-/

namespace HxArbiter
namespace Seeds

open Py Base

/-! ## the evaluator, with tuples -/

abbrev NativeAttrs := String → Option Native

section
variable (ev : Evaluator)

def domainMatches : Native → Native → Bool
  | .str host, .str pattern => ev.domainMatches (.str host) (.str pattern)
  | _, _ => false

def asSet : Native → Except Err (Option (List Native))
  | .list xs => (Native.mkSet xs).map some
  | .tuple xs => (Native.mkSet xs).map some
  | _ => .ok none

def applyEq (left right : Native) : Except Err Bool := do
  match ← asSet left with
  | none => pure (left.eq right)
  | some l =>
    match ← asSet right with
    | none => pure (left.eq right)
    | some r => pure (Native.setEq l r)

def applyIn (left right : Native) : Bool :=
  match right with
  | .list xs => left.elem xs
  | .tuple xs => left.elem xs
  | _ => false

def applyContains (left right : Native) : Except Err Bool := do
  match ← asSet left with
  | some l => if right.hashable then pure (right.elem l) else throw .typeError
  | none =>
    match left, right with
    | .str hay, .str needle => pure (substr needle.toList hay.toList)
    | _, _ => pure false

def applySets (f : List Native → List Native → Bool) (left right : Native) : Except Err Bool := do
  let l ← asSet left
  let r ← asSet right
  match l, r with
  | some s, some t => pure (f s t)
  | _, _ => pure false

def applyOrder (f : Ordering → Bool) (left right : Native) : Except Err Bool :=
  match left.cmp right with
  | some o => .ok (f o)
  | none => .error .typeError

def apply (op : Op) (left right : Native) : Except Err Bool :=
  match op with
  | .eq => applyEq left right
  | .ne => (applyEq left right).map (!·)
  | .isIn => .ok (applyIn left right)
  | .notIn => .ok (!applyIn left right)
  | .contains => applyContains left right
  | .notContains => (applyContains left right).map (!·)
  | .intersects => applySets (fun s t => s.any (·.elem t)) left right
  | .isSubsetOf => applySets Native.subset left right
  | .gt => applyOrder (· == .gt) left right
  | .gte => applyOrder (· != .lt) left right
  | .lt => applyOrder (· == .lt) left right
  | .lte => applyOrder (· != .gt) left right
  | .matchesDomain =>
    match right with
    | .list ps => .ok (ps.any (domainMatches ev left))
    | .tuple ps => .ok (ps.any (domainMatches ev left))
    | p => .ok (domainMatches ev left p)
  | .isPresent | .isAbsent => .ok false

def isPresent : Option Native → Bool
  | none | some .none => false
  | some _ => true

def rightHand (attrs : NativeAttrs) : Value → Option Native
  | .dict [("attr", .str path)] => attrs path
  | .dict [("attr", _)] => none
  | v => some (.ofValue v)

def compareSides (attrs : NativeAttrs) (cmp : Comparison) (op : Op) : Bool :=
  match attrs cmp.attr, rightHand attrs cmp.value with
  | some left, some right =>
    match apply ev op left right with
    | .ok b => b
    | .error .typeError => false
  | _, _ => false

def compare (attrs : NativeAttrs) (cmp : Comparison) : Bool :=
  match cmp.op with
  | .isPresent => isPresent (attrs cmp.attr)
  | .isAbsent => !isPresent (attrs cmp.attr)
  | op => compareSides ev attrs cmp op

/-- `_matches` -/
def matchesCond (attrs : NativeAttrs) (cond : Condition) : Bool := cond.matchesBy (compare ev attrs)

end

/-! ## values that were read -/

section
variable {ev : Evaluator}

theorem domainMatches_ofValue (l r : Value) :
    domainMatches ev (.ofValue l) (.ofValue r) = ev.domainMatches l r := by
  cases l with
  | str host =>
    cases r with
    | str pattern => rfl
    | none | bool _ | int _ | float _ | list _ | dict _ => rfl
  | none | bool _ | int _ | float _ | list _ | dict _ => rfl

theorem asSet_ofValue (v : Value) :
    asSet (.ofValue v) = (Evaluator.asSet v).map (Option.map (·.map Native.ofValue)) := by
  cases v with
  | list xs =>
    rw [Native.ofValue, Native.ofValues_eq]
    show (Native.mkSet _).map some = ((Value.mkSet xs).map some).map _
    rw [Native.mkSet_ofValue]
    cases Value.mkSet xs <;> rfl
  | none | bool _ | int _ | float _ | str _ | dict _ => rfl

theorem applyEq_ofValue (l r : Value) :
    applyEq (.ofValue l) (.ofValue r) = Evaluator.applyEq l r := by
  unfold applyEq Evaluator.applyEq
  rw [asSet_ofValue, asSet_ofValue, Native.eq_ofValue]
  rcases Evaluator.asSet l with e | s
  · rfl
  · cases s with
    | none => rfl
    | some s =>
      rcases Evaluator.asSet r with e | t
      · rfl
      · cases t with
        | none => rfl
        | some t =>
          show Except.ok (Native.setEq (s.map Native.ofValue) (t.map Native.ofValue)) = _
          rw [Native.setEq_ofValue]
          rfl

theorem applyIn_ofValue (l r : Value) :
    applyIn (.ofValue l) (.ofValue r) = Evaluator.applyIn l r := by
  cases r with
  | list xs =>
    rw [Native.ofValue, Native.ofValues_eq]
    exact Native.elem_ofValue l xs
  | none | bool _ | int _ | float _ | str _ | dict _ => rfl

theorem applyContains_ofValue (l r : Value) :
    applyContains (.ofValue l) (.ofValue r) = Evaluator.applyContains l r := by
  unfold applyContains Evaluator.applyContains
  rw [asSet_ofValue, Native.hashable_ofValue]
  rcases Evaluator.asSet l with e | s
  · rfl
  · cases s with
    | none =>
      cases l with
      | str hay => cases r <;> rfl
      | none | bool _ | int _ | float _ | list _ | dict _ => rfl
    | some s =>
      show (if r.hashable = true then pure (Native.elem (.ofValue r) (s.map .ofValue)) else _) = _
      rw [Native.elem_ofValue]
      rfl

theorem applySets_ofValue {f : List Native → List Native → Bool}
    {g : List Value → List Value → Bool}
    (hfg : ∀ s t, f (s.map Native.ofValue) (t.map Native.ofValue) = g s t) (l r : Value) :
    applySets f (.ofValue l) (.ofValue r) = Evaluator.applySets g l r := by
  unfold applySets Evaluator.applySets
  rw [asSet_ofValue, asSet_ofValue]
  rcases Evaluator.asSet l with e | s
  · rfl
  · rcases Evaluator.asSet r with e | t
    · rfl
    · cases s with
      | none => rfl
      | some s =>
        cases t with
        | none => rfl
        | some t =>
          show Except.ok (f (s.map Native.ofValue) (t.map Native.ofValue)) = _
          rw [hfg]
          rfl

theorem applyOrder_ofValue (f : Ordering → Bool) (l r : Value) :
    applyOrder f (.ofValue l) (.ofValue r) = Evaluator.applyOrder f l r := by
  unfold applyOrder Evaluator.applyOrder
  cases hcmp : l.cmp r <;> simp only [Native.cmp_ofValue, hcmp]

theorem any_elem_ofValue (s t : List Value) :
    (s.map Native.ofValue).any (·.elem (t.map Native.ofValue)) = s.any (·.elem t) := by
  rw [List.any_map]
  congr 1
  funext v
  exact Native.elem_ofValue v t

theorem apply_ofValue (op : Op) (l r : Value) :
    apply ev op (.ofValue l) (.ofValue r) = ev.apply op l r := by
  cases op with
  | eq => exact applyEq_ofValue l r
  | ne =>
    show (applyEq _ _).map _ = (Evaluator.applyEq l r).map _
    rw [applyEq_ofValue]
  | isIn => exact congrArg _ (applyIn_ofValue l r)
  | notIn => exact congrArg (fun b => Except.ok (!b)) (applyIn_ofValue l r)
  | contains => exact applyContains_ofValue l r
  | notContains =>
    show (applyContains _ _).map _ = (Evaluator.applyContains l r).map _
    rw [applyContains_ofValue]
  | intersects => exact applySets_ofValue any_elem_ofValue l r
  | isSubsetOf => exact applySets_ofValue Native.subset_ofValue l r
  | gt | gte | lt | lte => exact applyOrder_ofValue _ l r
  | matchesDomain =>
    cases r with
    | list ps =>
      show Except.ok (((Native.ofValues ps)).any _) = Except.ok (ps.any _)
      rw [Native.ofValues_eq, List.any_map]
      congr 2
      funext p
      exact domainMatches_ofValue l p
    | none | bool _ | int _ | float _ | str _ | dict _ =>
      exact congrArg Except.ok (domainMatches_ofValue l _)
  | isPresent | isAbsent => rfl

/-- an attribute map as it was read -/
def read (attrs : Attrs) : NativeAttrs := fun path => (attrs path).map .ofValue

theorem isPresent_read (attrs : Attrs) (path : String) :
    isPresent (read attrs path) = Evaluator.isPresent (attrs path) := by
  unfold read
  cases attrs path with
  | none => rfl
  | some v => cases v <;> rfl

theorem rightHand_read (attrs : Attrs) (v : Value) :
    rightHand (read attrs) v = (Evaluator.rightHand attrs v).map .ofValue := by
  unfold rightHand Evaluator.rightHand
  split <;> simp_all [read]

theorem compare_ofValue (attrs : Attrs) (cmp : Comparison) :
    compare ev (read attrs) cmp = ev.compare attrs cmp := by
  have hsides : ∀ op, compareSides ev (read attrs) cmp op = ev.compareSides attrs cmp op := by
    intro op
    unfold compareSides Evaluator.compareSides
    rw [rightHand_read]
    unfold read
    cases attrs cmp.attr with
    | none => rfl
    | some left =>
      cases Evaluator.rightHand attrs cmp.value with
      | none => rfl
      | some right =>
        cases happly : ev.apply op left right with
        | ok b => simp only [Option.map_some, apply_ofValue, happly]
        | error e =>
          cases e
          simp only [Option.map_some, apply_ofValue, happly]
  unfold compare Evaluator.compare
  cases cmp.op <;> first | exact hsides _ | simp only [isPresent_read]

/-- without tuples, a condition matches as it does in `Evaluator` -/
theorem matchesCond_read (attrs : Attrs) (cond : Condition) :
    matchesCond ev (read attrs) cond = ev.matchesCond attrs cond := by
  have hsame : compare ev (read attrs) = ev.compare attrs := funext (compare_ofValue attrs)
  rw [matchesCond_eq, matchesCond, hsame]

end
/-! ## solving a branch -/

abbrev SeedAttrs := List (String × Native)

/-- `attrs[k] = v` -/
def put (k : String) (v : Native) : SeedAttrs → SeedAttrs
  | [] => [(k, v)]
  | (l, w) :: attrs => if l = k then (k, v) :: attrs else (l, w) :: put k v attrs

/-- `attrs.pop(k, None)` -/
def pop (k : String) (attrs : SeedAttrs) : SeedAttrs := attrs.filter (·.1 ≠ k)

/-- what is taken from the numbers and the texts of the language -/
structure Solver where
  /-- a float and a whole number, rounded -/
  add : ℚ → Int → ℚ
  /-- `str(v)` of what is no text -/
  repr : Native → String

section
variable (S : Solver)

/-- `str(v)` -/
def Solver.str : Native → String
  | .str s => s
  | v => S.repr v

/-- `v + n` -/
def Solver.plus (v : Native) (n : Int) : Except Err Native :=
  match v with
  | .int m => .ok (.int (m + n))
  | .float q => .ok (.float (S.add q n))
  | .bool b => .ok (.int ((if b then 1 else 0) + n))
  | _ => .error .typeError

/-- `v[0] if isinstance(v, tuple) and v else v` -/
def head : Native → Native
  | .tuple (v :: _) => v
  | v => v

/-- what a constraint asks of its attribute, a value or that it is not there; `none` where there is
no such branch -/
def asked (c : Constraint) : Except Err (Option (Option Native)) :=
  let value := Native.tupled c.value
  match c.op with
  | .eq => .ok (some (some value))
  | .isIn =>
    match value with
    | .tuple (v :: _) => .ok (some (some v))
    | _ => .ok none
  | .contains | .intersects => .ok (some (some (.list [head value])))
  | .matchesDomain => .ok (some (some (.str (S.str (head value)))))
  | .isPresent => .ok (some (some (.str "present")))
  | .isAbsent => .ok (some none)
  | .gt | .gte => do return some (some (← S.plus value 1))
  | .lt | .lte => do return some (some (← S.plus value (-1)))
  | .ne | .notIn | .notContains | .isSubsetOf => .ok none

def write (k : String) (v : Option Native) (attrs : SeedAttrs) : SeedAttrs :=
  match v with
  | some v => put k v attrs
  | none => pop k attrs

/-- the loop over a branch; `none` where it is given up -/
def solve : List Constraint → SeedAttrs → Except Err (Option SeedAttrs)
  | [], attrs => .ok (some attrs)
  | c :: cs, attrs => do
    match ← asked S c with
    | none => return none
    | some v => solve cs (write c.attr v attrs)

def seedRequests (rule : Rule) : Except Err (List SeedAttrs) :=
  match branches rule.condition with
  | none => .ok []
  | some bs => do
    let solved ← (bs.take 5).mapM (solve S · [])
    return (solved.filterMap id).filter (!·.isEmpty)

/-- every request that is returned matches the rule, and there is an answer -/
def SeedsMatch (ev : Evaluator) (rule : Rule) : Prop :=
  ∃ seeds, seedRequests S rule = .ok seeds ∧
    ∀ attrs ∈ seeds, matchesCond ev (attrs.lookup ·) rule.condition = true

end

/-! ## the last comparison on an attribute -/

def SOLVED_OPS : List Op :=
  [.eq, .isIn, .contains, .intersects, .matchesDomain, .isPresent, .isAbsent, .gt, .gte, .lt, .lte]

def wanted (S : Solver) (cmp : Comparison) : Option Native :=
  match asked S cmp.constraint with
  | .ok (some v) => v
  | _ => none

def fixture (S : Solver) (branch : List Comparison) : NativeAttrs := fun path =>
  ((branch.filter (·.attr = path)).getLast?).bind (wanted S)

def OrdersReference (cmp : Comparison) : Prop := cmp.op ∈ ORDERING_OPS ∧ cmp.reference? ≠ none

structure Solvable (S : Solver) (ev : Evaluator) (bs : List (List Comparison)) : Prop where
  ordered : ∀ b ∈ bs.take 5, ∀ cmp ∈ b.takeWhile (·.op ∈ SOLVED_OPS), ¬ OrdersReference cmp
  holds : ∀ b ∈ bs.take 5, (∀ cmp ∈ b, cmp.op ∈ SOLVED_OPS) → (∃ path, fixture S b path ≠ none) →
    OneHolds (compare ev (fixture S b)) bs

section
variable {S : Solver} {C : PolicyCompiler}

theorem lookup_put (k l : String) (v : Native) (attrs : SeedAttrs) :
    (put k v attrs).lookup l = if l = k then some v else attrs.lookup l :=
  lookup_of_put (put k v) rfl (fun _ _ _ => rfl) l attrs

theorem lookup_pop (k l : String) (attrs : SeedAttrs) :
    (pop k attrs).lookup l = if l = k then none else attrs.lookup l := by
  unfold pop
  induction attrs with
  | nil => simp
  | cons p attrs ih =>
    obtain ⟨m, w⟩ := p
    rw [List.filter_cons, List.lookup_cons]
    by_cases hm : m = k
    · subst hm
      by_cases h : l = m
      · simpa [h] using ih
      · simpa [h, beq_false_of_ne h] using ih
    · by_cases h : l = m
      · simp [h, hm]
      · simpa [hm, List.lookup_cons, beq_false_of_ne h] using ih

theorem lookup_write (k : String) (v : Option Native) (attrs : SeedAttrs) :
    (fun l => (write k v attrs).lookup l) = Function.update (fun l => attrs.lookup l) k v := by
  funext l
  rw [Function.update_apply]
  cases v with
  | none => exact lookup_pop k l attrs
  | some v => exact lookup_put k l v attrs

/-! ## what is asked of a comparison that was checked -/

theorem mem_solvedOps_or (op : Op) :
    op ∈ SOLVED_OPS ∨ op = .ne ∨ op = .notIn ∨ op = .notContains ∨ op = .isSubsetOf := by
  cases op <;> decide

theorem asked_unsolved {cmp : Comparison} (h : cmp.op ∉ SOLVED_OPS) :
    asked S cmp.constraint = .ok none := by
  unfold asked
  rcases mem_solvedOps_or cmp.op with hop | hop | hop | hop | hop
  · exact absurd hop h
  all_goals
    rw [show cmp.constraint.op = _ from hop]

theorem tupled_reference {cmp : Comparison} (h : cmp.reference? ≠ none) :
    ∃ v, Native.tupled cmp.constraint.value = .tuple [.tuple [.str "attr", v]] := by
  unfold Comparison.reference? at h
  split at h
  · rename_i path hvalue
    exact ⟨_, by rw [Comparison.constraint, hvalue]; rfl⟩
  · exact absurd rfl h

theorem asked_ordered {cmp : Comparison} (h : OrdersReference cmp) :
    asked S cmp.constraint = .error .typeError := by
  obtain ⟨hop, href⟩ := h
  obtain ⟨v, hv⟩ := tupled_reference href
  have hcases : cmp.op = .gt ∨ cmp.op = .gte ∨ cmp.op = .lt ∨ cmp.op = .lte := by
    simpa [ORDERING_OPS] using hop
  unfold asked
  rw [hv]
  rcases hcases with hop | hop | hop | hop <;> rw [show cmp.constraint.op = _ from hop] <;> rfl

theorem number_of_checked {cmp : Comparison} (h : C.checkComparison cmp = .ok ())
    (hop : cmp.op ∈ ORDERING_OPS) (href : cmp.reference? = none) :
    (∃ n, cmp.value = .int n) ∨ ∃ q, cmp.value = .float q := by
  have hmem : cmp.op ∉ UNARY_OPS ∧ cmp.op ∉ LIST_VALUE_OPS ∧ cmp.op ≠ .matchesDomain := by
    revert hop
    cases cmp.op <;> decide
  obtain ⟨spec, -, hoperator, hshape⟩ := shape_of_checked h href hmem.1
  have htype : spec.type = .number := by
    by_contra htype
    unfold PolicyCompiler.checkOperator at hoperator
    dsimp only at hoperator
    split at hoperator
    · cases hoperator
    · split at hoperator
      · cases hoperator
      · rw [if_pos ⟨hop, htype⟩] at hoperator
        cases hoperator
  have htakes : AttrType.takes .number cmp.value = true := by
    have hsingle := takes_of_single hmem.2.1 hmem.2.2 (by simp [htype]) hshape
    rwa [htype] at hsingle
  revert htakes
  cases cmp.value <;> simp [AttrType.takes]

theorem asked_solved {cmp : Comparison} (h : C.checkComparison cmp = .ok ())
    (hop : cmp.op ∈ SOLVED_OPS) (hordered : ¬ OrdersReference cmp) :
    asked S cmp.constraint = .ok (some (wanted S cmp)) := by
  have hsome : ∃ v, asked S cmp.constraint = .ok (some v) := by
    by_cases horder : cmp.op ∈ ORDERING_OPS
    · have href : cmp.reference? = none := by
        by_contra href
        exact hordered ⟨horder, href⟩
      have hcases : cmp.op = .gt ∨ cmp.op = .gte ∨ cmp.op = .lt ∨ cmp.op = .lte := by
        simpa [ORDERING_OPS] using horder
      unfold asked
      rcases number_of_checked h horder href with ⟨n, hvalue⟩ | ⟨q, hvalue⟩ <;>
        rcases hcases with hop | hop | hop | hop <;>
          exact ⟨_, by rw [show cmp.constraint.op = _ from hop, Comparison.constraint, hvalue]; rfl⟩
    · by_cases hin : cmp.op = .isIn
      · have htuple : ∃ v vs, Native.tupled cmp.constraint.value = .tuple (v :: vs) := by
          by_cases href : cmp.reference? = none
          · obtain ⟨spec, -, hliteral⟩ := literal_of_checked h
            obtain ⟨-, xs, hxs, hne, -⟩ :=
              (hliteral href (by rw [hin]; decide)).list (Or.inl hin)
            obtain ⟨x, xs, rfl⟩ := List.exists_cons_of_ne_nil hne
            exact ⟨_, _, by rw [Comparison.constraint, hxs]; rfl⟩
          · obtain ⟨v, hv⟩ := tupled_reference href
            exact ⟨_, _, hv⟩
        obtain ⟨v, vs, htuple⟩ := htuple
        refine ⟨some v, ?_⟩
        unfold asked
        rw [show cmp.constraint.op = _ from hin, htuple]
      · have hrest : cmp.op = .eq ∨ cmp.op = .contains ∨ cmp.op = .intersects ∨
            cmp.op = .matchesDomain ∨ cmp.op = .isPresent ∨ cmp.op = .isAbsent := by
          revert hop horder hin
          cases cmp.op <;> decide
        unfold asked
        rcases hrest with hop | hop | hop | hop | hop | hop <;>
          exact ⟨_, by rw [show cmp.constraint.op = _ from hop]⟩
  obtain ⟨v, hv⟩ := hsome
  rw [wanted, hv]

/-! ## the loop over a branch -/

theorem solve_ordered {b : List Comparison} (hchecked : ∀ cmp ∈ b, C.checkComparison cmp = .ok ())
    (h : ∃ cmp ∈ b.takeWhile (·.op ∈ SOLVED_OPS), OrdersReference cmp) (attrs : SeedAttrs) :
    solve S (b.map Comparison.constraint) attrs = .error .typeError := by
  induction b generalizing attrs with
  | nil => simp at h
  | cons cmp b ih =>
    rw [List.forall_mem_cons] at hchecked
    rw [List.map_cons, solve]
    by_cases hordered : OrdersReference cmp
    · rw [asked_ordered hordered]
      rfl
    · by_cases hop : cmp.op ∈ SOLVED_OPS
      · rw [List.takeWhile_cons_of_pos (by simpa using hop)] at h
        obtain ⟨c, hc, horder⟩ := h
        rcases List.mem_cons.mp hc with rfl | hc
        · exact absurd horder hordered
        · rw [asked_solved hchecked.1 hop hordered]
          exact ih hchecked.2 ⟨c, hc, horder⟩ _
      · rw [List.takeWhile_cons_of_neg (by simpa using hop)] at h
        obtain ⟨c, hc, -⟩ := h
        cases hc

theorem solve_unsolved {b : List Comparison} (hchecked : ∀ cmp ∈ b, C.checkComparison cmp = .ok ())
    (hordered : ∀ cmp ∈ b.takeWhile (·.op ∈ SOLVED_OPS), ¬ OrdersReference cmp)
    (h : ¬ ∀ cmp ∈ b, cmp.op ∈ SOLVED_OPS) (attrs : SeedAttrs) :
    solve S (b.map Comparison.constraint) attrs = .ok none := by
  induction b generalizing attrs with
  | nil => simp at h
  | cons cmp b ih =>
    rw [List.forall_mem_cons] at hchecked
    rw [List.map_cons, solve]
    by_cases hop : cmp.op ∈ SOLVED_OPS
    · rw [List.takeWhile_cons_of_pos (by simpa using hop), List.forall_mem_cons] at hordered
      rw [asked_solved hchecked.1 hop hordered.1]
      refine ih hchecked.2 hordered.2 (fun hall => h ?_) _
      exact List.forall_mem_cons.mpr ⟨hop, hall⟩
    · rw [asked_unsolved hop]
      rfl

theorem solve_solved {b : List Comparison} (hchecked : ∀ cmp ∈ b, C.checkComparison cmp = .ok ())
    (hordered : ∀ cmp ∈ b.takeWhile (·.op ∈ SOLVED_OPS), ¬ OrdersReference cmp)
    (h : ∀ cmp ∈ b, cmp.op ∈ SOLVED_OPS) (attrs : SeedAttrs) :
    ∃ out, solve S (b.map Comparison.constraint) attrs = .ok (some out) ∧
      (fun path => out.lookup path) =
        b.foldl (fun written cmp => Function.update written cmp.attr (wanted S cmp))
          (fun path => attrs.lookup path) := by
  induction b generalizing attrs with
  | nil => exact ⟨attrs, rfl, rfl⟩
  | cons cmp b ih =>
    rw [List.forall_mem_cons] at hchecked h
    rw [List.takeWhile_cons_of_pos (by simpa using h.1), List.forall_mem_cons] at hordered
    obtain ⟨out, hout, hlookup⟩ :=
      ih hchecked.2 hordered.2 h.2 (write cmp.attr (wanted S cmp) attrs)
    refine ⟨out, ?_, ?_⟩
    · rw [List.map_cons, solve, asked_solved hchecked.1 h.1 hordered.1]
      exact hout
    · rw [hlookup, lookup_write]
      rfl

theorem lookup_solve {b : List Comparison} (hchecked : ∀ cmp ∈ b, C.checkComparison cmp = .ok ())
    (hordered : ∀ cmp ∈ b.takeWhile (·.op ∈ SOLVED_OPS), ¬ OrdersReference cmp)
    (h : ∀ cmp ∈ b, cmp.op ∈ SOLVED_OPS) :
    ∃ out, solve S (b.map Comparison.constraint) [] = .ok (some out) ∧
      (fun path => out.lookup path) = fixture S b := by
  obtain ⟨out, hout, hlookup⟩ := solve_solved (S := S) hchecked hordered h []
  refine ⟨out, hout, ?_⟩
  rw [hlookup]
  funext path
  rw [foldl_update_getD, fixture]
  cases (b.filter fun cmp => cmp.attr = path).getLast? <;> rfl

theorem exists_lookup_iff {attrs : SeedAttrs} :
    (∃ path, attrs.lookup path ≠ none) ↔ attrs ≠ [] := by
  cases attrs with
  | nil => simp
  | cons p attrs =>
    obtain ⟨k, v⟩ := p
    simp only [ne_eq, reduceCtorEq, not_false_eq_true, iff_true]
    exact ⟨k, by simp⟩

end

/-! ## all of them -/

section
variable {S : Solver} {C : PolicyCompiler} {ev : Evaluator} {rule : Rule}

theorem seedRequests_eq {bs : List (List Comparison)} (hbs : dnf id rule.condition = some bs) :
    seedRequests S rule = do
      let solved ← (bs.take 5).mapM fun b => solve S (b.map Comparison.constraint) []
      return (solved.filterMap id).filter (!·.isEmpty) := by
  rw [seedRequests, branches_eq, hbs]
  show (((bs.map _).take 5).mapM _ >>= _) = _
  rw [← List.map_take, List.mapM_map]
  rfl

theorem checked_take (hcompiles : C.Compiles rule) {bs : List (List Comparison)}
    (hbs : dnf id rule.condition = some bs) :
    ∀ b ∈ bs.take 5, ∀ cmp ∈ b, C.checkComparison cmp = .ok () :=
  fun b hb => hcompiles.checked hbs b (List.mem_of_mem_take hb)

theorem SeedsMatch.solvable (hcompiles : C.Compiles rule) (h : SeedsMatch S ev rule)
    {bs : List (List Comparison)} (hbs : dnf id rule.condition = some bs) : Solvable S ev bs := by
  obtain ⟨seeds, hseeds, hmatch⟩ := h
  rw [seedRequests_eq hbs] at hseeds
  obtain ⟨solved, hsolved, hseeds⟩ := exists_of_bind_ok hseeds
  have hall := forall₂_of_mapM_ok hsolved
  have hchecked := checked_take hcompiles hbs
  have hordered : ∀ b ∈ bs.take 5, ∀ cmp ∈ b.takeWhile (·.op ∈ SOLVED_OPS),
      ¬ OrdersReference cmp := by
    intro b hb cmp hcmp horder
    obtain ⟨out, -, hout⟩ := mem_right_of_forall₂ hall hb
    rw [solve_ordered (hchecked b hb) ⟨cmp, hcmp, horder⟩] at hout
    cases hout
  refine ⟨hordered, fun b hb hsolvedOps hvalue => ?_⟩
  obtain ⟨out, hout, hlookup⟩ := lookup_solve (S := S) (hchecked b hb) (hordered b hb) hsolvedOps
  obtain ⟨out', hmem, hout'⟩ := mem_right_of_forall₂ hall hb
  rw [hout] at hout'
  have hne : out ≠ [] := by
    rw [← exists_lookup_iff]
    obtain ⟨path, hpath⟩ := hvalue
    exact ⟨path, by rwa [← hlookup] at hpath⟩
  have hseed : out ∈ seeds := by
    rw [← Except.ok.inj hseeds]
    refine List.mem_filter.mpr ⟨List.mem_filterMap.mpr ⟨some out, ?_, rfl⟩, by simpa using hne⟩
    rwa [Except.ok.inj hout']
  have hholds := (matchesBy_iff _ hbs).mp (hmatch out hseed)
  rwa [hlookup] at hholds

theorem seedsMatch_of_solvable (hcompiles : C.Compiles rule)
    (h : ∀ bs, dnf id rule.condition = some bs → Solvable S ev bs) : SeedsMatch S ev rule := by
  cases hbs : dnf id rule.condition with
  | none =>
    refine ⟨[], ?_, by simp⟩
    rw [seedRequests, branches_eq, hbs]
    rfl
  | some bs =>
    obtain ⟨hordered, hholds⟩ := h bs hbs
    have hchecked := checked_take hcompiles hbs
    have hok : ∀ b ∈ bs.take 5, ∃ out, solve S (b.map Comparison.constraint) [] = .ok out := by
      intro b hb
      by_cases hsolved : ∀ cmp ∈ b, cmp.op ∈ SOLVED_OPS
      · obtain ⟨out, hout, -⟩ := lookup_solve (S := S) (hchecked b hb) (hordered b hb) hsolved
        exact ⟨some out, hout⟩
      · exact ⟨none, solve_unsolved (hchecked b hb) (hordered b hb) hsolved []⟩
    obtain ⟨solved, hsolved⟩ := exists_mapM_ok hok
    have hrun : seedRequests S rule = .ok ((solved.filterMap id).filter (!·.isEmpty)) := by
      rw [seedRequests_eq hbs, hsolved]
      rfl
    refine ⟨_, hrun, fun out hout => ?_⟩
    obtain ⟨hout, hne⟩ := List.mem_filter.mp hout
    obtain ⟨out', hmem, hid⟩ := List.mem_filterMap.mp hout
    obtain ⟨b, hb, hsolve⟩ := mem_left_of_forall₂ (forall₂_of_mapM_ok hsolved) hmem
    rw [show out' = some out from hid] at hsolve
    have hops : ∀ cmp ∈ b, cmp.op ∈ SOLVED_OPS := by
      by_contra hunsolved
      rw [solve_unsolved (hchecked b hb) (hordered b hb) hunsolved] at hsolve
      cases hsolve
    obtain ⟨out'', hout'', hlookup⟩ := lookup_solve (S := S) (hchecked b hb) (hordered b hb) hops
    rw [hout''] at hsolve
    obtain rfl := Option.some.inj (Except.ok.inj hsolve)
    have hvalue : ∃ path, fixture S b path ≠ none := by
      rw [← hlookup]
      exact exists_lookup_iff.mpr (by simpa using hne)
    have hone := hholds b hb hops hvalue
    rw [← hlookup] at hone
    exact (matchesBy_iff _ hbs).mpr hone

/-- **Every request that is returned matches its rule**, exactly when no order with another
attribute is come to, and what the last comparisons of a branch ask for meets some branch. -/
theorem seeds_match_iff (S : Solver) (C : PolicyCompiler) (ev : Evaluator) (rule : Rule)
    (hcompiles : C.Compiles rule) :
    SeedsMatch S ev rule ↔ ∀ bs, dnf id rule.condition = some bs → Solvable S ev bs :=
  ⟨fun h _ hbs => h.solvable hcompiles hbs, seedsMatch_of_solvable hcompiles⟩

end
/-! ## comparisons that are met by what they ask for -/

/-- a literal that the analyzer and the evaluator read alike -/
structure Plain (S : Solver) (ev : Evaluator) (cmp : Comparison) : Prop where
  literal : cmp.reference? = none
  set : ∀ xs, cmp.op = .eq → cmp.value = .list xs → xs.all Value.hashable = true
  host : ∀ s, cmp.op = .matchesDomain → head (.tupled (hashableOf cmp.value)) = .str s →
    ev.normHost s ≠ []
  number : ∀ q, cmp.value = .float q → S.add q (-1) < q ∧ q < S.add q 1

section
variable {S : Solver} {C : PolicyCompiler} {ev : Evaluator} {cmp : Comparison}

theorem hashable_of_scalar {v : Value} (h : Scalar v) : v.hashable = true := by
  obtain ⟨k, hk, -⟩ := h
  exact Value.hashable_iff.mpr ⟨k, hk⟩

theorem tupled_hashableOf {v : Value} (h : v.hashable = true) :
    Native.tupled (hashableOf v) = .ofValue v := by
  obtain ⟨k, hk⟩ := Value.hashable_iff.mp h
  rw [hashableOf_atom hk, Native.tupled_scalar h]

theorem tupled_list {xs : List Value} (h : xs.all Value.hashable = true) :
    Native.tupled (hashableOf (.list xs)) = .tuple (xs.map Native.ofValue) := by
  rw [hashableOf, hashableList_atoms h, Native.tupled, Native.tupledAll_eq]
  congr 1
  exact List.map_congr_left fun x hx => Native.tupled_scalar (List.all_eq_true.mp h x hx)

theorem compare_literal {attrs : NativeAttrs} {left : Native} (hop : cmp.op ∉ UNARY_OPS)
    (href : cmp.reference? = none) (hleft : attrs cmp.attr = some left)
    (happly : apply ev cmp.op left (.ofValue cmp.value) = .ok true) :
    compare ev attrs cmp = true := by
  have hright : rightHand attrs cmp.value = some (.ofValue cmp.value) := by
    unfold Comparison.reference? at href
    unfold rightHand
    split at href
    · cases href
    · rename_i hvalue
      split
      · exact absurd ‹_› (hvalue _)
      · exact absurd ‹_› (hvalue _)
      · rfl
  have hsides : compareSides ev attrs cmp cmp.op = true := by
    rw [compareSides, hleft, hright]
    simp only [happly]
  unfold compare
  split
  · exact absurd (by rw [‹cmp.op = _›]; decide) hop
  · exact absurd (by rw [‹cmp.op = _›]; decide) hop
  · exact hsides

theorem apply_eq_scalar {v : Value} (h : v.hashable = true) :
    apply ev .eq (.ofValue v) (.ofValue v) = .ok true := by
  obtain ⟨k, hk⟩ := Value.hashable_iff.mp h
  have hset : Evaluator.asSet v = .ok none := by
    cases v <;> first | rfl | cases h
  rw [apply_ofValue]
  show Evaluator.applyEq v v = _
  rw [Evaluator.applyEq, hset]
  show Except.ok (v.eq v) = _
  rw [(Value.eq_iff_atom hk).mpr hk]

theorem all_hashable_ofValue {xs : List Value} (h : xs.all Value.hashable = true) :
    (xs.map Native.ofValue).all Native.hashable = true := by
  simpa [List.all_map, Function.comp_def] using h

theorem apply_eq_set {xs : List Value} (h : xs.all Value.hashable = true) :
    apply ev .eq (.tuple (xs.map Native.ofValue)) (.ofValue (.list xs)) = .ok true := by
  have hset : Native.mkSet (xs.map Native.ofValue) = .ok (xs.map Native.ofValue) := by
    rw [Native.mkSet, if_pos (all_hashable_ofValue h)]
  rw [Native.ofValue, Native.ofValues_eq]
  show applyEq (.tuple _) (.list _) = _
  rw [applyEq, asSet, asSet, hset]
  show Except.ok (Native.setEq _ _) = _
  rw [Native.setEq_ofValue, (Value.setEq_iff_atom h h).mpr fun _ => Iff.rfl]

theorem elem_head {x : Value} {xs : List Value} (h : x.hashable = true) :
    x.elem (x :: xs) = true := by
  obtain ⟨k, hk⟩ := Value.hashable_iff.mp h
  rw [Value.elem_iff_atom hk, List.map_cons, hk]
  exact List.mem_cons_self

theorem apply_contains {v : Value} (h : v.hashable = true) :
    apply ev .contains (.ofValue (.list [v])) (.ofValue v) = .ok true := by
  rw [apply_ofValue]
  show Evaluator.applyContains (.list [v]) v = _
  have hset : Evaluator.asSet (.list [v]) = .ok (some [v]) := by
    simp [Evaluator.asSet, Value.mkSet, h, Except.map]
  unfold Evaluator.applyContains
  rw [hset]
  show (if v.hashable = true then pure (v.elem [v]) else _) = _
  rw [if_pos h, elem_head h]
  rfl

theorem apply_intersects {x : Value} {xs : List Value}
    (h : (x :: xs).all Value.hashable = true) :
    apply ev .intersects (.ofValue (.list [x])) (.ofValue (.list (x :: xs))) = .ok true := by
  have hx : x.hashable = true := by
    rw [List.all_cons, Bool.and_eq_true] at h
    exact h.1
  rw [apply_ofValue]
  show Evaluator.applySets _ _ _ = _
  have hleft : Evaluator.asSet (.list [x]) = .ok (some [x]) := by
    simp [Evaluator.asSet, Value.mkSet, hx, Except.map]
  have hright : Evaluator.asSet (.list (x :: xs)) = .ok (some (x :: xs)) := by
    rw [Evaluator.asSet, Value.mkSet, if_pos h]
    rfl
  rw [Evaluator.applySets, hleft, hright]
  show Except.ok ([x].any (·.elem (x :: xs))) = _
  rw [List.any_cons, elem_head hx]
  rfl

theorem domainMatches_self {s : String} (h : ev.normHost s ≠ []) :
    domainMatches ev (.str s) (.str s) = true := by
  show ev.domainMatches (.str s) (.str s) = true
  simp [Evaluator.domainMatches, h]

theorem hashable_of_takes {type : AttrType} {v : Value} (h : type.takes v = true) :
    v.hashable = true := hashable_of_scalar (scalar_of_takes h)

theorem all_hashable_of_checked {spec : AttrSpec} {path : String} {op : Op} {xs : List Value}
    (h : C.checkLiterals spec path op xs = .ok ()) :
    xs ≠ [] ∧ ∀ x ∈ xs, spec.type.takes x = true := by
  rw [PolicyCompiler.checkLiterals] at h
  split at h
  · cases h
  · rename_i hne
    exact ⟨hne, fun x hx => takes_of_checked (forM_ok h x hx)⟩

theorem hosts_of_checked (h : C.checkComparison cmp = .ok ()) (hop : cmp.op = .matchesDomain)
    (href : cmp.reference? = none) :
    (∃ s, cmp.value = .str s) ∨ ∃ s xs, cmp.value = .list (.str s :: xs) := by
  obtain ⟨spec, -, hoperator, hshape⟩ := shape_of_checked h href (by rw [hop]; decide)
  have htype : spec.type = .domain := by
    by_contra htype
    rw [PolicyCompiler.checkOperator, if_neg fun hd => htype hd.1] at hoperator
    split at hoperator
    · cases hoperator
    · rw [if_neg (by rw [hop]; exact fun h => absurd h.1 (by decide)), if_pos ⟨hop, htype⟩]
        at hoperator
      cases hoperator
  rw [PolicyCompiler.checkShape] at hshape
  split at hshape
  · rename_i xs _ hvalue
    obtain ⟨hne, htakes⟩ := all_hashable_of_checked hshape
    obtain ⟨x, xs, rfl⟩ := List.exists_cons_of_ne_nil hne
    have hx := htakes x List.mem_cons_self
    rw [htype] at hx
    cases x with
    | str s => exact Or.inr ⟨s, xs, hvalue⟩
    | none | bool _ | int _ | float _ | list _ | dict _ => cases hx
  · rw [if_neg (by rw [hop]; decide), if_neg (by rw [htype]; decide)] at hshape
    have hx := takes_of_checked hshape
    rw [htype] at hx
    cases hvalue : cmp.value with
    | str s => exact Or.inl ⟨s, rfl⟩
    | none | bool _ | int _ | float _ | list _ | dict _ =>
      rw [hvalue] at hx
      cases hx

theorem wanted_eq {v : Option Native} (h : asked S cmp.constraint = .ok (some v)) :
    wanted S cmp = v := by
  rw [wanted, h]

theorem hashable_of_single (h : C.checkComparison cmp = .ok ()) (href : cmp.reference? = none)
    (hop : cmp.op = .contains) : cmp.value.hashable = true := by
  obtain ⟨spec, -, -, hshape⟩ := shape_of_checked h href (by rw [hop]; decide)
  rw [PolicyCompiler.checkShape] at hshape
  split at hshape
  · rename_i hdomain _
    rw [hop] at hdomain
    cases hdomain
  · rw [if_neg (by rw [hop]; decide)] at hshape
    split at hshape
    · rw [if_pos (by rw [hop]; decide)] at hshape
      exact hashable_of_takes (takes_of_checked hshape)
    · exact hashable_of_takes (takes_of_checked hshape)

theorem list_of_checked (h : C.checkComparison cmp = .ok ()) (href : cmp.reference? = none)
    (hop : cmp.op = .isIn ∨ cmp.op = .intersects) :
    ∃ x xs, cmp.value = .list (x :: xs) ∧ (x :: xs).all Value.hashable = true := by
  have hmem : cmp.op ∉ UNARY_OPS ∧ cmp.op ∈ LIST_VALUE_OPS := by
    rcases hop with hop | hop <;> rw [hop] <;> decide
  obtain ⟨spec, -, -, hshape⟩ := shape_of_checked h href hmem.1
  rw [PolicyCompiler.checkShape] at hshape
  split at hshape
  · rename_i hdomain _
    rcases hop with hop | hop <;> rw [hop] at hdomain <;> cases hdomain
  · rw [if_pos hmem.2] at hshape
    split at hshape
    · rename_i xs hvalue
      obtain ⟨hne, htakes⟩ := all_hashable_of_checked hshape
      obtain ⟨x, xs, rfl⟩ := List.exists_cons_of_ne_nil hne
      refine ⟨x, xs, hvalue, List.all_eq_true.mpr fun y hy => hashable_of_takes (htakes y hy)⟩
    · cases hshape

theorem apply_above {l r : Native} {p q : ℚ} (hcmp : l.cmp r = some (compareOfLessAndEq p q))
    (h : q < p) : apply ev .gt l r = .ok true ∧ apply ev .gte l r = .ok true := by
  have hgt : compareOfLessAndEq p q = .gt := by
    simp [compareOfLessAndEq, h.not_gt, h.ne']
  constructor
  · show applyOrder _ l r = _
    rw [applyOrder, hcmp, hgt]
    rfl
  · show applyOrder _ l r = _
    rw [applyOrder, hcmp, hgt]
    rfl

theorem apply_below {l r : Native} {p q : ℚ} (hcmp : l.cmp r = some (compareOfLessAndEq p q))
    (h : p < q) : apply ev .lt l r = .ok true ∧ apply ev .lte l r = .ok true := by
  have hlt : compareOfLessAndEq p q = .lt := by
    simp [compareOfLessAndEq, h]
  constructor
  · show applyOrder _ l r = _
    rw [applyOrder, hcmp, hlt]
    rfl
  · show applyOrder _ l r = _
    rw [applyOrder, hcmp, hlt]
    rfl

theorem asked_above {v : Native} (hop : cmp.op = .gt ∨ cmp.op = .gte)
    (hv : S.plus (.tupled (hashableOf cmp.value)) 1 = .ok v) :
    asked S cmp.constraint = .ok (some (some v)) := by
  unfold asked
  rcases hop with hop | hop
  all_goals
    rw [show cmp.constraint.op = _ from hop]
    show (do return some (some (← S.plus (.tupled (hashableOf cmp.value)) 1))) = _
    rw [hv]
    rfl

theorem asked_below {v : Native} (hop : cmp.op = .lt ∨ cmp.op = .lte)
    (hv : S.plus (.tupled (hashableOf cmp.value)) (-1) = .ok v) :
    asked S cmp.constraint = .ok (some (some v)) := by
  unfold asked
  rcases hop with hop | hop
  all_goals
    rw [show cmp.constraint.op = _ from hop]
    show (do return some (some (← S.plus (.tupled (hashableOf cmp.value)) (-1)))) = _
    rw [hv]
    rfl

theorem Plain.order (hplain : Plain S ev cmp) (h : C.checkComparison cmp = .ok ())
    (hop : cmp.op ∈ ORDERING_OPS) :
    ∃ v, asked S cmp.constraint = .ok (some (some v)) ∧
      apply ev cmp.op v (.ofValue cmp.value) = .ok true := by
  have hcases : cmp.op = .gt ∨ cmp.op = .gte ∨ cmp.op = .lt ∨ cmp.op = .lte := by
    simpa [ORDERING_OPS] using hop
  have hnumber : ∃ v w : Native, ∃ p q r : ℚ, S.plus (.tupled (hashableOf cmp.value)) 1 = .ok v ∧
      S.plus (.tupled (hashableOf cmp.value)) (-1) = .ok w ∧ q < p ∧ r < q ∧
      v.cmp (.ofValue cmp.value) = some (compareOfLessAndEq p q) ∧
      w.cmp (.ofValue cmp.value) = some (compareOfLessAndEq r q) := by
    rcases number_of_checked h hop hplain.literal with ⟨n, hvalue⟩ | ⟨q, hvalue⟩
    · rw [hvalue]
      refine ⟨_, _, ((n + 1 : Int) : ℚ), n, ((n + -1 : Int) : ℚ), rfl, rfl, ?_, ?_, rfl, rfl⟩
      · exact Rat.intCast_lt_intCast.mpr (by omega)
      · exact Rat.intCast_lt_intCast.mpr (by omega)
    · rw [hvalue]
      obtain ⟨hdown, hup⟩ := hplain.number q hvalue
      exact ⟨_, _, S.add q 1, q, S.add q (-1), rfl, rfl, hup, hdown, rfl, rfl⟩
  obtain ⟨v, w, p, q, r, hv, hw, hup, hdown, hcmpv, hcmpw⟩ := hnumber
  rcases hcases with hop | hop | hop | hop
  · refine ⟨v, asked_above (Or.inl hop) hv, ?_⟩
    rw [hop]
    exact (apply_above hcmpv hup).1
  · refine ⟨v, asked_above (Or.inr hop) hv, ?_⟩
    rw [hop]
    exact (apply_above hcmpv hup).2
  · refine ⟨w, asked_below (Or.inl hop) hw, ?_⟩
    rw [hop]
    exact (apply_below hcmpw hdown).1
  · refine ⟨w, asked_below (Or.inr hop) hw, ?_⟩
    rw [hop]
    exact (apply_below hcmpw hdown).2

/-- a comparison with a literal asks for a value that meets it -/
theorem Plain.holds (hplain : Plain S ev cmp) (h : C.checkComparison cmp = .ok ())
    (hop : cmp.op ∈ SOLVED_OPS) {attrs : NativeAttrs} (hattrs : attrs cmp.attr = wanted S cmp) :
    compare ev attrs cmp = true := by
  have href := hplain.literal
  have hmeets : ∀ {v : Native}, cmp.op ∉ UNARY_OPS → asked S cmp.constraint = .ok (some (some v)) →
      apply ev cmp.op v (.ofValue cmp.value) = .ok true → compare ev attrs cmp = true :=
    fun hunary hasked happly =>
      compare_literal hunary href (by rw [hattrs, wanted_eq hasked]) happly
  by_cases horder : cmp.op ∈ ORDERING_OPS
  · obtain ⟨v, hasked, happly⟩ := hplain.order h horder
    refine hmeets (fun hunary => ?_) hasked happly
    revert horder hunary
    cases cmp.op <;> decide
  · have hrest : cmp.op = .eq ∨ cmp.op = .isIn ∨ cmp.op = .contains ∨ cmp.op = .intersects ∨
        cmp.op = .matchesDomain ∨ cmp.op = .isPresent ∨ cmp.op = .isAbsent := by
      revert hop horder
      cases cmp.op <;> decide
    have hconstraint : cmp.constraint.op = cmp.op := rfl
    rcases hrest with hop | hop | hop | hop | hop | hop | hop
    · have hunary : cmp.op ∉ UNARY_OPS := by rw [hop]; decide
      have hasked : asked S cmp.constraint =
          .ok (some (some (.tupled (hashableOf cmp.value)))) := by
        unfold asked
        rw [hconstraint, hop]
        rfl
      obtain ⟨spec, -, hliteral⟩ := literal_of_checked h
      obtain ⟨hscalar, hset, -⟩ := hliteral href hunary
      refine hmeets hunary hasked ?_
      rw [hop]
      by_cases htype : spec.type = .stringSet
      · obtain ⟨xs, hxs⟩ := hset (Or.inl hop) htype
        have hall := hplain.set xs hop hxs
        rw [hxs, tupled_list hall]
        exact apply_eq_set hall
      · have hv := hashable_of_scalar (hscalar (Or.inl hop) htype)
        rw [tupled_hashableOf hv]
        exact apply_eq_scalar hv
    · obtain ⟨x, xs, hvalue, hall⟩ := list_of_checked h href (Or.inl hop)
      refine hmeets (v := .ofValue x) (by rw [hop]; decide) ?_ ?_
      · unfold asked
        rw [hconstraint, hop, Comparison.constraint, hvalue]
        dsimp only
        rw [tupled_list hall]
        rfl
      · rw [hop, hvalue, apply_ofValue]
        show Except.ok (x.elem (x :: xs)) = _
        rw [List.all_cons, Bool.and_eq_true] at hall
        rw [elem_head hall.1]
    · have hv := hashable_of_single h href hop
      refine hmeets (v := .ofValue (.list [cmp.value])) (by rw [hop]; decide) ?_ ?_
      · have hhead : head (.tupled (hashableOf cmp.value)) = .ofValue cmp.value := by
          rw [tupled_hashableOf hv]
          revert hv
          cases cmp.value <;> simp [head, Native.ofValue, Value.hashable]
        unfold asked
        rw [hconstraint, hop]
        show Except.ok (some (some (Native.list [head (.tupled (hashableOf cmp.value))]))) = _
        rw [hhead]
        rfl
      · rw [hop]
        exact apply_contains hv
    · obtain ⟨x, xs, hvalue, hall⟩ := list_of_checked h href (Or.inr hop)
      refine hmeets (v := .ofValue (.list [x])) (by rw [hop]; decide) ?_ ?_
      · unfold asked
        rw [hconstraint, hop, Comparison.constraint, hvalue]
        show Except.ok (some (some (Native.list [head (.tupled (hashableOf _))]))) = _
        rw [tupled_list hall]
        rfl
      · rw [hop, hvalue]
        exact apply_intersects hall
    · have hasked : ∀ s, head (.tupled (hashableOf cmp.value)) = .str s →
          asked S cmp.constraint = .ok (some (some (.str s))) := by
        intro s hs
        unfold asked
        rw [hconstraint, hop]
        show Except.ok (some (some (Native.str (S.str (head (.tupled (hashableOf _))))))) = _
        rw [hs]
        rfl
      rcases hosts_of_checked h hop href with ⟨s, hvalue⟩ | ⟨s, xs, hvalue⟩
      · have hhead : head (.tupled (hashableOf cmp.value)) = .str s := by rw [hvalue]; rfl
        refine hmeets (by rw [hop]; decide) (hasked s hhead) ?_
        rw [hop, hvalue]
        exact congrArg Except.ok (domainMatches_self (hplain.host s hop hhead))
      · have hhead : head (.tupled (hashableOf cmp.value)) = .str s := by rw [hvalue]; rfl
        refine hmeets (by rw [hop]; decide) (hasked s hhead) ?_
        rw [hop, hvalue]
        show Except.ok ((domainMatches ev (.str s) (.str s)) || _) = _
        rw [domainMatches_self (hplain.host s hop hhead)]
        rfl
    · have hasked : asked S cmp.constraint = .ok (some (some (.str "present"))) := by
        unfold asked
        rw [hconstraint, hop]
      unfold compare
      rw [hop, hattrs, wanted_eq hasked]
      rfl
    · have hasked : asked S cmp.constraint = .ok (some none) := by
        unfold asked
        rw [hconstraint, hop]
      unfold compare
      rw [hop, hattrs, wanted_eq hasked]
      rfl

theorem plain_holds {b : List Comparison} (hchecked : ∀ cmp ∈ b, C.checkComparison cmp = .ok ())
    (hplain : ∀ cmp ∈ b, Plain S ev cmp) (hops : ∀ cmp ∈ b, cmp.op ∈ SOLVED_OPS)
    (honce : (b.map (·.attr)).Nodup) : ∀ cmp ∈ b, compare ev (fixture S b) cmp = true := by
  intro cmp hcmp
  refine (hplain cmp hcmp).holds (hchecked cmp hcmp) (hops cmp hcmp) ?_
  have honly : b.filter (·.attr = cmp.attr) = [cmp] := by
    have hmem : ∀ c, c ∈ b.filter (·.attr = cmp.attr) ↔ c = cmp := by
      intro c
      rw [List.mem_filter, decide_eq_true_eq]
      constructor
      · intro h
        exact List.inj_on_of_nodup_map honce h.1 hcmp h.2
      · rintro rfl
        exact ⟨hcmp, rfl⟩
    have hnodup : (b.filter (·.attr = cmp.attr)).Nodup := (honce.of_map _).filter _
    have hsame := (List.perm_ext_iff_of_nodup hnodup (List.nodup_singleton cmp)).mpr fun c => by
      rw [hmem c, List.mem_singleton]
    exact List.perm_singleton.mp hsame
  rw [fixture, honly]
  rfl

end
/-! ## runs -/

def exact : Solver where
  add := fun q n => q + n
  repr := fun _ => "(('attr', 'context.limit'),)"

def loadCompiler : PolicyCompiler where
  catalog := fun path =>
    if path = "context.load" ∨ path = "context.limit" then some ⟨.number, none⟩
    else if path = "resource.region" then some ⟨.string, none⟩
    else none
  repr := fun _ => "'value'"

def fromTheWest : Rule :=
  ⟨"west", .allow, .allOf [regionIs (.str "eu-west"),
    .comparison ⟨"resource.region", .isIn, .list [.str "eu-north", .str "eu-west"]⟩], []⟩

def overLimit : Rule :=
  ⟨"over", .deny, .comparison ⟨"context.load", .gt, .dict [("attr", .str "context.limit")]⟩, []⟩

def underLoad : Rule :=
  ⟨"load", .allow, .allOf [.comparison ⟨"context.load", .lt, .int 80⟩,
    .comparison ⟨"resource.region", .isIn, .list [.str "eu-north", .str "eu-west"]⟩], []⟩

theorem not_always_matching :
    (loadCompiler.Compiles fromTheWest ∧
      (⟨id⟩ : Evaluator).matchesCond (located "eu-west") fromTheWest.condition = true ∧
      ¬ SeedsMatch exact ⟨id⟩ fromTheWest) ∧
    (loadCompiler.Compiles overLimit ∧ seedRequests exact overLimit = .error .typeError) := by
  refine ⟨⟨⟨_, rfl⟩, by decide, ?_⟩, ⟨_, rfl⟩, rfl⟩
  intro h
  obtain ⟨seeds, hseeds, hmatch⟩ := h
  have hrun : seedRequests exact fromTheWest = .ok [[("resource.region", .str "eu-north")]] := rfl
  rw [hrun] at hseeds
  obtain rfl := Except.ok.inj hseeds
  have hfails := hmatch _ (List.mem_singleton_self _)
  exact absurd hfails (by decide)

theorem underLoad_matches : SeedsMatch exact ⟨id⟩ underLoad := by
  refine (seeds_match_iff exact loadCompiler ⟨id⟩ underLoad ⟨_, rfl⟩).mpr fun bs hbs => ?_
  cases hbs
  have hchecked : ∀ cmp ∈ [(⟨"context.load", .lt, .int 80⟩ : Comparison),
      ⟨"resource.region", .isIn, .list [.str "eu-north", .str "eu-west"]⟩],
      loadCompiler.checkComparison cmp = .ok () := by
    simp only [List.forall_mem_cons]
    exact ⟨rfl, rfl, by simp⟩
  constructor
  · intro b hb cmp hcmp hordered
    obtain rfl := List.mem_singleton.mp hb
    rcases List.mem_pair.mp (List.takeWhile_subset _ hcmp) with rfl | rfl
    · exact hordered.2 rfl
    · exact absurd hordered.1 (by decide)
  · intro b hb hops _
    obtain rfl := List.mem_singleton.mp hb
    refine ⟨_, List.mem_singleton_self _, plain_holds hchecked ?_ hops (by decide)⟩
    intro cmp hcmp
    rcases List.mem_pair.mp hcmp with rfl | rfl
    · exact ⟨rfl, by simp, by simp, by simp⟩
    · exact ⟨rfl, by simp, by simp, by simp⟩

end Seeds
end HxArbiter
