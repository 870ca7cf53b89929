import Velaris.Arbiter.Impossible

/-!
# HxArbiter: what the analyzer calls an overlap

The analyzer answers as soon as it has decided about one attribute.  It weighs equalities, lists of
values and one exclusion of an attribute; the other comparisons it passes over.

* `Weighed`   the attributes about which the answer is right;
* `RestMeetable`   the comparisons on the other attributes can hold together;
* `weighed_value`   a value for a weighed attribute;
* `pair_iff`   the two branches can be met exactly if the rest can;
* `overlap_real`   the rules.
-/

set_option linter.unusedSectionVars false

namespace HxArbiter

open Py Base

/-- an attribute with equalities, lists of values and at most one exclusion, all with literals, that
no comparison refers to -/
structure Weighed (cs : List Comparison) (A : String) : Prop where
  literal : ∀ c ∈ cs, c.attr = A → c.reference? = none
  plain : ∀ c ∈ cs, c.attr = A → c.op ∈ [Op.eq, .ne, .isIn, .notIn, .isPresent]
  required : ∃ c ∈ cs, c.attr = A ∧ positive c.constraint = true
  once : (cs.filter fun c => c.attr = A ∧ (c.op = .ne ∨ c.op = .notIn)).length ≤ 1
  /-- sets of texts, and no set that is excluded in another order than it is required -/
  hashable : ∀ c ∈ cs, c.attr = A → ∀ xs, c.value = .list xs → xs.all Value.hashable = true
  alike : ∀ c ∈ cs, ∀ d ∈ cs, c.attr = A → d.attr = A → c.op = .eq → d.op = .ne →
    ∀ xs ys, c.value = .list xs → d.value = .list ys → Value.setEq xs ys = true →
      Value.eqList xs ys = true
  unreferred : ∀ c ∈ cs, c.reference? ≠ some (.str A)

def RestMeetable (ev : Evaluator) (cs : List Comparison) : Prop :=
  ∃ attrs : Attrs, ∀ c ∈ cs, ¬ Weighed cs c.attr → ev.compare attrs c = true

/-! ## the value that is left -/

theorem weighRest_value {group : List Constraint} {q : Constraint} {qs : List Constraint}
    {decidedAny : Bool} {allowed : List Value} (hq : values q = some allowed) (hne : allowed ≠ [])
    (honce : ∀ c ∈ group, ∀ d ∈ group, ∀ out out', excluded c = some out →
      excluded d = some out' → out = out')
    (h : weighRest group (q :: qs) decidedAny ≠ .impossible) :
    ∃ x ∈ allowed, ∀ c ∈ group, ∀ out, excluded c = some out → x.elem out = false := by
  by_cases hex : ∃ c ∈ group, ∃ out, excluded c = some out
  · obtain ⟨c, hc, out, hout⟩ := hex
    have hleft : leftOver (q :: qs) c = some (allowed.filter fun v => !v.elem out) := by
      rw [leftOver, hout, hq]
    have hnil : allowed.filter (fun v => !v.elem out) ≠ [] := by
      intro hnil
      refine h ?_
      rw [weighRest, if_pos]
      exact List.any_eq_true.mpr ⟨_, List.mem_filterMap.mpr ⟨c, hc, hleft⟩, by rw [hnil]; rfl⟩
    obtain ⟨x, hx⟩ := List.exists_mem_of_ne_nil _ hnil
    refine ⟨x, (List.mem_filter.mp hx).1, ?_⟩
    intro d hd out' hout'
    rw [← honce c hc d hd out out' hout hout']
    simpa using (List.mem_filter.mp hx).2
  · obtain ⟨x, hx⟩ := List.exists_mem_of_ne_nil _ hne
    exact ⟨x, hx, fun c hc out hout => absurd ⟨c, hc, out, hout⟩ hex⟩

theorem weigh_value {attr : String} {group : List Constraint} {p : Constraint}
    {rest : List Constraint} {weight : Weight} {vs : List Value}
    (hp : group.filter positive = p :: rest) (hvs : values p = some vs) (hne : vs ≠ [])
    (hvalues : ∀ q ∈ rest, ∃ ws, values q = some ws)
    (honce : ∀ c ∈ group, ∀ d ∈ group, ∀ out out', excluded c = some out →
      excluded d = some out' → out = out')
    (h : weigh attr group = .ok weight) (hweight : weight ≠ .impossible) :
    ∃ x ∈ vs, (∀ q ∈ rest, ∀ ws, values q = some ws → x.elem ws = true) ∧
      ∀ c ∈ group, ∀ out, excluded c = some out → x.elem out = false := by
  rw [weigh, hp] at h
  split at h
  · have hsome : ∀ q ∈ p :: rest, (values q).isSome := by
      intro q hq
      rcases List.mem_cons.mp hq with rfl | hq
      · rw [hvs]
        rfl
      · obtain ⟨ws, hws⟩ := hvalues q hq
        rw [hws]
        rfl
    obtain ⟨sets, hsets⟩ := exists_mapM hsome
    rw [hsets] at h
    have hall := forall₂_of_mapM hsets
    cases hall with
    | @cons _ s _ others hs hothers =>
      rw [hvs] at hs
      dsimp only at h
      split at h
      · cases h
        exact absurd rfl hweight
      · rename_i hinter
        obtain ⟨common, hcommon, h⟩ := exists_of_bind_ok h
        have hcommonne : common ≠ [] := by
          obtain ⟨y, hy⟩ := List.exists_mem_of_ne_nil _ hinter
          exact List.ne_nil_of_mem ((mem_sortedValues hcommon y).mpr hy)
        have hrest : weighRest group [⟨attr, .isIn, .list common⟩] true ≠ .impossible := by
          rw [Except.ok.inj h]
          exact hweight
        obtain ⟨x, hx, hleft⟩ := weighRest_value rfl hcommonne honce hrest
        obtain ⟨hxs, hxothers⟩ := List.mem_filter.mp ((mem_sortedValues hcommon x).mp hx)
        refine ⟨x, by rw [Option.some.inj hs]; exact hxs, ?_, hleft⟩
        intro q hq ws hws
        obtain ⟨t, ht, hqt⟩ := mem_right_of_forall₂ hothers hq
        rw [hws] at hqt
        rw [Option.some.inj hqt]
        exact List.all_eq_true.mp hxothers t ht
  · rename_i hone
    have hnil : rest = [] := by
      cases rest with
      | nil => rfl
      | cons q rest => exact absurd (by simp) hone
    rw [hnil] at h ⊢
    obtain ⟨x, hx, hleft⟩ := weighRest_value hvs hne honce (by rw [Except.ok.inj h]; exact hweight)
    exact ⟨x, hx, by simp, hleft⟩

/-! ## the value meets the comparisons -/

section
variable {C : PolicyCompiler} {ev : Evaluator} {attrs : Attrs} {c : Comparison} {type : AttrType}
  {x : Value}

theorem applyEq_atom {k : Atom} (hk : x.atom = some k) (v : Value) :
    Evaluator.applyEq x v = .ok (x.eq v) := by
  cases x with
  | list _ => cases hk
  | none | bool _ | int _ | float _ | str _ | dict _ => rfl

theorem applyEq_sets {xs ys : List Value} (hxs : xs.all Value.hashable = true)
    (hys : ys.all Value.hashable = true) :
    Evaluator.applyEq (.list xs) (.list ys) = .ok (Value.setEq xs ys) := by
  rw [Evaluator.applyEq, Evaluator.asSet, Value.mkSet, if_pos hxs]
  show (Evaluator.asSet (.list ys) >>= _) = _
  rw [Evaluator.asSet, Value.mkSet, if_pos hys]
  rfl

theorem sides_literal (href : c.reference? = none) (hx : attrs c.attr = some x) :
    Sides attrs c x c.value := ⟨hx, rightHand_literal href⟩

theorem hashable_of_scalars {xs : List Value} (h : ∀ v ∈ xs, Scalar v) :
    xs.all Value.hashable = true :=
  List.all_eq_true.mpr fun v hv => Value.hashable_iff.mpr ((h v hv).imp fun _ hk => hk.1)

theorem holds_present (hop : c.op = .isPresent) (hx : attrs c.attr = some x)
    (hnull : x ≠ .none) : ev.compare attrs c = true := by
  rw [Evaluator.compare, hop]
  show Evaluator.isPresent (attrs c.attr) = true
  rw [hx]
  cases x with
  | none => exact absurd rfl hnull
  | bool _ | int _ | float _ | str _ | list _ | dict _ => rfl

theorem values_scalar (htype : type ≠ .stringSet) (hlit : Literal type c)
    (hpos : positive c.constraint = true) :
    ∃ vs, values c.constraint = some vs ∧ vs ≠ [] ∧ (∀ v ∈ vs, Scalar v) ∧
      (c.op = .eq → vs = [c.value]) ∧ (c.op = .isIn → c.value = .list vs) := by
  rcases positive_iff.mp hpos with hop | hop
  · have hscalar := hlit.scalar (Or.inl hop) htype
    obtain ⟨k, hk, hnull⟩ := hscalar
    refine ⟨[c.value], ?_, by simp, ?_, fun _ => rfl, fun h => ?_⟩
    · rw [values_eq hop, hashableOf_atom hk]
    · intro v hv
      rw [List.mem_singleton.mp hv]
      exact ⟨k, hk, hnull⟩
    · rw [hop] at h
      cases h
  · obtain ⟨-, xs, hvalue, hne, hscalar⟩ := hlit.list (Or.inl hop)
    refine ⟨xs, ?_, hne, hscalar, fun h => ?_, fun _ => hvalue⟩
    · rw [values, Comparison.constraint, hop, hvalue, hashableOf,
        hashableList_atoms (hashable_of_scalars hscalar)]
    · rw [hop] at h
      cases h

theorem scalar_meets {k : Atom} (htype : type ≠ .stringSet)
    (hlit : c.op ∉ UNARY_OPS → Literal type c) (href : c.reference? = none)
    (hplain : c.op ∈ [Op.eq, .ne, .isIn, .notIn, .isPresent]) (hk : x.atom = some k)
    (hnull : k ≠ .null)
    (hpos : positive c.constraint = true → ∀ vs, values c.constraint = some vs →
      some k ∈ vs.map Value.atom)
    (hleft : ∀ out, excluded c.constraint = some out → x.elem out = false)
    (hx : attrs c.attr = some x) : ev.compare attrs c = true := by
  simp only [List.mem_cons, List.not_mem_nil, or_false] at hplain
  rcases hplain with hop | hop | hop | hop | hop
  · have hp : positive c.constraint = true := positive_iff.mpr (Or.inl hop)
    obtain ⟨vs, hvs, -, -, hvalue, -⟩ := values_scalar htype (hlit (binary_of_positive hp)) hp
    have hmem := hpos hp vs hvs
    rw [hvalue hop, List.map_singleton, List.mem_singleton] at hmem
    refine (holds_eq_iff hop).mpr ⟨x, c.value, sides_literal href hx, ?_⟩
    rw [applyEq_atom hk, (Value.eq_iff_atom' hk).mpr hmem.symm]
  · obtain ⟨k', hk', -⟩ := (hlit (by rw [hop]; decide)).scalar (Or.inr hop) htype
    have hout : excluded c.constraint = some [c.value] := by
      rw [excluded, Comparison.constraint, hop, hashableOf_atom hk']
    have hne := hleft _ hout
    refine (holds_ne_iff hop).mpr ⟨x, c.value, sides_literal href hx, ?_⟩
    rw [applyEq_atom hk]
    simpa [Value.elem] using hne
  · have hp : positive c.constraint = true := positive_iff.mpr (Or.inr hop)
    obtain ⟨vs, hvs, -, -, -, hvalue⟩ := values_scalar htype (hlit (binary_of_positive hp)) hp
    refine (holds_in_iff hop).mpr ⟨x, c.value, sides_literal href hx, ?_⟩
    rw [hvalue hop]
    exact (Value.elem_iff_atom hk).mpr (hpos hp vs hvs)
  · obtain ⟨-, xs, hvalue, -, hscalar⟩ := (hlit (by rw [hop]; decide)).list (Or.inr hop)
    have hout : excluded c.constraint = some xs := by
      rw [excluded, Comparison.constraint, hop, hvalue, hashableOf,
        hashableList_atoms (hashable_of_scalars hscalar)]
    refine (holds_notIn_iff hop).mpr ⟨x, c.value, sides_literal href hx, ?_⟩
    rw [hvalue]
    exact hleft xs hout
  · refine holds_present hop hx ?_
    intro hnone
    rw [hnone] at hk
    exact hnull (Option.some.inj hk).symm

theorem values_set (htype : type = .stringSet) (hlit : Literal type c)
    (hhash : ∀ xs, c.value = .list xs → xs.all Value.hashable = true)
    (hpos : positive c.constraint = true) :
    c.op = .eq ∧ ∃ xs, c.value = .list xs ∧ xs.all Value.hashable = true ∧
      values c.constraint = some [.list xs] := by
  rcases positive_iff.mp hpos with hop | hop
  · obtain ⟨xs, hvalue⟩ := hlit.set (Or.inl hop) htype
    have hxs := hhash xs hvalue
    refine ⟨hop, xs, hvalue, hxs, ?_⟩
    rw [values_eq hop, hvalue, hashableOf, hashableList_atoms hxs]
  · exact absurd htype (hlit.list (Or.inl hop)).1

theorem setEq_of_eqList {xs ys : List Value} (hxs : xs.all Value.hashable = true)
    (hys : ys.all Value.hashable = true) (h : Value.eqList xs ys = true) :
    Value.setEq xs ys = true := by
  rw [Value.setEq_iff_atom hxs hys, Value.eqList_map_atom hxs h]
  exact fun _ => Iff.rfl

theorem set_meets {xs : List Value} (htype : type = .stringSet)
    (hlit : c.op ∉ UNARY_OPS → Literal type c) (href : c.reference? = none)
    (hplain : c.op ∈ [Op.eq, .ne, .isIn, .notIn, .isPresent])
    (hhash : ∀ ys, c.value = .list ys → ys.all Value.hashable = true)
    (hxs : xs.all Value.hashable = true)
    (hpos : positive c.constraint = true → ∀ ys, c.value = .list ys → Value.eqList xs ys = true)
    (halike : c.op = .ne → ∀ ys, c.value = .list ys → Value.setEq xs ys = true →
      Value.eqList xs ys = true)
    (hleft : ∀ out, excluded c.constraint = some out → (Value.list xs).elem out = false)
    (hx : attrs c.attr = some (.list xs)) : ev.compare attrs c = true := by
  simp only [List.mem_cons, List.not_mem_nil, or_false] at hplain
  rcases hplain with hop | hop | hop | hop | hop
  · have hp : positive c.constraint = true := positive_iff.mpr (Or.inl hop)
    obtain ⟨-, ys, hvalue, hys, -⟩ := values_set htype (hlit (binary_of_positive hp)) hhash hp
    refine (holds_eq_iff hop).mpr ⟨_, c.value, sides_literal href hx, ?_⟩
    rw [hvalue, applyEq_sets hxs hys, setEq_of_eqList hxs hys (hpos hp ys hvalue)]
  · obtain ⟨ys, hvalue⟩ := (hlit (by rw [hop]; decide)).set (Or.inr hop) htype
    have hys := hhash ys hvalue
    have hout : excluded c.constraint = some [.list ys] := by
      rw [excluded, Comparison.constraint, hop, hvalue, hashableOf, hashableList_atoms hys]
    have hne : Value.eqList xs ys = false := by
      have hne := hleft _ hout
      simpa [Value.elem, Value.eq] using hne
    have hset : Value.setEq xs ys = false := by
      by_contra hset
      have hlists := halike hop ys hvalue (by simpa using hset)
      rw [hne] at hlists
      cases hlists
    refine (holds_ne_iff hop).mpr ⟨_, c.value, sides_literal href hx, ?_⟩
    rw [hvalue, applyEq_sets hxs hys, hset]
  · exact absurd htype ((hlit (by rw [hop]; decide)).list (Or.inl hop)).1
  · exact absurd htype ((hlit (by rw [hop]; decide)).list (Or.inr hop)).1
  · exact holds_present hop hx (by simp)

end

/-! ## a branch -/

section
variable {C : PolicyCompiler} {ev : Evaluator} {cs : List Comparison} {A : String}

theorem eq_of_length_le_one {α : Type} {xs : List α} (h : xs.length ≤ 1) {x y : α} (hx : x ∈ xs)
    (hy : y ∈ xs) : x = y := by
  match xs, h with
  | [], _ => cases hx
  | [z], _ => rw [List.mem_singleton.mp hx, List.mem_singleton.mp hy]
  | z :: w :: xs, h =>
    rw [List.length_cons, List.length_cons] at h
    omega

theorem Weighed.excluded_same (hw : Weighed cs A) :
    ∀ c ∈ (cs.filter fun c => c.attr = A).map Comparison.constraint,
      ∀ d ∈ (cs.filter fun c => c.attr = A).map Comparison.constraint,
        ∀ out out', excluded c = some out → excluded d = some out' → out = out' := by
  intro c hc d hd out out' hout hout'
  obtain ⟨q, hq, rfl⟩ := List.mem_map.mp hc
  obtain ⟨r, hr, rfl⟩ := List.mem_map.mp hd
  have hmem : ∀ q ∈ cs.filter fun c => c.attr = A, ∀ out, excluded q.constraint = some out →
      q ∈ cs.filter fun c => c.attr = A ∧ (c.op = .ne ∨ c.op = .notIn) := by
    intro q hq out hout
    refine List.mem_filter.mpr ⟨(List.mem_filter.mp hq).1, decide_eq_true ?_⟩
    exact ⟨of_decide_eq_true (List.mem_filter.mp hq).2,
      (excluded_op hout).imp (fun h => h.1) fun h => h.1⟩
  have hsame := eq_of_length_le_one hw.once (hmem q hq out hout) (hmem r hr out' hout')
  rw [hsame, hout'] at hout
  exact (Option.some.inj hout).symm

def positivesOn (cs : List Comparison) (A : String) : List Comparison :=
  (cs.filter fun c => c.attr = A).filter fun c => positive c.constraint

theorem mem_positivesOn {c : Comparison} :
    c ∈ positivesOn cs A ↔ c ∈ cs ∧ c.attr = A ∧ positive c.constraint = true := by
  rw [positivesOn, List.mem_filter, List.mem_filter, decide_eq_true_eq, and_assoc]

theorem filter_constraints :
    ((cs.filter fun c => c.attr = A).map Comparison.constraint).filter positive =
      (positivesOn cs A).map Comparison.constraint := by
  rw [List.filter_map]
  rfl

variable {type : AttrType} {p : Comparison} {rest : List Comparison} {weight : Weight}

theorem weighed_set (hw : Weighed cs A) (htype : type = .stringSet)
    (hlit : ∀ c ∈ cs, c.attr = A → c.op ∉ UNARY_OPS → Literal type c)
    (hp : positivesOn cs A = p :: rest)
    (h : weigh A ((cs.filter fun c => c.attr = A).map Comparison.constraint) = .ok weight)
    (hweight : weight ≠ .impossible) :
    ∃ x, ∀ attrs : Attrs, attrs A = some x → ∀ c ∈ cs, c.attr = A → ev.compare attrs c = true := by
  have hset : ∀ c ∈ positivesOn cs A, c.op = .eq ∧ ∃ xs, c.value = .list xs ∧
      xs.all Value.hashable = true ∧ values c.constraint = some [.list xs] := by
    intro c hc
    obtain ⟨hc, hattr, hpos⟩ := mem_positivesOn.mp hc
    exact values_set htype (hlit c hc hattr (binary_of_positive hpos)) (hw.hashable c hc hattr) hpos
  have hpmem : p ∈ positivesOn cs A := by
    rw [hp]
    exact List.mem_cons_self
  obtain ⟨hpop, xs, hvalue, hxs, hvs⟩ := hset p hpmem
  have hvalues : ∀ q ∈ rest.map Comparison.constraint, ∃ ws, values q = some ws := by
    intro q hq
    obtain ⟨r, hr, rfl⟩ := List.mem_map.mp hq
    obtain ⟨-, ys, -, -, hws⟩ := hset r (by rw [hp]; exact List.mem_cons_of_mem _ hr)
    exact ⟨_, hws⟩
  have hfilter : ((cs.filter fun c => c.attr = A).map Comparison.constraint).filter positive =
      p.constraint :: rest.map Comparison.constraint := by
    rw [filter_constraints, hp]
    rfl
  obtain ⟨x, hx, hothers, hleft⟩ := weigh_value hfilter hvs (by simp) hvalues hw.excluded_same h
    hweight
  rw [List.mem_singleton] at hx
  rw [hx] at hothers hleft
  refine ⟨.list xs, fun attrs hattrs c hc hattr => ?_⟩
  refine set_meets htype (hlit c hc hattr) (hw.literal c hc hattr) (hw.plain c hc hattr)
    (hw.hashable c hc hattr) hxs ?_ ?_
    (hleft _ (List.mem_map.mpr ⟨c, List.mem_filter.mpr ⟨hc, decide_eq_true hattr⟩, rfl⟩))
    (by rw [hattr]; exact hattrs)
  · intro hcpos ys hys
    have hin := mem_positivesOn.mpr ⟨hc, hattr, hcpos⟩
    rw [hp] at hin
    rcases List.mem_cons.mp hin with rfl | hin
    · rw [hvalue] at hys
      rw [← Value.list.inj hys]
      exact Value.eqList_self hxs
    · obtain ⟨-, zs, hzs, -, hws⟩ := hset c (by rw [hp]; exact List.mem_cons_of_mem _ hin)
      have helem := hothers _ (List.mem_map.mpr ⟨c, hin, rfl⟩) _ hws
      rw [hzs] at hys
      rw [← Value.list.inj hys]
      simpa [Value.elem, Value.eq] using helem
  · intro hop ys hys
    obtain ⟨hpcs, hpattr, -⟩ := mem_positivesOn.mp hpmem
    exact hw.alike p hpcs c hc hpattr hattr hpop hop xs ys hvalue hys

theorem weighed_scalar (hw : Weighed cs A) (htype : type ≠ .stringSet)
    (hlit : ∀ c ∈ cs, c.attr = A → c.op ∉ UNARY_OPS → Literal type c)
    (hp : positivesOn cs A = p :: rest)
    (h : weigh A ((cs.filter fun c => c.attr = A).map Comparison.constraint) = .ok weight)
    (hweight : weight ≠ .impossible) :
    ∃ x, ∀ attrs : Attrs, attrs A = some x → ∀ c ∈ cs, c.attr = A → ev.compare attrs c = true := by
  have hscalars : ∀ c ∈ positivesOn cs A, ∃ vs, values c.constraint = some vs ∧ vs ≠ [] ∧
      ∀ v ∈ vs, Scalar v := by
    intro c hc
    obtain ⟨hc, hattr, hpos⟩ := mem_positivesOn.mp hc
    obtain ⟨vs, hvs, hne, hscalar, -⟩ :=
      values_scalar htype (hlit c hc hattr (binary_of_positive hpos)) hpos
    exact ⟨vs, hvs, hne, hscalar⟩
  obtain ⟨vs, hvs, hne, hscalar⟩ := hscalars p (by rw [hp]; exact List.mem_cons_self)
  have hvalues : ∀ q ∈ rest.map Comparison.constraint, ∃ ws, values q = some ws := by
    intro q hq
    obtain ⟨r, hr, rfl⟩ := List.mem_map.mp hq
    obtain ⟨ws, hws, -⟩ := hscalars r (by rw [hp]; exact List.mem_cons_of_mem _ hr)
    exact ⟨ws, hws⟩
  have hfilter : ((cs.filter fun c => c.attr = A).map Comparison.constraint).filter positive =
      p.constraint :: rest.map Comparison.constraint := by
    rw [filter_constraints, hp]
    rfl
  obtain ⟨x, hx, hothers, hleft⟩ := weigh_value hfilter hvs hne hvalues hw.excluded_same h hweight
  obtain ⟨k, hk, hnull⟩ := hscalar x hx
  refine ⟨x, fun attrs hattrs c hc hattr => ?_⟩
  refine scalar_meets htype (hlit c hc hattr) (hw.literal c hc hattr) (hw.plain c hc hattr) hk hnull
    ?_ (hleft _ (List.mem_map.mpr ⟨c, List.mem_filter.mpr ⟨hc, decide_eq_true hattr⟩, rfl⟩))
    (by rw [hattr]; exact hattrs)
  intro hcpos ws hws
  have hin := mem_positivesOn.mpr ⟨hc, hattr, hcpos⟩
  rw [hp] at hin
  rcases List.mem_cons.mp hin with rfl | hin
  · rw [hvs] at hws
    rw [← Option.some.inj hws]
    exact List.mem_map.mpr ⟨x, hx, hk⟩
  · exact (Value.elem_iff_atom hk).mp (hothers _ (List.mem_map.mpr ⟨c, hin, rfl⟩) ws hws)

/-- **A weighed attribute that is not called impossible has a value** that meets all its
comparisons, whatever the other attributes are. -/
theorem weighed_value (hw : Weighed cs A) (hchecked : ∀ c ∈ cs, C.checkComparison c = .ok ())
    (h : weigh A ((cs.filter fun c => c.attr = A).map Comparison.constraint) = .ok weight)
    (hweight : weight ≠ .impossible) :
    ∃ x, ∀ attrs : Attrs, attrs A = some x → ∀ c ∈ cs, c.attr = A → ev.compare attrs c = true := by
  obtain ⟨p₀, hp₀, hattr₀, hpos₀⟩ := hw.required
  obtain ⟨spec, hspec, -⟩ := literal_of_checked (hchecked p₀ hp₀)
  have hlit : ∀ c ∈ cs, c.attr = A → c.op ∉ UNARY_OPS → Literal spec.type c := by
    intro c hc hattr
    obtain ⟨spec', hspec', hlit⟩ := literal_of_checked (hchecked c hc)
    rw [hattr, ← hattr₀, hspec] at hspec'
    rw [Option.some.inj hspec']
    exact hlit (hw.literal c hc hattr)
  cases hp : positivesOn cs A with
  | nil =>
    have hin := mem_positivesOn.mpr ⟨hp₀, hattr₀, hpos₀⟩
    rw [hp] at hin
    cases hin
  | cons p rest =>
    by_cases htype : spec.type = .stringSet
    · exact weighed_set hw htype hlit hp h hweight
    · exact weighed_scalar hw htype hlit hp h hweight

theorem weighAll_true {constraints : List Constraint} {decidedAny : Bool} {names : List String}
    (h : weighAll constraints decidedAny names = .ok (some true)) :
    ∀ name ∈ names, ∃ weight, weigh name (constraints.filter (·.attr = name)) = .ok weight ∧
      weight ≠ .impossible := by
  induction names generalizing decidedAny with
  | nil => simp
  | cons name names ih =>
    rw [weighAll] at h
    obtain ⟨weight, hweight, h⟩ := exists_of_bind_ok h
    cases weight with
    | impossible => cases h
    | decided => exact List.forall_mem_cons.mpr ⟨⟨_, hweight, by decide⟩, ih h⟩
    | undecided => exact List.forall_mem_cons.mpr ⟨⟨_, hweight, by decide⟩, ih h⟩

theorem compare_of_agree {attrs attrs' : Attrs} {c : Comparison}
    (hattr : attrs c.attr = attrs' c.attr)
    (href : ∀ y, c.reference? = some (.str y) → attrs y = attrs' y) :
    ev.compare attrs c = ev.compare attrs' c := by
  refine Evaluator.compare_congr c fun path hpath => ?_
  have hpath' : path = c.attr ∨ path ∈ rightPaths c.value := by
    unfold Comparison.paths at hpath
    split at hpath
    · exact Or.inl (List.mem_singleton.mp hpath)
    · exact Or.inl (List.mem_singleton.mp hpath)
    · exact List.mem_cons.mp hpath
  rcases hpath' with rfl | hright
  · exact hattr
  · refine href path ?_
    rw [Comparison.reference?]
    unfold rightPaths at hright
    split at hright
    · rename_i y hvalue
      rw [hvalue, List.mem_singleton.mp hright]
      rfl
    · cases hright

open Classical in
/-- **A branch that is called satisfiable can be met exactly if its rest can.** -/
theorem pair_iff (hchecked : ∀ c ∈ cs, C.checkComparison c = .ok ())
    (h : conjunctionSatisfiable (cs.map Comparison.constraint) = .ok (some true)) :
    (∃ attrs : Attrs, Meets ev attrs cs) ↔ RestMeetable ev cs := by
  constructor
  · intro hmeets
    obtain ⟨attrs, hmeets⟩ := hmeets
    exact ⟨attrs, fun c hc _ => hmeets c hc⟩
  · intro hrest
    obtain ⟨attrs, hattrs⟩ := hrest
    have hvalue : ∀ A, ∃ x, Weighed cs A → ∀ attrs : Attrs, attrs A = some x → ∀ c ∈ cs,
        c.attr = A → ev.compare attrs c = true := by
      intro A
      by_cases hw : Weighed cs A
      · obtain ⟨p, hp, hattr, -⟩ := hw.required
        have hname : A ∈ ((cs.map Comparison.constraint).map (·.attr)).eraseDups := by
          rw [List.mem_eraseDups, List.map_map]
          exact List.mem_map.mpr ⟨p, hp, hattr⟩
        obtain ⟨weight, hweight, hne⟩ := weighAll_true h A hname
        rw [List.filter_map] at hweight
        obtain ⟨x, hx⟩ := weighed_value hw hchecked hweight hne
        exact ⟨x, fun _ => hx⟩
      · exact ⟨.none, fun h => absurd h hw⟩
    choose value hvalue using hvalue
    refine ⟨fun A => if Weighed cs A then some (value A) else attrs A, fun c hc => ?_⟩
    by_cases hw : Weighed cs c.attr
    · exact hvalue c.attr hw _ (if_pos hw) c hc rfl
    · refine (compare_of_agree (if_neg hw) ?_).trans (hattrs c hc hw)
      intro y hy
      exact if_neg fun hwy => hwy.unreferred c hc hy

end

/-! ## two rules -/

section
variable {C : PolicyCompiler} {ev : Evaluator} {a b : Rule}

theorem overlapsFrom_true {sawUnknown : Bool} {bs : List (List Constraint)}
    (h : overlapsFrom sawUnknown bs = .ok (some true)) :
    ∃ branch ∈ bs, conjunctionSatisfiable branch = .ok (some true) := by
  induction bs generalizing sawUnknown with
  | nil =>
    rw [overlapsFrom] at h
    cases sawUnknown <;> cases h
  | cons branch rest ih =>
    rw [overlapsFrom] at h
    obtain ⟨verdict, hverdict, h⟩ := exists_of_bind_ok h
    cases verdict with
    | none =>
      obtain ⟨c, hc, hsat⟩ := ih h
      exact ⟨c, List.mem_cons_of_mem _ hc, hsat⟩
    | some answer =>
      cases answer with
      | true => exact ⟨branch, List.mem_cons_self, hverdict⟩
      | false =>
        obtain ⟨c, hc, hsat⟩ := ih h
        exact ⟨c, List.mem_cons_of_mem _ hc, hsat⟩

def BothMatch (ev : Evaluator) (a b : Rule) : Prop :=
  ∃ attrs : Attrs, ev.matchesCond attrs a.condition = true ∧ ev.matchesCond attrs b.condition = true

theorem bothMatch_iff {ba bb : List (List Comparison)} (hba : dnf id a.condition = some ba)
    (hbb : dnf id b.condition = some bb) :
    BothMatch ev a b ↔ ∃ cs ∈ pairs ba bb, ∃ attrs : Attrs, Meets ev attrs cs := by
  have hmatch : ∀ attrs : Attrs, (ev.matchesCond attrs a.condition = true ∧
      ev.matchesCond attrs b.condition = true) ↔ MeetsOne ev attrs (pairs ba bb) := by
    intro attrs
    rw [matchesCond_iff _ hba, matchesCond_iff _ hbb, pairs, meetsOne_join]
  rw [BothMatch, exists_congr hmatch]
  constructor
  · intro h
    obtain ⟨attrs, cs, hcs, hmeets⟩ := h
    exact ⟨cs, hcs, attrs, hmeets⟩
  · intro h
    obtain ⟨cs, hcs, attrs, hmeets⟩ := h
    exact ⟨attrs, cs, hcs, hmeets⟩

theorem overlaps_true (h : overlaps a b = .ok (some true)) :
    ∃ ba bb, dnf id a.condition = some ba ∧ dnf id b.condition = some bb ∧
      ∃ cs ∈ pairs ba bb,
        conjunctionSatisfiable (cs.map Comparison.constraint) = .ok (some true) := by
  rw [overlaps, branches_eq, branches_eq] at h
  cases hba : dnf id a.condition with
  | none =>
    rw [hba] at h
    cases h
  | some ba =>
    cases hbb : dnf id b.condition with
    | none =>
      rw [hba, hbb] at h
      cases h
    | some bb =>
      rw [hba, hbb] at h
      change overlapsFrom false ((leaves _ ba).flatMap fun left =>
        (leaves _ bb).map fun right => left ++ right) = _ at h
      rw [← leaves_join] at h
      obtain ⟨branch, hbranch, hsat⟩ := overlapsFrom_true h
      obtain ⟨cs, hcs, rfl⟩ := List.mem_map.mp hbranch
      exact ⟨ba, bb, rfl, rfl, cs, hcs, hsat⟩

end

/-! ## runs -/

def nameHas (op : Op) : Condition := .comparison ⟨"tenant.region", op, .str "x"⟩

def inEuropeAnd (id : String) (effect : Effect) (more : Condition) : Rule :=
  ⟨id, effect, .allOf [regionIs (.str "eu"), more], []⟩

def eitherRegion : Rule :=
  ⟨"either", .allow, .comparison ⟨"resource.region", .isIn, .list [.str "eu", .str "us"]⟩, []⟩

def notAmerica : Rule := ⟨"not us", .deny, .comparison ⟨"resource.region", .ne, .str "us"⟩, []⟩

end HxArbiter
