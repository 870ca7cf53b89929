import Velaris.Arbiter.Scopes

/-!
# HxArbiter: attributes nobody could resolve

`A` is `A'` with some attributes left unresolved.  A comparison on an unresolved attribute is false,
so resolving more can only turn comparisons from false to true (where the operator is not
`is_absent`), and a condition moves with or against its comparisons according to the number of
`not`s above them.

* `Condition.reads odd c`   the attributes that `c` reads under an odd (even) number of `not`s;
* `matchesCond_toward`   a condition that reads no lost attribute on one side moves one way;
* `allow_survives`   what resolving more can do to an allow.
-/

namespace HxArbiter
open Py

/-! ## partial attribute maps -/

/-- `A` is `A'` with some attributes left unresolved -/
def Attrs.Below (A A' : Attrs) : Prop := ∀ path, A path = none ∨ A path = A' path

/-- the attribute is resolved in `A'` only -/
def Attrs.Lost (A A' : Attrs) (path : String) : Prop := A path ≠ A' path

theorem Attrs.Below.eq_of_some {A A' : Attrs} (h : A.Below A') {path : String} {v : Value}
    (hv : A path = some v) : A' path = some v := by
  rcases h path with hn | he
  · rw [hn] at hv
    cases hv
  · rw [← he, hv]

/-! ## what a condition reads -/

def rightPaths : Value → List String
  | .dict [("attr", .str path)] => [path]
  | _ => []

/-- the attributes a comparison reads; the unary operators ignore the right-hand side -/
def Comparison.paths (cmp : Comparison) : List String :=
  match cmp.op with
  | .isPresent | .isAbsent => [cmp.attr]
  | _ => cmp.attr :: rightPaths cmp.value

namespace Condition

mutual

/-- the attributes read under an odd number of `not`s, or under an even number -/
def reads (odd : Bool) : Condition → List String
  | .allOf cs => readsList odd cs
  | .anyOf cs => readsList odd cs
  | .notOf c => reads (!odd) c
  | .comparison cmp => if odd then [] else cmp.paths

def readsList (odd : Bool) : List Condition → List String
  | [] => []
  | c :: cs => reads odd c ++ readsList odd cs

end

mutual

def noAbsent : Condition → Bool
  | .allOf cs => noAbsentList cs
  | .anyOf cs => noAbsentList cs
  | .notOf c => noAbsent c
  | .comparison cmp => cmp.op ≠ .isAbsent

def noAbsentList : List Condition → Bool
  | [] => true
  | c :: cs => noAbsent c && noAbsentList cs

end

end Condition

namespace Evaluator

variable {ev : Evaluator} {A A' : Attrs}

/-! ## comparisons -/

theorem compareSides_mono (h : A.Below A') (cmp : Comparison) (op : Op)
    (hop : ev.compareSides A cmp op = true) : ev.compareSides A' cmp op = true := by
  have hright : ∀ {v : Value} {w : Value}, rightHand A v = some w → rightHand A' v = some w := by
    intro v w hw
    unfold rightHand at hw ⊢
    split at hw
    · exact h.eq_of_some hw
    · cases hw
    · exact hw
  unfold compareSides at hop ⊢
  cases hl : A cmp.attr with
  | none => simp [hl] at hop
  | some left =>
    cases hr : rightHand A cmp.value with
    | none => simp [hl, hr] at hop
    | some right =>
      rw [h.eq_of_some hl, hright hr]
      rw [hl, hr] at hop
      exact hop

theorem compare_mono (h : A.Below A') (cmp : Comparison) (ho : cmp.op ≠ .isAbsent)
    (hm : ev.compare A cmp = true) : ev.compare A' cmp = true := by
  unfold compare at hm ⊢
  split at hm
  · cases hl : A cmp.attr with
    | none => simp [hl, isPresent] at hm
    | some left =>
      rw [h.eq_of_some hl]
      rw [hl] at hm
      exact hm
  · exact absurd (by assumption) ho
  · exact compareSides_mono h cmp _ hm

theorem compare_congr (cmp : Comparison) (h : ∀ path ∈ cmp.paths, A path = A' path) :
    ev.compare A cmp = ev.compare A' cmp := by
  have hl : A cmp.attr = A' cmp.attr := by
    refine h _ ?_
    unfold Comparison.paths
    split <;> exact List.mem_cons_self
  have hr : (∀ path ∈ rightPaths cmp.value, A path = A' path) →
      rightHand A cmp.value = rightHand A' cmp.value := by
    generalize cmp.value = v
    intro hp
    unfold rightHand
    split
    · exact hp _ (List.mem_singleton_self _)
    · rfl
    · rfl
  unfold compare
  unfold Comparison.paths at h
  split
  · rw [hl]
  · rw [hl]
  · rename_i hp ha
    unfold compareSides
    rw [hl, hr fun path hpath => h path ?_]
    split
    · exact absurd (by assumption) hp
    · exact absurd (by assumption) ha
    · exact List.mem_cons_of_mem _ hpath

/-! ## conditions -/

/-- the truth value does not fall (rise) -/
def Toward : Bool → Bool → Bool → Prop
  | true, x, y => x = true → y = true
  | false, x, y => y = true → x = true

theorem Toward.and {up x y x' y' : Bool} (h : Toward up x y) (h' : Toward up x' y') :
    Toward up (x && x') (y && y') := by
  cases up <;> cases x <;> cases y <;> simp_all [Toward]

theorem Toward.or {up x y x' y' : Bool} (h : Toward up x y) (h' : Toward up x' y') :
    Toward up (x || x') (y || y') := by
  cases up <;> cases x <;> cases y <;> simp_all [Toward]

theorem Toward.not {up x y : Bool} (h : Toward (!up) x y) : Toward up (!x) (!y) := by
  cases up <;> cases x <;> cases y <;> simp_all [Toward]

mutual

/-- resolving more moves a condition up if it reads no lost attribute under an odd number of
`not`s, and down if it reads none under an even number -/
theorem matchesCond_toward (h : A.Below A') (up : Bool) :
    ∀ c : Condition, c.noAbsent = true → (∀ path ∈ c.reads up, ¬ A.Lost A' path) →
      Toward up (ev.matchesCond A c) (ev.matchesCond A' c)
  | .allOf cs, ha, hl => matchesAll_toward h up cs ha hl
  | .anyOf cs, ha, hl => matchesAny_toward h up cs ha hl
  | .notOf c, ha, hl => (matchesCond_toward h (!up) c ha hl).not
  | .comparison cmp, ha, hl => by
    cases up with
    | true => exact compare_mono h cmp (of_decide_eq_true ha)
    | false =>
      have he : ev.compare A cmp = ev.compare A' cmp :=
        compare_congr cmp fun path hp => not_not.mp (hl path hp)
      show ev.compare A' cmp = true → ev.compare A cmp = true
      rw [he]
      exact id

theorem matchesAll_toward (h : A.Below A') (up : Bool) :
    ∀ cs : List Condition, Condition.noAbsentList cs = true →
      (∀ path ∈ Condition.readsList up cs, ¬ A.Lost A' path) →
      Toward up (ev.matchesAll A cs) (ev.matchesAll A' cs)
  | [], _, _ => by cases up <;> exact id
  | c :: cs, ha, hl => by
    obtain ⟨hac, hacs⟩ := Bool.and_eq_true_iff.mp ha
    exact (matchesCond_toward h up c hac fun p hp => hl p (List.mem_append_left _ hp)).and
      (matchesAll_toward h up cs hacs fun p hp => hl p (List.mem_append_right _ hp))

theorem matchesAny_toward (h : A.Below A') (up : Bool) :
    ∀ cs : List Condition, Condition.noAbsentList cs = true →
      (∀ path ∈ Condition.readsList up cs, ¬ A.Lost A' path) →
      Toward up (ev.matchesAny A cs) (ev.matchesAny A' cs)
  | [], _, _ => by cases up <;> exact id
  | c :: cs, ha, hl => by
    obtain ⟨hac, hacs⟩ := Bool.and_eq_true_iff.mp ha
    exact (matchesCond_toward h up c hac fun p hp => hl p (List.mem_append_left _ hp)).or
      (matchesAny_toward h up cs hacs fun p hp => hl p (List.mem_append_right _ hp))

end

/-! ## decisions -/

def NoAbsent (P : List CompiledPolicy) : Prop :=
  ∀ p ∈ P, ∀ r ∈ p.rules, r.condition.noAbsent = true

/-- a deny rule of `P` that the lost attributes silenced: it matches on `A'`, not on `A`, and reads
a lost attribute under an even number of `not`s -/
def Silenced (ev : Evaluator) (P : List CompiledPolicy) (A A' : Attrs) (m : MatchedRule) : Prop :=
  ∃ p ∈ P, ∃ r ∈ p.rules, m = matchedRule p r ∧ r.effect = .deny ∧
    ev.matchesCond A' r.condition = true ∧ ev.matchesCond A r.condition = false ∧
    ∃ path ∈ r.condition.reads false, A.Lost A' path

/-- **Resolving more after an allow.**  Where an allow rule that matched on `A` reads no lost
attribute under an odd number of `not`s, the decision on `A'` is an allow too, or a deny that deny
rules silenced on `A` account for alone. -/
theorem allow_survives (ev : Evaluator) (P : List CompiledPolicy) (A A' : Attrs)
    (ceiling : PolicyMode) (hP : NoAbsent P) (h : A.Below A')
    (hA : (ev.evaluate P A .deny ceiling).effect = .allow)
    (hr : ev.SomeMatch A P fun _ r =>
      r.effect = .allow ∧ ∀ path ∈ r.condition.reads true, ¬ A.Lost A' path) :
    (ev.evaluate P A' .deny ceiling).effect = .allow ∨
      ((ev.evaluate P A' .deny ceiling).effect = .deny ∧
        (ev.evaluate P A' .deny ceiling).matched ≠ [] ∧
        ∀ m ∈ (ev.evaluate P A' .deny ceiling).matched, Silenced ev P A A' m) := by
  obtain ⟨hdeny, -⟩ := (effect_eq_allow_iff .deny).mp hA
  have hmatch : ev.HasMatch A' P := by
    obtain ⟨p, hp, r, hr, hm, -, hl⟩ := hr
    exact ⟨p, hp, r, hr, matchesCond_toward h true r.condition (hP p hp r hr) hl hm, trivial⟩
  by_cases hd : ev.DenyMatches A' P
  · refine Or.inr ⟨?_, ?_, ?_⟩
    · rw [Decision.effect_eq_deny_iff]
      exact fun ha => ((effect_eq_allow_iff .deny).mp ha).1 hd
    · have hhits : ∃ x ∈ ev.hits P A' ceiling, x.denies := exists_hits.mpr hd
      obtain ⟨x, hx, hxd⟩ := hhits
      exact List.ne_nil_of_mem ((mem_evaluate_matched .deny x.rule).mpr
        ⟨x, hx, iff_of_true hxd ⟨x, hx, hxd⟩, rfl⟩)
    · intro m hm
      obtain ⟨x, hx, hxd, rfl⟩ := (mem_evaluate_matched .deny m).mp hm
      have hxd' : x.denies := hxd.mpr (exists_hits.mpr hd)
      obtain ⟨p, hp, r, hr, hm', rfl⟩ := mem_hits.mp hx
      have hnot : ev.matchesCond A r.condition = false := by
        rw [Bool.eq_false_iff]
        exact fun hmA => hdeny ⟨p, hp, r, hr, hmA, hxd'⟩
      refine ⟨p, hp, r, hr, rfl, hxd', hm', hnot, ?_⟩
      by_contra hno
      simp only [not_exists, not_and] at hno
      have hback := @matchesCond_toward ev A A' h false r.condition (hP p hp r hr) hno hm'
      rw [hnot] at hback
      cases hback
  · exact Or.inl ((effect_eq_allow_iff .deny).mpr ⟨hd, Or.inl hmatch⟩)

/-- an allow for everyone, and a deny for what the attribute `"x"` flags -/
def flagged : CompiledPolicy where
  policyId := 1
  version := 1
  mode := .enforce
  rules := [{ ruleId := "a", effect := .allow, condition := .allOf [] },
    { ruleId := "d", effect := .deny, condition := .comparison ⟨"x", .eq, .bool true⟩ }]

/-- a deny on an unresolved attribute does not fire -/
theorem unresolved_opens :
    ¬ ∀ (ev : Evaluator) (P : List CompiledPolicy) (A A' : Attrs) (ceiling : PolicyMode),
        NoAbsent P → A.Below A' → (ev.evaluate P A .deny ceiling).effect = .allow →
        (ev.evaluate P A' .deny ceiling).effect = .allow := by
  intro h
  have h1 := h ⟨id⟩ [flagged] (fun _ => none) (fun _ => some (.bool true)) .enforce
    (by unfold NoAbsent; decide) (fun _ => Or.inl rfl) (by decide)
  exact absurd h1 (by decide)

/-- the same two rules, where the flag resolves to something harmless -/
theorem unresolved_harmless :
    (Evaluator.evaluate ⟨id⟩ [flagged] (fun _ => some (.bool false)) .deny .enforce).effect
      = .allow := by
  refine (allow_survives ⟨id⟩ [flagged] (fun _ => none) (fun _ => some (.bool false)) .enforce
    (by unfold NoAbsent; decide) (fun _ => Or.inl rfl) (by decide) ?_).resolve_right ?_
  · exact ⟨_, List.mem_singleton_self _, _, List.mem_cons_self, rfl, rfl,
      List.forall_mem_nil _⟩
  · intro h
    obtain ⟨hd, -⟩ := h
    exact absurd hd (by decide)

end Evaluator
end HxArbiter
