import Velaris.Arbiter.Schema
import Velaris.Combining.DenyOverrides

/-!
# HxArbiter: the evaluator

`hxarbiter_core/evaluator.py`.  `Evaluator.evaluate` walks the policies and their rules once, with
accumulators; `Evaluator.hits` is the list of the rules that match, each with the mode its policy is
clamped to.

* `tally_eq`   the accumulators after the walk, as functions of `hits`;
* `evaluate_of_deny`, `evaluate_of_allow`, `evaluate_of_silent`   the decision, from `hits`;
* `evaluate_ruling`   the decision is the deny-overrides ruling (`Combining.ruling`) of the votes of
    the matching rules, with the namespace default where none matches.
-/

namespace HxArbiter
open Py

/-- the evaluator; `lower` is `str.lower` of the Python it runs on -/
structure Evaluator where
  lower : String → String

namespace Evaluator

variable (ev : Evaluator)

/-! ## operators -/

/-- `host.strip().rstrip(".").lower()` -/
def normHost (s : String) : List Char :=
  (ev.lower (String.ofList (rstrip (· == '.') (strip s.toList)))).toList

/-- `_domain_matches`: a suffix match on label boundaries -/
def domainMatches : Value → Value → Bool
  | .str host, .str pattern =>
    let h := ev.normHost host
    let p := ev.normHost pattern
    if h.isEmpty || p.isEmpty then false else h == p || ('.' :: p).isSuffixOf h
  | _, _ => false

def asSet : Value → Except Err (Option (List Value))
  | .list xs => (Value.mkSet xs).map some
  | _ => .ok none

def applyEq (left right : Value) : Except Err Bool := do
  match ← asSet left with
  | none => pure (left.eq right)
  | some l =>
    match ← asSet right with
    | none => pure (left.eq right)
    | some r => pure (Value.setEq l r)

def applyIn (left right : Value) : Bool :=
  match right with
  | .list xs => left.elem xs
  | _ => false

def applyContains (left right : Value) : Except Err Bool := do
  match ← asSet left with
  | some l => if right.hashable then pure (right.elem l) else throw .typeError
  | none =>
    match left, right with
    | .str hay, .str needle => pure (substr needle.toList hay.toList)
    | _, _ => pure false

/-- an operator on two sets, false when a side is no set -/
def applySets (f : List Value → List Value → Bool) (left right : Value) : Except Err Bool := do
  let l ← asSet left
  let r ← asSet right
  match l, r with
  | some s, some t => pure (f s t)
  | _, _ => pure false

def applyOrder (f : Ordering → Bool) (left right : Value) : Except Err Bool :=
  match left.cmp right with
  | some o => .ok (f o)
  | none => .error .typeError

def apply (op : Op) (left right : Value) : Except Err Bool :=
  match op with
  | .eq => applyEq left right
  | .ne => (applyEq left right).map (!·)
  | .isIn => .ok (applyIn left right)
  | .notIn => .ok (!applyIn left right)
  | .contains => applyContains left right
  | .notContains => (applyContains left right).map (!·)
  | .intersects => applySets (fun s t => s.any (·.elem t)) left right
  | .isSubsetOf => applySets Value.subset left right
  | .gt => applyOrder (· == .gt) left right
  | .gte => applyOrder (· != .lt) left right
  | .lt => applyOrder (· == .lt) left right
  | .lte => applyOrder (· != .gt) left right
  | .matchesDomain =>
    match right with
    | .list ps => .ok (ps.any (ev.domainMatches left))
    | p => .ok (ev.domainMatches left p)
  | .isPresent | .isAbsent => .ok false

/-! ## conditions -/

def isPresent : Option Value → Bool
  | none | some .none => false
  | some _ => true

/-- what a comparison's right-hand side stands for; `none` is `MISSING` -/
def rightHand (attrs : Attrs) : Value → Option Value
  | .dict [("attr", .str path)] => attrs path
  | .dict [("attr", _)] => none
  | v => some v

/-- an operator on both sides of a comparison; a `TypeError` inside it makes it false -/
def compareSides (attrs : Attrs) (cmp : Comparison) (op : Op) : Bool :=
  match attrs cmp.attr, rightHand attrs cmp.value with
  | some left, some right =>
    match ev.apply op left right with
    | .ok b => b
    | .error .typeError => false
  | _, _ => false

def compare (attrs : Attrs) (cmp : Comparison) : Bool :=
  match cmp.op with
  | .isPresent => isPresent (attrs cmp.attr)
  | .isAbsent => !isPresent (attrs cmp.attr)
  | op => ev.compareSides attrs cmp op

mutual

/-- `_matches` -/
def matchesCond (attrs : Attrs) : Condition → Bool
  | .allOf cs => matchesAll attrs cs
  | .anyOf cs => matchesAny attrs cs
  | .notOf c => !matchesCond attrs c
  | .comparison cmp => ev.compare attrs cmp

def matchesAll (attrs : Attrs) : List Condition → Bool
  | [] => true
  | c :: cs => matchesCond attrs c && matchesAll attrs cs

def matchesAny (attrs : Attrs) : List Condition → Bool
  | [] => false
  | c :: cs => matchesCond attrs c || matchesAny attrs cs

end

/-! ## the walk -/

structure Tally where
  matched : List MatchedRule := []
  obligations : List Obligation := []
  denies : List MatchedRule := []
  allows : List MatchedRule := []
  effectiveMode : PolicyMode := .shadow

def matchedRule (policy : CompiledPolicy) (rule : CompiledRule) : MatchedRule :=
  { policyId := policy.policyId, version := policy.version, ruleId := rule.ruleId,
    effect := rule.effect }

def Tally.add (t : Tally) (mode : PolicyMode) (m : MatchedRule) (obligations : List Obligation) :
    Tally where
  matched := t.matched ++ [m]
  denies := if m.effect = .deny then t.denies ++ [m] else t.denies
  allows := if m.effect = .deny then t.allows else t.allows ++ [m]
  obligations := if m.effect = .deny then t.obligations else t.obligations ++ obligations
  effectiveMode := if t.effectiveMode.rank < mode.rank then mode else t.effectiveMode

def tallyPolicy (attrs : Attrs) (ceiling : PolicyMode) (t : Tally) (policy : CompiledPolicy) :
    Tally :=
  let mode := clamp policy.mode ceiling
  policy.rules.foldl
    (fun t rule =>
      if ev.matchesCond attrs rule.condition then
        t.add mode (matchedRule policy rule) rule.obligations
      else t) t

def tally (policies : List CompiledPolicy) (attrs : Attrs) (ceiling : PolicyMode) : Tally :=
  policies.foldl (ev.tallyPolicy attrs ceiling) {}

/-- one round of `_dedupe`: what was kept, and the keys seen -/
def dedupeStep (acc : List Obligation × List ObligationKey) (o : Obligation) :
    List Obligation × List ObligationKey :=
  if o.key ∈ acc.2 then acc else (acc.1 ++ [o], o.key :: acc.2)

/-- `_dedupe`: the obligations whose key was not seen before -/
def dedupe (obligations : List Obligation) : List Obligation :=
  (obligations.foldl dedupeStep ([], [])).1

def evaluate (policies : List CompiledPolicy) (attrs : Attrs) (namespaceDefault : Effect)
    (namespaceMaxMode : PolicyMode) : Decision :=
  let t := ev.tally policies attrs namespaceMaxMode
  if t.denies ≠ [] then
    { effect := .deny, enforced := t.effectiveMode = .enforce, matched := t.denies }
  else if t.allows ≠ [] then
    { effect := .allow, enforced := t.effectiveMode = .enforce, matched := t.allows,
      obligations := dedupe t.obligations }
  else
    -- nothing matched: the bindingness is the namespace's ceiling, since no policy spoke
    { effect := namespaceDefault, enforced := namespaceMaxMode = .enforce, defaultApplied := true }

/-! ## the rules that match -/

/-- a matching rule, with its policy's clamped mode -/
structure Hit where
  mode : PolicyMode
  rule : MatchedRule
  obligations : List Obligation

def hits (policies : List CompiledPolicy) (attrs : Attrs) (ceiling : PolicyMode) : List Hit :=
  policies.flatMap fun p =>
    (p.rules.filter fun r => ev.matchesCond attrs r.condition).map fun r =>
      ⟨clamp p.mode ceiling, matchedRule p r, r.obligations⟩

variable {ev} {attrs : Attrs} {ceiling : PolicyMode}

theorem mem_hits {P : List CompiledPolicy} {h : Hit} :
    h ∈ ev.hits P attrs ceiling ↔ ∃ p ∈ P, ∃ r ∈ p.rules, ev.matchesCond attrs r.condition = true ∧
      h = ⟨clamp p.mode ceiling, matchedRule p r, r.obligations⟩ := by
  simp only [hits, List.mem_flatMap, List.mem_map, List.mem_filter]
  constructor
  · intro hx
    obtain ⟨p, hp, r, ⟨hr, hm⟩, rfl⟩ := hx
    exact ⟨p, hp, r, hr, hm, rfl⟩
  · intro hx
    obtain ⟨p, hp, r, hr, hm, rfl⟩ := hx
    exact ⟨p, hp, r, ⟨hr, hm⟩, rfl⟩

theorem hits_append (P Q : List CompiledPolicy) :
    ev.hits (P ++ Q) attrs ceiling = ev.hits P attrs ceiling ++ ev.hits Q attrs ceiling :=
  List.flatMap_append

theorem tallyPolicy_eq (t : Tally) (p : CompiledPolicy) :
    ev.tallyPolicy attrs ceiling t p =
      (ev.hits [p] attrs ceiling).foldl (fun t h => t.add h.mode h.rule h.obligations) t := by
  rw [tallyPolicy, hits, List.flatMap_singleton, List.foldl_map, List.foldl_filter]

theorem tally_eq_foldl (P : List CompiledPolicy) (t : Tally) :
    P.foldl (ev.tallyPolicy attrs ceiling) t =
      (ev.hits P attrs ceiling).foldl (fun t h => t.add h.mode h.rule h.obligations) t := by
  induction P generalizing t with
  | nil => rfl
  | cons p P ih =>
    rw [List.foldl_cons, ih, tallyPolicy_eq, ← List.foldl_append, ← hits_append]
    rfl

/-! ## the accumulators -/

def Hit.denies (h : Hit) : Prop := h.rule.effect = .deny

instance (h : Hit) : Decidable h.denies := inferInstanceAs (Decidable (_ = _))

section
variable (hs : List Hit) (t : Tally)

def addAll : Tally := hs.foldl (fun t h => t.add h.mode h.rule h.obligations) t

theorem addAll_collect {β : Type} (field : Tally → List β) (p : Hit → Bool) (g : Hit → List β)
    (hadd : ∀ t h, field (t.add h.mode h.rule h.obligations) =
      if p h then field t ++ g h else field t) :
    field (addAll hs t) = field t ++ (hs.filter p).flatMap g := by
  induction hs generalizing t with
  | nil => exact (List.append_nil _).symm
  | cons h hs ih =>
    have hstep : addAll (h :: hs) t = addAll hs (t.add h.mode h.rule h.obligations) := rfl
    rw [hstep, ih, hadd, List.filter_cons]
    by_cases hp : p h = true
    · rw [if_pos hp, if_pos hp, List.flatMap_cons, List.append_assoc]
    · rw [if_neg hp, if_neg hp]

theorem addAll_denies :
    (addAll hs t).denies = t.denies ++ (hs.filter (·.denies)).map (·.rule) := by
  rw [List.map_eq_flatMap]
  apply addAll_collect hs t Tally.denies
  intro t h
  by_cases hd : h.rule.effect = .deny <;> simp [Tally.add, Hit.denies, hd]

theorem addAll_allows :
    (addAll hs t).allows = t.allows ++ (hs.filter (¬ ·.denies)).map (·.rule) := by
  rw [List.map_eq_flatMap]
  apply addAll_collect hs t Tally.allows
  intro t h
  by_cases hd : h.rule.effect = .deny <;> simp [Tally.add, Hit.denies, hd]

theorem addAll_obligations :
    (addAll hs t).obligations =
      t.obligations ++ (hs.filter (¬ ·.denies)).flatMap (·.obligations) := by
  apply addAll_collect hs t Tally.obligations
  intro t h
  by_cases hd : h.rule.effect = .deny <;> simp [Tally.add, Hit.denies, hd]

theorem add_mode_eq_enforce (mode : PolicyMode) (m : MatchedRule) (os : List Obligation) :
    (t.add mode m os).effectiveMode = .enforce ↔ t.effectiveMode = .enforce ∨ mode = .enforce := by
  show (if t.effectiveMode.rank < mode.rank then mode else t.effectiveMode) = .enforce ↔ _
  generalize t.effectiveMode = e
  cases e <;> cases mode <;> decide

theorem addAll_mode_eq_enforce :
    (addAll hs t).effectiveMode = .enforce ↔
      t.effectiveMode = .enforce ∨ ∃ h ∈ hs, h.mode = .enforce := by
  induction hs generalizing t with
  | nil => simp [addAll]
  | cons h hs ih =>
    show (addAll hs (t.add h.mode h.rule h.obligations)).effectiveMode = _ ↔ _
    rw [ih, add_mode_eq_enforce, or_assoc]
    simp

end

theorem tally_eq (P : List CompiledPolicy) :
    ev.tally P attrs ceiling = addAll (ev.hits P attrs ceiling) {} := tally_eq_foldl P {}

theorem dedupe_foldl (os : List Obligation) (acc : List Obligation × List ObligationKey)
    (hacc : ∀ k, k ∈ acc.2 ↔ k ∈ acc.1.map Obligation.key) (k : ObligationKey) :
    k ∈ (os.foldl dedupeStep acc).1.map Obligation.key ↔
      k ∈ acc.1.map Obligation.key ∨ k ∈ os.map Obligation.key := by
  induction os generalizing acc with
  | nil => simp
  | cons o os ih =>
    rw [List.foldl_cons, List.map_cons, List.mem_cons, dedupeStep]
    by_cases ho : o.key ∈ acc.2
    · rw [if_pos ho, ih acc hacc]
      have hk : k = o.key → k ∈ acc.1.map Obligation.key := fun e => e ▸ (hacc _).mp ho
      tauto
    · rw [if_neg ho, ih]
      · rw [List.map_append, List.mem_append, List.map_singleton, List.mem_singleton, or_assoc]
      · intro k'
        rw [List.mem_cons, hacc, List.map_append, List.mem_append, List.map_singleton,
          List.mem_singleton, or_comm]

theorem mem_dedupe_keys (os : List Obligation) (k : ObligationKey) :
    k ∈ (dedupe os).map Obligation.key ↔ k ∈ os.map Obligation.key := by
  rw [dedupe, dedupe_foldl os ([], []) (fun _ => by simp)]
  simp

/-! ## the decision -/

section
variable (P : List CompiledPolicy) (dflt : Effect)

theorem tally_denies_ne_nil :
    (ev.tally P attrs ceiling).denies ≠ [] ↔ ∃ h ∈ ev.hits P attrs ceiling, h.denies := by
  rw [tally_eq, addAll_denies]
  simp [List.filter_eq_nil_iff]

theorem tally_allows_ne_nil :
    (ev.tally P attrs ceiling).allows ≠ [] ↔ ∃ h ∈ ev.hits P attrs ceiling, ¬ h.denies := by
  rw [tally_eq, addAll_allows]
  simp [List.filter_eq_nil_iff]

theorem tally_enforce :
    (ev.tally P attrs ceiling).effectiveMode = .enforce ↔
      ∃ h ∈ ev.hits P attrs ceiling, h.mode = .enforce := by
  rw [tally_eq, addAll_mode_eq_enforce]
  simp

theorem evaluate_of_deny (h : ∃ h ∈ ev.hits P attrs ceiling, h.denies) :
    ev.evaluate P attrs dflt ceiling =
      { effect := .deny
        enforced := decide (∃ h ∈ ev.hits P attrs ceiling, h.mode = .enforce)
        matched := ((ev.hits P attrs ceiling).filter (·.denies)).map (·.rule) } := by
  rw [evaluate, if_pos ((tally_denies_ne_nil P).mpr h)]
  congr 1
  · exact decide_eq_decide.mpr (tally_enforce P)
  · rw [tally_eq, addAll_denies]
    rfl

theorem evaluate_of_allow (h : ∃ h ∈ ev.hits P attrs ceiling, ¬ h.denies)
    (hd : ¬ ∃ h ∈ ev.hits P attrs ceiling, h.denies) :
    ev.evaluate P attrs dflt ceiling =
      { effect := .allow
        enforced := decide (∃ h ∈ ev.hits P attrs ceiling, h.mode = .enforce)
        matched := ((ev.hits P attrs ceiling).filter (¬ ·.denies)).map (·.rule)
        obligations :=
          dedupe (((ev.hits P attrs ceiling).filter (¬ ·.denies)).flatMap (·.obligations)) } := by
  rw [evaluate, if_neg ((tally_denies_ne_nil P).not.mpr hd),
    if_pos ((tally_allows_ne_nil P).mpr h)]
  congr 1
  · exact decide_eq_decide.mpr (tally_enforce P)
  · rw [tally_eq, addAll_allows]
    rfl
  · rw [tally_eq, addAll_obligations]
    rfl

theorem evaluate_of_silent (h : ev.hits P attrs ceiling = []) :
    ev.evaluate P attrs dflt ceiling =
      { effect := dflt, enforced := decide (ceiling = .enforce), defaultApplied := true } := by
  have hd : ¬ ∃ h ∈ ev.hits P attrs ceiling, h.denies := by simp [h]
  have ha : ¬ ∃ h ∈ ev.hits P attrs ceiling, ¬ h.denies := by simp [h]
  rw [evaluate, if_neg ((tally_denies_ne_nil P).not.mpr hd),
    if_neg ((tally_allows_ne_nil P).not.mpr ha)]

theorem hits_cases (hs : List Hit) :
    (∃ h ∈ hs, h.denies) ∨ ((∃ h ∈ hs, ¬ h.denies) ∧ ¬ ∃ h ∈ hs, h.denies) ∨ hs = [] := by
  by_cases hd : ∃ h ∈ hs, h.denies
  · exact Or.inl hd
  · cases hs with
    | nil => exact Or.inr (Or.inr rfl)
    | cons h hs => exact Or.inr (Or.inl ⟨⟨h, by simp, fun h' => hd ⟨h, by simp, h'⟩⟩, hd⟩)

end

/-! ## the decision as a ruling -/

def Hit.vote (h : Hit) : Combining.Vote ObligationKey where
  forbids := h.denies
  binds := h.mode = .enforce
  duties := {k | k ∈ h.obligations.map Obligation.key}

def votes (ev : Evaluator) (P : List CompiledPolicy) (attrs : Attrs) (ceiling : PolicyMode) :
    Set (Combining.Vote ObligationKey) :=
  {v | ∃ h ∈ ev.hits P attrs ceiling, h.vote = v}

def silent (dflt : Effect) (ceiling : PolicyMode) : Combining.Ruling ObligationKey where
  permits := dflt = .allow
  binds := ceiling = .enforce
  duties := ∅

end Evaluator

def Decision.ruling (d : Decision) : Combining.Ruling ObligationKey where
  permits := d.effect = .allow
  binds := d.enforced = true
  duties := {k | k ∈ d.obligations.map Obligation.key}

namespace Evaluator

variable {ev : Evaluator} {attrs : Attrs} {ceiling : PolicyMode} {P : List CompiledPolicy}

theorem forbids_votes :
    Combining.Forbids (ev.votes P attrs ceiling) ↔ ∃ h ∈ ev.hits P attrs ceiling, h.denies := by
  constructor
  · intro hx
    obtain ⟨v, ⟨h, hh, rfl⟩, hf⟩ := hx
    exact ⟨h, hh, hf⟩
  · intro hx
    obtain ⟨h, hh, hf⟩ := hx
    exact ⟨h.vote, ⟨h, hh, rfl⟩, hf⟩

theorem binds_votes :
    Combining.Binds (ev.votes P attrs ceiling) ↔
      ∃ h ∈ ev.hits P attrs ceiling, h.mode = .enforce := by
  constructor
  · intro hx
    obtain ⟨v, ⟨h, hh, rfl⟩, hb⟩ := hx
    exact ⟨h, hh, hb⟩
  · intro hx
    obtain ⟨h, hh, hb⟩ := hx
    exact ⟨h.vote, ⟨h, hh, rfl⟩, hb⟩

theorem votes_nonempty :
    (ev.votes P attrs ceiling).Nonempty ↔ ev.hits P attrs ceiling ≠ [] := by
  constructor
  · intro hx
    obtain ⟨v, h, hh, -⟩ := hx
    exact List.ne_nil_of_mem hh
  · intro hne
    obtain ⟨h, hh⟩ := List.exists_mem_of_ne_nil _ hne
    exact ⟨h.vote, h, hh, rfl⟩

theorem mem_duties_votes (k : ObligationKey) :
    k ∈ Combining.duties (ev.votes P attrs ceiling) ↔
      ∃ h ∈ ev.hits P attrs ceiling, ¬ h.denies ∧ k ∈ h.obligations.map Obligation.key := by
  constructor
  · intro hx
    obtain ⟨v, ⟨h, hh, rfl⟩, hf, hk⟩ := hx
    exact ⟨h, hh, hf, hk⟩
  · intro hx
    obtain ⟨h, hh, hf, hk⟩ := hx
    exact ⟨h.vote, ⟨h, hh, rfl⟩, hf, hk⟩

/-- **The evaluator computes the deny-overrides ruling** of the rules that match. -/
theorem evaluate_ruling (dflt : Effect) :
    (ev.evaluate P attrs dflt ceiling).ruling =
      Combining.ruling (silent dflt ceiling) (ev.votes P attrs ceiling) := by
  rcases hits_cases (ev.hits P attrs ceiling) with hd | ⟨ha, hd⟩ | hnil
  · have hne := votes_nonempty.mpr (List.ne_nil_of_mem hd.choose_spec.1)
    rw [evaluate_of_deny P dflt hd]
    ext k
    · rw [Combining.ruling_permits hne, forbids_votes]
      simp [Decision.ruling, hd]
    · rw [Combining.ruling_binds hne, binds_votes]
      simp [Decision.ruling]
    · rw [Combining.ruling_duties_of_forbids hne (forbids_votes.mpr hd)]
      simp [Decision.ruling]
  · have hne := votes_nonempty.mpr (List.ne_nil_of_mem ha.choose_spec.1)
    rw [evaluate_of_allow P dflt ha hd]
    ext k
    · rw [Combining.ruling_permits hne, forbids_votes]
      simp only [Decision.ruling, true_iff]
      exact hd
    · rw [Combining.ruling_binds hne, binds_votes]
      simp [Decision.ruling]
    · rw [Combining.ruling_duties_of_permits hne (forbids_votes.not.mpr hd), mem_duties_votes]
      show k ∈ (dedupe _).map Obligation.key ↔ _
      rw [mem_dedupe_keys]
      simp only [List.mem_map, List.mem_flatMap, List.mem_filter, decide_eq_true_eq]
      constructor
      · intro hx
        obtain ⟨o, ⟨h, ⟨hh, hf⟩, ho⟩, rfl⟩ := hx
        exact ⟨h, hh, hf, o, ho, rfl⟩
      · intro hx
        obtain ⟨h, hh, hf, o, ho, rfl⟩ := hx
        exact ⟨o, ⟨h, ⟨hh, hf⟩, ho⟩, rfl⟩
  · have he : ev.votes P attrs ceiling = ∅ :=
      Set.not_nonempty_iff_eq_empty.mp (votes_nonempty.not.mpr (not_not.mpr hnil))
    rw [evaluate_of_silent P dflt hnil, he, Combining.ruling_empty]
    ext k <;> simp [Decision.ruling, silent]

end Evaluator
end HxArbiter
