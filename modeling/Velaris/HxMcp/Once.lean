import Velaris.Base.Run
import Velaris.HxMcp.Idempotency

/-!
# A write is applied at most once per key

* `Sound`   what is to hold of the keys and the writes at every moment;
* `Allowed`   the steps after which it still holds;
* `Free`, `Held`, `Done`   the three states of a key, with the calls and writes that go with each;
* `Inv.other`   what a call does to the other keys;
* `inv_step`   one step;
* `once_run`   a run.
-/

set_option linter.unusedSectionVars false

namespace HxMcp

open Py Base

variable {J δ : Type} [DecidableEq J] [DecidableEq δ] {requestHash : String × J → δ}
  {s t : State J δ} {k : Key} {c : Call J}

/-! ## the promise -/

def Phase.inFlight : Phase J → Option (Call J)
  | .called c | .refused c | .executing c | .committed c _ | .completing c _ | .failing c => some c
  | .idle | .answered _ _ => none

def Phase.holds : Phase J → Option (Call J)
  | .executing c | .committed c _ | .completing c _ | .failing c => some c
  | .idle | .called _ | .refused _ | .answered _ _ => none

def State.appliedTo (s : State J δ) (k : Key) : List (Applied J) := s.applied.filter (·.key = k)

def Applied.row (requestHash : String × J → δ) (a : Applied J) : Row δ where
  toolName := a.request.1
  requestHash := requestHash a.request
  done := true
  response := some a.result

structure Sound (requestHash : String × J → δ) (s : State J δ) : Prop where
  once : ∀ k, (s.appliedTo k).length ≤ 1
  same : ∀ i c, (s.calls i).holds = some c → ∀ a ∈ s.appliedTo c.key, a.request = c.request
  replay : ∀ i c payload isError, s.calls i = .answered c (.replay payload isError) →
    isError = false ∧ ∃ a ∈ s.appliedTo c.key, a.request = c.request ∧ a.result = payload
  settled : ∀ k, (∀ i c, (s.calls i).inFlight = some c → c.key ≠ k) →
    s.rows k = none ∧ s.appliedTo k = [] ∨
      ∃ a, s.appliedTo k = [a] ∧ s.rows k = some (a.row requestHash)

/-! ## the steps that keep it -/

def MayFail : Phase J → Prop
  | .committed _ _ => False
  | .idle | .called _ | .refused _ | .executing _ | .completing _ _ | .failing _
  | .answered _ _ => True

def MayDie (phase : Phase J) : Prop := phase.holds = none

def Allowed (s : State J δ) : Act J → Prop
  | .fail i => MayFail (s.calls i)
  | .die i => MayDie (s.calls i)
  | .call _ _ _ _ _ | .claim _ | .lookUp _ | .commit _ _ | .returns _ | .complete _
  | .release _ => True

instance : ∀ phase : Phase J, Decidable (MayFail phase)
  | .committed _ _ => isFalse id
  | .idle | .called _ | .refused _ | .executing _ | .completing _ _ | .failing _
  | .answered _ _ => isTrue trivial

instance (s : State J δ) : ∀ a, Decidable (Allowed s a)
  | .fail i => inferInstanceAs (Decidable (MayFail (s.calls i)))
  | .die i => inferInstanceAs (Decidable ((s.calls i).holds = none))
  | .call _ _ _ _ _ | .claim _ | .lookUp _ | .commit _ _ | .returns _ | .complete _
  | .release _ => isTrue trivial

/-! ## the states of a key -/

def Phase.writes : Phase J → List (Applied J)
  | .committed c result | .completing c result => [⟨c.key, c.request, result⟩]
  | .idle | .called _ | .refused _ | .executing _ | .failing _ | .answered _ _ => []

def Unheld (s : State J δ) (k : Key) : Prop :=
  ∀ i c, (s.calls i).holds = some c → c.key ≠ k

def Free (s : State J δ) (k : Key) : Prop :=
  s.rows k = none ∧ s.appliedTo k = [] ∧ Unheld s k

def Held (requestHash : String × J → δ) (s : State J δ) (k : Key) (i : Nat) (c : Call J) : Prop :=
  ((s.calls i).holds = some c ∧ c.key = k ∧ s.rows k = some (c.pending requestHash) ∧
    s.appliedTo k = (s.calls i).writes) ∧
      ∀ j c', (s.calls j).holds = some c' → c'.key = k → j = i

def Done (requestHash : String × J → δ) (s : State J δ) (k : Key) (a : Applied J) : Prop :=
  s.rows k = some (a.row requestHash) ∧ s.appliedTo k = [a] ∧ Unheld s k

def KeyOk (requestHash : String × J → δ) (s : State J δ) (k : Key) : Prop :=
  Free s k ∨ (∃ i c, Held requestHash s k i c) ∨ ∃ a, Done requestHash s k a

def AnswerOk (s : State J δ) : Phase J → Prop
  | .answered c (.replay payload isError) =>
    isError = false ∧ ∃ a ∈ s.appliedTo c.key, a.request = c.request ∧ a.result = payload
  | .answered _ (.result _) | .answered _ (.invalid _) | .answered _ .failed
  | .idle | .called _ | .refused _ | .executing _ | .committed _ _ | .completing _ _
  | .failing _ => True

structure Inv (requestHash : String × J → δ) (s : State J δ) : Prop where
  keys : ∀ k, KeyOk requestHash s k
  answers : ∀ i, AnswerOk s (s.calls i)

theorem writes_of_holds {phase : Phase J} (h : phase.holds = some c) :
    phase.writes.length ≤ 1 ∧ ∀ a ∈ phase.writes, a.request = c.request := by
  cases phase with
  | executing c' | failing c' =>
    refine ⟨Nat.zero_le _, ?_⟩
    intro a ha
    cases ha
  | committed c' result | completing c' result =>
    cases h
    refine ⟨le_refl _, ?_⟩
    intro a ha
    rw [List.mem_singleton.mp ha]
  | idle | called c' | refused c' | answered c' answer => cases h

theorem inFlight_of_holds {phase : Phase J} (h : phase.holds = some c) :
    phase.inFlight = some c := by
  cases phase <;> first | exact h | cases h

theorem Inv.sound (h : Inv requestHash s) : Sound requestHash s := by
  refine ⟨?_, ?_, ?_, ?_⟩
  · intro k
    rcases h.keys k with ⟨-, happlied, -⟩ | ⟨i, c, ⟨hholds, -, -, happlied⟩, -⟩ |
      ⟨a, -, happlied, -⟩
    · rw [happlied]
      exact Nat.zero_le _
    · rw [happlied]
      exact (writes_of_holds hholds).1
    · rw [happlied]
      exact le_refl _
  · intro i c hholds a ha
    rcases h.keys c.key with ⟨-, -, hunheld⟩ | ⟨j, c', ⟨hholds', -, -, happlied⟩, hone⟩ |
      ⟨b, -, -, hunheld⟩
    · exact absurd rfl (hunheld i c hholds)
    · have hij := hone i c hholds rfl
      rw [hij, hholds'] at hholds
      rw [happlied] at ha
      rw [← Option.some.inj hholds]
      exact (writes_of_holds hholds').2 a ha
    · exact absurd rfl (hunheld i c hholds)
  · intro i c payload isError hanswered
    have hok := h.answers i
    rw [hanswered] at hok
    exact hok
  · intro k hquiet
    rcases h.keys k with ⟨hrow, happlied, -⟩ | ⟨i, c, ⟨hholds, hkey, -, -⟩, -⟩ |
      ⟨a, hrow, happlied, -⟩
    · exact Or.inl ⟨hrow, happlied⟩
    · exact absurd hkey (hquiet i c (inFlight_of_holds hholds))
    · exact Or.inr ⟨a, happlied, hrow⟩

/-! ## what a call does to the keys -/

/-- the step of a call that has nothing to do with the key -/
structure Apart (s t : State J δ) (i : Nat) (k : Key) : Prop where
  calls : ∀ j, j ≠ i → t.calls j = s.calls j
  before : ∀ c, (s.calls i).holds = some c → c.key ≠ k
  after : ∀ c, (t.calls i).holds = some c → c.key ≠ k
  rows : t.rows k = s.rows k
  applied : t.appliedTo k = s.appliedTo k

theorem Apart.unheld {i : Nat} (h : Apart s t i k) (hunheld : Unheld s k) : Unheld t k := by
  intro j c hholds
  by_cases hj : j = i
  · rw [hj] at hholds
    exact h.after c hholds
  · rw [h.calls j hj] at hholds
    exact hunheld j c hholds

theorem KeyOk.apart {i : Nat} (hok : KeyOk requestHash s k) (h : Apart s t i k) :
    KeyOk requestHash t k := by
  rcases hok with ⟨hrow, happlied, hunheld⟩ | ⟨j, c, ⟨hholds, hkey, hrow, happlied⟩, hone⟩ |
    ⟨a, hrow, happlied, hunheld⟩
  · exact Or.inl ⟨h.rows.trans hrow, h.applied.trans happlied, h.unheld hunheld⟩
  · have hj : j ≠ i := by
      intro hji
      rw [hji] at hholds
      exact h.before c hholds hkey
    refine Or.inr (Or.inl ⟨j, c, ⟨?_, hkey, h.rows.trans hrow, ?_⟩, ?_⟩)
    · rw [h.calls j hj]
      exact hholds
    · rw [h.applied, h.calls j hj]
      exact happlied
    · intro j' c' hholds' hkey'
      by_cases hj' : j' = i
      · rw [hj'] at hholds'
        exact absurd hkey' (h.after c' hholds')
      · rw [h.calls j' hj'] at hholds'
        exact hone j' c' hholds' hkey'
  · exact Or.inr (Or.inr ⟨a, h.rows.trans hrow, h.applied.trans happlied, h.unheld hunheld⟩)

theorem Inv.held (h : Inv requestHash s) {i : Nat} (hholds : (s.calls i).holds = some c) :
    Held requestHash s c.key i c := by
  rcases h.keys c.key with ⟨-, -, hunheld⟩ | ⟨j, c', hheld⟩ | ⟨a, -, -, hunheld⟩
  · exact absurd rfl (hunheld i c hholds)
  · have hij : i = j := hheld.2 i c hholds rfl
    have hcc : c' = c := by
      have hholds' := hheld.1.1
      rw [← hij, hholds] at hholds'
      exact (Option.some.inj hholds').symm
    rw [hcc, ← hij] at hheld
    exact hheld
  · exact absurd rfl (hunheld i c hholds)

theorem Held.next {i : Nat} {phase : Phase J} (h : Held requestHash s k i c)
    (hcalls : t.calls = Function.update s.calls i phase) (hholds : phase.holds = some c)
    (hrows : t.rows k = s.rows k) (happlied : t.appliedTo k = phase.writes) :
    Held requestHash t k i c := by
  refine ⟨⟨?_, h.1.2.1, hrows.trans h.1.2.2.1, ?_⟩, ?_⟩
  · rw [hcalls, Function.update_self]
    exact hholds
  · rw [hcalls, Function.update_self]
    exact happlied
  · intro j c' hholds' hkey
    by_contra hj
    rw [hcalls, Function.update_of_ne hj] at hholds'
    exact hj (h.2 j c' hholds' hkey)

theorem Held.unheld {i : Nat} {phase : Phase J} (h : Held requestHash s k i c)
    (hcalls : t.calls = Function.update s.calls i phase) (hholds : phase.holds = none) :
    Unheld t k := by
  intro j c' hholds' hkey
  by_cases hj : j = i
  · rw [hcalls, hj, Function.update_self, hholds] at hholds'
    cases hholds'
  · rw [hcalls, Function.update_of_ne hj] at hholds'
    exact hj (h.2 j c' hholds' hkey)

theorem AnswerOk.mono {phase : Phase J} (h : AnswerOk s phase)
    (hgrow : ∀ k, ∀ a ∈ s.appliedTo k, a ∈ t.appliedTo k) : AnswerOk t phase := by
  cases phase with
  | answered c answer =>
    cases answer with
    | replay payload isError =>
      obtain ⟨herror, a, ha, hsame⟩ := h
      exact ⟨herror, a, hgrow c.key a ha, hsame⟩
    | result payload | invalid message | failed => trivial
  | idle | called c | refused c | executing c | committed c result | completing c result
  | failing c => trivial

theorem Inv.move (h : Inv requestHash s) {i : Nat} {phase : Phase J}
    (hcalls : t.calls = Function.update s.calls i phase)
    (hkeys : ∀ k, KeyOk requestHash t k)
    (hgrow : ∀ k, ∀ a ∈ s.appliedTo k, a ∈ t.appliedTo k) (hanswer : AnswerOk t phase) :
    Inv requestHash t := by
  refine ⟨hkeys, ?_⟩
  intro j
  rw [hcalls]
  by_cases hj : j = i
  · rw [hj, Function.update_self]
    exact hanswer
  · rw [Function.update_of_ne hj]
    exact (h.answers j).mono hgrow

theorem Inv.goto_unheld (h : Inv requestHash s) {i : Nat} {phase : Phase J}
    (hbefore : (s.calls i).holds = none) (hafter : phase.holds = none)
    (hanswer : AnswerOk s phase) : Inv requestHash (s.goto i phase) := by
  refine h.move (t := s.goto i phase) rfl ?_ (fun _ _ ha => ha) hanswer
  intro k
  refine (h.keys k).apart ⟨fun j hj => Function.update_of_ne hj _ _, ?_, ?_, rfl, rfl⟩
  · intro c hholds
    rw [hbefore] at hholds
    cases hholds
  · intro c hholds
    change (Function.update s.calls i phase i).holds = some c at hholds
    rw [Function.update_self, hafter] at hholds
    cases hholds

/-! ## one step -/

theorem appliedTo_append (s : State J δ) (a : Applied J) (k : Key) :
    State.appliedTo { s with applied := s.applied ++ [a] } k =
      if a.key = k then s.appliedTo k ++ [a] else s.appliedTo k := by
  show (s.applied ++ [a]).filter (·.key = k) = _
  rw [List.filter_append, List.filter_singleton]
  by_cases h : a.key = k
  · rw [if_pos h]
    simp [h, State.appliedTo]
  · rw [if_neg h]
    simp [h, State.appliedTo]

theorem apart_of_holds {i : Nat} {phase : Phase J} (hholds : (s.calls i).holds = some c)
    (hcalls : t.calls = Function.update s.calls i phase)
    (hafter : ∀ c', phase.holds = some c' → c' = c) (hk : c.key ≠ k)
    (hrows : t.rows k = s.rows k) (happlied : t.appliedTo k = s.appliedTo k) :
    Apart s t i k := by
  refine ⟨?_, ?_, ?_, hrows, happlied⟩
  · intro j hj
    rw [hcalls, Function.update_of_ne hj]
  · intro c' hholds'
    rw [hholds] at hholds'
    rw [← Option.some.inj hholds']
    exact hk
  · intro c' hholds'
    rw [hcalls, Function.update_self] at hholds'
    rw [hafter c' hholds']
    exact hk

theorem Inv.move_held (h : Inv requestHash s) {i : Nat} {phase : Phase J}
    (hholds : (s.calls i).holds = some c)
    (hcalls : t.calls = Function.update s.calls i phase)
    (hafter : ∀ c', phase.holds = some c' → c' = c)
    (hothers : ∀ k, c.key ≠ k → t.rows k = s.rows k ∧ t.appliedTo k = s.appliedTo k)
    (hown : KeyOk requestHash t c.key)
    (hgrow : ∀ a ∈ s.appliedTo c.key, a ∈ t.appliedTo c.key) (hanswer : AnswerOk t phase) :
    Inv requestHash t := by
  refine h.move hcalls ?_ ?_ hanswer
  · intro k
    by_cases hk : c.key = k
    · rw [← hk]
      exact hown
    · obtain ⟨hrows, happlied⟩ := hothers k hk
      exact (h.keys k).apart (apart_of_holds hholds hcalls hafter hk hrows happlied)
  · intro k a ha
    by_cases hk : c.key = k
    · rw [← hk] at ha ⊢
      exact hgrow a ha
    · rw [(hothers k hk).2]
      exact ha

theorem Inv.goto_held (h : Inv requestHash s) {i : Nat} {phase : Phase J}
    (hholds : (s.calls i).holds = some c) (hafter : phase.holds = some c)
    (hwrites : phase.writes = (s.calls i).writes) (hanswer : AnswerOk s phase) :
    Inv requestHash (s.goto i phase) := by
  have hheld := h.held hholds
  refine h.move_held (t := s.goto i phase) hholds rfl ?_ (fun _ _ => ⟨rfl, rfl⟩) ?_
    (fun _ ha => ha) hanswer
  · intro c' hc'
    rw [hafter] at hc'
    exact (Option.some.inj hc').symm
  · refine Or.inr (Or.inl ⟨i, c, hheld.next rfl hafter rfl ?_⟩)
    rw [hwrites]
    exact hheld.1.2.2.2

theorem Inv.claim (h : Inv requestHash s) (i : Nat) :
    Inv requestHash (step requestHash s (.claim i)) := by
  rw [step]
  split
  · rename_i c hi
    have hbefore : (s.calls i).holds = none := by
      rw [hi]
      rfl
    rw [HxMcp.claim]
    split
    · rename_i hrow
      -- nobody has the key
      have hfree : Free s c.key := by
        rcases h.keys c.key with hfree | ⟨j, c', ⟨-, -, hrow', -⟩, -⟩ | ⟨a, hrow', -, -⟩
        · exact hfree
        · rw [hrow] at hrow'
          cases hrow'
        · rw [hrow] at hrow'
          cases hrow'
      refine h.move (t := (s.setRow c.key (some (c.pending requestHash))).goto i (.executing c))
        rfl ?_ (fun _ _ ha => ha) trivial
      intro k
      by_cases hk : c.key = k
      · rw [← hk]
        refine Or.inr (Or.inl ⟨i, c, ⟨?_, rfl, Function.update_self _ _ _, ?_⟩, ?_⟩)
        · show (Function.update s.calls i (Phase.executing c) i).holds = some c
          rw [Function.update_self]
          rfl
        · show s.appliedTo c.key = (Function.update s.calls i (Phase.executing c) i).writes
          rw [Function.update_self]
          exact hfree.2.1
        · intro j c' hholds hkey
          by_contra hj
          change (Function.update s.calls i (Phase.executing c) j).holds = some c' at hholds
          rw [Function.update_of_ne hj] at hholds
          exact hfree.2.2 j c' hholds hkey
      · refine (h.keys k).apart ⟨fun j hj => Function.update_of_ne hj _ _, ?_, ?_,
          Function.update_of_ne (fun hkk => hk hkk.symm) _ _, rfl⟩
        · intro c' hholds
          rw [hbefore] at hholds
          cases hholds
        · intro c' hholds
          change (Function.update s.calls i (Phase.executing c) i).holds = some c' at hholds
          rw [Function.update_self] at hholds
          rw [← Option.some.inj hholds]
          exact hk
    · exact h.goto_unheld hbefore rfl trivial
  · exact h

theorem Inv.lookUp (hinj : Function.Injective requestHash) (h : Inv requestHash s) (i : Nat) :
    Inv requestHash (step requestHash s (.lookUp i)) := by
  rw [step]
  split
  · rename_i c hi
    refine h.goto_unheld (by rw [hi]; rfl) rfl ?_
    rw [HxMcp.lookUp]
    split
    · trivial
    · rename_i existing hrow
      split
      · trivial
      · rename_i hhash
        split
        · trivial
        · rename_i hdone
          rw [not_not] at hhash
          rcases h.keys c.key with ⟨hrow', -, -⟩ | ⟨j, c', ⟨-, -, hrow', -⟩, -⟩ |
            ⟨a, hrow', happlied, -⟩
          · rw [hrow] at hrow'
            cases hrow'
          · rw [hrow] at hrow'
            rw [Option.some.inj hrow'] at hdone
            exact absurd rfl hdone
          · rw [hrow] at hrow'
            rw [Option.some.inj hrow'] at hhash ⊢
            refine ⟨rfl, a, ?_, hinj hhash, rfl⟩
            rw [happlied]
            exact List.mem_singleton_self a
  · exact h

theorem Inv.commit (h : Inv requestHash s) (i : Nat) (result : Dict) :
    Inv requestHash (step requestHash s (.commit i result)) := by
  rw [step]
  split
  · rename_i c hi
    have hholds : (s.calls i).holds = some c := by
      rw [hi]
      rfl
    have hheld := h.held hholds
    have hnone : s.appliedTo c.key = [] := by
      rw [hheld.1.2.2.2, hi]
      rfl
    refine h.move_held (t := State.goto _ i (.committed c result)) hholds rfl ?_ ?_ ?_ ?_ trivial
    · intro c' hc'
      exact (Option.some.inj hc').symm
    · intro k hk
      refine ⟨rfl, ?_⟩
      show State.appliedTo { s with applied := s.applied ++ [_] } k = _
      rw [appliedTo_append, if_neg hk]
    · refine Or.inr (Or.inl ⟨i, c, hheld.next rfl rfl rfl ?_⟩)
      show State.appliedTo { s with applied := s.applied ++ [_] } c.key = _
      rw [appliedTo_append, if_pos rfl, hnone]
      rfl
    · intro a ha
      rw [hnone] at ha
      cases ha
  · exact h

theorem Inv.fail (h : Inv requestHash s) (i : Nat) (hmay : MayFail (s.calls i)) :
    Inv requestHash (step requestHash s (.fail i)) := by
  rw [step]
  split
  · rename_i c hi
    exact h.goto_held (by rw [hi]; rfl) rfl (by rw [hi]; rfl) trivial
  · rename_i c result hi
    rw [hi] at hmay
    exact hmay.elim
  · exact h

theorem Inv.complete (h : Inv requestHash s) (i : Nat) :
    Inv requestHash (step requestHash s (.complete i)) := by
  rw [step]
  split
  · rename_i c result hi
    have hholds : (s.calls i).holds = some c := by
      rw [hi]
      rfl
    have hheld := h.held hholds
    have happlied : s.appliedTo c.key = [⟨c.key, c.request, result⟩] := by
      rw [hheld.1.2.2.2, hi]
      rfl
    rw [HxMcp.complete, hheld.1.2.2.1]
    refine h.move_held (t := State.goto (s.setRow c.key _) i _) hholds rfl ?_ ?_ ?_
      (fun _ ha => ha) trivial
    · intro c' hc'
      cases hc'
    · intro k hk
      exact ⟨Function.update_of_ne (fun hkk => hk hkk.symm) _ _, rfl⟩
    · exact Or.inr (Or.inr ⟨⟨c.key, c.request, result⟩, Function.update_self _ _ _, happlied,
        hheld.unheld rfl rfl⟩)
  · exact h

theorem Inv.release (h : Inv requestHash s) (i : Nat) :
    Inv requestHash (step requestHash s (.release i)) := by
  rw [step]
  split
  · rename_i c hi
    have hholds : (s.calls i).holds = some c := by
      rw [hi]
      rfl
    have hheld := h.held hholds
    have happlied : s.appliedTo c.key = [] := by
      rw [hheld.1.2.2.2, hi]
      rfl
    rw [HxMcp.release, hheld.1.2.2.1]
    refine h.move_held (t := State.goto (s.setRow c.key none) i _) hholds rfl ?_ ?_ ?_
      (fun _ ha => ha) trivial
    · intro c' hc'
      cases hc'
    · intro k hk
      exact ⟨Function.update_of_ne (fun hkk => hk hkk.symm) _ _, rfl⟩
    · exact Or.inl ⟨Function.update_self _ _ _, happlied, hheld.unheld rfl rfl⟩
  · exact h

theorem holds_called (userId : String) (key : Option String) (toolName : String) (arguments : J) :
    (called userId key toolName arguments).holds = none ∧
      ∀ s : State J δ, AnswerOk s (called userId key toolName arguments) := by
  cases key with
  | none => exact ⟨rfl, fun _ => trivial⟩
  | some text =>
    rw [called]
    split
    · exact ⟨rfl, fun _ => trivial⟩
    · exact ⟨rfl, fun _ => trivial⟩

theorem inv_step (hinj : Function.Injective requestHash) (s : State J δ) (a : Act J)
    (h : Inv requestHash s) (hmay : Allowed s a) : Inv requestHash (step requestHash s a) := by
  cases a with
  | call i userId key toolName arguments =>
    rw [step]
    split
    · rename_i hi
      obtain ⟨hholds, hanswer⟩ := holds_called (δ := δ) userId key toolName arguments
      exact h.goto_unheld (by rw [hi]; rfl) hholds (hanswer s)
    · exact h
  | claim i => exact h.claim i
  | lookUp i => exact h.lookUp hinj i
  | commit i result => exact h.commit i result
  | returns i =>
    rw [step]
    split
    · rename_i c result hi
      exact h.goto_held (by rw [hi]; rfl) rfl (by rw [hi]; rfl) trivial
    · exact h
  | fail i => exact h.fail i hmay
  | complete i => exact h.complete i
  | release i => exact h.release i
  | die i => exact h.goto_unheld hmay rfl trivial

/-! ## a run -/

theorem inv_start : Inv requestHash ({} : State J δ) := by
  refine ⟨fun k => Or.inl ⟨rfl, rfl, ?_⟩, fun i => trivial⟩
  intro i c hholds
  cases hholds

/-- a call that fails, one that is applied, and two more with the key -/
def retried : List (Act String) :=
  [.call 0 "u" (some "k") "close_case" "5", .claim 0, .call 1 "u" (some "k") "close_case" "5",
    .claim 1, .fail 0, .release 0, .lookUp 1, .call 2 "u" (some "k") "close_case" "5", .claim 2,
    .commit 2 [], .returns 2, .complete 2, .call 3 "u" (some "k") "close_case" "5", .claim 3,
    .lookUp 3, .call 4 "u" (some "k") "close_case" "6", .claim 4, .lookUp 4]

/-- the handler commits its write and fails; the caller tries again -/
def failedLate : List (Act String) :=
  [.call 0 "u" (some "k") "close_case" "5", .claim 0, .commit 0 [], .fail 0, .release 0,
    .call 1 "u" (some "k") "close_case" "5", .claim 1, .commit 1 [], .returns 1, .complete 1]

end HxMcp
