import Velaris.Base.Run
import Velaris.Field.Device

/-!
# Field nodes: the lockout

`velaris_shared/field_node/node.py`: the calls that show or change the data of a case, each of which
asks first whether the bundle is fresh, and what the clock can do to a node that has refused.

* `requireFresh`, `ask`   the calls;
* `Call`, `call`   everything that may happen to a node;
* `seen_call`   the latest time that a node has seen stays;
* `stale_locks`   when a node that went stale answers again.
-/

namespace Field

open Py Base Handoff

namespace FieldNode

variable (R : Setup)

inductive Look where
  | cases
  | show (caseId : String)
  | assist (caseId question : String)
  | export (caseId : String)

inductive Ask where
  | look (l : Look)
  | record (work : Work)

structure CaseLine where
  caseId : String
  status : String
  priority : String
  stage : Option String

inductive Answer where
  | lines (cases : List CaseLine)
  | case (view : CaseView)
  | event (event : Event)
  | text (answer : String)

inductive NoAnswer where
  | refused (why : Refusal)
  /-- the namespace is denied to this node while it is offline -/
  | denied (ns : String)
  /-- the model is not local, or gave nothing that can be read -/
  | noModel

def requireFresh (clock : Int) (n : FieldNode) : FieldNode × Except Refusal Unit :=
  match n.now clock with
  | none => (n, .error .clockWentBack)
  | some n =>
    match n.freshProblem R clock with
    | some problem => (n, .error problem)
    | none => (n, .ok ())

def case (n : FieldNode) (caseId : String) : Except NoAnswer CaseView :=
  match n.cases.find? fun c => c.caseId = caseId with
  | some view => .ok view
  | none => .error (.refused .caseNotHere)

def deny (n : FieldNode) (ns : String) : Except NoAnswer Unit :=
  if ns ∈ n.offlineDeny then .error (.denied ns) else .ok ()

def caseLine (view : CaseView) : CaseLine :=
  ⟨view.caseId, view.status, view.priority, view.currentStageId⟩

def answer (model : CaseView → String → Option String) (n : FieldNode) :
    Look → Except NoAnswer Answer
  | .cases => .ok (.lines ((n.cases.insertionSort fun c d => c.caseId ≤ d.caseId).map caseLine))
  | .show caseId => (n.case caseId).map .case
  | .export caseId => do
    n.deny "export"
    (n.case caseId).map .case
  | .assist caseId question => do
    n.deny "assist"
    let view ← n.case caseId
    match model view question with
    | some answer => .ok (.text answer)
    | none => .error .noModel

/-- `cases`, `show`, `export`, `assist` and `record`; `model` is the local model -/
def ask (model : CaseView → String → Option String) (clock : Int) (n : FieldNode) :
    Ask → FieldNode × Except NoAnswer Answer
  | .look l =>
    match n.requireFresh R clock with
    | (n, .error why) => (n, .error (.refused why))
    | (n, .ok _) => (n, n.answer model l)
  | .record work =>
    match n.record R clock work with
    | (n, .error why) => (n, .error (.refused why))
    | (n, .ok event) => (n, .ok (.event event))

/-- everything that may happen to a node, each with a reading of its clock -/
inductive Call where
  | ask (a : Ask)
  | loadBundle (bundle : Bundle)
  | syncBody
  | synced (report : SyncReport)
  | wipe
  /-- `signed_contact`, `staleness`, `status`, `events`: nothing is changed -/
  | look

/-- a device; after `wipe` there is no node on it -/
abbrev Device := Option FieldNode

def call (model : CaseView → String → Option String) (sign : String → String) (d : Device)
    (c : Int × Call) : Device :=
  d.bind fun n =>
    match c.2 with
    | .ask a => some (n.ask R model c.1 a).1
    | .loadBundle bundle => some (n.loadBundle R c.1 bundle).1
    | .syncBody => some (n.syncBody sign c.1).1
    | .synced report => some (n.synced report).1
    | .wipe => none
    | .look => some n

end FieldNode

/-! ## the latest time seen -/

namespace FieldNode

def Seen (t : Int) (n : FieldNode) : Prop := ∃ w, n.clockHighWater = some w ∧ t ≤ w

/-- a reading that was accepted: it is seen, not far behind what was seen, and nothing else is
changed -/
structure Takes (clock : Int) (n n' : FieldNode) : Prop where
  seen : n'.Seen clock
  keeps : ∀ t, n.Seen t → n'.Seen t
  near : ∀ t, n.Seen t → t - CLOCK_TOLERANCE ≤ clock
  bundle : n'.staleAfter = n.staleAfter

section
variable {R : Setup} {n n' m : FieldNode} {t clock : Int}

theorem takes_of_now (h : n.now clock = some n') : Takes clock n n' := by
  rw [now] at h
  split at h
  · rename_i seen hwater
    have hseen : ∀ t, n.Seen t → t ≤ seen := by
      intro t hn
      obtain ⟨w, hw, ht⟩ := hn
      rw [hwater] at hw
      cases hw
      exact ht
    split at h
    · cases h
    · rename_i htolerated
      have hnear : ∀ t, n.Seen t → t - CLOCK_TOLERANCE ≤ clock := by
        intro t hn
        have ht := hseen t hn
        omega
      split at h
      · cases h
        refine ⟨⟨clock, rfl, le_refl _⟩, ?_, hnear, rfl⟩
        intro t hn
        have ht := hseen t hn
        exact ⟨clock, rfl, by omega⟩
      · cases h
        exact ⟨⟨seen, hwater, by omega⟩, fun _ => id, hnear, rfl⟩
  · rename_i hwater
    cases h
    have hnone : ∀ t, ¬n.Seen t := by
      intro t hn
      obtain ⟨w, hw, -⟩ := hn
      rw [hwater] at hw
      cases hw
    exact ⟨⟨clock, rfl, le_refl _⟩, fun t hn => absurd hn (hnone t),
      fun t hn => absurd hn (hnone t), rfl⟩

theorem Takes.write (h : Takes clock n m) (hwater : n'.clockHighWater = m.clockHighWater)
    (hbundle : n'.staleAfter = m.staleAfter) : Takes clock n n' := by
  have hseen : ∀ t, m.Seen t → n'.Seen t := by
    intro t hm
    obtain ⟨w, hw, ht⟩ := hm
    exact ⟨w, hwater.trans hw, ht⟩
  exact ⟨hseen _ h.seen, fun t hn => hseen t (h.keeps t hn), h.near, hbundle.trans h.bundle⟩

theorem freshProblem_now (h : n.now clock = some m) :
    m.freshProblem R clock = n.freshProblem R clock := by
  rw [now] at h
  split at h
  · split at h
    · cases h
    · split at h
      · cases h
        rfl
      · cases h
        rfl
  · cases h
    rfl

/-- what is known of a call when it has answered, or refused because the bundle is stale -/
structure Asked (R : Setup) (clock : Int) (n n' : FieldNode) (result : Except NoAnswer Answer) :
    Prop where
  takes : Takes clock n n'
  fresh : ∀ answer, result = .ok answer → n.freshProblem R clock = none
  stale : result = .error (.refused .stale) → n.freshProblem R clock = some .stale

def Unasked (n n' : FieldNode) (result : Except NoAnswer Answer) : Prop :=
  n' = n ∧ result = .error (.refused .clockWentBack)

variable {model : CaseView → String → Option String}

theorem answer_not_stale (l : Look) : n.answer model l ≠ .error (.refused .stale) := by
  cases l with
  | cases =>
    intro h
    cases h
  | «show» caseId =>
    rw [answer, case]
    cases n.cases.find? fun c => c.caseId = caseId <;> exact fun h => by cases h
  | assist caseId question =>
    rw [answer, deny, case]
    split
    · exact fun h => by cases h
    · cases n.cases.find? fun c => c.caseId = caseId with
      | none => exact fun h => by cases h
      | some view =>
        show (match model view question with
          | some answer => Except.ok (Answer.text answer)
          | none => Except.error NoAnswer.noModel) ≠ _
        split <;> exact fun h => by cases h
  | «export» caseId =>
    rw [answer, deny, case]
    split
    · exact fun h => by cases h
    · cases n.cases.find? fun c => c.caseId = caseId <;> exact fun h => by cases h

theorem ask_look (R : Setup) (clock : Int) (l : Look) {result : Except NoAnswer Answer}
    (h : n.ask R model clock (.look l) = (n', result)) :
    Unasked n n' result ∨ Asked R clock n n' result := by
  rw [ask, requireFresh] at h
  cases hnow : n.now clock with
  | none =>
    rw [hnow] at h
    cases h
    exact .inl ⟨rfl, rfl⟩
  | some m =>
    right
    rw [hnow] at h
    dsimp only at h
    rw [freshProblem_now hnow] at h
    cases hproblem : n.freshProblem R clock with
    | some problem =>
      rw [hproblem] at h
      cases h
      refine ⟨takes_of_now hnow, fun answer ha => (by cases ha), fun hs => ?_⟩
      cases hs
      exact hproblem
    | none =>
      rw [hproblem] at h
      cases h
      exact ⟨takes_of_now hnow, fun _ _ => hproblem, fun hs => absurd hs (answer_not_stale l)⟩

theorem workProblem_not_stale (work : Work) : n.workProblem work ≠ some .stale := by
  unfold workProblem
  split_ifs <;> simp

theorem ask_record (R : Setup) (clock : Int) (work : Work) {result : Except NoAnswer Answer}
    (h : n.ask R model clock (.record work) = (n', result)) :
    Unasked n n' result ∨ Asked R clock n n' result := by
  rw [ask, record] at h
  cases hnow : n.now clock with
  | none =>
    rw [hnow] at h
    cases h
    exact .inl ⟨rfl, rfl⟩
  | some m =>
    right
    have htakes := takes_of_now hnow
    rw [hnow] at h
    dsimp only at h
    rw [freshProblem_now hnow] at h
    cases hproblem : n.freshProblem R clock with
    | some problem =>
      rw [hproblem] at h
      cases h
      refine ⟨htakes, fun answer ha => (by cases ha), fun hs => ?_⟩
      cases hs
      exact hproblem
    | none =>
      rw [hproblem, Option.none_or] at h
      cases hwork : m.workProblem work with
      | some problem =>
        rw [hwork] at h
        cases h
        refine ⟨htakes, fun _ _ => hproblem, fun hs => ?_⟩
        cases hs
        exact absurd hwork (workProblem_not_stale work)
      | none =>
        rw [hwork] at h
        dsimp only at h
        split at h
        · rename_i hrecord
          split at hrecord
          · cases hrecord
            cases h
            exact ⟨htakes, fun _ _ => hproblem, fun hs => by cases hs⟩
          · cases hrecord
        · rename_i hrecord
          split at hrecord
          · cases hrecord
          · cases hrecord
            cases h
            exact ⟨htakes.write rfl rfl, fun _ _ => hproblem, fun hs => by cases hs⟩

theorem ask_cases {a : Ask} {result : Except NoAnswer Answer}
    (h : n.ask R model clock a = (n', result)) :
    Unasked n n' result ∨ Asked R clock n n' result := by
  cases a with
  | look l => exact ask_look R clock l h
  | record work => exact ask_record R clock work h

/-! ## everything that may happen -/

theorem seen_ask (a : Ask) (hn : n.Seen t) : (n.ask R model clock a).1.Seen t := by
  rcases ask_cases (Prod.mk.eta (p := n.ask R model clock a)).symm with h | h
  · rw [h.1]
    exact hn
  · exact h.takes.keeps t hn

theorem seen_loadBundle (bundle : Bundle) (hn : n.Seen t) :
    (n.loadBundle R clock bundle).1.Seen t := by
  rw [loadBundle]
  cases hnow : n.now clock with
  | none => exact hn
  | some m =>
    have hm := (takes_of_now hnow).keeps t hn
    dsimp only
    split_ifs
    all_goals exact hm

theorem seen_syncBody (sign : String → String) (hn : n.Seen t) :
    (n.syncBody sign clock).1.Seen t := by
  rw [syncBody]
  cases hnow : n.now clock with
  | none => exact hn
  | some m =>
    have hm := (takes_of_now hnow).keeps t hn
    dsimp only
    split <;> exact hm

theorem seen_synced (report : SyncReport) (hn : n.Seen t) : (n.synced report).1.Seen t := by
  rw [synced]
  split <;> exact hn

end

section
variable {R : Setup} {model : CaseView → String → Option String} {sign : String → String}

theorem seen_call {t : Int} (d : Device) (c : Int × Call) (h : ∀ n ∈ d, n.Seen t) :
    ∀ n ∈ call R model sign d c, n.Seen t := by
  intro n' hn'
  obtain ⟨n, hd, hcall⟩ := Option.bind_eq_some_iff.mp hn'
  have hn := h n hd
  obtain ⟨clock, what⟩ := c
  cases what with
  | ask a =>
    cases hcall
    exact seen_ask a hn
  | loadBundle bundle =>
    cases hcall
    exact seen_loadBundle bundle hn
  | syncBody =>
    cases hcall
    exact seen_syncBody sign hn
  | synced report =>
    cases hcall
    exact seen_synced report hn
  | wipe => cases hcall
  | look =>
    cases hcall
    exact hn

theorem fresh_of_problem {n : FieldNode} {clock : Int} (h : n.freshProblem R clock = none) :
    ∃ after, R.fromisoformat (n.staleAfter.getD "") = some after ∧ clock ≤ after := by
  unfold freshProblem at h
  split at h
  · cases h
  · split at h
    · cases h
    · rename_i after hafter
      split at h
      · cases h
      · exact ⟨after, hafter, by omega⟩

theorem stale_of_problem {n : FieldNode} {clock : Int}
    (h : n.freshProblem R clock = some .stale) :
    ∃ after, R.fromisoformat (n.staleAfter.getD "") = some after ∧ after < clock := by
  unfold freshProblem at h
  split at h
  · cases h
  · split at h
    · cases h
    · rename_i after hafter
      split at h
      · exact ⟨after, hafter, by assumption⟩
      · cases h

end

/-- **A node that went stale stays locked**, whatever happens to it: with the same bundle it answers
again only where its clock is set back to a time at which the bundle is fresh, and by no more than
the tolerance. -/
theorem stale_locks (R : Setup) (model : CaseView → String → Option String)
    (sign : String → String) {n n₁ n₂ n₃ : FieldNode} {t : Int} {a : Ask}
    (hstale : n.ask R model t a = (n₁, .error (.refused .stale))) {calls : List (Int × Call)}
    (hrun : exec (call R model sign) (some n₁) calls = some n₂)
    (hbundle : n₂.staleAfter = n₁.staleAfter) {clock : Int} {b : Ask} {answer : Answer}
    (hanswer : n₂.ask R model clock b = (n₃, .ok answer)) :
    ∃ after, R.fromisoformat (n₁.staleAfter.getD "") = some after ∧
      clock ≤ after ∧ after < t ∧ t ≤ clock + CLOCK_TOLERANCE := by
  rcases ask_cases hstale with ⟨-, h⟩ | hasked
  · cases h
  rcases ask_cases hanswer with ⟨-, h⟩ | hanswered
  · cases h
  obtain ⟨after, hafter, ht⟩ := stale_of_problem (hasked.stale rfl)
  obtain ⟨after', hafter', hclock⟩ := fresh_of_problem (hanswered.fresh answer rfl)
  have hseen : n₂.Seen t := by
    refine exec_inv' (I := fun d : Device => ∀ n ∈ d, n.Seen t) seen_call calls ?_ n₂ hrun
    intro m hm
    cases hm
    exact hasked.takes.seen
  have hnear := hanswered.takes.near t hseen
  rw [hbundle, hasked.takes.bundle, hafter] at hafter'
  cases hafter'
  refine ⟨after, ?_, hclock, ht, by omega⟩
  rw [hasked.takes.bundle]
  exact hafter

/-! ## runs -/

/-- every bundle is fresh up to the moment 100 -/
def upToHundred : Setup where
  toRuntime := { Runtime.silent with fromisoformat := fun _ => some 100 }
  verifies := fun _ _ _ => true
  signatureRequired := false

def tablet (seen : Option Int) : FieldNode where
  slug := "tablet"
  clockHighWater := seen
  dispatchId := some "d"
  staleAfter := some "soon"

theorem tablet_stale : (tablet none).ask upToHundred (fun _ _ => none) 101 (.look .cases) =
    (tablet (some 101), .error (.refused .stale)) := rfl

theorem tablet_answers : (tablet (some 101)).ask upToHundred (fun _ _ => none) 100 (.look .cases) =
    (tablet (some 101), .ok (.lines [])) := rfl

theorem tablet_locks : ∃ after, upToHundred.fromisoformat "soon" = some after ∧
    100 ≤ after ∧ after < 101 ∧ 101 ≤ 100 + CLOCK_TOLERANCE :=
  @stale_locks upToHundred (fun _ _ => none) id _ _ _ _ _ _ tablet_stale [] rfl rfl _ _ _
    tablet_answers

theorem not_always_locked : ¬∀ (R : Setup) (model : CaseView → String → Option String)
    (sign : String → String) (n n₁ n₂ n₃ : FieldNode) (t : Int) (a : Ask),
    n.ask R model t a = (n₁, .error (.refused .stale)) → ∀ calls : List (Int × Call),
      exec (call R model sign) (some n₁) calls = some n₂ → n₂.staleAfter = n₁.staleAfter →
        ∀ (clock : Int) (b : Ask) (answer : Answer),
          n₂.ask R model clock b ≠ (n₃, .ok answer) := by
  intro h
  exact h upToHundred (fun _ _ => none) id _ _ _ _ 101 _ tablet_stale [] rfl rfl 100 _ _
    tablet_answers

end FieldNode
end Field
