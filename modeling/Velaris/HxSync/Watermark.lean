import Velaris.Base.Run
import Velaris.HxSync.Pipeline

/-!
# What the warehouse sync loses

* `Sound`   every change is shipped, or selected by the next run;
* `Allowed`   the steps after which it still is;
* `PhaseOk`, `Inv`   what a run has selected of what was committed before it, and the whole state;
* `inv_step`   one step;
* `shipped_run`   a run.
-/

namespace HxSync

open Py Base

variable {E : Env} {s : State}

/-! ## the promise -/

/-- a successful run has pushed or withheld this content -/
def Shipped (s : State) (c : Case) : Prop := c ∈ s.pushed.map Prod.fst ∨ c ∈ s.withheld

def due (E : Env) (dest : Destination) (c : Case) : Bool := !c.isDeleted && inDestination E dest c

/-- the latest content of every case is shipped, or the next run selects it -/
def Sound (E : Env) (s : State) : Prop :=
  ∀ c ∈ s.cases, due E s.dest c = true →
    Shipped s c ∨ wanted E s.dest s.dest.lastSyncedAt c = true

/-! ## the steps that keep it -/

/-- what becomes visible is stamped after the watermark -/
def MayCommit (E : Env) (s : State) : Option Case → Prop
  | some c => due E s.dest c = true → s.dest.lastSyncedAt.all (· < c.updatedAt) = true
  | none => True

/-- What is stamped up to the new watermark was there when the run selected; what is stamped up to
the old one was there when it began. -/
def MaySucceed (E : Env) (s : State) : Phase → Prop
  | .stamped watermark begun selected _ now => ∀ c ∈ s.cases, due E s.dest c = true →
    c.updatedAt ≤ now →
      c.commit ≤ if watermark.all (· < c.updatedAt) then selected else begun
  | .idle | .started _ _ | .extracted _ _ _ _ => True

def Allowed (E : Env) (s : State) : Act → Prop
  | .commit t => MayCommit E s (s.written t)
  | .succeed r _ => MaySucceed E s (s.runs r)
  | .tick _ | .write _ _ | .rollback _ | .start _ | .extract _ | .takeNow _ | .fail _ => True

instance (s : State) : ∀ c, Decidable (MayCommit E s c)
  | some c => inferInstanceAs (Decidable (due E s.dest c = true →
      s.dest.lastSyncedAt.all (· < c.updatedAt) = true))
  | none => isTrue trivial

instance (s : State) : ∀ phase, Decidable (MaySucceed E s phase)
  | .stamped watermark begun selected _ now => inferInstanceAs (Decidable (∀ c ∈ s.cases,
      due E s.dest c = true → c.updatedAt ≤ now →
        c.commit ≤ if watermark.all (· < c.updatedAt) then selected else begun))
  | .idle | .started _ _ | .extracted _ _ _ _ => isTrue trivial

instance (s : State) : ∀ a, Decidable (Allowed E s a)
  | .commit t => inferInstanceAs (Decidable (MayCommit E s (s.written t)))
  | .succeed r _ => inferInstanceAs (Decidable (MaySucceed E s (s.runs r)))
  | .tick _ | .write _ _ | .rollback _ | .start _ | .extract _ | .takeNow _ | .fail _ =>
    isTrue trivial

/-! ## the selection -/

theorem mem_extract {dest : Destination} {watermark : Option Int} {cases : List Case} {c : Case} :
    c ∈ HxSync.extract E dest watermark cases ↔ c ∈ cases ∧ wanted E dest watermark c = true := by
  rw [HxSync.extract, (List.perm_insertionSort _ _).mem_iff, List.mem_filter]

theorem wanted_iff {dest : Destination} {watermark : Option Int} {c : Case} :
    wanted E dest watermark c = true ↔
      due E dest c = true ∧ watermark.all (· < c.updatedAt) = true := by
  rw [wanted, due]
  cases c.isDeleted <;> cases inDestination E dest c <;> simp

/-! ## the state -/

/-- What was stamped up to the watermark and there when the run began is shipped; what was stamped
after it and there when the run selected is selected. -/
def Covers (E : Env) (s : State) (watermark : Option Int) (begun selected : Nat)
    (cases : List Case) : Prop :=
  selected ≤ s.commits ∧ ∀ c ∈ s.cases, due E s.dest c = true →
    if watermark.all (· < c.updatedAt) then c.commit ≤ selected → c ∈ cases
    else c.commit ≤ begun → Shipped s c

def PhaseOk (E : Env) (s : State) : Phase → Prop
  | .idle => True
  | .started watermark begun => begun ≤ s.commits ∧ ∀ c ∈ s.cases, due E s.dest c = true →
    watermark.all (· < c.updatedAt) = false → c.commit ≤ begun → Shipped s c
  | .extracted watermark begun selected cases | .stamped watermark begun selected cases _ =>
    begun ≤ s.commits ∧ Covers E s watermark begun selected cases

structure Inv (E : Env) (s : State) : Prop where
  sound : Sound E s
  phases : ∀ r, PhaseOk E s (s.runs r)

/-! ### what others do to a run -/

/-- a state whose cases were there, or are newer than all that were committed, and where what was
shipped is shipped -/
structure Later (E : Env) (s s' : State) : Prop where
  commits : s.commits ≤ s'.commits
  due : ∀ c, due E s'.dest c = due E s.dest c
  cases : ∀ c ∈ s'.cases, c ∈ s.cases ∨ s.commits < c.commit
  shipped : ∀ c, Shipped s c → Shipped s' c

theorem PhaseOk.later {s s' : State} {phase : Phase} (h : PhaseOk E s phase)
    (hl : Later E s s') : PhaseOk E s' phase := by
  have hcovers : ∀ watermark begun selected cases, begun ≤ s.commits →
      Covers E s watermark begun selected cases → Covers E s' watermark begun selected cases := by
    intro watermark begun selected cases hbegun hc
    refine ⟨le_trans hc.1 hl.commits, ?_⟩
    intro c hc' hdue
    rw [hl.due] at hdue
    rcases hl.cases c hc' with hold | hnew
    · have hcase := hc.2 c hold hdue
      split at hcase
      · rename_i hw
        rw [if_pos hw]
        exact hcase
      · rename_i hw
        rw [if_neg hw]
        exact fun hle => hl.shipped c (hcase hle)
    · have hsel := hc.1
      split <;> intro hle <;> omega
  cases phase with
  | idle => trivial
  | started watermark begun =>
    refine ⟨le_trans h.1 hl.commits, ?_⟩
    intro c hc hdue hw hle
    rw [hl.due] at hdue
    rcases hl.cases c hc with hold | hnew
    · exact hl.shipped c (h.2 c hold hdue hw hle)
    · have hbegun := h.1
      omega
  | extracted watermark begun selected cases =>
    exact ⟨le_trans h.1 hl.commits, hcovers _ _ _ _ h.1 h.2⟩
  | stamped watermark begun selected cases now =>
    exact ⟨le_trans h.1 hl.commits, hcovers _ _ _ _ h.1 h.2⟩


theorem Inv.setRun (h : Inv E s) {r : Nat} {phase : Phase} (hphase : PhaseOk E s phase) :
    Inv E (s.setRun r phase) := by
  refine ⟨h.sound, ?_⟩
  intro r'
  show PhaseOk E s (Function.update s.runs r phase r')
  by_cases hr : r' = r
  · rw [hr, Function.update_self]
    exact hphase
  · rw [Function.update_of_ne hr]
    exact h.phases r'

/-! ## one step -/

theorem Inv.commit (h : Inv E s) (t : Nat) (hmay : MayCommit E s (s.written t)) :
    Inv E (step E s (.commit t)) := by
  rw [step]
  split
  · exact h
  · rename_i c hc
    rw [hc] at hmay
    -- the row that was there is replaced
    have hlater : Later E s { s with
        cases := s.cases.filter (·.id ≠ c.id) ++ [{ c with commit := s.commits + 1 }]
        commits := s.commits + 1
        written := Function.update s.written t none } := by
      refine ⟨Nat.le_succ _, fun _ => rfl, ?_, fun _ hshipped => hshipped⟩
      intro x hx
      rcases List.mem_append.mp hx with hx | hx
      · exact Or.inl (List.mem_filter.mp hx).1
      · rw [List.mem_singleton.mp hx]
        exact Or.inr (Nat.lt_succ_self _)
    refine ⟨?_, fun r => (h.phases r).later hlater⟩
    intro x hx hdue
    rcases List.mem_append.mp hx with hx | hx
    · exact h.sound x (List.mem_filter.mp hx).1 hdue
    · rw [List.mem_singleton.mp hx] at hdue ⊢
      exact Or.inr (wanted_iff.mpr ⟨hdue, hmay hdue⟩)

theorem Inv.start (h : Inv E s) (r : Nat) : Inv E (step E s (.start r)) := by
  rw [step]
  split
  · refine h.setRun ⟨le_refl _, ?_⟩
    intro c hc hdue hold _
    rcases h.sound c hc hdue with hshipped | hwanted
    · exact hshipped
    · rw [(wanted_iff.mp hwanted).2] at hold
      exact Bool.noConfusion hold
  · exact h

theorem Inv.extract (h : Inv E s) (r : Nat) : Inv E (step E s (.extract r)) := by
  rw [step]
  split
  · rename_i watermark begun hr
    have hphase := h.phases r
    rw [hr] at hphase
    refine h.setRun ⟨hphase.1, le_refl _, ?_⟩
    intro c hc hdue
    split
    · rename_i hnew
      exact fun _ => mem_extract.mpr ⟨hc, wanted_iff.mpr ⟨hdue, hnew⟩⟩
    · rename_i hold
      exact hphase.2 c hc hdue (Bool.eq_false_iff.mpr hold)
  · exact h

theorem Inv.takeNow (h : Inv E s) (r : Nat) : Inv E (step E s (.takeNow r)) := by
  rw [step]
  split
  · rename_i watermark begun selected cases hr
    have hphase := h.phases r
    rw [hr] at hphase
    exact h.setRun hphase
  · exact h

theorem shipped_of_selected {cases : List Case} {c : Case} (hc : c ∈ cases) (ship : Shipping)
    {s' : State}
    (hpushed : s'.pushed = s.pushed ++ cases.filterMap fun c =>
      (shipCase E s.dest ship c).map (c, ·))
    (hwithheld : s'.withheld = s.withheld ++ cases.filter fun c =>
      (shipCase E s.dest ship c).isNone) : Shipped s' c := by
  cases hrow : shipCase E s.dest ship c with
  | none =>
    right
    rw [hwithheld]
    exact List.mem_append_right _ (List.mem_filter.mpr ⟨hc, by rw [hrow]; rfl⟩)
  | some row =>
    left
    rw [hpushed, List.map_append]
    refine List.mem_append_right _ (List.mem_map.mpr ⟨(c, row), ?_, rfl⟩)
    exact List.mem_filterMap.mpr ⟨c, hc, by rw [hrow]; rfl⟩

theorem Inv.succeed (h : Inv E s) (r : Nat) (ship : Shipping)
    (hmay : MaySucceed E s (s.runs r)) : Inv E (step E s (.succeed r ship)) := by
  rw [step]
  split
  · rename_i watermark begun selected cases now hr
    have hphase := h.phases r
    rw [hr] at hphase hmay
    have hkeep : ∀ c, Shipped s c →
        c ∈ (s.pushed ++ cases.filterMap fun c => (shipCase E s.dest ship c).map (c, ·)).map
          Prod.fst ∨
        c ∈ s.withheld ++ cases.filter fun c => (shipCase E s.dest ship c).isNone := by
      intro c hc
      rcases hc with hc | hc
      · left
        rw [List.map_append]
        exact List.mem_append_left _ hc
      · exact Or.inr (List.mem_append_left _ hc)
    refine ⟨?_, ?_⟩
    · intro c hc hdue
      by_cases hnow : c.updatedAt ≤ now
      · left
        have hbound := hmay c hc hdue hnow
        have hcase := hphase.2.2 c hc hdue
        split at hcase
        · rename_i hw
          rw [if_pos hw] at hbound
          exact shipped_of_selected (hcase hbound) ship rfl rfl
        · rename_i hw
          rw [if_neg hw] at hbound
          exact hkeep c (hcase hbound)
      · right
        refine wanted_iff.mpr ⟨hdue, ?_⟩
        show decide (now < c.updatedAt) = true
        exact decide_eq_true (not_le.mp hnow)
    · intro r'
      show PhaseOk E _ (Function.update s.runs r .idle r')
      by_cases hr' : r' = r
      · rw [hr', Function.update_self]
        trivial
      · rw [Function.update_of_ne hr']
        exact (h.phases r').later ⟨le_refl _, fun _ => rfl, fun c hc => Or.inl hc, hkeep⟩
  · exact h

theorem Inv.fail (h : Inv E s) (r : Nat) : Inv E (step E s (.fail r)) := by
  rw [step]
  split
  · exact h
  · have hstatus : Inv E { s with dest := { s.dest with lastSyncStatus := "error" } } :=
      ⟨h.sound, h.phases⟩
    exact hstatus.setRun trivial

theorem inv_step (s : State) (a : Act) (h : Inv E s) (hmay : Allowed E s a) :
    Inv E (step E s a) := by
  cases a with
  | tick d => exact ⟨h.sound, h.phases⟩
  | write t c => exact ⟨h.sound, h.phases⟩
  | commit t => exact h.commit t hmay
  | rollback t => exact ⟨h.sound, h.phases⟩
  | start r => exact h.start r
  | extract r => exact h.extract r
  | takeNow r => exact h.takeNow r
  | succeed r ship => exact h.succeed r ship hmay
  | fail r => exact h.fail r

/-! ## a run -/

def start (dest : Destination) : State := { dest := dest }

theorem inv_start (dest : Destination) : Inv E (start dest) := by
  refine ⟨?_, fun r => trivial⟩
  intro c hc
  cases hc

/-- a run whose steps are allowed loses no change in any state that it goes through -/
theorem shipped_run (E : Env) (dest : Destination) (as : List Act)
    (h : Along (step E) (Allowed E) (start dest) as) :
    Always (step E) (Sound E) (start dest) as := by
  intro bs cs hsplit
  rw [hsplit] at h
  exact (exec_inv inv_step (inv_start dest)
    ((along_append (step E) (Allowed E) (start dest) bs cs).mp h).1).sound

/-! ## two runs -/

def plain : Env where
  runtime := Runtime.silent
  resolveTenant := fun _ => none
  strictCaseReads := false

def shipAll : Shipping where
  allowed := fun _ => true
  redact := id
  transform := some

/-- two changes of a case, and two runs; the second change is stamped after the first watermark -/
def oneAfterTheOther : List Act :=
  [.tick 1, .write 0 { id := 5 }, .commit 0, .tick 1, .start 0, .extract 0, .takeNow 0,
    .start 1, .tick 1, .write 0 { id := 5, status := "closed" }, .succeed 0 shipAll, .commit 0,
    .fail 1, .start 1, .extract 1, .takeNow 1, .succeed 1 shipAll]

theorem shipped_oneAfterTheOther : Along (step plain) (Allowed plain) (start {}) oneAfterTheOther ∧
    (exec (step plain) (start {}) oneAfterTheOther).pushed.length = 2 ∧
      Always (step plain) (Sound plain) (start {}) oneAfterTheOther := by
  have hallowed : Along (step plain) (Allowed plain) (start {}) oneAfterTheOther := by
    decide +kernel
  exact ⟨hallowed, by decide +kernel, shipped_run plain {} oneAfterTheOther hallowed⟩

/-- the change is stamped before the run takes its time, and visible after the run has selected -/
def inFlight : List Act :=
  [.tick 1, .write 0 { id := 5 }, .start 0, .extract 0, .tick 1, .takeNow 0, .succeed 0 shipAll,
    .commit 0]

instance (E : Env) (s : State) : Decidable (Sound E s) :=
  inferInstanceAs (Decidable (∀ c ∈ s.cases, due E s.dest c = true →
    (c ∈ s.pushed.map Prod.fst ∨ c ∈ s.withheld) ∨
      wanted E s.dest s.dest.lastSyncedAt c = true))

theorem not_always_shipped :
    ¬ ∀ E dest as, Always (step E) (Sound E) (start dest) as := by
  intro h
  have hsound : Sound plain (exec (step plain) (start {}) inFlight) :=
    h plain {} inFlight inFlight [] (List.append_nil _).symm
  revert hsound
  decide +kernel

end HxSync
