import Velaris.HxFusion.Resume

/-!
# One run at a time, until it is cancelled

An instance's row with the sessions that write it: background runs, resume and cancel requests, and
the bot jobs that its tasks queue. A session reads the row once; what it writes does not look at the
row again.

* `Row`, `State`   the committed row, the runs, and the requests that have read it;
* `Act`, `step`   the steps of the sessions, cut at reads and commits;
* `Sound`   what is to hold at every moment;
* `MayStep`   the steps after which it still holds;
* `inv_step`, `sound_run`   one step, and a run.
-/

namespace HxFusion.Instance

open Py Base

inductive RowStatus where
  | running | completed | failed | suspended | cancelled
  deriving DecidableEq

def RowStatus.ofRun : Status → RowStatus
  | .running => .running
  | .completed => .completed
  | .failed => .failed
  | .suspended => .suspended

structure Row where
  status : RowStatus
  context : Dict
  currentNode : Option String
  /-- the job of the bot task it was suspended at -/
  job : Option Nat := none

inductive Phase where
  /-- `ensure_future` -/
  | scheduled (run : Run)
  /-- between two nodes, with the row as it was read -/
  | between (run : Run) (loaded : Row)
  /-- a node is popped and flushed; a bot task may have queued its job -/
  | inside (run : Run) (loaded : Row) (x : String) (rest : List String) (node : BpmnNode)
    (job : Option Nat)
  /-- about to commit how it ended -/
  | finishing (run : Run) (loaded : Row) (job : Option Nat)
  | over

/-- in the loop of `_run_instance` -/
def Phase.executing : Phase → Bool
  | .between _ _ | .inside _ _ _ _ _ _ | .finishing _ _ _ => true
  | .scheduled _ | .over => false

structure State where
  row : Row
  phase : Nat → Phase
  runs : Nat
  /-- the run whose UPDATE of the row is not committed -/
  owner : Option Nat := none
  /-- the resume requests that found the instance suspended or failed, with the row they read -/
  resumes : List (Row × Dict) := []
  /-- the cancel requests that found it neither completed nor cancelled -/
  cancels : Nat := 0
  jobs : Nat := 0
  ended : List Nat := []
  cancelled : Bool := false
  /-- the nodes entered after that -/
  late : List String := []

inductive Act where
  /-- a run reads the row -/
  | start (r : Nat)
  | enter (r : Nat)
  /-- `_enqueue_bot_task`, with its own commit -/
  | enqueue (r : Nat)
  | answer (r : Nat) (w : Work)
  | commit (r : Nat)
  | askResume (resolution : Dict)
  | resume (i : Nat)
  | askCancel
  | cancel
  | endJob (job : Nat)

def State.goto (s : State) (r : Nat) (phase : Phase) : State :=
  { s with phase := Function.update s.phase r phase }

/-- a session that is not run `r` waits for the lock of the row -/
def State.free (s : State) (r : Option Nat) : Bool := s.owner.isNone || s.owner = r

/-- the instance as `start_instance` commits it, with its run -/
def started (p : BpmnProcess) (context : Dict) : State where
  row := { status := .running, context := context, currentNode := none }
  phase := Function.update (fun _ => .over) 0 (.scheduled (begin p context none))
  runs := 1

section
variable (rowLocks : Bool) (holds : String → Dict → Bool) (p : BpmnProcess)

/-- the row as `resume_instance` sees it -/
def Row.asRun (row : Row) : Run where
  status := match row.status with
    | .running => .running
    | .completed | .cancelled => .completed
    | .failed => .failed
    | .suspended => .suspended
  queue := []
  visited := []
  pending := fun _ => 0
  context := row.context
  currentNode := row.currentNode
  log := []
  errorMessage := none

def written {α : Type} [DecidableEq α] (loaded new stored : α) : α :=
  if new = loaded then stored else new

/-- `current_node` is flushed where it changes, which locks the row -/
def locks (run : Run) (loaded : Row) (x : String) : Bool :=
  rowLocks && decide ((run.currentNode.or loaded.currentNode) ≠ some x)

def State.enter (s : State) (r : Nat) (run : Run) (loaded : Row) : State :=
  match (ready p run).queue with
  | [] => s.goto r (.finishing { ready p run with status := .completed } loaded none)
  | x :: rest =>
    match p.nodes.lookup x with
    | none => s
    | some node =>
      if locks rowLocks run loaded x && !s.free (some r) then s
      else
        { s.goto r (.inside (ready p run) loaded x rest node none) with
          owner := if locks rowLocks run loaded x then some r else s.owner
          late := if s.cancelled then x :: s.late else s.late }

def step (s : State) : Act → State
  | .start r =>
    match s.phase r with
    | .scheduled run =>
      if s.row.status ≠ .running then s.goto r .over
      else if run.status ≠ .running then s.goto r (.finishing run s.row none)
      else s.goto r (.between run s.row)
    | _ => s
  | .enter r =>
    match s.phase r with
    | .between run loaded => s.enter rowLocks p r run loaded
    | _ => s
  | .enqueue r =>
    match s.phase r with
    | .inside run loaded x rest node none =>
      if node.nodeType = .botTask then
        { s.goto r (.inside run loaded x rest node (some s.jobs)) with jobs := s.jobs + 1 }
      else s
    | _ => s
  | .answer r w =>
    match s.phase r with
    | .inside run loaded x rest node job =>
      -- a bot task answers without an error exactly if its job is queued
      if node.nodeType = .botTask ∧ (w.error.isNone ≠ job.isSome) then s
      else
        let run' := run.visit holds p node x rest w
        if run'.status = .running then s.goto r (.between run' loaded)
        else s.goto r (.finishing run' loaded job)
    | _ => s
  | .commit r =>
    match s.phase r with
    | .finishing run loaded job =>
      if rowLocks && !s.free (some r) then s
      else
        { s.goto r .over with
          row := {
            status := .ofRun run.status
            context := written loaded.context run.context s.row.context
            currentNode := run.currentNode.or s.row.currentNode
            job := job }
          owner := if s.owner = some r then none else s.owner }
    | _ => s
  | .askResume resolution =>
    if s.row.status = .suspended ∨ s.row.status = .failed then
      { s with resumes := s.resumes ++ [(s.row, resolution)] }
    else s
  | .resume i =>
    match s.resumes[i]? with
    | none => s
    | some (loaded, resolution) =>
      if rowLocks && !s.free none then s
      else
        match HxFusion.resume holds p loaded.asRun resolution with
        | none => s
        | some run =>
          { s.goto s.runs (.scheduled run) with
            runs := s.runs + 1
            row := { s.row with
              status := .running
              context := written loaded.context (loaded.context.update resolution) s.row.context }
            resumes := s.resumes.eraseIdx i }
  | .askCancel =>
    if s.row.status = .running ∨ s.row.status = .suspended ∨ s.row.status = .failed then
      { s with cancels := s.cancels + 1 }
    else s
  | .cancel =>
    if s.cancels = 0 ∨ (rowLocks && !s.free none) = true then s
    else
      { s with
        row := { s.row with status := .cancelled }, cancels := s.cancels - 1, cancelled := true }
  | .endJob job => if job < s.jobs then { s with ended := job :: s.ended } else s

end

/-! ## the invariant -/

/-- the bot job that was queued by a run which has not committed yet -/
def Phase.job : Phase → Option Nat
  | .inside _ _ _ _ _ job | .finishing _ _ job => job
  | .scheduled _ | .between _ _ | .over => none

structure Sound (s : State) : Prop where
  one : ∀ r r', (s.phase r).executing = true → (s.phase r').executing = true → r = r'
  stays : s.cancelled = true → s.row.status = .cancelled
  late : s.late = []
  waits : s.row.status = .suspended → ∀ job ∈ s.row.job, job ∉ s.ended

/-- A resume is committed while the instance is still suspended or failed, a cancel while no run is
in its loop; no job ends that the instance waits for, or is about to. -/
def MayStep (rowLocks : Bool) (s : State) : Act → Prop
  | .resume _ =>
    (rowLocks = true → s.free none = true) → s.row.status = .suspended ∨ s.row.status = .failed
  | .cancel =>
    (rowLocks = true → s.free none = true) → ∀ r < s.runs, (s.phase r).executing = false
  | .endJob job =>
    (s.row.status = .suspended → s.row.job ≠ some job) ∧
      ∀ r < s.runs, (s.phase r).job ≠ some job
  | _ => True

instance (rowLocks : Bool) (s : State) : ∀ a, Decidable (MayStep rowLocks s a)
  | .resume _ => inferInstanceAs (Decidable (_ → _ ∨ _))
  | .cancel => inferInstanceAs (Decidable (_ → ∀ r < s.runs, _))
  | .endJob job => inferInstanceAs (Decidable (_ ∧ ∀ r < s.runs, (s.phase r).job ≠ some job))
  | .start _ | .enter _ | .enqueue _ | .answer _ _ | .commit _ | .askResume _ | .askCancel =>
    isTrue trivial

structure Inv (s : State) : Prop where
  fresh : ∀ r, s.runs ≤ r → s.phase r = .over
  one : ∀ r r', s.phase r ≠ .over → s.phase r' ≠ .over → r = r'
  live : ∀ r, s.phase r ≠ .over →
    s.row.status = .running ∨ s.row.status = .cancelled ∧ (s.phase r).executing = false
  stays : s.cancelled = true → s.row.status = .cancelled
  late : s.late = []
  waits : s.row.status = .suspended → ∀ job ∈ s.row.job, job ∉ s.ended
  queued : ∀ r, ∀ job ∈ (s.phase r).job, job ∉ s.ended
  jobs : ∀ job ∈ s.ended, job < s.jobs

section
variable {rowLocks : Bool} {holds : String → Dict → Bool} {p : BpmnProcess} {s : State} {r : Nat}

theorem ne_over_of_executing {phase : Phase} (h : phase.executing = true) : phase ≠ .over := by
  rintro rfl
  cases h

theorem Inv.sound (h : Inv s) : Sound s :=
  ⟨fun r r' hr hr' => h.one r r' (ne_over_of_executing hr) (ne_over_of_executing hr'), h.stays,
    h.late, h.waits⟩

/-- while a run is in its loop the row says so -/
theorem Inv.running (h : Inv s) (hr : (s.phase r).executing = true) : s.row.status = .running := by
  rcases h.live r (ne_over_of_executing hr) with hrow | ⟨-, hnot⟩
  · exact hrow
  · rw [hr] at hnot
    cases hnot

theorem Inv.not_cancelled (h : Inv s) (hrow : s.row.status ≠ .cancelled) : s.cancelled = false := by
  cases hc : s.cancelled with
  | false => rfl
  | true => exact absurd (h.stays hc) hrow

theorem Inv.goto (h : Inv s) {phase : Phase} (hlive : s.phase r ≠ .over)
    (hexec : phase.executing = true → s.row.status = .running)
    (hjob : ∀ job ∈ phase.job, job ∉ s.ended) : Inv (s.goto r phase) := by
  have hother : ∀ r', r' ≠ r → s.phase r' = .over := by
    intro r' hne
    by_contra hover
    exact hne (h.one r' r hover hlive)
  have hphase : ∀ r', (s.goto r phase).phase r' = if r' = r then phase else .over := by
    intro r'
    show Function.update s.phase r phase r' = _
    by_cases hr : r' = r
    · rw [if_pos hr, hr, Function.update_self]
    · rw [if_neg hr, Function.update_of_ne hr, hother r' hr]
  have hmine : ∀ r', (s.goto r phase).phase r' ≠ .over → r' = r := by
    intro r' hover
    by_contra hne
    rw [hphase, if_neg hne] at hover
    exact hover rfl
  refine ⟨?_, ?_, ?_, h.stays, h.late, h.waits, ?_, h.jobs⟩
  · intro r' hle
    have hne : r' ≠ r := by
      rintro rfl
      exact hlive (h.fresh r' hle)
    rw [hphase, if_neg hne]
  · intro a b ha hb
    rw [hmine a ha, hmine b hb]
  · intro r' hr'
    obtain rfl := hmine r' hr'
    rw [hphase, if_pos rfl]
    rcases h.live r' hlive with hrow | ⟨hrow, -⟩
    · exact Or.inl hrow
    · refine Or.inr ⟨hrow, ?_⟩
      cases hx : phase.executing with
      | false => rfl
      | true =>
        have hrunning := hexec hx
        rw [show s.row.status = .cancelled from hrow] at hrunning
        cases hrunning
  · intro r' job hj
    rw [hphase] at hj
    split at hj
    · exact hjob job hj
    · cases hj

theorem Inv.enter (h : Inv s) {run : Run} {loaded : Row} (hp : s.phase r = .between run loaded) :
    Inv (s.enter rowLocks p r run loaded) := by
  have hexec : (s.phase r).executing = true := by rw [hp]; rfl
  have hlive := ne_over_of_executing hexec
  have hrunning := h.running hexec
  rw [State.enter]
  cases (ready p run).queue with
  | nil => exact h.goto hlive (fun _ => hrunning) fun _ hj => nomatch hj
  | cons x rest =>
    dsimp only
    cases p.nodes.lookup x with
    | none => exact h
    | some node =>
      show Inv (if (locks rowLocks run loaded x && !s.free (some r)) = true then s else _)
      by_cases hwaits : (locks rowLocks run loaded x && !s.free (some r)) = true
      · rw [if_pos hwaits]
        exact h
      rw [if_neg hwaits]
      have hgo : Inv (s.goto r (.inside (ready p run) loaded x rest node none)) :=
        h.goto hlive (fun _ => hrunning) fun _ hj => nomatch hj
      have hnot : s.cancelled = false := h.not_cancelled (by rw [hrunning]; decide)
      refine ⟨hgo.fresh, hgo.one, hgo.live, hgo.stays, ?_, hgo.waits, hgo.queued, hgo.jobs⟩
      show (if s.cancelled = true then x :: s.late else s.late) = []
      rw [hnot]
      exact h.late

theorem Inv.commit (h : Inv s) {run : Run} {loaded : Row} {job : Option Nat}
    (hp : s.phase r = .finishing run loaded job) (row : Row) (hjob : row.job = job)
    (owner : Option Nat) : Inv { s.goto r .over with row := row, owner := owner } := by
  have hexec : (s.phase r).executing = true := by rw [hp]; rfl
  have hlive := ne_over_of_executing hexec
  have hover : ∀ r', Function.update s.phase r .over r' = .over := by
    intro r'
    by_cases hr : r' = r
    · rw [hr, Function.update_self]
    · rw [Function.update_of_ne hr]
      by_contra hne
      exact hr (h.one r' r hne hlive)
  have hnot : s.cancelled = false := h.not_cancelled (by rw [h.running hexec]; decide)
  refine ⟨fun r' _ => hover r', fun a _ ha _ => absurd (hover a) ha,
    fun a ha => absurd (hover a) ha, ?_, h.late, ?_, ?_, h.jobs⟩
  · intro hc
    change s.cancelled = true at hc
    rw [hnot] at hc
    cases hc
  · intro _ j hj
    change j ∈ row.job at hj
    rw [hjob] at hj
    have hq := h.queued r j
    rw [hp] at hq
    exact hq hj
  · intro r' j hj
    rw [show (State.goto s r .over).phase r' = .over from hover r'] at hj
    cases hj

/-- nothing runs while the instance is suspended or failed -/
theorem Inv.resume (h : Inv s) (hrow : s.row.status = .suspended ∨ s.row.status = .failed)
    (run : Run) (context : Dict) (resumes : List (Row × Dict)) :
    Inv { s.goto s.runs (.scheduled run) with
      runs := s.runs + 1
      row := { s.row with status := .running, context := context }
      resumes := resumes } := by
  have hover : ∀ r, s.phase r = .over := by
    intro r
    by_contra hne
    rcases h.live r hne with hrun | ⟨hcan, -⟩
    · rcases hrow with hrow | hrow <;> rw [hrow] at hrun <;> cases hrun
    · rcases hrow with hrow | hrow <;> rw [hrow] at hcan <;> cases hcan
  have hnot : s.cancelled = false := by
    apply h.not_cancelled
    rcases hrow with hrow | hrow <;> rw [hrow] <;> decide
  have hphase : ∀ r, Function.update s.phase s.runs (.scheduled run) r =
      if r = s.runs then .scheduled run else .over := by
    intro r
    by_cases hr : r = s.runs
    · rw [if_pos hr, hr, Function.update_self]
    · rw [if_neg hr, Function.update_of_ne hr, hover]
  refine ⟨?_, ?_, fun _ _ => Or.inl rfl, ?_, h.late, fun hs => (nomatch hs), ?_, h.jobs⟩
  · intro r hle
    show Function.update s.phase s.runs (.scheduled run) r = .over
    rw [hphase, if_neg]
    rintro rfl
    exact absurd hle (by simp)
  · intro a b ha hb
    have hnew : ∀ r, Function.update s.phase s.runs (.scheduled run) r ≠ .over → r = s.runs := by
      intro r hr
      by_contra hne
      rw [hphase, if_neg hne] at hr
      exact hr rfl
    rw [hnew a ha, hnew b hb]
  · intro hc
    change s.cancelled = true at hc
    rw [hnot] at hc
    cases hc
  · intro r job hj
    rw [show (State.goto s s.runs (.scheduled run)).phase r =
      if r = s.runs then Phase.scheduled run else .over from hphase r] at hj
    split at hj <;> cases hj

theorem inv_step (a : Act) (h : Inv s) (hmay : MayStep rowLocks s a) :
    Inv (step rowLocks holds p s a) := by
  cases a with
  | start r =>
    rw [step]
    cases hp : s.phase r with
    | scheduled run =>
      have hlive : s.phase r ≠ .over := by rw [hp]; exact Phase.noConfusion
      show Inv (if s.row.status ≠ .running then _ else _)
      split
      · exact h.goto hlive (fun hx => (nomatch hx)) fun _ hj => nomatch hj
      · rename_i hrunning
        have hrow : s.row.status = .running := not_not.1 hrunning
        split
        · exact h.goto hlive (fun _ => hrow) fun _ hj => nomatch hj
        · exact h.goto hlive (fun _ => hrow) fun _ hj => nomatch hj
    | _ => exact h
  | enter r =>
    rw [step]
    cases hp : s.phase r with
    | between run loaded => exact h.enter hp
    | _ => exact h
  | enqueue r =>
    rw [step]
    split
    · rename_i run loaded x rest node hp
      split
      · have hexec : (s.phase r).executing = true := by rw [hp]; rfl
        have hfresh : s.jobs ∉ s.ended := fun hmem => absurd (h.jobs _ hmem) (lt_irrefl _)
        have hgo : Inv (s.goto r (.inside run loaded x rest node (some s.jobs))) :=
          h.goto (ne_over_of_executing hexec) (fun _ => h.running hexec) fun job hj =>
            Option.some.inj hj ▸ hfresh
        exact ⟨hgo.fresh, hgo.one, hgo.live, hgo.stays, hgo.late, hgo.waits, hgo.queued,
          fun job hj => Nat.lt_succ_of_lt (h.jobs job hj)⟩
      · exact h
    · exact h
  | answer r w =>
    rw [step]
    cases hp : s.phase r with
    | inside run loaded x rest node job =>
      have hexec : (s.phase r).executing = true := by rw [hp]; rfl
      have hqueued : ∀ j ∈ job, j ∉ s.ended := by
        have hq := h.queued r
        rw [hp] at hq
        exact hq
      show Inv (if node.nodeType = .botTask ∧ (w.error.isNone ≠ job.isSome) then _ else _)
      split
      · exact h
      · show Inv (if (run.visit holds p node x rest w).status = .running then _ else _)
        split
        · exact h.goto (ne_over_of_executing hexec) (fun _ => h.running hexec) fun _ hj =>
            nomatch hj
        · exact h.goto (ne_over_of_executing hexec) (fun _ => h.running hexec) hqueued
    | _ => exact h
  | commit r =>
    rw [step]
    cases hp : s.phase r with
    | finishing run loaded job =>
      show Inv (if (rowLocks && !s.free (some r)) = true then _ else _)
      split
      · exact h
      · exact h.commit hp _ rfl _
    | _ => exact h
  | askResume resolution =>
    rw [step]
    split
    · exact ⟨h.fresh, h.one, h.live, h.stays, h.late, h.waits, h.queued, h.jobs⟩
    · exact h
  | resume i =>
    rw [step]
    cases s.resumes[i]? with
    | none => exact h
    | some asked =>
      show Inv (if (rowLocks && !s.free none) = true then _ else _)
      split
      · exact h
      · rename_i hfree
        have hrow := hmay fun hl => by simpa [hl] using hfree
        cases HxFusion.resume holds p asked.1.asRun asked.2 with
        | none => exact h
        | some run => exact h.resume hrow run _ _
  | askCancel =>
    rw [step]
    split
    · exact ⟨h.fresh, h.one, h.live, h.stays, h.late, h.waits, h.queued, h.jobs⟩
    · exact h
  | cancel =>
    rw [step]
    split
    · exact h
    · rename_i hfree
      have hidle := hmay fun hl => by
        rw [not_or, hl] at hfree
        simpa using hfree.2
      refine ⟨h.fresh, h.one, ?_, fun _ => rfl, h.late, fun hs => (nomatch hs), h.queued, h.jobs⟩
      intro r hr
      refine Or.inr ⟨rfl, hidle r ?_⟩
      by_contra hle
      exact hr (h.fresh r (not_lt.1 hle))
  | endJob job =>
    rw [step]
    split
    swap
    · exact h
    rename_i hjob
    refine ⟨h.fresh, h.one, h.live, h.stays, h.late, ?_, ?_, ?_⟩
    · intro hs j hj hmem
      rcases List.mem_cons.1 hmem with rfl | hmem
      · exact hmay.1 hs hj
      · exact h.waits hs j hj hmem
    · intro r j hj hmem
      rcases List.mem_cons.1 hmem with rfl | hmem
      · refine hmay.2 r ?_ hj
        by_contra hle
        rw [h.fresh r (not_lt.1 hle)] at hj
        cases hj
      · exact h.queued r j hj hmem
    · intro j hj
      rcases List.mem_cons.1 hj with rfl | hj
      · exact hjob
      · exact h.jobs j hj

end

/-! ## runs -/

theorem inv_started (p : BpmnProcess) (context : Dict) : Inv (started p context) := by
  have hover : ∀ r, r ≠ 0 → (started p context).phase r = .over := by
    intro r hr
    show Function.update (fun _ => Phase.over) 0 _ r = Phase.over
    rw [Function.update_of_ne hr]
  have hfirst : ∀ r, (started p context).phase r ≠ .over → r = 0 := by
    intro r hr
    by_contra hne
    exact hr (hover r hne)
  refine ⟨?_, ?_, fun _ _ => Or.inl rfl, fun hc => (nomatch hc), rfl, fun hs => (nomatch hs), ?_,
    fun _ hj => (nomatch hj)⟩
  · intro r hle
    apply hover
    have hle' : 1 ≤ r := hle
    omega
  · intro a b ha hb
    rw [hfirst a ha, hfirst b hb]
  · intro r job hj
    by_cases hr : r = 0
    · rw [hr] at hj
      cases hj
    · rw [hover r hr] at hj
      cases hj

/-- In every run of the sessions whose steps are allowed, one run is in its loop at a time, what is
cancelled stays so and enters no node, and what is suspended at a bot task has its job open. -/
theorem sound_run (rowLocks : Bool) (holds : String → Dict → Bool) (p : BpmnProcess)
    (context : Dict) (acts : List Act)
    (h : Along (step rowLocks holds p) (MayStep rowLocks) (started p context) acts) :
    Always (step rowLocks holds p) Sound (started p context) acts := by
  intro before after hsplit
  rw [hsplit, along_append] at h
  exact (exec_inv (fun _ a hs ha => inv_step a hs ha) (inv_started p context) h.1).sound

/-! ## an approval -/

/-- the approval that is answered, on a database with row locks -/
def approvedOnce : List Act :=
  [.start 0, .enter 0, .answer 0 done, .enter 0, .answer 0 done, .commit 0, .askResume [],
    .resume 0, .start 1, .enter 1, .answer 1 done, .commit 1, .askCancel]

theorem approved_once :
    Along (step true never (parse approval)) (MayStep true) (started (parse approval) [])
        approvedOnce ∧
      Always (step true never (parse approval)) Sound (started (parse approval) [])
        approvedOnce := by
  have hallowed : Along (step true never (parse approval)) (MayStep true)
      (started (parse approval) []) approvedOnce := by
    decide +kernel
  exact ⟨hallowed, sound_run true never (parse approval) [] approvedOnce hallowed⟩

/-- a cancel is committed between the run's look at the row and its first node -/
def cancelledEarly : List Act := [.start 0, .askCancel, .cancel, .enter 0]

def resumedCancelled : List Act :=
  [.start 0, .enter 0, .answer 0 done, .enter 0, .answer 0 done, .commit 0, .askResume [],
    .askCancel, .cancel, .resume 0]

/-- two resumes have read the row when the first is committed -/
def resumedTwice : List Act :=
  [.start 0, .enter 0, .answer 0 done, .enter 0, .answer 0 done, .commit 0, .askResume [],
    .askResume [], .resume 0, .resume 0, .start 1, .start 2]

def reading : List Element := [
  .node "start" .startEvent, .sequenceFlow "f1" "start" "read" none,
  .node "read" .botTask, .sequenceFlow "f2" "read" "end" none, .node "end" .endEvent]

/-- the job ends before the engine commits that it waits for it -/
def endedEarly : List Act :=
  [.start 0, .enter 0, .answer 0 done, .enter 0, .enqueue 0, .endJob 0, .answer 0 done, .commit 0]

theorem not_sound :
    ¬ Always (step true never (parse approval)) Sound (started (parse approval) [])
        cancelledEarly ∧
      ¬ Always (step true never (parse approval)) Sound (started (parse approval) [])
          resumedCancelled ∧
        ¬ Always (step true never (parse approval)) Sound (started (parse approval) [])
            resumedTwice ∧
          ¬ Always (step true never (parse reading)) Sound (started (parse reading) [])
              endedEarly := by
  refine ⟨?_, ?_, ?_, ?_⟩
  · intro h
    exact absurd (h cancelledEarly [] (List.append_nil _).symm).late (by decide +kernel)
  · intro h
    exact absurd (h resumedCancelled [] (List.append_nil _).symm).stays (by decide +kernel)
  · intro h
    have hone := (h resumedTwice [] (List.append_nil _).symm).one 1 2 (by decide +kernel)
      (by decide +kernel)
    exact absurd hone (by decide)
  · intro h
    exact absurd (h endedEarly [] (List.append_nil _).symm).waits (by decide +kernel)

end HxFusion.Instance
