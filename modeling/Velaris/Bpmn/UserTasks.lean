import Velaris.Bpmn.Workflow

/-!
# User tasks and their completion signals

A user task is listed in `_pending_user_tasks` when its activity is done, and waits until its id is
among the completed ones.  The ids are never taken out again, so a second activation of the task
finds its id there.

* `WaitsForOwn`   an activation that goes on has received a signal of its own, and its task is no
    longer listed;
* `FirstCompletion` no user task comes to its wait after a signal for it;
* `waits_along`   where every step is of the second kind, every step is of the first.
-/

namespace Bpmn

variable {V : Type} (g : Graph) (holds : String → V → Bool)

/-- a user task that goes on in this step does so after a completion signal for it which came since
its activation began, and is not pending afterwards -/
def WaitsForOwn (s : State V) (a : Act V) : Prop :=
  ∀ w taskId since, s.stepOf g holds a = some (w, .continues taskId since) →
    taskId ∈ s.completed.drop since ∧
      taskId ∉ (step g holds s a).pending.map Pending.taskId

/-- the user task whose activity is done in this step -/
def State.finishing (s : State V) : Act V → Option Node
  | .turn path _ =>
    (s.walk.workingAt path).bind fun eid =>
      (g.elements.lookup eid).filter fun n => n.cls = .userTask
  | _ => none

/-- a user task whose activity is done in this step is not multi-instance, and no completion signal
for it has been received before -/
def FirstCompletion (s : State V) (a : Act V) : Prop :=
  ∀ n ∈ s.finishing g a, n.multiple = false ∧ n.id ∉ s.completed

instance (s : State V) (a : Act V) : Decidable (FirstCompletion g s a) :=
  inferInstanceAs (Decidable (∀ n ∈ s.finishing g a, n.multiple = false ∧ n.id ∉ s.completed))

/-! ## the invariant -/

/-- the tasks that wait were not completed when they began, and a completed task is not pending -/
structure Waiting (s : State V) : Prop where
  walk : s.walk.All (fun _ => True) (fun _ since => since ≤ s.completed.length)
    fun eid since => since ≤ s.completed.length ∧
      ∀ n, g.elements.lookup eid = some n → n.id ∉ s.completed.take since
  pending : ∀ p ∈ s.pending, p.taskId ∉ s.completed

variable {g holds}

theorem Walk.All.mono {C C' : String → Prop} {W W' Q Q' : String → Nat → Prop}
    (hC : ∀ eid, C eid → C' eid) (hW : ∀ eid since, W eid since → W' eid since)
    (hQ : ∀ eid since, Q eid since → Q' eid since) {w : Walk} (h : w.All C W Q) :
    w.All C' W' Q' := by
  induction w with
  | done => trivial
  | called eid => exact hC eid h
  | working eid since => exact hW eid since h
  | waiting eid since => exact hQ eid since h
  | inOrder now later ih => exact ⟨ih h.1, fun t ht => hC t (h.2 t ht)⟩
  | both left right ihl ihr => exact ⟨ihl h.1, ihr h.2⟩

theorem waiting_init (vars : V) : Waiting g (init g vars) :=
  ⟨⟨trivial, fun _ _ => trivial⟩, fun _ hp => nomatch hp⟩

/-- another signal leaves the activations under way as they were -/
theorem Waiting.completed {s : State V} (h : Waiting g s) (taskId : String) (update : V → V) :
    Waiting g (onUserTaskCompleted s taskId update) := by
  constructor
  · refine h.walk.mono (fun _ _ => trivial) (fun eid since hle => ?_) fun eid since hq => ?_
    · show since ≤ (s.completed ++ [taskId]).length
      rw [List.length_append]
      omega
    · show since ≤ (s.completed ++ [taskId]).length ∧
        ∀ n, g.elements.lookup eid = some n → n.id ∉ (s.completed ++ [taskId]).take since
      rw [List.take_append_of_le_length hq.1, List.length_append]
      exact ⟨by omega, hq.2⟩
  · intro p hp hc
    obtain ⟨hp, hne⟩ := List.mem_filter.mp hp
    rcases List.mem_append.mp hc with hc | hc
    · exact h.pending p hp hc
    · exact of_decide_eq_true hne (List.mem_singleton.mp hc)

/-- where no user task comes to its wait after a signal for it, a step keeps the invariant, and a
task that goes on has its own signal -/
theorem Waiting.next {s : State V} (h : Waiting g s) {path : List Bool} {update : V → V}
    (ha : FirstCompletion g s (.turn path update)) {w : Walk} {note : Note}
    (hn : Bpmn.next g holds s.vars s.completed s.walk path = some (w, note)) :
    Waiting g { s.apply note with walk := w, vars := update s.vars } ∧
      ∀ taskId since, note = .continues taskId since → taskId ∈ s.completed.drop since ∧
        taskId ∉ s.pending.map Pending.taskId := by
  have hpending : ∀ taskId ∈ s.completed, taskId ∉ s.pending.map Pending.taskId := by
    intro taskId hc ht
    obtain ⟨p, hp, rfl⟩ := List.mem_map.mp ht
    exact h.pending p hp hc
  have hall := all_next (w := s.walk)
    (C := fun _ => True) (W := fun _ since => since ≤ s.completed.length)
    (Q := fun eid since => since ≤ s.completed.length ∧
      ∀ n, g.elements.lookup eid = some n → n.id ∉ s.completed.take since)
    (N := fun note => (∀ p, note = .pends p → p.taskId ∉ s.completed) ∧
      ∀ taskId since, note = .continues taskId since → taskId ∈ s.completed.drop since)
    ⟨(fun _ hc => nomatch hc), fun _ _ hc => nomatch hc⟩ ?_ ?_ ?_ h.walk hn
  · obtain ⟨hwalk, hpends, hcontinues⟩ := hall
    refine ⟨?_, fun taskId since hnote => ?_⟩
    · cases note with
      | pends p =>
        refine ⟨hwalk, fun q hq => ?_⟩
        rcases List.mem_append.mp hq with hq | hq
        · exact h.pending q hq
        · rw [List.mem_singleton.mp hq]
          exact hpends p rfl
      | quiet | visits eid | fails eid | continues taskId since => exact ⟨hwalk, h.pending⟩
    · have hc := hcontinues taskId since hnote
      exact ⟨hc, hpending taskId (List.mem_of_mem_drop hc)⟩
  · -- a call begins its activation now
    intro eid _
    rw [executeElement]
    split
    · exact ⟨trivial, (fun _ hc => nomatch hc), fun _ _ hc => nomatch hc⟩
    · split
      · exact ⟨trivial, (fun _ hc => nomatch hc), fun _ _ hc => nomatch hc⟩
      · split
        · exact ⟨le_refl _, (fun _ hc => nomatch hc), fun _ _ hc => nomatch hc⟩
        · exact ⟨all_goOn fun _ _ => trivial, (fun _ hc => nomatch hc), fun _ _ hc => nomatch hc⟩
  · -- a task that waits goes on with a signal that is not among the earlier ones
    intro eid since r hq hr
    rw [resume] at hr
    split at hr
    · cases hr
    next n hn =>
      split at hr
      next hc =>
        cases hr
        refine ⟨all_goOn fun _ _ => trivial, (fun _ hc => nomatch hc), ?_⟩
        intro taskId since' hnote
        cases hnote
        rw [← List.take_append_drop since s.completed] at hc
        exact (List.mem_append.mp hc).resolve_left (hq.2 n hn)
      next => cases hr
  · -- a user task whose activity is done has not been completed before
    intro eid since hat hsince
    rw [finish]
    split
    · exact ⟨trivial, (fun _ hc => nomatch hc), fun _ _ hc => nomatch hc⟩
    next n hn =>
      split
      next hu =>
        have hfin : n ∈ s.finishing g (.turn path update) := by
          rw [State.finishing, hat, Option.bind_some, hn, Option.mem_def,
            Option.filter_some, if_pos (decide_eq_true hu)]
        obtain ⟨hm, hc⟩ := ha n hfin
        rw [if_neg (by rw [hm]; exact Bool.false_ne_true)]
        refine ⟨⟨hsince, ?_⟩, ?_, fun _ _ hc => nomatch hc⟩
        · intro n' hn' ht
          rw [hn] at hn'
          cases hn'
          exact hc (List.mem_of_mem_take ht)
        · intro p hp
          cases hp
          exact hc
      next =>
        exact ⟨all_goOn fun _ _ => trivial, (fun _ hc => nomatch hc), fun _ _ hc => nomatch hc⟩

theorem Waiting.step {s : State V} (h : Waiting g s) {a : Act V} (ha : FirstCompletion g s a) :
    Waiting g (Bpmn.step g holds s a) := by
  rcases @step_cases _ g holds s a with hs | ⟨w, note, hw⟩ | hs |
    ⟨taskId, update, hs⟩ | ⟨update, hs⟩
  · rw [hs]
    exact h
  · obtain ⟨path, update, rfl, hn, hs⟩ := step_of_stepOf hw
    rw [hs]
    exact (h.next ha hn).1
  · rw [hs]
    exact ⟨h.walk, h.pending⟩
  · rw [hs]
    exact h.completed taskId update
  · rw [hs]
    exact ⟨h.walk, h.pending⟩

theorem Waiting.waitsForOwn {s : State V} (h : Waiting g s) {a : Act V}
    (ha : FirstCompletion g s a) : WaitsForOwn g holds s a := by
  intro w taskId since hw
  obtain ⟨path, update, rfl, hn, hs⟩ := step_of_stepOf hw
  have hown := (h.next ha hn).2 taskId since rfl
  rw [hs]
  exact hown

/-- in every run where no user task comes to its wait after a completion signal for it, each
activation of a user task goes on only after a signal of its own, and is not pending then -/
theorem waits_along (g : Graph) (holds : String → V → Bool) (vars : V) (acts : List (Act V))
    (h : Base.Along (Bpmn.step g holds) (FirstCompletion g) (init g vars) acts) :
    Base.Along (Bpmn.step g holds) (WaitsForOwn g holds) (init g vars) acts :=
  h.mono (fun _ _ hs ha => Waiting.step hs ha) (fun _ _ hs ha => Waiting.waitsForOwn hs ha)
    (waiting_init vars)

/-! ## a task in a loop -/

/-- a review whose gateway leads back to it as long as the variable is set -/
def reviewLoop : Graph where
  elements :=
    [("start", { cls := .startEvent, id := "start" }),
      ("review", { cls := .userTask, id := "review" }),
      ("again", { cls := .exclusiveGateway, id := "again", defaultFlow := some "f4" }),
      ("done", { cls := .endEvent, id := "done" })]
  flows :=
    [("f1", ⟨"f1", "start", "review", none, none⟩),
      ("f2", ⟨"f2", "review", "again", none, none⟩),
      ("f3", ⟨"f3", "again", "review", none, some "rework"⟩),
      ("f4", ⟨"f4", "again", "done", none, none⟩)]

/-- the one variable of the process is `rework` -/
def reworkHolds (c : String) (rework : Bool) : Bool := c = "rework" && rework

def turns (n : Nat) : List (Act Bool) := List.replicate n (.turn [] id)

/-- the first review is completed and the gateway leads back to it; the second review begins, and
comes to its wait -/
def reviewedOnce : List (Act Bool) :=
  turns 5 ++ [.userTaskCompleted "review" fun _ => true] ++ turns 6

/-- a review that is completed once goes on with its own signal -/
theorem first_review_waits :
    Base.Along (Bpmn.step reviewLoop reworkHolds) (WaitsForOwn reviewLoop reworkHolds)
      (init reviewLoop false)
      (turns 5 ++ [.userTaskCompleted "review" fun _ => false] ++ turns 6) :=
  waits_along reviewLoop reworkHolds false _ (by decide +kernel)

/-- the second review goes on with the signal for the first one -/
theorem second_review_does_not_wait :
    ¬ Base.Along (Bpmn.step reviewLoop reworkHolds) (WaitsForOwn reviewLoop reworkHolds)
      (init reviewLoop true) (reviewedOnce ++ [.turn [] id]) := by
  intro h
  have hlast := ((Base.along_concat _ _ _ _ _).mp h).2
  have hown := hlast _ "review" 1 (by rfl)
  exact absurd hown.1 (by decide +kernel)

end Bpmn
