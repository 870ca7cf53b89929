import Mathlib.Algebra.GroupWithZero.Nat
import Velaris.Base.Run
import Velaris.Bpmn.Process

/-!
# The workflow

`ProcessWorkflow` walks the graph of a process.  An element is executed by a coroutine that waits
for its activity and then executes, one after the other, the elements its flows lead to; an AND or
an inclusive gateway runs them side by side instead.

* `Node`, `Graph`   what the workflow reads of an element and of a process;
* `targets`   where the execution of an element goes on;
* `Walk`   the coroutines that are under way;
* `next`   one step of one of them;
* `State`, `Act`, `step` the workflow, what can happen to it, and what it does then;
* `all_next`, `weigh_next`   what a step does to a property, and to a measure, of the coroutines.
-/

namespace Bpmn
open Py

/-! ## what is read of a process -/

/-- an event definition; its type is an enum member in a compiled process, and a number in one
that was read back -/
structure Definition where
  type : Object
  timerValue : Option String

/-- an element: its class, and the attributes of that class that the workflow reads -/
structure Node where
  cls : Cls
  id : String
  name : Option String := none
  definitions : List Definition := []
  defaultFlow : Option String := none
  multiType : Object := .member (.multi .none)
  collection : Option String := none
  formKey : Option String := none

structure Graph where
  elements : List (String × Node)
  flows : List (String × SequenceFlow)

/-- `o == m` for an enum member `m` -/
def isMember (m : Member) : Object → Bool
  | .member m' => m' = m
  | _ => false

/-- `bool(s)` of a string that may be `None` -/
def truthy (s : Option String) : Bool := s.isSome && s ≠ some ""

/-- `process.outgoing_flows(element_id)` -/
def Graph.outgoingFlows (g : Graph) (eid : String) : List SequenceFlow :=
  (g.flows.map Prod.snd).filter fun f => f.sourceRef = eid

/-- `process.start_events`, their ids -/
def Graph.startEvents (g : Graph) : List String :=
  ((g.elements.map Prod.snd).filter fun n => n.cls = .startEvent).map Node.id

/-- `process.flows.get(gateway.default_flow)`, where there is a default -/
def Graph.default (g : Graph) (n : Node) : Option SequenceFlow :=
  match n.defaultFlow with
  | some fid => if fid = "" then none else g.flows.lookup fid
  | none => none

/-! ## where an element leads -/

section
variable {V : Type} (g : Graph) (holds : String → V → Bool)

/-- `flow.condition and _evaluate_condition(flow.condition, self._variables)` -/
def conditionHolds (vars : V) (f : SequenceFlow) : Bool :=
  match f.condition with
  | some c => c ≠ "" && holds c vars
  | none => false

/-- the first flow whose condition holds, the default flow, or else the first flow -/
def handleExclusiveGateway (vars : V) (n : Node) : List String :=
  let outgoing := g.outgoingFlows n.id
  match outgoing.find? fun f => some f.id ≠ n.defaultFlow && conditionHolds holds vars f with
  | some f => [f.targetRef]
  | none =>
    match g.default n with
    | some f => [f.targetRef]
    | none => (outgoing.take 1).map SequenceFlow.targetRef

def handleParallelGateway (n : Node) : List String :=
  (g.outgoingFlows n.id).map SequenceFlow.targetRef

/-- every flow without a condition or whose condition holds, and the default flow if there is none;
the default flow is never among the first -/
def handleInclusiveGateway (vars : V) (n : Node) : List String :=
  let active := (g.outgoingFlows n.id).filter fun f =>
    some f.id ≠ n.defaultFlow && (!truthy f.condition || conditionHolds holds vars f)
  if active.isEmpty then ((g.default n).map SequenceFlow.targetRef).toList
  else active.map SequenceFlow.targetRef

def handleEventBasedGateway (n : Node) : List String :=
  ((g.outgoingFlows n.id).take 1).map SequenceFlow.targetRef

def targets (vars : V) (eid : String) (n : Node) : List String :=
  match n.cls with
  | .endEvent => []
  | .exclusiveGateway => handleExclusiveGateway g holds vars n
  | .parallelGateway => handleParallelGateway g n
  | .inclusiveGateway => handleInclusiveGateway g holds vars n
  | .eventBasedGateway => handleEventBasedGateway g n
  | _ => (g.outgoingFlows eid).map SequenceFlow.targetRef

variable {g holds} in
theorem exists_flow_of_mem_targets {vars : V} {eid t : String} {n : Node} (hid : n.id = eid)
    (h : t ∈ targets g holds vars eid n) :
    ∃ f, f.targetRef = t ∧ (f ∈ g.outgoingFlows eid ∨ g.default n = some f) := by
  subst hid
  have htake : t ∈ ((g.outgoingFlows n.id).take 1).map SequenceFlow.targetRef →
      ∃ f, f.targetRef = t ∧ (f ∈ g.outgoingFlows n.id ∨ g.default n = some f) := by
    intro ht
    obtain ⟨f, hf, rfl⟩ := List.mem_map.mp ht
    exact ⟨f, rfl, Or.inl (List.mem_of_mem_take hf)⟩
  have hall : t ∈ (g.outgoingFlows n.id).map SequenceFlow.targetRef →
      ∃ f, f.targetRef = t ∧ (f ∈ g.outgoingFlows n.id ∨ g.default n = some f) := by
    intro ht
    obtain ⟨f, hf, rfl⟩ := List.mem_map.mp ht
    exact ⟨f, rfl, Or.inl hf⟩
  rw [targets] at h
  split at h
  · cases h
  · rw [handleExclusiveGateway] at h
    split at h
    next f hf =>
      rw [List.mem_singleton.mp h]
      exact ⟨f, rfl, Or.inl (List.mem_of_find?_eq_some hf)⟩
    next =>
      split at h
      next f hf =>
        rw [List.mem_singleton.mp h]
        exact ⟨f, rfl, Or.inr hf⟩
      next => exact htake h
  · exact hall h
  · rw [handleInclusiveGateway] at h
    split at h
    · rw [Option.mem_toList] at h
      obtain ⟨f, hf, rfl⟩ := Option.map_eq_some_iff.mp h
      exact ⟨f, rfl, Or.inr hf⟩
    · obtain ⟨f, hf, rfl⟩ := List.mem_map.mp h
      exact ⟨f, rfl, Or.inl (List.mem_of_mem_filter hf)⟩
  · exact htake h
  · exact hall h

/-- the gateways that run their targets side by side -/
def Node.gathers (n : Node) : Bool := n.cls = .parallelGateway || n.cls = .inclusiveGateway

/-- `_handle_end_event` raises for an error definition; it only logs a terminate definition -/
def Node.raises (n : Node) : Bool :=
  n.cls = .endEvent && n.definitions.any fun d => isMember (.event .error) d.type

/-- `_handle_intermediate_catch` waits for a timer, a message or a signal -/
def Definition.awaited (d : Definition) : Bool :=
  (isMember (.event .timer) d.type && truthy d.timerValue) ||
    isMember (.event .message) d.type || isMember (.event .signal) d.type

def Cls.isTask : Cls → Bool
  | .userTask | .serviceTask | .scriptTask | .sendTask | .receiveTask | .manualTask
  | .businessRuleTask | .genericTask | .subProcess => true
  | _ => false

/-- the elements that wait for something before their flows are followed: a task for its activity,
a subprocess for its child workflow, a catch event for its first definition -/
def Node.awaits (n : Node) : Bool :=
  n.cls.isTask || (n.cls = .intermediateCatchEvent && (n.definitions.take 1).any Definition.awaited)

/-- `mi.type != MultiInstanceType.NONE and mi.collection` -/
def Node.multiple (n : Node) : Bool :=
  !isMember (.multi .none) n.multiType && truthy n.collection

/-! ## coroutines -/

/-- an execution under way; a call that waits keeps how many completion signals had been received
when it began, which the source has no need of -/
inductive Walk where
  | done
  /-- `_execute_element(eid)` is called next -/
  | called (eid : String)
  /-- the activity, the child workflow or the event of an element is awaited -/
  | working (eid : String) (since : Nat)
  /-- a user task waits for its completion signal -/
  | waiting (eid : String) (since : Nat)
  /-- `for ..: await self._execute_element(..)` -/
  | inOrder (now : Walk) (later : List String)
  /-- `asyncio.gather` -/
  | both (left right : Walk)

/-- an entry of `_pending_user_tasks` -/
structure Pending where
  taskId : String
  taskName : Option String
  formKey : Option String

/-- what a step does to the workflow, besides moving on -/
inductive Note where
  | quiet
  | visits (eid : String)
  | fails (eid : String)
  | pends (p : Pending)
  | continues (taskId : String) (since : Nat)

/-- the element whose activity the coroutine at a path awaits -/
def Walk.workingAt : Walk → List Bool → Option String
  | .working eid _, _ => some eid
  | .inOrder now _, path => now.workingAt path
  | .both left _, false :: path => left.workingAt path
  | .both _ right, true :: path => right.workingAt path
  | _, _ => none

def Walk.isDone : Walk → Bool
  | .done => true
  | _ => false

theorem Walk.eq_done {w : Walk} (h : w.isDone = true) : w = .done := by
  cases w with
  | done => rfl
  | _ => cases h

def gather : List String → Walk
  | [] => .done
  | t :: ts => .both (.called t) (gather ts)

def goOn (vars : V) (eid : String) (n : Node) : Walk :=
  let ts := targets g holds vars eid n
  if n.gathers ∧ 2 ≤ ts.length then gather ts else .inOrder .done ts

/-- `_execute_element(eid)` up to its first wait -/
def executeElement (vars : V) (since : Nat) (eid : String) : Walk × Note :=
  match g.elements.lookup eid with
  | none => (.done, .quiet)
  | some n =>
    if n.raises then (.done, .fails eid)
    else if n.awaits then (.working eid since, .visits eid)
    else (goOn g holds vars eid n, .visits eid)

/-- what was awaited is there: a user task that is not multi-instance is listed and waits for its
signal, every other element goes on -/
def finish (vars : V) (eid : String) (since : Nat) : Walk × Note :=
  match g.elements.lookup eid with
  | none => (.done, .quiet)
  | some n =>
    if n.cls = .userTask then
      if n.multiple then (goOn g holds vars eid n, .continues n.id since)
      else (.waiting eid since, .pends ⟨n.id, n.name, n.formKey⟩)
    else (goOn g holds vars eid n, .quiet)

/-- the wait condition `task_id in self._completed_user_task_ids` -/
def resume (vars : V) (completed : List String) (eid : String) (since : Nat) :
    Option (Walk × Note) :=
  match g.elements.lookup eid with
  | none => none
  | some n =>
    if n.id ∈ completed then some (goOn g holds vars eid n, .continues n.id since) else none

/-- one step of the coroutine a path leads to; `none` where it has none to take -/
def next (vars : V) (completed : List String) : Walk → List Bool → Option (Walk × Note)
  | .done, _ => none
  | .called eid, _ => some (executeElement g holds vars completed.length eid)
  | .working eid since, _ => some (finish g holds vars eid since)
  | .waiting eid since, _ => resume g holds vars completed eid since
  | .inOrder now later, path =>
    match next vars completed now path with
    | some r => some (.inOrder r.1 later, r.2)
    | none =>
      if now.isDone then
        match later with
        | [] => some (.done, .quiet)
        | t :: ts => some (.inOrder (.called t) ts, .quiet)
      else none
  | .both left right, [] => if left.isDone && right.isDone then some (.done, .quiet) else none
  | .both left right, false :: path =>
    (next vars completed left path).map fun r => (.both r.1 right, r.2)
  | .both left right, true :: path =>
    (next vars completed right path).map fun r => (.both left r.1, r.2)

theorem next_inOrder (vars : V) (completed : List String) (now : Walk) (later : List String)
    (path : List Bool) : next g holds vars completed (.inOrder now later) path =
      match next g holds vars completed now path with
      | some r => some (.inOrder r.1 later, r.2)
      | none =>
        if now.isDone then
          match later with
          | [] => some (.done, .quiet)
          | t :: ts => some (.inOrder (.called t) ts, .quiet)
        else none := by
  rw [next.eq_def]

/-! ## the workflow -/

structure State (V : Type) where
  walk : Walk
  vars : V
  visited : List String
  /-- the ids added to `_completed_user_task_ids`, in order -/
  completed : List String
  pending : List Pending
  failed : Bool

inductive Act (V : Type) where
  /-- the event loop runs the coroutine a path leads to; what it has awaited may bring variables -/
  | turn (path : List Bool) (update : V → V)
  /-- an activity fails for good, or a wait times out -/
  | raised
  | userTaskCompleted (taskId : String) (update : V → V)
  | messageReceived (update : V → V)

/-- a coroutine waits for something outside the workflow -/
def Walk.awaiting : Walk → Bool
  | .done | .called _ => false
  | .working _ _ | .waiting _ _ => true
  | .inOrder now _ => now.awaiting
  | .both left right => left.awaiting || right.awaiting

/-- `run` has returned -/
def State.over (s : State V) : Bool := s.failed || s.walk.isDone

/-- the status is `completed` -/
def State.finished (s : State V) : Bool := !s.failed && s.walk.isDone

def State.apply (s : State V) : Note → State V
  | .quiet => s
  | .visits eid => { s with visited := s.visited ++ [eid] }
  | .fails eid => { s with visited := s.visited ++ [eid], failed := true }
  | .pends p => { s with pending := s.pending ++ [p] }
  | .continues _ _ => s

/-- the elements a step adds to `_visited` -/
def Note.visited : Note → List String
  | .visits eid | .fails eid => [eid]
  | _ => []

theorem apply_visited (s : State V) (note : Note) :
    (s.apply note).visited = s.visited ++ note.visited := by
  cases note with
  | visits eid | fails eid => rfl
  | quiet | pends p | continues taskId since => exact (List.append_nil _).symm

theorem apply_failed (s : State V) {note : Note} (h : ∀ eid, note ≠ .fails eid) :
    (s.apply note).failed = s.failed := by
  cases note with
  | fails eid => exact absurd rfl (h eid)
  | _ => rfl

theorem apply_completed (s : State V) (note : Note) :
    (s.apply note).completed = s.completed := by
  cases note <;> rfl

def onUserTaskCompleted (s : State V) (taskId : String) (update : V → V) : State V :=
  { s with
    vars := update s.vars
    completed := s.completed ++ [taskId]
    pending := s.pending.filter fun p => p.taskId ≠ taskId }

def State.stepOf (s : State V) : Act V → Option (Walk × Note)
  | .turn path _ => if s.over then none else next g holds s.vars s.completed s.walk path
  | _ => none

def step (s : State V) (a : Act V) : State V :=
  if s.over then s
  else
    match a with
    | .turn path update =>
      match next g holds s.vars s.completed s.walk path with
      | some (w, note) => { s.apply note with walk := w, vars := update s.vars }
      | none => s
    | .raised => if s.walk.awaiting then { s with failed := true } else s
    | .userTaskCompleted taskId update => onUserTaskCompleted s taskId update
    | .messageReceived update => { s with vars := update s.vars }

/-- `run` executes the start events one after the other -/
def init (vars : V) : State V where
  walk := .inOrder .done g.startEvents
  vars := vars
  visited := []
  completed := []
  pending := []
  failed := false

variable {g holds}

theorem step_of_stepOf {s : State V} {a : Act V} {w : Walk} {note : Note}
    (h : s.stepOf g holds a = some (w, note)) :
    ∃ path update, a = .turn path update ∧
      next g holds s.vars s.completed s.walk path = some (w, note) ∧
      step g holds s a = { s.apply note with walk := w, vars := update s.vars } := by
  cases a with
  | turn path update =>
    rw [State.stepOf] at h
    split at h
    · cases h
    next ho => exact ⟨path, update, rfl, h, by rw [step.eq_def, if_neg ho]; simp only [h]⟩
  | _ => cases h

theorem step_cases (s : State V) (a : Act V) :
    step g holds s a = s ∨
    (∃ w note, s.stepOf g holds a = some (w, note)) ∨
    step g holds s a = { s with failed := true } ∨
    (∃ taskId update, step g holds s a = onUserTaskCompleted s taskId update) ∨
    ∃ update : V → V, step g holds s a = { s with vars := update s.vars } := by
  by_cases ho : s.over
  · exact Or.inl (by rw [step.eq_def, if_pos ho])
  · rw [step.eq_def, if_neg ho]
    cases a with
    | turn path update =>
      cases hn : next g holds s.vars s.completed s.walk path with
      | none => exact Or.inl (by simp only [hn])
      | some r => exact Or.inr (Or.inl ⟨r.1, r.2, by rw [State.stepOf, if_neg ho, hn]⟩)
    | raised =>
      by_cases hw : s.walk.awaiting
      · exact Or.inr (Or.inr (Or.inl (if_pos hw)))
      · exact Or.inl (if_neg hw)
    | userTaskCompleted taskId update =>
      exact Or.inr (Or.inr (Or.inr (Or.inl ⟨taskId, update, rfl⟩)))
    | messageReceived update => exact Or.inr (Or.inr (Or.inr (Or.inr ⟨update, rfl⟩)))

/-! ## what a step of a coroutine preserves -/

/-- every call, every awaited activity and every waiting user task of the walk has its property -/
def Walk.All (C : String → Prop) (W Q : String → Nat → Prop) : Walk → Prop
  | .done => True
  | .called eid => C eid
  | .working eid since => W eid since
  | .waiting eid since => Q eid since
  | .inOrder now later => now.All C W Q ∧ ∀ t ∈ later, C t
  | .both left right => left.All C W Q ∧ right.All C W Q

theorem all_gather {C : String → Prop} {W Q : String → Nat → Prop} {ts : List String}
    (h : ∀ t ∈ ts, C t) : (gather ts).All C W Q := by
  induction ts with
  | nil => trivial
  | cons t ts ih =>
    exact ⟨h t List.mem_cons_self, ih fun t' ht' => h t' (List.mem_cons_of_mem _ ht')⟩

theorem all_goOn {C : String → Prop} {W Q : String → Nat → Prop} {vars : V} {eid : String}
    {n : Node} (h : ∀ t ∈ targets g holds vars eid n, C t) :
    (goOn g holds vars eid n).All C W Q := by
  rw [goOn]
  split
  · exact all_gather h
  · exact ⟨trivial, h⟩

/-- a property of the parts of a walk, and of the notes, that holds where one part goes on holds
where the walk does -/
theorem all_next {C : String → Prop} {W Q : String → Nat → Prop} {N : Note → Prop} {vars : V}
    {completed : List String} (hquiet : N .quiet)
    (hcalled : ∀ eid, C eid → (executeElement g holds vars completed.length eid).1.All C W Q ∧
      N (executeElement g holds vars completed.length eid).2)
    (hwaiting : ∀ eid since r, Q eid since → resume g holds vars completed eid since = some r →
      r.1.All C W Q ∧ N r.2)
    {w : Walk} {path : List Bool} {r : Walk × Note}
    (hworking : ∀ eid since, w.workingAt path = some eid → W eid since →
      (finish g holds vars eid since).1.All C W Q ∧ N (finish g holds vars eid since).2)
    (hw : w.All C W Q) (hr : next g holds vars completed w path = some r) :
    r.1.All C W Q ∧ N r.2 := by
  induction w generalizing path r with
  | done => cases hr
  | called eid =>
    cases hr
    exact hcalled eid hw
  | working eid since =>
    cases hr
    exact hworking eid since rfl hw
  | waiting eid since => exact hwaiting eid since r hw hr
  | inOrder now later ih =>
    rw [next_inOrder] at hr
    cases hnow : next g holds vars completed now path with
    | some r' =>
      rw [hnow] at hr
      cases hr
      have h := ih hworking hw.1 hnow
      exact ⟨⟨h.1, hw.2⟩, h.2⟩
    | none =>
      rw [hnow] at hr
      by_cases hd : now.isDone
      · rw [if_pos hd] at hr
        cases later with
        | nil =>
          cases hr
          exact ⟨trivial, hquiet⟩
        | cons t ts =>
          cases hr
          exact ⟨⟨hw.2 t List.mem_cons_self, fun t' ht' => hw.2 t' (List.mem_cons_of_mem _ ht')⟩,
            hquiet⟩
      · rw [if_neg hd] at hr
        cases hr
  | both left right ihl ihr =>
    cases path with
    | nil =>
      rw [next] at hr
      split at hr
      · cases hr
        exact ⟨trivial, hquiet⟩
      · cases hr
    | cons b path =>
      cases b with
      | false =>
        obtain ⟨r', hr', rfl⟩ := Option.map_eq_some_iff.mp hr
        have h := ihl hworking hw.1 hr'
        exact ⟨⟨h.1, hw.2⟩, h.2⟩
      | true =>
        obtain ⟨r', hr', rfl⟩ := Option.map_eq_some_iff.mp hr
        have h := ihr hworking hw.2 hr'
        exact ⟨⟨hw.1, h.1⟩, h.2⟩

/-- the sum of the weights of the calls and of the waiting parts of a walk -/
def Walk.weigh (call held : String → Nat) : Walk → Nat
  | .done => 0
  | .called eid => call eid
  | .working eid _ | .waiting eid _ => held eid
  | .inOrder now later => now.weigh call held + (later.map call).sum
  | .both left right => left.weigh call held + right.weigh call held

theorem weigh_gather (call held : String → Nat) (ts : List String) :
    (gather ts).weigh call held = (ts.map call).sum := by
  induction ts with
  | nil => rfl
  | cons t ts ih => rw [gather, Walk.weigh, ih, Walk.weigh, List.map_cons, List.sum_cons]

theorem weigh_goOn (call held : String → Nat) (vars : V) (eid : String) (n : Node) :
    (goOn g holds vars eid n).weigh call held =
      ((targets g holds vars eid n).map call).sum := by
  rw [goOn]
  split
  · exact weigh_gather call held _
  · rw [Walk.weigh, Walk.weigh, Nat.zero_add]

/-- where each part of a walk goes on without losing more weight than the note makes up for, the
walk does so too -/
theorem weigh_next {call held : String → Nat} (loss gain : Note → Nat) {vars : V}
    {completed : List String} (hquiet : loss .quiet = 0)
    (hcalled : ∀ eid, call eid + loss (executeElement g holds vars completed.length eid).2 ≤
      (executeElement g holds vars completed.length eid).1.weigh call held +
        gain (executeElement g holds vars completed.length eid).2)
    (hworking : ∀ eid since, held eid + loss (finish g holds vars eid since).2 ≤
      (finish g holds vars eid since).1.weigh call held + gain (finish g holds vars eid since).2)
    (hwaiting : ∀ eid since r, resume g holds vars completed eid since = some r →
      held eid + loss r.2 ≤ r.1.weigh call held + gain r.2)
    {w : Walk} {path : List Bool} {r : Walk × Note}
    (hr : next g holds vars completed w path = some r) :
    w.weigh call held + loss r.2 ≤ r.1.weigh call held + gain r.2 := by
  induction w generalizing path r with
  | done => cases hr
  | called eid =>
    cases hr
    exact hcalled eid
  | working eid since =>
    cases hr
    exact hworking eid since
  | waiting eid since => exact hwaiting eid since r hr
  | inOrder now later ih =>
    rw [next_inOrder] at hr
    cases hnow : next g holds vars completed now path with
    | some r' =>
      rw [hnow] at hr
      cases hr
      have h := ih hnow
      simp only [Walk.weigh]
      omega
    | none =>
      rw [hnow] at hr
      by_cases hd : now.isDone
      · rw [if_pos hd] at hr
        obtain rfl := Walk.eq_done hd
        cases later with
        | nil =>
          cases hr
          simp [Walk.weigh, hquiet]
        | cons t ts =>
          cases hr
          simp [Walk.weigh, hquiet]
      · rw [if_neg hd] at hr
        cases hr
  | both left right ihl ihr =>
    cases path with
    | nil =>
      rw [next] at hr
      split at hr
      next hd =>
        cases hr
        rw [Bool.and_eq_true] at hd
        obtain rfl := Walk.eq_done hd.1
        obtain rfl := Walk.eq_done hd.2
        simp [Walk.weigh, hquiet]
      next => cases hr
    | cons b path =>
      cases b with
      | false =>
        obtain ⟨r', hr', rfl⟩ := Option.map_eq_some_iff.mp hr
        have h := ihl hr'
        simp only [Walk.weigh]
        omega
      | true =>
        obtain ⟨r', hr', rfl⟩ := Option.map_eq_some_iff.mp hr
        have h := ihr hr'
        simp only [Walk.weigh]
        omega

end

end Bpmn
