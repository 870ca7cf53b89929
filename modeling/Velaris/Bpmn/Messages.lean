import Velaris.Bpmn.Loaded
import Velaris.Py.Runtime

/-!
# Message catches

A message reaches the workflow as a signal.  `on_message_received` takes over the variables that
come with it, and logs its name; a message catch waits for its name to be in the variable
`_received_messages`, which nothing in the engine writes.  A process is read back before it runs,
and a message catch that was read back does not wait.

* `received`, `waitCondition`   what a message catch waits for;
* `Flow`, `Move`, `move`   the workflow, with the messages delivered to it;
* `Exact`   the wait conditions are those of the messages delivered, and no
    catch went on without its message;
* `Told`   a step that keeps the variable up to date with the messages;
* `caught_exactly_iff`   the runs that are exact all the way.
-/

namespace Bpmn
open Py

/-! ## the wait condition -/

/-- `x in v`; where it raises, the catch fails and does not go on -/
def contained (x : Value) : Value → Bool
  | .list xs => x.elem xs
  | .dict d =>
    match x with
    | .str k => Dict.has d k
    | _ => false
  | .str s =>
    match x with
    | .str k => substr k.toList s.toList
    | _ => false
  | _ => false

/-- `self._variables.get("_received_messages", [])` -/
def received (vars : Dict) : Value := (vars.lookup "_received_messages").getD (.list [])

def refValue : Option String → Value
  | some m => .str m
  | none => .none

/-- `defn.message_ref in self._variables.get("_received_messages", [])` -/
def waitCondition (messageRef : Option String) (vars : Dict) : Bool :=
  contained (refValue messageRef) (received vars)

/-! ## message catches -/

/-- the definition is of a message, as it was compiled or as it is read back -/
def Definition.ofMessage (d : Definition) : Bool :=
  isMember (.event .message) d.type ||
    match d.type with
    | .int k => k = EventType.message.value
    | _ => false

def Node.messageCatch (n : Node) : Bool :=
  n.cls = .intermediateCatchEvent && (n.definitions.take 1).any Definition.ofMessage

/-- `_handle_intermediate_catch` comes to the `wait_condition` of a message -/
def Node.waitsForMessage (n : Node) : Bool :=
  n.cls = .intermediateCatchEvent &&
    (n.definitions.take 1).any fun d => isMember (.event .message) d.type

def Walk.calledAt : Walk → List Bool → Option String
  | .called eid, _ => some eid
  | .inOrder now _, path => now.calledAt path
  | .both left _, false :: path => left.calledAt path
  | .both _ right, true :: path => right.calledAt path
  | _, _ => none

section
variable (g : Graph) (holds : String → Dict → Bool) (messageRef : String → Option String)

def Graph.Awaits (m : String) : Prop :=
  ∃ eid n, g.elements.lookup eid = some n ∧ n.waitsForMessage = true ∧ messageRef eid = some m

/-! ## the workflow and its messages -/

structure Flow where
  state : State Dict
  /-- the names of the messages delivered, the newest first -/
  delivered : List String
  /-- the messages that were missing when a catch for them went on -/
  early : List String

/-- what can happen; what an activity returns, and what a signal carries, are variables -/
inductive Move where
  | turn (path : List Bool) (result : Dict)
  | raised
  | userTaskCompleted (taskId : String) (submitted : Dict)
  | messageReceived (messageRef : String) (payload : Dict)

def Move.act : Move → Act Dict
  | .turn path result => .turn path fun vars => vars.update result
  | .raised => .raised
  | .userTaskCompleted taskId submitted =>
    .userTaskCompleted taskId fun vars => vars.update submitted
  | .messageReceived _ payload => .messageReceived fun vars => vars.update payload

/-- the coroutine at the path is at a message catch whose wait condition does not hold -/
def Flow.held (f : Flow) (path : List Bool) : Bool :=
  (f.state.walk.workingAt path).any fun eid => (g.elements.lookup eid).any fun n =>
    n.waitsForMessage && !waitCondition (messageRef eid) f.state.vars

/-- the element whose flows the step at the path comes to -/
def Flow.passes (f : Flow) (path : List Bool) : Option String :=
  match f.state.walk.workingAt path with
  | some eid => some eid
  | none => (f.state.walk.calledAt path).filter fun eid => !(g.elements.lookup eid).any Node.awaits

def Flow.caught (f : Flow) (path : List Bool) : Option String :=
  (f.passes g path).bind fun eid => (g.elements.lookup eid).bind fun n =>
    if n.messageCatch then messageRef eid else none

def move (f : Flow) (a : Move) : Flow :=
  if f.state.over then f
  else
    match a with
    | .turn path _ =>
      if f.held g messageRef path then f
      else
        { f with
          state := step g holds f.state a.act
          early := ((f.caught g messageRef path).filter (· ∉ f.delivered)).toList ++ f.early }
    | .messageReceived m _ =>
      { f with state := step g holds f.state a.act, delivered := m :: f.delivered }
    | .raised | .userTaskCompleted _ _ => { f with state := step g holds f.state a.act }

/-- `run` sets the variables; the messages that come with the start are handled before -/
def start (vars : Dict) (before : List String) : Flow where
  state := init g vars
  delivered := before
  early := []

/-! ## exactness -/

/-- the wait condition of each message is that it was delivered -/
def Matches (vars : Dict) (delivered : List String) : Prop :=
  ∀ m, g.Awaits messageRef m → (waitCondition (some m) vars = true ↔ m ∈ delivered)

/-- the wait condition of a catch holds if and only if its message has been delivered, and no catch
has gone on without its message -/
structure Exact (f : Flow) : Prop where
  conditions : Matches g messageRef f.state.vars f.delivered
  early : f.early = []

/-- variables that are written while messages go from `before` to `after`: a new
`_received_messages` has those that are awaited, and without one no awaited message is new -/
def Recorded (new : Dict) (before after : List String) : Prop :=
  match new.lookup "_received_messages" with
  | some v => ∀ m, g.Awaits messageRef m → (contained (.str m) v = true ↔ m ∈ after)
  | none => ∀ m, g.Awaits messageRef m → m ∈ after → m ∈ before

/-- the catch that does not wait goes on after its message only -/
def PassesLate (f : Flow) (path : List Bool) : Prop :=
  ∀ eid n m, f.passes g path = some eid → g.elements.lookup eid = some n →
    n.messageCatch = true → n.waitsForMessage = false → messageRef eid = some m → m ∈ f.delivered

/-- what the step writes keeps `_received_messages` up to date -/
def Told (f : Flow) (a : Move) : Prop :=
  f.state.over = false →
    match a with
    | .turn path result => f.held g messageRef path = false →
        ((next g holds f.state.vars f.state.completed f.state.walk path).isSome = true →
          Recorded g messageRef result f.delivered f.delivered) ∧
        PassesLate g messageRef f path
    | .raised => True
    | .userTaskCompleted _ submitted => Recorded g messageRef submitted f.delivered f.delivered
    | .messageReceived m payload =>
        Recorded g messageRef payload f.delivered (m :: f.delivered)

variable {g holds messageRef}

theorem matches_update_iff {vars new : Dict} {before after : List String}
    (h : Matches g messageRef vars before) (hsub : before ⊆ after) :
    Matches g messageRef (vars.update new) after ↔ Recorded g messageRef new before after := by
  have hreceived : received (vars.update new) =
      (new.lookup "_received_messages").getD (received vars) := by
    unfold received
    rw [Dict.lookup_update, Dict.has, Dict.get]
    cases new.lookup "_received_messages" <;> rfl
  unfold Matches Recorded waitCondition
  rw [hreceived]
  cases new.lookup "_received_messages" with
  | some v => exact Iff.rfl
  | none =>
    show (∀ m, _ → (waitCondition (some m) vars = true ↔ m ∈ after)) ↔ _
    apply forall_congr'
    intro m
    apply imp_congr_right
    intro hm
    rw [h m hm]
    constructor
    · intro hiff
      exact hiff.mpr
    · intro hback
      exact ⟨fun hin => hsub hin, hback⟩

/-! ## one step -/

theorem awaits_of_waitsForMessage {n : Node} (h : n.waitsForMessage = true) : n.awaits = true := by
  unfold Node.waitsForMessage at h
  rw [Bool.and_eq_true, List.any_eq_true] at h
  obtain ⟨hcls, d, hd, htype⟩ := h
  have hany : (n.definitions.take 1).any Definition.awaited = true := by
    rw [List.any_eq_true]
    exact ⟨d, hd, by rw [Definition.awaited, htype, Bool.or_true, Bool.true_or]⟩
  rw [Node.awaits, hany, hcls]
  exact Bool.or_true _

theorem waitCondition_of_passes {f : Flow} {path : List Bool} {eid : String} {n : Node}
    (hheld : f.held g messageRef path = false) (hp : f.passes g path = some eid)
    (hn : g.elements.lookup eid = some n) (hwaits : n.waitsForMessage = true) :
    waitCondition (messageRef eid) f.state.vars = true := by
  unfold Flow.passes at hp
  cases hworking : f.state.walk.workingAt path with
  | none =>
    rw [hworking] at hp
    obtain ⟨-, hawaits⟩ := Option.filter_eq_some_iff.mp hp
    rw [hn] at hawaits
    have hn' : n.awaits = true := awaits_of_waitsForMessage hwaits
    have hnot : (!n.awaits) = true := hawaits
    rw [hn'] at hnot
    cases hnot
  | some e =>
    rw [hworking] at hp
    obtain rfl : e = eid := Option.some.inj hp
    unfold Flow.held at hheld
    rw [hworking, Option.any_some, hn, Option.any_some, hwaits, Bool.true_and] at hheld
    simpa using hheld

theorem caught_delivered_iff {f : Flow} (h : Exact g messageRef f) {path : List Bool}
    (hheld : f.held g messageRef path = false) :
    ((f.caught g messageRef path).filter (· ∉ f.delivered)).toList ++ f.early = [] ↔
      PassesLate g messageRef f path := by
  rw [h.early, List.append_nil, Option.toList_eq_nil_iff, Option.filter_eq_none_iff]
  constructor
  · intro hall eid n m hp hn hcatch _ href
    have hcaught : f.caught g messageRef path = some m := by
      unfold Flow.caught
      rw [hp, Option.bind_some, hn, Option.bind_some, if_pos hcatch, href]
    simpa using hall m hcaught
  · intro hlate m hcaught
    show ¬ decide (m ∉ f.delivered) = true
    rw [decide_eq_true_eq, not_not]
    unfold Flow.caught at hcaught
    obtain ⟨eid, hp, hbind⟩ := Option.bind_eq_some_iff.mp hcaught
    obtain ⟨n, hn, hif⟩ := Option.bind_eq_some_iff.mp hbind
    split at hif
    next hcatch =>
      cases hwaits : n.waitsForMessage with
      | false => exact hlate eid n m hp hn hcatch hwaits hif
      | true =>
        have hcond := waitCondition_of_passes hheld hp hn hwaits
        rw [hif] at hcond
        exact (h.conditions m ⟨eid, n, hn, hwaits, hif⟩).mp hcond
    next => cases hif

theorem vars_step_turn {s : State Dict} (ho : s.over = false) (path : List Bool) (result : Dict) :
    (step g holds s (Move.turn path result).act).vars =
      if (next g holds s.vars s.completed s.walk path).isSome = true then s.vars.update result
      else s.vars := by
  show (step g holds s (.turn path fun vars => vars.update result)).vars = _
  rw [step.eq_def, if_neg (by rw [ho]; exact Bool.false_ne_true)]
  cases hn : next g holds s.vars s.completed s.walk path <;> simp only [hn] <;> rfl

theorem exact_move_iff (f : Flow) (a : Move) (h : Exact g messageRef f) :
    Exact g messageRef (move g holds messageRef f a) ↔ Told g holds messageRef f a := by
  unfold move Told
  cases ho : f.state.over with
  | true => exact ⟨fun _ hfalse => (nomatch hfalse), fun _ => h⟩
  | false =>
    rw [if_neg Bool.false_ne_true, forall_prop_of_true rfl]
    have hwritten : ∀ (new : Dict) (after : List String), f.delivered ⊆ after →
        (Matches g messageRef (f.state.vars.update new) after ↔
          Recorded g messageRef new f.delivered after) :=
      fun new after hsub => matches_update_iff h.conditions hsub
    cases a with
    | raised =>
      have hsame : (step g holds f.state Move.raised.act).vars = f.state.vars := by
        show (step g holds f.state .raised).vars = _
        rw [step.eq_def, if_neg (by rw [ho]; exact Bool.false_ne_true)]
        show (ite _ _ _ : State Dict).vars = _
        split <;> rfl
      refine iff_of_true ⟨?_, h.early⟩ trivial
      show Matches _ _ (step g holds f.state Move.raised.act).vars _
      rw [hsame]
      exact h.conditions
    | userTaskCompleted taskId submitted =>
      show Exact _ _ _ ↔ Recorded _ _ _ _ _
      rw [← hwritten submitted f.delivered (List.Subset.refl _)]
      have hvars : (step g holds f.state (Move.userTaskCompleted taskId submitted).act).vars =
          f.state.vars.update submitted := by
        show (step g holds f.state (.userTaskCompleted taskId _)).vars = _
        rw [step.eq_def, if_neg (by rw [ho]; exact Bool.false_ne_true)]
        rfl
      rw [← hvars]
      exact ⟨fun hexact => hexact.conditions, fun hmatches => ⟨hmatches, h.early⟩⟩
    | messageReceived m payload =>
      show Exact _ _ _ ↔ Recorded _ _ _ _ _
      rw [← hwritten payload (m :: f.delivered) (List.subset_cons_self m _)]
      have hvars : (step g holds f.state (Move.messageReceived m payload).act).vars =
          f.state.vars.update payload := by
        show (step g holds f.state (.messageReceived _)).vars = _
        rw [step.eq_def, if_neg (by rw [ho]; exact Bool.false_ne_true)]
      rw [← hvars]
      exact ⟨fun hexact => hexact.conditions, fun hmatches => ⟨hmatches, h.early⟩⟩
    | turn path result =>
      show Exact _ _ (ite _ _ _) ↔ (f.held g messageRef path = false → _)
      cases hheld : f.held g messageRef path with
      | true => exact ⟨fun _ hfalse => (nomatch hfalse), fun _ => h⟩
      | false =>
        rw [if_neg Bool.false_ne_true, forall_prop_of_true rfl, ← caught_delivered_iff h hheld]
        have hmatches : Matches g messageRef
            (step g holds f.state (Move.turn path result).act).vars f.delivered ↔
              ((next g holds f.state.vars f.state.completed f.state.walk path).isSome = true →
                Recorded g messageRef result f.delivered f.delivered) := by
          rw [vars_step_turn ho]
          split
          next hsome =>
            rw [forall_prop_of_true hsome]
            exact hwritten result f.delivered (List.Subset.refl _)
          next hnone => exact iff_of_true h.conditions fun hsome => absurd hsome hnone
        rw [← hmatches]
        exact ⟨fun hexact => ⟨hexact.conditions, hexact.early⟩, fun hboth => ⟨hboth.1, hboth.2⟩⟩

/-! ## runs -/

/-- For every process, whatever the variables and the messages that it starts with and whatever
happens then: the wait conditions are those of the messages delivered in every state, and no catch
goes on without its message, exactly if the variables are so from the start and every step keeps
`_received_messages` up to date. -/
theorem caught_exactly_iff (g : Graph) (holds : String → Dict → Bool)
    (messageRef : String → Option String) (vars : Dict) (before : List String)
    (moves : List Move) :
    Base.Always (move g holds messageRef) (Exact g messageRef) (start g vars before) moves ↔
      Matches g messageRef vars before ∧
        Base.Along (move g holds messageRef) (Told g holds messageRef) (start g vars before)
          moves := by
  rw [Base.always_iff exact_move_iff]
  apply and_congr_left
  intro _
  exact ⟨fun h => h.conditions, fun h => ⟨h, rfl⟩⟩

end

/-! ## what runs -/

/-- every message catch of a compiled process is read back as one that does not wait -/
theorem catch_loaded (eid id : String) (name : Option String) (d : EventDefinition)
    (ds : List EventDefinition) (incoming outgoing : List String) (hd : d.type = .message) :
    ∃ n, (elementOf eid (serializeElement
        (.intermediateCatchEvent id name (d :: ds) incoming outgoing))).map Node.ofObj =
        .ok (some n) ∧ n.messageCatch = true ∧ n.waitsForMessage = false := by
  have hincoming := @rebuilt_strs "incoming" (by decide) incoming
  have houtgoing := @rebuilt_strs "outgoing" (by decide) outgoing
  have hf : (Obj.jsonSafeItems Member.value
      (Element.intermediateCatchEvent id name (d :: ds) incoming outgoing).fields).mapM
        (fun i => (rebuilt i.1 i.2).map (i.1, ·)) =
      .ok [("id", .str id), ("name", .ofOption name),
        ("definitions", .list ((d :: ds).map EventDefinition.loaded)),
        ("incoming", .strs incoming), ("outgoing", .strs outgoing)] := by
    simp only [Element.fields, Obj.jsonSafeItems, List.mapM_cons, List.mapM_nil, Obj.jsonSafe,
      rebuilt_str, rebuilt_ofOption, rebuilt_definitions, hincoming, houtgoing]
    rfl
  rw [elementOf_serializeElement, hf]
  refine ⟨_, rfl, ?_, rfl⟩
  show (true && (Definition.ofMessage ⟨.int d.type.value, _⟩ || false)) = true
  rw [hd]
  rfl

/-- a process that waits for the message `paid` -/
def payment : BPMNProcess where
  id := "payment"
  elements :=
    [("start", .startEvent "start" none [] ["f1"]),
      ("paid", .intermediateCatchEvent "paid" none
        [{ type := .message, messageRef := some "paid" }] ["f1"] ["f2"]),
      ("done", .endEvent "done" none [] ["f2"])]
  flows :=
    [("f1", { id := "f1", sourceRef := "start", targetRef := "paid" }),
      ("f2", { id := "f2", sourceRef := "paid", targetRef := "done" })]

def paymentLoaded : Graph :=
  ((deserializeProcess (serializeProcess payment)).toOption.bind Graph.ofObj).getD ⟨[], []⟩

def paymentCompiled : Graph := (Graph.ofObj (processObj payment)).getD ⟨[], []⟩

def paidRef (eid : String) : Option String := if eid = "paid" then some "paid" else none

def unconditional : String → Dict → Bool := fun _ _ => false

def turned (n : Nat) : List Move := List.replicate n (.turn [] [])

/-- What was read back is finished without the message.  In what was compiled the message is
delivered, and the catch waits on. -/
theorem payment_not_exact :
    (¬ Base.Always (move paymentLoaded unconditional paidRef) (Exact paymentLoaded paidRef)
        (start paymentLoaded [] []) (turned 10)) ∧
      (Base.exec (move paymentLoaded unconditional paidRef) (start paymentLoaded [] [])
        (turned 10)).state.finished = true ∧
      ¬ Base.Always (move paymentCompiled unconditional paidRef) (Exact paymentCompiled paidRef)
        (start paymentCompiled [] []) (turned 4 ++ [.messageReceived "paid" []]) := by
  refine ⟨?_, by decide +kernel, ?_⟩
  · intro h
    have hearly := (h (turned 10) [] (List.append_nil _).symm).early
    exact absurd hearly (by decide +kernel)
  · intro h
    have hcatch : paymentCompiled.Awaits paidRef "paid" :=
      ⟨"paid", _, rfl, rfl, rfl⟩
    have hcond := (h _ [] (List.append_nil _).symm).conditions "paid" hcatch
    exact absurd (hcond.mpr (by decide +kernel)) (by decide +kernel)

end Bpmn
