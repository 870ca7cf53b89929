import Velaris.Py.Dataclass

/-!
# The process model

The compiler's result is a `BPMNProcess`: the elements of a process by id, and its sequence flows.

* `SequenceFlow`, `EventDefinition`, `MultiInstanceConfig`, `Element`   the parts of a process;
* `ProcessOf El`   a process whose elements are of type `El`;
* `BPMNProcess`   a process as the compiler builds it;
* `Cls`, `classes`   the dataclasses of the model, with their fields and defaults;
* `Element.toObj`, `processObj`   elements and processes as the Python objects they are.
-/

namespace Bpmn
open Py

/-! ## enums -/

inductive GatewayDirection where
  | diverging | converging | mixed | unspecified
  deriving DecidableEq

inductive MultiInstanceType where
  | none | parallel | sequential
  deriving DecidableEq

inductive EventType where
  | none | timer | message | signal | error | escalation | compensation | conditional | terminate
  deriving DecidableEq

inductive Member where
  | direction (d : GatewayDirection)
  | multi (t : MultiInstanceType)
  | event (t : EventType)
  deriving DecidableEq

def GatewayDirection.value : GatewayDirection → String
  | .diverging => "diverging"
  | .converging => "converging"
  | .mixed => "mixed"
  | .unspecified => "unspecified"

def MultiInstanceType.value : MultiInstanceType → Int
  | .none => 1
  | .parallel => 2
  | .sequential => 3

def EventType.value : EventType → Int
  | .none => 1
  | .timer => 2
  | .message => 3
  | .signal => 4
  | .error => 5
  | .escalation => 6
  | .compensation => 7
  | .conditional => 8
  | .terminate => 9

/-- `member.value` -/
def Member.value : Member → Value
  | .direction d => .str d.value
  | .multi t => .int t.value
  | .event t => .int t.value

/-! ## dataclasses -/

inductive Cls where
  | sequenceFlow | eventDefinition | multiInstanceConfig
  | startEvent | endEvent | intermediateCatchEvent | intermediateThrowEvent | boundaryEvent
  | userTask | serviceTask | scriptTask | sendTask | receiveTask | manualTask
  | businessRuleTask | genericTask
  | exclusiveGateway | parallelGateway | inclusiveGateway | eventBasedGateway
  | subProcess | callActivity
  | bpmnProcess
  deriving DecidableEq

/-- `cls.__name__` -/
def Cls.name : Cls → String
  | .sequenceFlow => "SequenceFlow"
  | .eventDefinition => "EventDefinition"
  | .multiInstanceConfig => "MultiInstanceConfig"
  | .startEvent => "StartEvent"
  | .endEvent => "EndEvent"
  | .intermediateCatchEvent => "IntermediateCatchEvent"
  | .intermediateThrowEvent => "IntermediateThrowEvent"
  | .boundaryEvent => "BoundaryEvent"
  | .userTask => "UserTask"
  | .serviceTask => "ServiceTask"
  | .scriptTask => "ScriptTask"
  | .sendTask => "SendTask"
  | .receiveTask => "ReceiveTask"
  | .manualTask => "ManualTask"
  | .businessRuleTask => "BusinessRuleTask"
  | .genericTask => "GenericTask"
  | .exclusiveGateway => "ExclusiveGateway"
  | .parallelGateway => "ParallelGateway"
  | .inclusiveGateway => "InclusiveGateway"
  | .eventBasedGateway => "EventBasedGateway"
  | .subProcess => "SubProcess"
  | .callActivity => "CallActivity"
  | .bpmnProcess => "BPMNProcess"

abbrev Object := Obj Cls Member

/-- the fields of an instance, or the keyword arguments of a call -/
abbrev Fields := List (String × Object)

def required (f : String) : String × Option Object := (f, none)

/-- a field annotated `str | None = None` -/
def optional (f : String) : String × Option Object := (f, some .none)

/-- a field with `default_factory=list` -/
def listed (f : String) : String × Option Object := (f, some (.list []))

def multiInstanceFields : List (String × Option Object) :=
  [("type", some (.member (.multi .none))), optional "collection", optional "element_variable",
    optional "completion_condition"]

/-- `MultiInstanceConfig()` -/
def defaultMultiInstance : Object :=
  .inst .multiInstanceConfig [("type", .member (.multi .none)), ("collection", .none),
    ("element_variable", .none), ("completion_condition", .none)]

/-- the fields of `_TaskBase` -/
def taskBaseFields : List (String × Option Object) :=
  [required "id", optional "name", listed "incoming", listed "outgoing",
    ("multi_instance", some defaultMultiInstance), optional "default_flow",
    ("extensions", some (.dict []))]

/-- the fields of `_GatewayBase` -/
def gatewayBaseFields : List (String × Option Object) :=
  [required "id", optional "name", ("direction", some (.member (.direction .unspecified))),
    listed "incoming", listed "outgoing", optional "default_flow"]

def Cls.fields : Cls → List (String × Option Object)
  | .sequenceFlow =>
    [required "id", required "source_ref", required "target_ref", optional "name",
      optional "condition"]
  | .eventDefinition =>
    [("type", some (.member (.event .none))), optional "timer_value", optional "message_ref",
      optional "signal_ref", optional "error_ref"]
  | .multiInstanceConfig => multiInstanceFields
  | .startEvent => [required "id", optional "name", listed "definitions", listed "outgoing"]
  | .endEvent => [required "id", optional "name", listed "definitions", listed "incoming"]
  | .intermediateCatchEvent | .intermediateThrowEvent =>
    [required "id", optional "name", listed "definitions", listed "incoming", listed "outgoing"]
  | .boundaryEvent =>
    [required "id", required "attached_to", ("interrupting", some (.bool true)), optional "name",
      listed "definitions", listed "outgoing"]
  | .userTask =>
    taskBaseFields ++ [optional "form_key", optional "assignee", listed "candidate_groups"]
  | .serviceTask => taskBaseFields ++ [optional "implementation"]
  | .scriptTask =>
    taskBaseFields ++ [("language", some (.str "python")), ("script", some (.str ""))]
  | .sendTask => taskBaseFields ++ [optional "implementation", optional "message_ref"]
  | .receiveTask => taskBaseFields ++ [optional "message_ref"]
  | .manualTask | .genericTask => taskBaseFields
  | .businessRuleTask => taskBaseFields ++ [optional "decision_ref"]
  | .exclusiveGateway | .parallelGateway | .inclusiveGateway | .eventBasedGateway =>
    gatewayBaseFields
  | .subProcess => taskBaseFields ++ [optional "body"]
  | .callActivity => taskBaseFields ++ [optional "called_element"]
  | .bpmnProcess =>
    [required "id", optional "name", ("is_executable", some (.bool true)),
      ("elements", some (.dict [])), ("flows", some (.dict []))]

def classes : Classes Cls Member where
  name := Cls.name
  fields := Cls.fields
  nodup := by
    intro c
    cases c <;> decide

/-! ## the typed model -/

structure SequenceFlow where
  id : String
  sourceRef : String
  targetRef : String
  name : Option String := none
  condition : Option String := none

structure EventDefinition where
  type : EventType := .none
  timerValue : Option String := none
  messageRef : Option String := none
  signalRef : Option String := none
  errorRef : Option String := none

structure MultiInstanceConfig where
  type : MultiInstanceType := .none
  collection : Option String := none
  elementVariable : Option String := none
  completionCondition : Option String := none

/-- `_TaskBase` -/
structure TaskBase where
  id : String
  name : Option String := none
  incoming : List String := []
  outgoing : List String := []
  multiInstance : MultiInstanceConfig := {}
  defaultFlow : Option String := none
  extensions : Fields := []

/-- `_GatewayBase` -/
structure GatewayBase where
  id : String
  name : Option String := none
  direction : GatewayDirection := .unspecified
  incoming : List String := []
  outgoing : List String := []
  defaultFlow : Option String := none

/-- the dictionaries are their items in insertion order -/
structure ProcessOf (El : Type) where
  id : String
  name : Option String := none
  isExecutable : Bool := true
  elements : List (String × El) := []
  flows : List (String × SequenceFlow) := []

inductive Element where
  | startEvent (id : String) (name : Option String) (definitions : List EventDefinition)
      (outgoing : List String)
  | endEvent (id : String) (name : Option String) (definitions : List EventDefinition)
      (incoming : List String)
  | intermediateCatchEvent (id : String) (name : Option String)
      (definitions : List EventDefinition) (incoming outgoing : List String)
  | intermediateThrowEvent (id : String) (name : Option String)
      (definitions : List EventDefinition) (incoming outgoing : List String)
  | boundaryEvent (id attachedTo : String) (interrupting : Bool) (name : Option String)
      (definitions : List EventDefinition) (outgoing : List String)
  | userTask (base : TaskBase) (formKey assignee : Option String) (candidateGroups : List String)
  | serviceTask (base : TaskBase) (implementation : Option String)
  | scriptTask (base : TaskBase) (language script : String)
  | sendTask (base : TaskBase) (implementation messageRef : Option String)
  | receiveTask (base : TaskBase) (messageRef : Option String)
  | manualTask (base : TaskBase)
  | businessRuleTask (base : TaskBase) (decisionRef : Option String)
  | genericTask (base : TaskBase)
  | exclusiveGateway (base : GatewayBase)
  | parallelGateway (base : GatewayBase)
  | inclusiveGateway (base : GatewayBase)
  | eventBasedGateway (base : GatewayBase)
  | subProcess (base : TaskBase) (body : Option (ProcessOf Element))
  | callActivity (base : TaskBase) (calledElement : Option String)

abbrev BPMNProcess := ProcessOf Element

/-- `type(el)` -/
def Element.cls : Element → Cls
  | .startEvent .. => .startEvent
  | .endEvent .. => .endEvent
  | .intermediateCatchEvent .. => .intermediateCatchEvent
  | .intermediateThrowEvent .. => .intermediateThrowEvent
  | .boundaryEvent .. => .boundaryEvent
  | .userTask .. => .userTask
  | .serviceTask .. => .serviceTask
  | .scriptTask .. => .scriptTask
  | .sendTask .. => .sendTask
  | .receiveTask .. => .receiveTask
  | .manualTask .. => .manualTask
  | .businessRuleTask .. => .businessRuleTask
  | .genericTask .. => .genericTask
  | .exclusiveGateway .. => .exclusiveGateway
  | .parallelGateway .. => .parallelGateway
  | .inclusiveGateway .. => .inclusiveGateway
  | .eventBasedGateway .. => .eventBasedGateway
  | .subProcess .. => .subProcess
  | .callActivity .. => .callActivity

/-! ## the instances -/

def SequenceFlow.fields (f : SequenceFlow) : Fields :=
  [("id", .str f.id), ("source_ref", .str f.sourceRef), ("target_ref", .str f.targetRef),
    ("name", .ofOption f.name), ("condition", .ofOption f.condition)]

def SequenceFlow.toObj (f : SequenceFlow) : Object := .inst .sequenceFlow f.fields

def EventDefinition.fields (d : EventDefinition) : Fields :=
  [("type", .member (.event d.type)), ("timer_value", .ofOption d.timerValue),
    ("message_ref", .ofOption d.messageRef), ("signal_ref", .ofOption d.signalRef),
    ("error_ref", .ofOption d.errorRef)]

def EventDefinition.toObj (d : EventDefinition) : Object := .inst .eventDefinition d.fields

def MultiInstanceConfig.fields (m : MultiInstanceConfig) : Fields :=
  [("type", .member (.multi m.type)), ("collection", .ofOption m.collection),
    ("element_variable", .ofOption m.elementVariable),
    ("completion_condition", .ofOption m.completionCondition)]

def MultiInstanceConfig.toObj (m : MultiInstanceConfig) : Object :=
  .inst .multiInstanceConfig m.fields

def TaskBase.fields (b : TaskBase) : Fields :=
  [("id", .str b.id), ("name", .ofOption b.name), ("incoming", .strs b.incoming),
    ("outgoing", .strs b.outgoing), ("multi_instance", b.multiInstance.toObj),
    ("default_flow", .ofOption b.defaultFlow), ("extensions", .dict b.extensions)]

def GatewayBase.fields (b : GatewayBase) : Fields :=
  [("id", .str b.id), ("name", .ofOption b.name), ("direction", .member (.direction b.direction)),
    ("incoming", .strs b.incoming), ("outgoing", .strs b.outgoing),
    ("default_flow", .ofOption b.defaultFlow)]

def definitionsObj (ds : List EventDefinition) : Object := .list (ds.map EventDefinition.toObj)

def flowObjs (flows : List (String × SequenceFlow)) : Fields :=
  flows.map fun i => (i.1, i.2.toObj)

mutual

def Element.fields : Element → Fields
  | .startEvent id name ds outgoing =>
    [("id", .str id), ("name", .ofOption name), ("definitions", definitionsObj ds),
      ("outgoing", .strs outgoing)]
  | .endEvent id name ds incoming =>
    [("id", .str id), ("name", .ofOption name), ("definitions", definitionsObj ds),
      ("incoming", .strs incoming)]
  | .intermediateCatchEvent id name ds incoming outgoing
  | .intermediateThrowEvent id name ds incoming outgoing =>
    [("id", .str id), ("name", .ofOption name), ("definitions", definitionsObj ds),
      ("incoming", .strs incoming), ("outgoing", .strs outgoing)]
  | .boundaryEvent id attachedTo interrupting name ds outgoing =>
    [("id", .str id), ("attached_to", .str attachedTo), ("interrupting", .bool interrupting),
      ("name", .ofOption name), ("definitions", definitionsObj ds), ("outgoing", .strs outgoing)]
  | .userTask b formKey assignee candidateGroups =>
    b.fields ++ [("form_key", .ofOption formKey), ("assignee", .ofOption assignee),
      ("candidate_groups", .strs candidateGroups)]
  | .serviceTask b implementation => b.fields ++ [("implementation", .ofOption implementation)]
  | .scriptTask b language script =>
    b.fields ++ [("language", .str language), ("script", .str script)]
  | .sendTask b implementation messageRef =>
    b.fields ++ [("implementation", .ofOption implementation),
      ("message_ref", .ofOption messageRef)]
  | .receiveTask b messageRef => b.fields ++ [("message_ref", .ofOption messageRef)]
  | .manualTask b | .genericTask b => b.fields
  | .businessRuleTask b decisionRef => b.fields ++ [("decision_ref", .ofOption decisionRef)]
  | .exclusiveGateway b | .parallelGateway b | .inclusiveGateway b | .eventBasedGateway b =>
    b.fields
  | .subProcess b body => b.fields ++ [("body", bodyObj body)]
  | .callActivity b calledElement => b.fields ++ [("called_element", .ofOption calledElement)]

def bodyObj : Option (ProcessOf Element) → Object
  | none => .none
  | some p => processObj p

def processObj : ProcessOf Element → Object
  | ⟨id, name, isExecutable, elements, flows⟩ =>
    .inst .bpmnProcess [("id", .str id), ("name", .ofOption name),
      ("is_executable", .bool isExecutable), ("elements", .dict (elementObjs elements)),
      ("flows", .dict (flowObjs flows))]

def elementObjs : List (String × Element) → Fields
  | [] => []
  | (eid, e) :: rest => (eid, .inst e.cls e.fields) :: elementObjs rest

end

def Element.toObj (e : Element) : Object := .inst e.cls e.fields

theorem elementObjs_eq (elements : List (String × Element)) :
    elementObjs elements = elements.map fun i => (i.1, i.2.toObj) := by
  induction elements with
  | nil => rfl
  | cons i rest ih =>
    rw [elementObjs, ih]
    rfl

theorem processObj_eq (p : BPMNProcess) :
    processObj p = .inst .bpmnProcess [("id", .str p.id), ("name", .ofOption p.name),
      ("is_executable", .bool p.isExecutable), ("elements", .dict (elementObjs p.elements)),
      ("flows", .dict (flowObjs p.flows))] := by
  cases p
  rw [processObj]

theorem names_eq (e : Element) : e.fields.map Prod.fst = classes.fieldNames e.cls := by
  cases e <;> simp only [Element.fields] <;> rfl

end Bpmn
