import Velaris.Bpmn.Process

/-!
# A process through Temporal

A compiled process is handed to its workflow as JSON data.  `serializeProcess` writes the elements
with `asdict` and marks each with its class in `_type`; `deserializeProcess` rebuilds the elements
from that mark.

* `serializeProcess`, `deserializeProcess`   the two functions;
* `elementOf_ok_iff`   when an element comes back as it was;
* `Element.bareEvent`   the events without a definition;
* `roundTrip_iff`   the processes that come back as they were.
-/

namespace Bpmn
open Py

inductive Exc where
  | keyError (key : String)
  | typeError
  | attributeError

/-! ## serialising -/

/-- one entry of `elements`: the fields of the element, and `_type` set after them -/
def serializeElement (e : Element) : Value :=
  .dict (Obj.jsonSafeItems Member.value e.fields ++ [("_type", .str e.cls.name)])

def serializeProcess (process : BPMNProcess) : Value :=
  .dict [("id", .str process.id),
    ("name", (Obj.ofOption process.name : Object).jsonSafe Member.value),
    ("is_executable", .bool process.isExecutable),
    ("elements", .dict (process.elements.map fun i => (i.1, serializeElement i.2))),
    ("flows", .dict (process.flows.map fun i => (i.1, i.2.toObj.jsonSafe Member.value)))]

/-! ## reading back -/

/-- the classes of `type_map` -/
def typeMap : List Cls :=
  [.startEvent, .endEvent, .intermediateCatchEvent, .intermediateThrowEvent, .boundaryEvent,
    .userTask, .serviceTask, .scriptTask, .sendTask, .receiveTask, .manualTask, .businessRuleTask,
    .genericTask, .exclusiveGateway, .parallelGateway, .inclusiveGateway, .eventBasedGateway,
    .subProcess, .callActivity]

/-- `type_map.get(type_name, models.GenericTask)` -/
def classNamed (typeName : Value) : Cls :=
  (typeMap.find? fun c => .str c.name = typeName).getD .genericTask

def typeNameOf (edata : List (String × Value)) : Value :=
  (edata.lookup "_type").getD (.str "GenericTask")

/-- `data.get(key, default)` -/
def get (data : List (String × Value)) (key : String) (default : Object) : Object :=
  ((data.lookup key).map Obj.ofValue).getD default

/-- `data[key]` -/
def getItem (data : List (String × Value)) (key : String) : Except Exc Object :=
  match data.lookup key with
  | some v => .ok (.ofValue v)
  | none => .error (.keyError key)

/-- `cls(**kwargs)` -/
def call (c : Cls) (kwargs : Fields) : Except Exc Object :=
  match classes.construct c kwargs with
  | some o => .ok o
  | none => .error .typeError

/-- `cls(**v)` where the value is a dictionary -/
def callWith (c : Cls) : Value → Except Exc Object
  | .dict items => call c (Obj.ofItems items)
  | _ => .error .typeError

/-- `EventDefinition(**d) if isinstance(d, dict) else d` -/
def definitionOf : Value → Except Exc Object
  | .dict items => call .eventDefinition (Obj.ofItems items)
  | d => .ok (.ofValue d)

/-- the value of a field, for the fields other than `body` -/
def fieldOf (field : String) : Value → Except Exc Object
  | .dict items =>
    if field = "multi_instance" then call .multiInstanceConfig (Obj.ofItems items)
    else .ok (.ofValue (.dict items))
  | .list ds =>
    if field = "definitions" then (ds.mapM definitionOf).map .list
    else .ok (.ofValue (.list ds))
  | v => .ok (.ofValue v)

/-- `isinstance(v, dict)` -/
def isDict : Value → Bool
  | .dict _ => true
  | _ => false

/-- `data.get("flows", {}).items()`, each value read by `SequenceFlow(**fdata)` -/
def flowsOf (data : List (String × Value)) : Except Exc Fields :=
  match data.lookup "flows" with
  | none => .ok []
  | some (.dict flows) => flows.mapM fun i => (callWith .sequenceFlow i.2).map (i.1, ·)
  | some _ => .error .attributeError

/-- `cls(**filtered)`, or `cls(id=eid, name=edata.get("name"))` where that raises `TypeError` -/
def construct (c : Cls) (eid : String) (edata : List (String × Value)) (filtered : Fields) :
    Except Exc Object :=
  match classes.construct c filtered with
  | some o => .ok o
  | none => call c [("id", .str eid), ("name", get edata "name" .none)]

mutual

/-- `_deserialize_process(data)` -/
def deserializeProcess : Value → Except Exc Object
  | .dict data => do
    let id ← getItem data "id"
    let flows ← flowsOf data
    let elements ← elementsIn data
    .ok (.inst .bpmnProcess [("id", id), ("name", get data "name" .none),
      ("is_executable", get data "is_executable" (.bool true)), ("elements", .dict elements),
      ("flows", .dict flows)])
  | _ => .error .typeError

/-- `data.get("elements", {})`, with its items read -/
def elementsIn : List (String × Value) → Except Exc Fields
  | [] => .ok []
  | (k, v) :: rest => if k = "elements" then elementsOf v else elementsIn rest

def elementsOf : Value → Except Exc Fields
  | .dict items => eachElement items
  | _ => .error .attributeError

def eachElement : List (String × Value) → Except Exc Fields
  | [] => .ok []
  | (eid, edata) :: rest => do
    let e ← elementOf eid edata
    let es ← eachElement rest
    .ok ((eid, e) :: es)

def elementOf (eid : String) : Value → Except Exc Object
  | .dict edata => do
    let c := classNamed (typeNameOf edata)
    let filtered ← filteredOf c edata
    construct c eid edata filtered
  | _ => .error .attributeError

/-- the fields the class accepts, with the nested dataclasses rebuilt; `_type` is no field of any
class -/
def filteredOf (c : Cls) : List (String × Value) → Except Exc Fields
  | [] => .ok []
  | (k, v) :: rest =>
    if k ∈ classes.fieldNames c then do
      let x ← (if k = "body" ∧ isDict v then deserializeProcess v else fieldOf k v)
      let xs ← filteredOf c rest
      .ok ((k, x) :: xs)
    else filteredOf c rest

end

/-- the value of a field, `body` included -/
def rebuilt (field : String) (v : Value) : Except Exc Object :=
  if field = "body" ∧ isDict v then deserializeProcess v else fieldOf field v

/-! ## elements that come back -/

theorem type_not_field (c : Cls) : "_type" ∉ classes.fieldNames c := by
  cases c <;> decide

theorem filteredOf_append_type {c : Cls} {items : List (String × Value)} (v : Value)
    (h : ∀ i ∈ items, i.1 ∈ classes.fieldNames c) :
    filteredOf c (items ++ [("_type", v)]) =
      items.mapM fun i => (rebuilt i.1 i.2).map (i.1, ·) := by
  induction items with
  | nil =>
    show filteredOf c [("_type", v)] = _
    rw [filteredOf, if_neg (type_not_field c)]
    rfl
  | cons i items ih =>
    have hi : i.1 ∈ classes.fieldNames c := h i List.mem_cons_self
    have hrest := ih fun j hj => h j (List.mem_cons_of_mem _ hj)
    show filteredOf c ((i.1, i.2) :: (items ++ [("_type", v)])) = _
    rw [filteredOf, if_pos hi, hrest, List.mapM_cons]
    show (rebuilt i.1 i.2 >>= _) = _
    cases rebuilt i.1 i.2 with
    | error x => rfl
    | ok o => rfl

theorem mapM_rebuilt_eq_ok_iff (items : Fields) :
    (Obj.jsonSafeItems Member.value items).mapM (fun i => (rebuilt i.1 i.2).map (i.1, ·)) =
      .ok items ↔ ∀ i ∈ items, rebuilt i.1 (i.2.jsonSafe Member.value) = .ok i.2 := by
  induction items with
  | nil => simp [Obj.jsonSafeItems]; rfl
  | cons i items ih =>
    rw [Obj.jsonSafeItems, List.mapM_cons, List.forall_mem_cons, ← ih]
    constructor
    · intro h
      obtain ⟨x, hx, h⟩ := Base.exists_of_bind_ok h
      obtain ⟨xs, hxs, h⟩ := Base.exists_of_bind_ok h
      obtain ⟨o, ho, rfl⟩ := Base.exists_of_map_ok hx
      obtain ⟨hi, rfl⟩ := List.cons.inj (Except.ok.inj h)
      have hi₂ : o = i.2 := congrArg Prod.snd hi
      rw [← hi₂] at ho ⊢
      exact ⟨ho, hxs⟩
    · intro h
      rw [h.1, h.2]
      rfl

theorem classNamed_name (e : Element) : classNamed (.str e.cls.name) = e.cls := by
  cases e <;> rfl

theorem lookup_type (c : Cls) {items : List (String × Value)} (v : Value)
    (h : ∀ i ∈ items, i.1 ∈ classes.fieldNames c) :
    (items ++ [("_type", v)]).lookup "_type" = some v := by
  induction items with
  | nil => rfl
  | cons i items ih =>
    have hne : ("_type" == i.1) = false :=
      beq_false_of_ne fun he => type_not_field c (he ▸ h i List.mem_cons_self)
    rw [List.cons_append, List.lookup_cons, hne]
    exact ih fun j hj => h j (List.mem_cons_of_mem _ hj)

theorem jsonSafe_names (e : Element) :
    ∀ i ∈ Obj.jsonSafeItems Member.value e.fields, i.1 ∈ classes.fieldNames e.cls := by
  intro i hi
  rw [Obj.jsonSafeItems_eq] at hi
  obtain ⟨j, hj, rfl⟩ := List.mem_map.mp hi
  rw [← names_eq]
  exact List.mem_map_of_mem hj

theorem mapM_rebuilt_names {items : List (String × Value)} {filtered : Fields}
    (h : items.mapM (fun i => (rebuilt i.1 i.2).map (i.1, ·)) = .ok filtered) :
    filtered.map Prod.fst = items.map Prod.fst := by
  have hall := Base.forall₂_of_mapM_ok h
  clear h
  induction hall with
  | nil => rfl
  | cons hi _ ih =>
    obtain ⟨o, -, rfl⟩ := Base.exists_of_map_ok hi
    rw [List.map_cons, List.map_cons, ih]

theorem elementOf_serializeElement (eid : String) (e : Element) :
    elementOf eid (serializeElement e) =
      ((Obj.jsonSafeItems Member.value e.fields).mapM
        fun i => (rebuilt i.1 i.2).map (i.1, ·)).map (.inst e.cls) := by
  have hn := jsonSafe_names e
  have hc : classNamed (typeNameOf
      (Obj.jsonSafeItems Member.value e.fields ++ [("_type", .str e.cls.name)])) = e.cls := by
    rw [typeNameOf, lookup_type _ _ hn]
    exact classNamed_name e
  rw [serializeElement, elementOf, hc, filteredOf_append_type _ hn]
  cases hf : (Obj.jsonSafeItems Member.value e.fields).mapM
      fun i => (rebuilt i.1 i.2).map (i.1, ·) with
  | error x => rfl
  | ok filtered =>
    have hnames : filtered.map Prod.fst = classes.fieldNames e.cls := by
      rw [mapM_rebuilt_names hf, Obj.jsonSafeItems_eq, List.map_map, ← names_eq]
      rfl
    show construct e.cls eid _ filtered = .ok (.inst e.cls filtered)
    rw [construct, Classes.construct_all hnames]

theorem elementOf_ok_iff (eid : String) (e : Element) :
    elementOf eid (serializeElement e) = .ok e.toObj ↔
      ∀ i ∈ e.fields, rebuilt i.1 (i.2.jsonSafe Member.value) = .ok i.2 := by
  rw [elementOf_serializeElement, ← mapM_rebuilt_eq_ok_iff]
  constructor
  · intro h
    obtain ⟨fields, hf, h⟩ := Base.exists_of_map_ok h
    rw [hf, Obj.inst.inj h |>.2]
  · intro h
    rw [h]
    rfl

/-! ## which fields come back -/

def Element.bareEvent : Element → Bool
  | .startEvent _ _ ds _ | .endEvent _ _ ds _ | .boundaryEvent _ _ _ _ ds _
  | .intermediateCatchEvent _ _ ds _ _ | .intermediateThrowEvent _ _ ds _ _ => ds.isEmpty
  | _ => false

theorem rebuilt_str (field s : String) : rebuilt field (.str s) = .ok (.str s) := by
  rw [rebuilt, if_neg fun h => Bool.false_ne_true h.2]
  rfl

theorem rebuilt_bool (field : String) (b : Bool) : rebuilt field (.bool b) = .ok (.bool b) := by
  rw [rebuilt, if_neg fun h => Bool.false_ne_true h.2]
  rfl

theorem rebuilt_ofOption (field : String) (s : Option String) :
    rebuilt field ((Obj.ofOption s : Object).jsonSafe Member.value) = .ok (.ofOption s) := by
  cases s with
  | none =>
    show rebuilt field .none = _
    rw [rebuilt, if_neg fun h => Bool.false_ne_true h.2]
    rfl
  | some s => exact rebuilt_str field s

theorem rebuilt_strs {field : String} (h : field ≠ "definitions") (xs : List String) :
    rebuilt field ((Obj.strs xs : Object).jsonSafe Member.value) = .ok (.strs xs) := by
  have hp := Obj.plain_strs (C := Cls) xs Member.value
  rw [Obj.strs, Obj.jsonSafe] at hp ⊢
  rw [rebuilt, if_neg fun h => Bool.false_ne_true h.2, fieldOf, if_neg h, hp]

/-- a multi-instance configuration after its way through JSON: its type is a number -/
def MultiInstanceConfig.loaded (m : MultiInstanceConfig) : Object :=
  .inst .multiInstanceConfig [("type", .int m.type.value), ("collection", .ofOption m.collection),
    ("element_variable", .ofOption m.elementVariable),
    ("completion_condition", .ofOption m.completionCondition)]

theorem rebuilt_multiInstance (m : MultiInstanceConfig) :
    rebuilt "multi_instance" (m.toObj.jsonSafe Member.value) = .ok m.loaded := by
  have hnames : (Obj.ofItems (Obj.jsonSafeItems Member.value m.fields) : Fields).map Prod.fst =
      classes.fieldNames .multiInstanceConfig := rfl
  show call .multiInstanceConfig (Obj.ofItems (Obj.jsonSafeItems Member.value m.fields)) = _
  rw [call, Classes.construct_all hnames]
  simp only [MultiInstanceConfig.fields, Obj.jsonSafeItems, Obj.ofItems,
    Obj.plain_ofOption _ Member.value, MultiInstanceConfig.loaded]
  rfl

theorem rebuilt_multiInstance_ne (m : MultiInstanceConfig) :
    rebuilt "multi_instance" (m.toObj.jsonSafe Member.value) ≠ .ok m.toObj := by
  intro h
  rw [rebuilt_multiInstance] at h
  have hfields := (Obj.inst.inj (Except.ok.inj h)).2
  have htype : (Obj.int m.type.value : Object) = .member (.multi m.type) :=
    congrArg Prod.snd (List.cons.inj hfields).1
  cases htype

theorem rebuilt_direction_ne (d : GatewayDirection) :
    rebuilt "direction" (Member.value (.direction d)) ≠ .ok (.member (.direction d)) := by
  intro h
  rw [show Member.value (.direction d) = .str d.value from rfl, rebuilt_str] at h
  cases Except.ok.inj h

/-- an event definition after its way through JSON: its type is a number -/
def EventDefinition.loaded (d : EventDefinition) : Object :=
  .inst .eventDefinition [("type", .int d.type.value), ("timer_value", .ofOption d.timerValue),
    ("message_ref", .ofOption d.messageRef), ("signal_ref", .ofOption d.signalRef),
    ("error_ref", .ofOption d.errorRef)]

theorem definitionOf_jsonSafe (d : EventDefinition) :
    definitionOf (d.toObj.jsonSafe Member.value) = .ok d.loaded := by
  have hnames : (Obj.ofItems (Obj.jsonSafeItems Member.value d.fields) : Fields).map Prod.fst =
      classes.fieldNames .eventDefinition := rfl
  show call .eventDefinition (Obj.ofItems (Obj.jsonSafeItems Member.value d.fields)) = _
  rw [call, Classes.construct_all hnames]
  simp only [EventDefinition.fields, Obj.jsonSafeItems, Obj.ofItems,
    Obj.plain_ofOption _ Member.value, EventDefinition.loaded]
  rfl

theorem EventDefinition.loaded_ne (d : EventDefinition) : d.loaded ≠ d.toObj := by
  intro h
  have htype : (Obj.int d.type.value : Object) = .member (.event d.type) :=
    congrArg Prod.snd (List.cons.inj (Obj.inst.inj h).2).1
  cases htype

theorem rebuilt_definitions (ds : List EventDefinition) :
    rebuilt "definitions" ((definitionsObj ds).jsonSafe Member.value) =
      .ok (.list (ds.map EventDefinition.loaded)) := by
  have hmap : (ds.map fun d => d.toObj.jsonSafe Member.value).mapM definitionOf =
      .ok (ds.map EventDefinition.loaded) := by
    induction ds with
    | nil => rfl
    | cons d ds ih =>
      rw [List.map_cons, List.mapM_cons, definitionOf_jsonSafe, ih]
      rfl
  rw [definitionsObj, Obj.jsonSafe, Obj.jsonSafeList_eq, List.map_map]
  show Except.map _ ((ds.map fun d => d.toObj.jsonSafe Member.value).mapM definitionOf) = _
  rw [hmap]
  rfl

theorem rebuilt_definitions_iff (ds : List EventDefinition) :
    rebuilt "definitions" ((definitionsObj ds).jsonSafe Member.value) = .ok (definitionsObj ds) ↔
      ds.isEmpty := by
  rw [rebuilt_definitions]
  cases ds with
  | nil => exact iff_of_true rfl rfl
  | cons d ds =>
    refine iff_of_false (fun h => ?_) Bool.false_ne_true
    exact d.loaded_ne (List.cons.inj (Obj.list.inj (Except.ok.inj h))).1

theorem TaskBase.not_restored (b : TaskBase) :
    ∃ i ∈ b.fields, rebuilt i.1 (i.2.jsonSafe Member.value) ≠ .ok i.2 :=
  ⟨("multi_instance", b.multiInstance.toObj), by simp [TaskBase.fields],
    rebuilt_multiInstance_ne _⟩

theorem GatewayBase.not_restored (b : GatewayBase) :
    ∃ i ∈ b.fields, rebuilt i.1 (i.2.jsonSafe Member.value) ≠ .ok i.2 :=
  ⟨("direction", .member (.direction b.direction)), by simp [GatewayBase.fields],
    rebuilt_direction_ne _⟩

theorem elementOf_restores_iff (eid : String) (e : Element) :
    elementOf eid (serializeElement e) = .ok e.toObj ↔ e.bareEvent = true := by
  rw [elementOf_ok_iff]
  have htask : ∀ {b : TaskBase} {r : Fields}, e.fields = b.fields ++ r → e.bareEvent = false →
      ((∀ i ∈ e.fields, rebuilt i.1 (i.2.jsonSafe Member.value) = .ok i.2) ↔
        e.bareEvent = true) := by
    intro b r hf hb
    refine iff_of_false (fun h => ?_) (by simp [hb])
    obtain ⟨i, hi, hne⟩ := b.not_restored
    exact hne (h i (hf ▸ List.mem_append_left _ hi))
  have hgateway : ∀ {b : GatewayBase}, e.fields = b.fields → e.bareEvent = false →
      ((∀ i ∈ e.fields, rebuilt i.1 (i.2.jsonSafe Member.value) = .ok i.2) ↔
        e.bareEvent = true) := by
    intro b hf hb
    refine iff_of_false (fun h => ?_) (by simp [hb])
    obtain ⟨i, hi, hne⟩ := b.not_restored
    exact hne (h i (hf ▸ hi))
  cases e with
  | startEvent id name ds outgoing | endEvent id name ds outgoing
  | intermediateCatchEvent id name ds incoming outgoing
  | intermediateThrowEvent id name ds incoming outgoing
  | boundaryEvent id attachedTo interrupting name ds outgoing =>
    simp [Element.fields, Element.bareEvent, Obj.jsonSafe, rebuilt_str, rebuilt_bool,
      rebuilt_ofOption, rebuilt_strs, rebuilt_definitions_iff]
  | manualTask b | genericTask b =>
    exact htask (r := []) (by rw [Element.fields, List.append_nil]) rfl
  | userTask b | serviceTask b | scriptTask b | sendTask b | receiveTask b | businessRuleTask b
  | subProcess b | callActivity b => exact htask (by rw [Element.fields]) rfl
  | exclusiveGateway b | parallelGateway b | inclusiveGateway b | eventBasedGateway b =>
    exact hgateway (by rw [Element.fields]) rfl

/-! ## processes -/

theorem callWith_sequenceFlow (f : SequenceFlow) :
    callWith .sequenceFlow (f.toObj.jsonSafe Member.value) = .ok f.toObj := by
  have hplain : Obj.ofItems (Obj.jsonSafeItems Member.value f.fields) = f.fields := by
    simp only [SequenceFlow.fields, Obj.jsonSafeItems, Obj.ofItems, Obj.plain_str _ Member.value,
      Obj.plain_ofOption _ Member.value]
  have hnames : f.fields.map Prod.fst = classes.fieldNames .sequenceFlow := rfl
  show call .sequenceFlow (Obj.ofItems (Obj.jsonSafeItems Member.value f.fields)) = _
  rw [hplain, call, Classes.construct_all hnames]
  rfl

theorem mapM_flows (flows : List (String × SequenceFlow)) :
    (flows.map fun i => (i.1, i.2.toObj.jsonSafe Member.value)).mapM
      (fun i => (callWith .sequenceFlow i.2).map (i.1, ·)) = .ok (flowObjs flows) := by
  induction flows with
  | nil => rfl
  | cons f flows ih =>
    rw [List.map_cons, List.mapM_cons, ih, callWith_sequenceFlow]
    rfl

def processData (p : BPMNProcess) (elements : List (String × Value)) : Value :=
  .dict [("id", .str p.id), ("name", (Obj.ofOption p.name : Object).jsonSafe Member.value),
    ("is_executable", .bool p.isExecutable), ("elements", .dict elements),
    ("flows", .dict (p.flows.map fun i => (i.1, i.2.toObj.jsonSafe Member.value)))]

theorem deserializeProcess_processData (p : BPMNProcess) (elements : List (String × Value)) :
    deserializeProcess (processData p elements) =
      (eachElement elements).map fun es =>
        .inst .bpmnProcess [("id", .str p.id), ("name", .ofOption p.name),
          ("is_executable", .bool p.isExecutable), ("elements", .dict es),
          ("flows", .dict (flowObjs p.flows))] := by
  have hname : Obj.ofValue ((Obj.ofOption p.name : Object).jsonSafe Member.value) =
      (Obj.ofOption p.name : Object) := Obj.plain_ofOption p.name Member.value
  rw [processData, deserializeProcess]
  show (flowsOf _ >>= _) = _
  rw [flowsOf]
  show ((List.map _ p.flows).mapM _ >>= _) = _
  rw [mapM_flows]
  show (eachElement _ >>= _) = _
  cases eachElement elements with
  | error x => rfl
  | ok es =>
    show Except.ok _ = Except.ok _
    simp [get, List.lookup_cons, hname, Obj.ofValue]

theorem deserializeProcess_serializeProcess (p : BPMNProcess) :
    deserializeProcess (serializeProcess p) =
      (eachElement (p.elements.map fun i => (i.1, serializeElement i.2))).map fun es =>
        .inst .bpmnProcess [("id", .str p.id), ("name", .ofOption p.name),
          ("is_executable", .bool p.isExecutable), ("elements", .dict es),
          ("flows", .dict (flowObjs p.flows))] :=
  deserializeProcess_processData p _

theorem eachElement_eq_ok_iff (elements : List (String × Element)) :
    eachElement (elements.map fun i => (i.1, serializeElement i.2)) = .ok (elementObjs elements) ↔
      ∀ i ∈ elements, elementOf i.1 (serializeElement i.2) = .ok i.2.toObj := by
  induction elements with
  | nil => exact iff_of_true rfl fun i hi => nomatch hi
  | cons i elements ih =>
    rw [List.map_cons, eachElement, List.forall_mem_cons, ← ih]
    constructor
    · intro h
      obtain ⟨e, he, h⟩ := Base.exists_of_bind_ok h
      obtain ⟨es, hes, h⟩ := Base.exists_of_bind_ok h
      obtain ⟨hi, rfl⟩ := List.cons.inj (Except.ok.inj h)
      have hobj : e = i.2.toObj := congrArg Prod.snd hi
      exact ⟨hobj ▸ he, hes⟩
    · intro h
      rw [h.1, h.2]
      rfl

theorem restores_iff_elements (p : BPMNProcess) :
    deserializeProcess (serializeProcess p) = .ok (processObj p) ↔
      ∀ i ∈ p.elements, elementOf i.1 (serializeElement i.2) = .ok i.2.toObj := by
  rw [deserializeProcess_serializeProcess, ← eachElement_eq_ok_iff, processObj_eq]
  constructor
  · intro h
    obtain ⟨elements, he, h⟩ := Base.exists_of_map_ok h
    simp only [Obj.inst.injEq, List.cons.injEq, Prod.mk.injEq, Obj.dict.injEq] at h
    rw [he, h.2.2.2.2.1.2]
  · intro h
    rw [h]
    rfl

/-- a process comes back from its serialisation as it was exactly when all it has are events
without definitions -/
theorem roundTrip_iff (p : BPMNProcess) :
    deserializeProcess (serializeProcess p) = .ok (processObj p) ↔
      ∀ i ∈ p.elements, i.2.bareEvent = true := by
  rw [restores_iff_elements]
  exact forall₂_congr fun i _ => elementOf_restores_iff i.1 i.2

/-- a start event, one user task with its default fields, and an end event -/
def approval : BPMNProcess where
  id := "approval"
  elements :=
    [("start", .startEvent "start" none [] ["f1"]),
      ("review", .userTask { id := "review", incoming := ["f1"], outgoing := ["f2"] } none none []),
      ("done", .endEvent "done" none [] ["f2"])]
  flows :=
    [("f1", { id := "f1", sourceRef := "start", targetRef := "review" }),
      ("f2", { id := "f2", sourceRef := "review", targetRef := "done" })]

/-- the multi-instance type of the task is the number 1 afterwards, which is no enum member -/
theorem approval_not_restored :
    deserializeProcess (serializeProcess approval) ≠ .ok (processObj approval) := by
  intro h
  have hreview := (restores_iff_elements approval).mp h
    ("review", .userTask { id := "review", incoming := ["f1"], outgoing := ["f2"] } none none [])
    (by simp [approval])
  exact Bool.false_ne_true ((elementOf_restores_iff "review" _).mp hreview)

end Bpmn
