import Velaris.Bpmn.Transport
import Velaris.Bpmn.Workflow

/-!
# The process a workflow runs

`run` reads the process it was handed and walks the result.  Not every element comes back as it
was, but the graph does.

* `Graph.ofObj`   what the workflow reads of a process object;
* `exists_loaded`   every compiled process is read back, with its flows, the classes of its
    elements, and no end event that raises.
-/

namespace Bpmn
open Py

/-! ## attributes -/

def strOf : Object → Option String
  | .str s => some s
  | _ => none

def strAttr (fields : Fields) (field : String) : Option String :=
  (fields.lookup field).bind strOf

def Definition.ofObj : Object → Definition
  | .inst _ fields => ⟨(fields.lookup "type").getD .none, strAttr fields "timer_value"⟩
  | _ => ⟨.none, none⟩

def definitionsOf (fields : Fields) : List Definition :=
  match fields.lookup "definitions" with
  | some (.list ds) => ds.map Definition.ofObj
  | _ => []

def multiFields (fields : Fields) : Fields :=
  match fields.lookup "multi_instance" with
  | some (.inst _ m) => m
  | _ => []

def Node.ofObj : Object → Option Node
  | .inst cls fields =>
    some {
      cls := cls
      id := (strAttr fields "id").getD ""
      name := strAttr fields "name"
      definitions := definitionsOf fields
      defaultFlow := strAttr fields "default_flow"
      multiType := ((multiFields fields).lookup "type").getD .none
      collection := strAttr (multiFields fields) "collection"
      formKey := strAttr fields "form_key" }
  | _ => none

def SequenceFlow.ofObj : Object → Option SequenceFlow
  | .inst .sequenceFlow fields => do
    let id ← strAttr fields "id"
    let sourceRef ← strAttr fields "source_ref"
    let targetRef ← strAttr fields "target_ref"
    some ⟨id, sourceRef, targetRef, strAttr fields "name", strAttr fields "condition"⟩
  | _ => none

def itemsOf {α : Type} (read : Object → Option α) : Option Object → Option (List (String × α))
  | some (.dict items) => items.mapM fun i => (read i.2).map (i.1, ·)
  | _ => none

def Graph.ofObj (process : Object) : Option Graph := do
  let elements ← itemsOf Node.ofObj (process.attr "elements")
  let flows ← itemsOf SequenceFlow.ofObj (process.attr "flows")
  some ⟨elements, flows⟩

/-! ## every element is read back -/

theorem TaskBase.exists_rebuilt (b : TaskBase) :
    ∀ i ∈ b.fields, ∃ o, rebuilt i.1 (i.2.jsonSafe Member.value) = .ok o := by
  have hextensions : ∃ o, rebuilt "extensions"
      (.dict (Obj.jsonSafeItems Member.value b.extensions)) = .ok o := ⟨_, rfl⟩
  simp [TaskBase.fields, rebuilt_multiInstance, rebuilt_ofOption, rebuilt_strs, rebuilt_str,
    Obj.jsonSafe, hextensions]

theorem GatewayBase.exists_rebuilt (b : GatewayBase) :
    ∀ i ∈ b.fields, ∃ o, rebuilt i.1 (i.2.jsonSafe Member.value) = .ok o := by
  have hdirection : ∃ o, rebuilt "direction" (Member.value (.direction b.direction)) = .ok o :=
    ⟨_, rebuilt_str _ _⟩
  simp [GatewayBase.fields, rebuilt_ofOption, rebuilt_strs, rebuilt_str, Obj.jsonSafe, hdirection]

theorem exists_rebuilt (e : Element) : ∀ i ∈ e.fields, i.1 ≠ "body" →
    ∃ o, rebuilt i.1 (i.2.jsonSafe Member.value) = .ok o := by
  have htask : ∀ {b : TaskBase} {r : Fields},
      (∀ i ∈ r, i.1 ≠ "body" → ∃ o, rebuilt i.1 (i.2.jsonSafe Member.value) = .ok o) →
      ∀ i ∈ b.fields ++ r, i.1 ≠ "body" →
        ∃ o, rebuilt i.1 (i.2.jsonSafe Member.value) = .ok o := by
    intro b r hr i hi hbody
    exact (List.mem_append.mp hi).elim (b.exists_rebuilt i) fun h => hr i h hbody
  cases e with
  | startEvent | endEvent | intermediateCatchEvent | intermediateThrowEvent | boundaryEvent =>
    simp [Element.fields, rebuilt_definitions, rebuilt_ofOption, rebuilt_strs, rebuilt_str,
      rebuilt_bool, Obj.jsonSafe]
  | exclusiveGateway b | parallelGateway b | inclusiveGateway b | eventBasedGateway b =>
    rw [Element.fields]
    exact fun i hi _ => b.exists_rebuilt i hi
  | manualTask b | genericTask b =>
    rw [Element.fields]
    exact fun i hi _ => b.exists_rebuilt i hi
  | userTask | serviceTask | scriptTask | sendTask | receiveTask | businessRuleTask | callActivity
  | subProcess =>
    rw [Element.fields]
    refine htask ?_
    simp [rebuilt_ofOption, rebuilt_strs, rebuilt_str, Obj.jsonSafe]

theorem exists_filteredOf (c : Cls) (items : List (String × Value))
    (h : ∀ i ∈ items, i.1 ∈ classes.fieldNames c → ∃ o, rebuilt i.1 i.2 = .ok o) :
    ∃ filtered, filteredOf c items = .ok filtered ∧
      filtered.map Prod.fst = (items.map Prod.fst).filter (· ∈ classes.fieldNames c) := by
  induction items with
  | nil => exact ⟨[], rfl, rfl⟩
  | cons i items ih =>
    obtain ⟨filtered, hf, hnames⟩ := ih fun j hj => h j (List.mem_cons_of_mem _ hj)
    by_cases hi : i.1 ∈ classes.fieldNames c
    · obtain ⟨o, ho⟩ := h i List.mem_cons_self hi
      refine ⟨(i.1, o) :: filtered, ?_, ?_⟩
      · rw [filteredOf, if_pos hi]
        show (rebuilt i.1 i.2 >>= _) = _
        rw [ho, hf]
        rfl
      · rw [List.map_cons, List.map_cons, List.filter_cons, if_pos (decide_eq_true hi), hnames]
    · refine ⟨filtered, ?_, ?_⟩
      · rw [filteredOf, if_neg hi]
        exact hf
      · rw [List.map_cons, List.filter_cons, if_neg (by simpa using hi), hnames]

theorem id_field (e : Element) : "id" ∈ classes.fieldNames e.cls := by
  have hall : ∀ c ∈ typeMap, "id" ∈ classes.fieldNames c := by decide
  refine hall e.cls ?_
  cases e <;> simp [Element.cls, typeMap]

/-- inside a subprocess the marks are missing, and each element is read as a generic task -/
theorem nested_generic (eid : String) (e : Element) :
    ∃ fields, elementOf eid (e.toObj.jsonSafe Member.value) = .ok (.inst .genericTask fields) := by
  have hnames : (Obj.jsonSafeItems Member.value e.fields).map Prod.fst =
      classes.fieldNames e.cls := by
    rw [Obj.jsonSafeItems_eq, List.map_map, ← names_eq]
    rfl
  have htype : typeNameOf (Obj.jsonSafeItems Member.value e.fields) = .str "GenericTask" := by
    have hnone : (Obj.jsonSafeItems Member.value e.fields).lookup "_type" = none := by
      rw [List.lookup_eq_none_iff]
      intro i hi
      refine bne_iff_ne.mpr fun h => type_not_field e.cls ?_
      rw [← hnames, h]
      exact List.mem_map_of_mem hi
    rw [typeNameOf, hnone]
    rfl
  obtain ⟨filtered, hf, hfnames⟩ := exists_filteredOf .genericTask
    (Obj.jsonSafeItems Member.value e.fields) fun i hi hgeneric => by
      rw [Obj.jsonSafeItems_eq] at hi
      obtain ⟨j, hj, rfl⟩ := List.mem_map.mp hi
      refine exists_rebuilt e j hj fun hbody => ?_
      rw [show j.1 = "body" from hbody] at hgeneric
      exact absurd hgeneric (by decide)
  have hid : "id" ∈ filtered.map Prod.fst := by
    rw [hfnames, hnames]
    exact List.mem_filter.mpr ⟨id_field e, by decide⟩
  obtain ⟨fields, hcons⟩ := Classes.construct_isSome (T := classes) (c := .genericTask)
    (fun i hi => by
      have hmem : i.1 ∈ filtered.map Prod.fst := List.mem_map_of_mem hi
      rw [hfnames] at hmem
      exact of_decide_eq_true (List.mem_filter.mp hmem).2) (fun f hfield hdefault => by
      have hreq : f.1 = "id" := by
        revert f
        decide
      rw [hreq, List.lookup_isSome_iff]
      obtain ⟨i, hi, hfst⟩ := List.mem_map.mp hid
      exact ⟨i, hi, beq_iff_eq.mpr hfst.symm⟩)
  refine ⟨fields, ?_⟩
  show elementOf eid (.dict (Obj.jsonSafeItems Member.value e.fields)) = _
  rw [elementOf, htype]
  show (filteredOf .genericTask _ >>= _) = _
  rw [hf]
  show construct .genericTask eid _ filtered = _
  rw [construct, hcons]

theorem exists_eachElement {α : Type} (write : α → Value) (items : List (String × α))
    (h : ∀ i ∈ items, ∃ o, elementOf i.1 (write i.2) = .ok o) :
    ∃ es, eachElement (items.map fun i => (i.1, write i.2)) = .ok es ∧
      List.Forall₂ (fun i e => elementOf i.1 (write i.2) = .ok e.2 ∧ e.1 = i.1) items es := by
  induction items with
  | nil => exact ⟨[], rfl, .nil⟩
  | cons i items ih =>
    obtain ⟨o, ho⟩ := h i List.mem_cons_self
    obtain ⟨es, hes, hall⟩ := ih fun j hj => h j (List.mem_cons_of_mem _ hj)
    refine ⟨(i.1, o) :: es, ?_, .cons ⟨ho, rfl⟩ hall⟩
    rw [List.map_cons, eachElement, ho, hes]
    rfl

/-- a nested process is read back, whatever becomes of its elements -/
theorem exists_deserializeProcess (p : BPMNProcess) :
    ∃ o, deserializeProcess ((processObj p).jsonSafe Member.value) = .ok o := by
  obtain ⟨es, hes, -⟩ := exists_eachElement (fun e => e.toObj.jsonSafe Member.value)
    p.elements fun i _ => by
      obtain ⟨fields, hf⟩ := nested_generic i.1 i.2
      exact ⟨_, hf⟩
  have hdata : (processObj p).jsonSafe Member.value =
      processData p (p.elements.map fun i => (i.1, i.2.toObj.jsonSafe Member.value)) := by
    rw [processObj_eq, processData]
    simp only [Obj.jsonSafe, Obj.jsonSafeItems, Obj.jsonSafeItems_eq, elementObjs_eq, flowObjs,
      List.map_map]
    rfl
  rw [hdata, deserializeProcess_processData, hes]
  exact ⟨_, rfl⟩

theorem exists_rebuilt_body (body : Option BPMNProcess) :
    ∃ o, rebuilt "body" ((bodyObj body).jsonSafe Member.value) = .ok o := by
  cases body with
  | none => exact ⟨.none, rfl⟩
  | some p =>
    obtain ⟨o, ho⟩ := exists_deserializeProcess p
    refine ⟨o, ?_⟩
    have hdict : isDict ((bodyObj (some p)).jsonSafe Member.value) = true := by
      rw [bodyObj, processObj_eq]
      rfl
    rw [rebuilt, if_pos ⟨rfl, hdict⟩, bodyObj]
    exact ho

theorem exists_rebuilt_all (e : Element) : ∀ i ∈ e.fields,
    ∃ o, rebuilt i.1 (i.2.jsonSafe Member.value) = .ok o := by
  intro i hi
  by_cases hbody : i.1 = "body"
  · cases e with
    | subProcess b body =>
      rw [Element.fields] at hi
      rcases List.mem_append.mp hi with hi | hi
      · exact b.exists_rebuilt i hi
      · rw [List.mem_singleton.mp hi]
        exact exists_rebuilt_body body
    | _ =>
      have hmem := List.mem_map_of_mem (f := Prod.fst) hi
      rw [names_eq, hbody] at hmem
      exact absurd hmem (by simp [Element.cls]; decide)
  · exact exists_rebuilt e i hi hbody

theorem exists_mapM_rebuilt (items : List (String × Value))
    (h : ∀ i ∈ items, ∃ o, rebuilt i.1 i.2 = .ok o) :
    ∃ fields, items.mapM (fun i => (rebuilt i.1 i.2).map (i.1, ·)) = .ok fields := by
  induction items with
  | nil => exact ⟨[], rfl⟩
  | cons i items ih =>
    obtain ⟨o, ho⟩ := h i List.mem_cons_self
    obtain ⟨fields, hf⟩ := ih fun j hj => h j (List.mem_cons_of_mem _ hj)
    exact ⟨(i.1, o) :: fields, by rw [List.mapM_cons, ho, hf]; rfl⟩

/-- the definitions of an event come back with numbers for their types, so it does not raise -/
theorem endEvent_loaded (id : String) (name : Option String) (ds : List EventDefinition)
    (incoming : List String) :
    (Obj.jsonSafeItems Member.value (Element.endEvent id name ds incoming).fields).mapM
        (fun i => (rebuilt i.1 i.2).map (i.1, ·)) =
      .ok [("id", .str id), ("name", .ofOption name),
        ("definitions", .list (ds.map EventDefinition.loaded)), ("incoming", .strs incoming)] := by
  have hincoming := @rebuilt_strs "incoming" (by decide) incoming
  simp only [Element.fields, Obj.jsonSafeItems, List.mapM_cons, List.mapM_nil, Obj.jsonSafe,
    rebuilt_str, rebuilt_ofOption, rebuilt_definitions, hincoming]
  rfl

/-- every element is read back in its class, and is no end event that raises -/
theorem exists_elementOf (eid : String) (e : Element) :
    ∃ n, (elementOf eid (serializeElement e)).map Node.ofObj = .ok (some n) ∧ n.cls = e.cls ∧
      n.raises = false := by
  obtain ⟨fields, hf⟩ := exists_mapM_rebuilt
    (Obj.jsonSafeItems Member.value e.fields) fun i hi => by
      rw [Obj.jsonSafeItems_eq] at hi
      obtain ⟨j, hj, rfl⟩ := List.mem_map.mp hi
      exact exists_rebuilt_all e j hj
  rw [elementOf_serializeElement, hf]
  refine ⟨_, rfl, rfl, ?_⟩
  rw [Node.raises]
  cases e with
  | endEvent id name ds incoming =>
    rw [endEvent_loaded] at hf
    rw [← Except.ok.inj hf]
    show (decide _ && ((ds.map EventDefinition.loaded).map Definition.ofObj).any _) = false
    rw [Bool.and_eq_false_iff, List.any_eq_false]
    right
    intro d hd
    obtain ⟨o, ho, rfl⟩ := List.mem_map.mp hd
    obtain ⟨d, -, rfl⟩ := List.mem_map.mp ho
    exact Bool.false_ne_true
  | _ => rfl

/-! ## the process is read back -/

theorem flow_ofObj (f : SequenceFlow) : SequenceFlow.ofObj f.toObj = some f := by
  obtain ⟨id, sourceRef, targetRef, name, condition⟩ := f
  have hopt : ∀ s : Option String, strOf (Obj.ofOption s) = s := by
    intro s
    cases s <;> rfl
  show some (SequenceFlow.mk _ _ _ (strOf (Obj.ofOption name)) (strOf (Obj.ofOption condition))) = _
  rw [hopt, hopt]

theorem itemsOf_cons {α : Type} (read : Object → Option α) {i : String × Object} {a : α}
    {items : Fields} {as : List (String × α)} (hi : read i.2 = some a)
    (h : itemsOf read (some (.dict items)) = some as) :
    itemsOf read (some (.dict (i :: items))) = some ((i.1, a) :: as) := by
  rw [itemsOf] at h ⊢
  rw [List.mapM_cons, hi, h]
  rfl

theorem itemsOf_flows (flows : List (String × SequenceFlow)) :
    itemsOf SequenceFlow.ofObj (some (.dict (flowObjs flows))) = some flows := by
  induction flows with
  | nil => rfl
  | cons f flows ih => exact itemsOf_cons _ (i := (f.1, f.2.toObj)) (flow_ofObj f.2) ih

theorem exists_nodes {elements : List (String × Element)} {es : Fields}
    (h : List.Forall₂ (fun i e => elementOf i.1 (serializeElement i.2) = .ok e.2 ∧ e.1 = i.1)
      elements es) :
    ∃ nodes, itemsOf Node.ofObj (some (.dict es)) = some nodes ∧
      nodes.map (fun i => (i.1, i.2.cls)) = elements.map (fun i => (i.1, i.2.cls)) ∧
      ∀ i ∈ nodes, i.2.raises = false := by
  induction h with
  | nil => exact ⟨[], rfl, rfl, fun _ h => nomatch h⟩
  | @cons i e _ _ hi _ ih =>
    obtain ⟨nodes, hnodes, hcls, hraises⟩ := ih
    obtain ⟨n, hn, hncls, hnraises⟩ := exists_elementOf i.1 i.2
    rw [hi.1] at hn
    refine ⟨(e.1, n) :: nodes, itemsOf_cons _ (Except.ok.inj hn) hnodes, ?_, ?_⟩
    · rw [List.map_cons, List.map_cons, hcls, hncls, hi.2]
    · intro j hj
      rcases List.mem_cons.mp hj with rfl | hj
      · exact hnraises
      · exact hraises j hj

/-- every compiled process is read back by its workflow, with its flows, with the classes of its
elements, and without an end event that raises -/
theorem exists_loaded (p : BPMNProcess) :
    ∃ o g, deserializeProcess (serializeProcess p) = .ok o ∧ Graph.ofObj o = some g ∧
      g.flows = p.flows ∧
      g.elements.map (fun i => (i.1, i.2.cls)) = p.elements.map (fun i => (i.1, i.2.cls)) ∧
      ∀ i ∈ g.elements, i.2.raises = false := by
  obtain ⟨es, hes, hall⟩ := exists_eachElement serializeElement p.elements
    fun i _ => by
      obtain ⟨n, hn, -⟩ := exists_elementOf i.1 i.2
      obtain ⟨o, ho, -⟩ := Base.exists_of_map_ok hn
      exact ⟨o, ho⟩
  obtain ⟨nodes, hnodes, hcls, hraises⟩ := exists_nodes hall
  have ho := deserializeProcess_serializeProcess p
  rw [hes] at ho
  refine ⟨_, ⟨nodes, p.flows⟩, ho, ?_, rfl, hcls, hraises⟩
  show (itemsOf Node.ofObj (some (.dict es))).bind (fun elements =>
    (itemsOf SequenceFlow.ofObj (some (.dict (flowObjs p.flows)))).bind fun flows =>
      some (Graph.mk elements flows)) = _
  rw [hnodes, itemsOf_flows]
  rfl

end Bpmn
