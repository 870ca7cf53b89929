import Mathlib.Data.List.Induction
import Mathlib.Data.List.Nodup
import Velaris.Base.Table
import Velaris.HxFusion.Engine

/-!
# The process as it is drawn

What the elements say of the process, whatever the order they stand in, and what the parser makes
of it.

* `nodesOf`, `flowsOf`, `outgoing`, `incoming`   the drawing;
* `WellFormed`   ids are distinct, and a flow leads from a node to a node;
* `Linked`   what the parser has of a drawing: a node knows some of its flows;
* `linked_parse`   the parser's process is linked so.
-/

namespace HxFusion

/-! ## the drawing -/

def nodesOf : List Element → List (String × NodeType)
  | [] => []
  | .node id t :: rest => (id, t) :: nodesOf rest
  | .sequenceFlow .. :: rest => nodesOf rest

def flowsOf : List Element → List BpmnFlow
  | [] => []
  | .node .. :: rest => flowsOf rest
  | .sequenceFlow id source target text :: rest =>
    ⟨id, source, target, conditionOf text⟩ :: flowsOf rest

def outgoing (elements : List Element) (x : String) : List BpmnFlow :=
  (flowsOf elements).filter (·.source = x)

def incoming (elements : List Element) (x : String) : List BpmnFlow :=
  (flowsOf elements).filter (·.target = x)

/-- the ids are those of an XML document, and a flow has both its ends -/
structure WellFormed (elements : List Element) : Prop where
  nodeIds : ((nodesOf elements).map Prod.fst).Nodup
  flowIds : ((flowsOf elements).map BpmnFlow.id).Nodup
  named : ∀ e ∈ nodesOf elements, e.1 ≠ ""
  source : ∀ f ∈ flowsOf elements, f.source ∈ (nodesOf elements).map Prod.fst
  target : ∀ f ∈ flowsOf elements, f.target ∈ (nodesOf elements).map Prod.fst

theorem nodesOf_append (l l' : List Element) : nodesOf (l ++ l') = nodesOf l ++ nodesOf l' := by
  induction l with
  | nil => rfl
  | cons e l ih =>
    cases e with
    | node id t => exact congrArg ((id, t) :: ·) ih
    | sequenceFlow => exact ih

theorem flowsOf_append (l l' : List Element) : flowsOf (l ++ l') = flowsOf l ++ flowsOf l' := by
  induction l with
  | nil => rfl
  | cons e l ih =>
    cases e with
    | node => exact ih
    | sequenceFlow id s t c => exact congrArg (⟨id, s, t, conditionOf c⟩ :: ·) ih

/-! ## what the parser has of it -/

theorem setItem_of_notMem {α : Type} {k : String} {v : α} {d : List (String × α)}
    (h : k ∉ d.map Prod.fst) : setItem k v d = d ++ [(k, v)] := by
  induction d with
  | nil => rfl
  | cons e d ih =>
    obtain ⟨l, w⟩ := e
    have hne : l ≠ k := fun he => h (he ▸ List.mem_cons_self)
    rw [setItem, if_neg hne, ih fun hd => h (List.mem_cons_of_mem _ hd)]
    rfl

/-- the process has the nodes and the flows of the drawing, and a node knows flows of its own -/
structure Linked (elements : List Element) (p : BpmnProcess) : Prop where
  flows : p.flows = (flowsOf elements).map fun f => (f.id, f)
  nodes : p.nodes.map (fun e => (e.1, e.2.nodeType)) = nodesOf elements
  id : ∀ e ∈ p.nodes, e.2.id = e.1
  outgoing : ∀ e ∈ p.nodes, e.2.outgoing.Sublist ((outgoing elements e.1).map BpmnFlow.id)
  incoming : ∀ e ∈ p.nodes, e.2.incoming.Sublist ((incoming elements e.1).map BpmnFlow.id)

theorem Linked.keys {elements : List Element} {p : BpmnProcess} (h : Linked elements p) :
    p.nodes.map Prod.fst = (nodesOf elements).map Prod.fst := by
  rw [← h.nodes, List.map_map]
  rfl

theorem linked_node {elements : List Element} {p : BpmnProcess} (h : Linked elements p)
    {id : String} (t : NodeType) (hid : id ∉ (nodesOf elements).map Prod.fst) :
    Linked (elements ++ [.node id t]) (read p (.node id t)) := by
  have hnodes : (read p (.node id t)).nodes = p.nodes ++ [(id, ⟨id, t, [], []⟩)] :=
    setItem_of_notMem (by rwa [h.keys])
  have hflows : flowsOf (elements ++ [.node id t]) = flowsOf elements := by
    rw [flowsOf_append]
    exact List.append_nil _
  have hout : ∀ x, HxFusion.outgoing (elements ++ [.node id t]) x = HxFusion.outgoing elements x :=
    fun x => by rw [HxFusion.outgoing, hflows, HxFusion.outgoing]
  have hinc : ∀ x, HxFusion.incoming (elements ++ [.node id t]) x = HxFusion.incoming elements x :=
    fun x => by rw [HxFusion.incoming, hflows, HxFusion.incoming]
  -- every node is an old one or the new one, which knows no flow yet
  have hcases : ∀ e ∈ (read p (.node id t)).nodes, e ∈ p.nodes ∨ e = (id, ⟨id, t, [], []⟩) := by
    intro e he
    rw [hnodes] at he
    rcases List.mem_append.1 he with he | he
    · exact Or.inl he
    · exact Or.inr (List.mem_singleton.1 he)
  refine ⟨?_, ?_, fun e he => ?_, fun e he => ?_, fun e he => ?_⟩
  · rw [hflows]
    exact h.flows
  · rw [hnodes, List.map_append, h.nodes, nodesOf_append]
    rfl
  · rcases hcases e he with he | rfl
    · exact h.id e he
    · rfl
  · rw [hout]
    rcases hcases e he with he | rfl
    · exact h.outgoing e he
    · exact List.nil_sublist _
  · rw [hinc]
    rcases hcases e he with he | rfl
    · exact h.incoming e he
    · exact List.nil_sublist _

theorem linked_flow {elements : List Element} {p : BpmnProcess} (h : Linked elements p)
    {id : String} (source target : String) (text : Option String)
    (hid : id ∉ (flowsOf elements).map BpmnFlow.id) :
    Linked (elements ++ [.sequenceFlow id source target text])
      (read p (.sequenceFlow id source target text)) := by
  have hkeys : p.flows.map Prod.fst = (flowsOf elements).map BpmnFlow.id := by
    rw [h.flows, List.map_map]
    rfl
  have hflows : flowsOf (elements ++ [.sequenceFlow id source target text]) =
      flowsOf elements ++ [⟨id, source, target, conditionOf text⟩] := by
    rw [flowsOf_append]
    rfl
  have hnodes : (read p (.sequenceFlow id source target text)).nodes = p.nodes.map fun e =>
      (e.1, { e.2 with
        outgoing := if e.1 = source then e.2.outgoing ++ [id] else e.2.outgoing
        incoming := if e.1 = target then e.2.incoming ++ [id] else e.2.incoming }) := by
    show addIncoming target id (addOutgoing source id p.nodes) = _
    rw [addIncoming, addOutgoing, List.map_map]
    refine List.map_congr_left fun e _ => ?_
    show (e.1, if e.1 = target then
      { (if e.1 = source then { e.2 with outgoing := e.2.outgoing ++ [id] } else e.2) with
        incoming := (if e.1 = source then { e.2 with outgoing := e.2.outgoing ++ [id] }
          else e.2).incoming ++ [id] }
      else if e.1 = source then { e.2 with outgoing := e.2.outgoing ++ [id] } else e.2) = _
    by_cases hs : e.1 = source
    · by_cases ht : e.1 = target
      · rw [if_pos ht, if_pos hs, if_pos hs, if_pos ht]
      · rw [if_neg ht, if_pos hs, if_pos hs, if_neg ht]
    · by_cases ht : e.1 = target
      · rw [if_pos ht, if_neg hs, if_neg hs, if_pos ht]
      · rw [if_neg ht, if_neg hs, if_neg hs, if_neg ht]
  refine ⟨?_, ?_, fun e he => ?_, fun e he => ?_, fun e he => ?_⟩
  · show setItem id _ p.flows = _
    rw [setItem_of_notMem (by rwa [hkeys]), h.flows, hflows, List.map_append]
    rfl
  · rw [hnodes, List.map_map, nodesOf_append]
    exact h.nodes.trans (List.append_nil _).symm
  · rw [hnodes] at he
    obtain ⟨d, hd, rfl⟩ := List.mem_map.1 he
    exact h.id d hd
  · rw [hnodes] at he
    obtain ⟨d, hd, rfl⟩ := List.mem_map.1 he
    show (if d.1 = source then d.2.outgoing ++ [id] else d.2.outgoing).Sublist _
    rw [HxFusion.outgoing, hflows, List.filter_append]
    by_cases hs : d.1 = source
    · rw [if_pos hs, List.filter_cons_of_pos (by simp [hs]), List.map_append]
      exact (h.outgoing d hd).append (List.Sublist.refl _)
    · rw [if_neg hs, List.filter_cons_of_neg (by simp [Ne.symm hs]), List.map_append]
      exact (h.outgoing d hd).trans (List.sublist_append_left _ _)
  · rw [hnodes] at he
    obtain ⟨d, hd, rfl⟩ := List.mem_map.1 he
    show (if d.1 = target then d.2.incoming ++ [id] else d.2.incoming).Sublist _
    rw [HxFusion.incoming, hflows, List.filter_append]
    by_cases ht : d.1 = target
    · rw [if_pos ht, List.filter_cons_of_pos (by simp [ht]), List.map_append]
      exact (h.incoming d hd).append (List.Sublist.refl _)
    · rw [if_neg ht, List.filter_cons_of_neg (by simp [Ne.symm ht]), List.map_append]
      exact (h.incoming d hd).trans (List.sublist_append_left _ _)

theorem linked_read {elements : List Element} (hn : ((nodesOf elements).map Prod.fst).Nodup)
    (hf : ((flowsOf elements).map BpmnFlow.id).Nodup) :
    Linked elements (elements.foldl read ⟨[], [], []⟩) := by
  induction elements using List.reverseRecOn with
  | nil => exact ⟨rfl, rfl, fun _ h => absurd h List.not_mem_nil,
      fun _ h => absurd h List.not_mem_nil, fun _ h => absurd h List.not_mem_nil⟩
  | append_singleton elements e ih =>
    rw [nodesOf_append, List.map_append] at hn
    rw [flowsOf_append, List.map_append] at hf
    have hprev := ih (List.Nodup.of_append_left hn) (List.Nodup.of_append_left hf)
    rw [List.foldl_append]
    cases e with
    | node id t =>
      exact linked_node hprev t fun hmem =>
        List.disjoint_of_nodup_append hn hmem (List.mem_singleton_self id)
    | sequenceFlow id s t c =>
      exact linked_flow hprev s t c fun hmem =>
        List.disjoint_of_nodup_append hf hmem (List.mem_singleton_self id)

theorem linked_parse {elements : List Element} (h : WellFormed elements) :
    Linked elements (parse elements) := by
  have hread := linked_read h.nodeIds h.flowIds
  exact ⟨hread.flows, hread.nodes, hread.id, hread.outgoing, hread.incoming⟩

end HxFusion
