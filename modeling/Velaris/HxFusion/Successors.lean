import Velaris.HxFusion.Tokens

/-!
# The successors of a node

* `exists_node`, `lookup_flow`, `linked_flows`   what the parser's process has of the drawing;
* `nextNodes_all`   a node whose flows are all known goes on along all of them;
* `choose_first`, `choose_default`   the choice of an exclusive gateway;
* `nextNodes_choose`   it is a flow that may be taken.
-/

namespace HxFusion

open Py Base

/-! ## what the parser knows of a node -/

section
variable {elements : List Element} {holds : String → Dict → Bool} (hd : WellFormed elements)
include hd

theorem exists_node {x : String} (hx : x ∈ (nodesOf elements).map Prod.fst) :
    ∃ node, (parse elements).nodes.lookup x = some node := by
  rw [← (linked_parse hd).keys] at hx
  obtain ⟨e, he, rfl⟩ := List.mem_map.1 hx
  cases hlookup : (parse elements).nodes.lookup e.1 with
  | some node => exact ⟨node, rfl⟩
  | none => exact absurd (List.lookup_eq_none_iff.1 hlookup e he) (by simp)

theorem mem_of_node {x : String} {node : BpmnNode}
    (h : (parse elements).nodes.lookup x = some node) :
    (x, node.nodeType) ∈ nodesOf elements := by
  rw [← (linked_parse hd).nodes]
  exact List.mem_map.2 ⟨_, mem_of_lookup h, rfl⟩

theorem type_unique {x : String} {t t' : NodeType} (h : (x, t) ∈ nodesOf elements)
    (h' : (x, t') ∈ nodesOf elements) : t = t' :=
  (Prod.mk.inj (List.inj_on_of_nodup_map hd.nodeIds h h' rfl)).2

theorem lookup_flow {f : BpmnFlow} (hf : f ∈ flowsOf elements) :
    (parse elements).flows.lookup f.id = some f := by
  have hmem : (f.id, f) ∈ (parse elements).flows := by
    rw [(linked_parse hd).flows]
    exact List.mem_map_of_mem hf
  cases hlookup : (parse elements).flows.lookup f.id with
  | none => exact absurd (List.lookup_eq_none_iff.1 hlookup _ hmem) (by simp)
  | some g =>
    have hg := mem_of_lookup hlookup
    rw [(linked_parse hd).flows] at hg
    obtain ⟨g', hg', heq⟩ := List.mem_map.1 hg
    obtain ⟨hid, rfl⟩ := Prod.mk.inj heq
    rw [List.inj_on_of_nodup_map hd.flowIds hg' hf hid]

theorem filterMap_lookup {fs : List BpmnFlow} (h : ∀ f ∈ fs, f ∈ flowsOf elements) :
    (fs.map BpmnFlow.id).filterMap (fun id => (parse elements).flows.lookup id) = fs := by
  induction fs with
  | nil => rfl
  | cons f fs ih =>
    rw [List.map_cons, List.filterMap_cons, lookup_flow hd (h f List.mem_cons_self),
      ih fun g hg => h g (List.mem_cons_of_mem _ hg)]

theorem linked_flows {x : String} {node : BpmnNode}
    (h : (parse elements).nodes.lookup x = some node) :
    ∃ fs : List BpmnFlow, fs.Sublist (outgoing elements x) ∧ fs.map BpmnFlow.id = node.outgoing ∧
      node.outgoing.filterMap (fun id => (parse elements).flows.lookup id) = fs := by
  have hsub := (linked_parse hd).outgoing _ (mem_of_lookup h)
  obtain ⟨fs, hfs, hids⟩ := List.sublist_map_iff.1 hsub
  refine ⟨fs, hfs, hids.symm, ?_⟩
  rw [hids]
  exact filterMap_lookup hd fun f hf => List.mem_of_mem_filter (hfs.subset hf)

theorem mem_linked {x : String} {fs : List BpmnFlow} (hfs : fs.Sublist (outgoing elements x))
    {f : BpmnFlow} (hf : f ∈ outgoing elements x) (hid : f.id ∈ fs.map BpmnFlow.id) : f ∈ fs := by
  obtain ⟨g, hg, hgf⟩ := List.mem_map.1 hid
  have hg' := List.mem_of_mem_filter (hfs.subset hg)
  rwa [List.inj_on_of_nodup_map hd.flowIds hg' (List.mem_of_mem_filter hf) hgf] at hg

theorem outgoing_nodup (x : String) : (outgoing elements x).Nodup :=
  (List.Nodup.of_map _ hd.flowIds).filter _

theorem incoming_le {x : String} {node : BpmnNode}
    (h : (parse elements).nodes.lookup x = some node) :
    node.incoming.length ≤ (incoming elements x).length := by
  have hsub := (linked_parse hd).incoming _ (mem_of_lookup h)
  exact hsub.length_le.trans (List.length_map _).le

theorem nextNodes_all {x : String} {node : BpmnNode}
    (h : (parse elements).nodes.lookup x = some node)
    (ht : node.nodeType ≠ .exclusiveGateway)
    (hknown : ∀ f ∈ outgoing elements x, f.id ∈ node.outgoing) (context : Dict) :
    nextNodes holds (parse elements) x context = (outgoing elements x).map BpmnFlow.target := by
  obtain ⟨fs, hsub, hids, hflows⟩ := linked_flows hd h
  have hall : fs = outgoing elements x := by
    apply hsub.eq_of_length_le
    apply (outgoing_nodup hd x).length_le_of_subset
    intro f hf
    exact mem_linked hd hsub hf (hids ▸ hknown f hf)
  rw [nextNodes, h]
  show (if node.nodeType = .exclusiveGateway then _ else (node.outgoing.filterMap _).map _) = _
  rw [if_neg ht, hflows, hall]

end

/-! ## the choice of an exclusive gateway -/

section
variable {holds : String → Dict → Bool} {context : Dict} {fs : List BpmnFlow}

theorem choose_first
    (h : ∃ f ∈ fs, ∃ c, f.condition = some c ∧ holds c context = true) (d : Option String) :
    ∃ f ∈ fs, (∃ c, f.condition = some c ∧ holds c context = true) ∧
      choose holds context fs d = [f.target] := by
  induction fs generalizing d with
  | nil =>
    obtain ⟨f, hf, -⟩ := h
    exact absurd hf List.not_mem_nil
  | cons g fs ih =>
    cases hg : g.condition with
    | none =>
      have hrest : ∃ f ∈ fs, ∃ c, f.condition = some c ∧ holds c context = true := by
        obtain ⟨f, hf, c, hc, htrue⟩ := h
        rcases List.mem_cons.1 hf with rfl | hf
        · rw [hg] at hc
          cases hc
        · exact ⟨f, hf, c, hc, htrue⟩
      obtain ⟨f, hf, hfc, hchoose⟩ := ih hrest (some g.target)
      refine ⟨f, List.mem_cons_of_mem _ hf, hfc, ?_⟩
      simp only [choose, hg]
      exact hchoose
    | some c =>
      by_cases hc : holds c context = true
      · refine ⟨g, List.mem_cons_self, ⟨c, hg, hc⟩, ?_⟩
        simp only [choose, hg]
        exact if_pos hc
      · have hrest : ∃ f ∈ fs, ∃ c, f.condition = some c ∧ holds c context = true := by
          obtain ⟨f, hf, c', hc', htrue⟩ := h
          rcases List.mem_cons.1 hf with rfl | hf
          · rw [hg] at hc'
            obtain rfl : c = c' := Option.some.inj hc'
            exact absurd htrue hc
          · exact ⟨f, hf, c', hc', htrue⟩
        obtain ⟨f, hf, hfc, hchoose⟩ := ih hrest d
        refine ⟨f, List.mem_cons_of_mem _ hf, hfc, ?_⟩
        simp only [choose, hg]
        rw [if_neg hc]
        exact hchoose

theorem choose_last (hfalse : ∀ f ∈ fs, ∀ c, f.condition = some c → holds c context = false)
    (hnamed : ∀ f ∈ fs, f.target ≠ "") {t : String} (ht : t ≠ "") :
    choose holds context fs (some t) = [t] ∨
      ∃ f ∈ fs, f.condition = none ∧ choose holds context fs (some t) = [f.target] := by
  induction fs generalizing t with
  | nil => exact Or.inl (if_neg ht)
  | cons g fs ih =>
    have hfalse' : ∀ f ∈ fs, ∀ c, f.condition = some c → holds c context = false :=
      fun f hf => hfalse f (List.mem_cons_of_mem _ hf)
    have hnamed' : ∀ f ∈ fs, f.target ≠ "" := fun f hf => hnamed f (List.mem_cons_of_mem _ hf)
    cases hg : g.condition with
    | none =>
      refine Or.inr ?_
      simp only [choose, hg]
      rcases ih hfalse' hnamed' (hnamed g List.mem_cons_self) with h | ⟨f, hf, hnone, h⟩
      · exact ⟨g, List.mem_cons_self, hg, h⟩
      · exact ⟨f, List.mem_cons_of_mem _ hf, hnone, h⟩
    | some c =>
      have hc : ¬ holds c context = true := by
        rw [hfalse g List.mem_cons_self c hg]
        exact Bool.false_ne_true
      simp only [choose, hg]
      rw [if_neg hc]
      rcases ih hfalse' hnamed' ht with h | ⟨f, hf, hnone, h⟩
      · exact Or.inl h
      · exact Or.inr ⟨f, List.mem_cons_of_mem _ hf, hnone, h⟩

theorem choose_default (hfalse : ∀ f ∈ fs, ∀ c, f.condition = some c → holds c context = false)
    (hnamed : ∀ f ∈ fs, f.target ≠ "") (hex : ∃ f ∈ fs, f.condition = none) (d : Option String) :
    ∃ f ∈ fs, f.condition = none ∧ choose holds context fs d = [f.target] := by
  induction fs generalizing d with
  | nil =>
    obtain ⟨f, hf, -⟩ := hex
    exact absurd hf List.not_mem_nil
  | cons g fs ih =>
    have hfalse' : ∀ f ∈ fs, ∀ c, f.condition = some c → holds c context = false :=
      fun f hf => hfalse f (List.mem_cons_of_mem _ hf)
    have hnamed' : ∀ f ∈ fs, f.target ≠ "" := fun f hf => hnamed f (List.mem_cons_of_mem _ hf)
    cases hg : g.condition with
    | none =>
      simp only [choose, hg]
      rcases choose_last hfalse' hnamed' (hnamed g List.mem_cons_self) with h | ⟨f, hf, hnone, h⟩
      · exact ⟨g, List.mem_cons_self, hg, h⟩
      · exact ⟨f, List.mem_cons_of_mem _ hf, hnone, h⟩
    | some c =>
      have hrest : ∃ f ∈ fs, f.condition = none := by
        obtain ⟨f, hf, hnone⟩ := hex
        rcases List.mem_cons.1 hf with rfl | hf
        · rw [hg] at hnone
          cases hnone
        · exact ⟨f, hf, hnone⟩
      have hc : ¬ holds c context = true := by
        rw [hfalse g List.mem_cons_self c hg]
        exact Bool.false_ne_true
      obtain ⟨f, hf, hnone, hchoose⟩ := ih hfalse' hnamed' hrest d
      refine ⟨f, List.mem_cons_of_mem _ hf, hnone, ?_⟩
      simp only [choose, hg]
      rw [if_neg hc]
      exact hchoose

end

/-- the parser knows a flow of `x` whose condition holds; or one without a condition, and no
condition of a flow of `x` holds -/
def Takes (elements : List Element) (holds : String → Dict → Bool) (context : Dict) (x : String)
    (node : BpmnNode) : Prop :=
  (∃ f ∈ outgoing elements x, f.id ∈ node.outgoing ∧
    ∃ c, f.condition = some c ∧ holds c context = true) ∨
  ((∃ f ∈ outgoing elements x, f.id ∈ node.outgoing ∧ f.condition = none) ∧
    ∀ f ∈ outgoing elements x, ∀ c, f.condition = some c → holds c context = false)

section
variable {elements : List Element} {holds : String → Dict → Bool} (hd : WellFormed elements)
include hd

theorem target_named {x : String} {f : BpmnFlow} (hf : f ∈ outgoing elements x) :
    f.target ≠ "" := by
  obtain ⟨e, he, heq⟩ := List.mem_map.1 (hd.target f (List.mem_of_mem_filter hf))
  rw [← heq]
  exact hd.named e he

theorem nextNodes_choose {x : String} {node : BpmnNode} {context : Dict}
    (h : (parse elements).nodes.lookup x = some node) (ht : node.nodeType = .exclusiveGateway)
    (htakes : Takes elements holds context x node) :
    ∃ f, Takable elements holds context x f ∧
      nextNodes holds (parse elements) x context = [f.target] := by
  obtain ⟨fs, hsub, hids, hflows⟩ := linked_flows hd h
  have hnext : nextNodes holds (parse elements) x context = choose holds context fs none := by
    rw [nextNodes, h]
    show (if node.nodeType = .exclusiveGateway then choose holds context
      (node.outgoing.filterMap _) none else _) = _
    rw [if_pos ht, hflows]
  rw [hnext]
  by_cases hfirst : ∃ f ∈ fs, ∃ c, f.condition = some c ∧ holds c context = true
  · obtain ⟨f, hf, hcond, hchoose⟩ := choose_first hfirst none
    exact ⟨f, ⟨hsub.subset hf, Or.inl hcond⟩, hchoose⟩
  · rcases htakes with ⟨f, hf, hid, hcond⟩ | ⟨⟨f, hf, hid, hnone⟩, hfalse⟩
    · exact absurd ⟨f, mem_linked hd hsub hf (hids ▸ hid), hcond⟩ hfirst
    · obtain ⟨g, hg, hgnone, hchoose⟩ := choose_default
        (fun f hf => hfalse f (hsub.subset hf)) (fun f hf => target_named hd (hsub.subset hf))
        ⟨f, mem_linked hd hsub hf (hids ▸ hid), hnone⟩ none
      exact ⟨g, ⟨hsub.subset hg, Or.inr ⟨hgnone, hfalse⟩⟩, hchoose⟩

end

end HxFusion
