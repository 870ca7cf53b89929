import Velaris.HxFusion.AsDrawn

/-!
# The process as it is executed

* `executed_as_drawn`   a run whose rounds are fine is a run of the token flow, in whatever order
    the elements stand;
* `handover_as_drawn`   a process whose flows stand before their targets joins its two branches;
* `shipping_not_shipped` the same elements with the flows last: the join is where the run ends.
-/

namespace HxFusion

open Py Base

section
variable {elements : List Element} {holds : String → Dict → Bool}

theorem startEvents_parse (hd : WellFormed elements) :
    (parse elements).startEvents = startIds elements := by
  have hl := linked_parse hd
  rw [startIds, ← hl.nodes, List.filter_map, List.map_map]
  exact List.map_congr_left fun e he => hl.id e (List.mem_of_mem_filter he)

theorem tracks_begin (hd : WellFormed elements) (context : Dict) :
    ∃ m, Tracks elements holds (begin (parse elements) context none) m := by
  have hstarts : ∀ y ∈ startIds elements, (y, NodeType.startEvent) ∈ nodesOf elements := by
    intro y hy
    obtain ⟨⟨z, t⟩, he, rfl⟩ := List.mem_map.1 hy
    obtain ⟨hmem, ht⟩ := List.mem_filter.1 he
    obtain rfl : t = .startEvent := of_decide_eq_true ht
    exact hmem
  refine ⟨initial elements, .nil, fun _ => ?_, fun f hf => ?_, fun z hz => ?_, ?_,
    fun y hy => absurd hy List.not_mem_nil, fun y hy => ?_, fun _ _ => rfl, fun hdone => ?_⟩
  · have hall : (startIds elements).filter (¬ Spent elements [] ·) = startIds elements := by
      refine List.filter_eq_self.2 fun y _ => decide_eq_true fun hs => ?_
      exact absurd hs.1 List.not_mem_nil
    show (initial elements).map Place.target =
      (((parse elements).startEvents.filter (¬ Spent elements [] ·) : List String) : Multiset String)
    rw [startEvents_parse hd, hall, initial, Multiset.map_coe, List.map_map]
    exact congrArg _ (List.map_id _)
  · obtain ⟨z, _, hzf⟩ := List.mem_map.1 (Multiset.mem_coe.1 hf)
    cases hzf
  · obtain ⟨y, hy, hyz⟩ := List.mem_map.1 (Multiset.mem_coe.1 hz)
    obtain rfl : y = z := Place.start.inj hyz
    exact hstarts y hy
  · refine Multiset.coe_nodup.2 (List.Nodup.map (fun _ _ => Place.start.inj) ?_)
    exact hd.nodeIds.sublist (List.filter_sublist.map _)
  · have hmem : y ∈ (parse elements).startEvents := hy
    rw [startEvents_parse hd] at hmem
    exact List.mem_map_of_mem (hstarts y hmem)
  · by_cases hnone : firstQueue (parse elements) none = []
    · have hs : (begin (parse elements) context none).status = .failed := if_pos hnone
      rw [hs] at hdone
      cases hdone
    · have hs : (begin (parse elements) context none).status = .running := if_neg hnone
      rw [hs] at hdone
      cases hdone

/-- In every run whose rounds are fine, the executed nodes are a run of the token flow of the
drawing, in whatever order its elements stand, and where the instance is marked completed no token
is left. -/
theorem executed_as_drawn {elements' : List Element} (hd : WellFormed elements)
    (hsame : elements.Perm elements') (context : Dict) (works : List Work)
    (hfine : Along (step holds (parse elements)) (Fine elements holds)
      (begin (parse elements) context none) works) :
    AsDrawn elements' holds
      (exec (step holds (parse elements)) (begin (parse elements) context none) works) := by
  obtain ⟨m, h⟩ := exec_inv (fun s w => tracks_step (s := s) hd w) (tracks_begin hd context) hfine
  refine ⟨m, ?_, h.done⟩
  rw [← initial_perm hsame]
  exact h.run.perm hsame

theorem fine_of_head {s : Run} (x : String) (rest : List String) (node : BpmnNode)
    (hq : s.queue = x :: rest) (hnode : (parse elements).nodes.lookup x = some node)
    (hplain : node.nodeType ≠ .exclusiveGateway)
    (h : x ∉ s.visited ∧ (node.nodeType = .endEvent → ∀ y ∈ rest, Spent elements s.visited y) ∧
      (Joins elements x → (x :: rest).count x = (incoming elements x).length) ∧
      (Joins elements x → node.incoming.length ≤ 1 ∨ outgoing elements x = []) ∧
      (node.nodeType ≠ .endEvent → ∀ f ∈ outgoing elements x, f.id ∈ node.outgoing)) (w : Work) :
    Fine elements holds s w := by
  obtain ⟨hfresh, hlast, harrived, hpasses, hknown⟩ := h
  intro _ y rest' hq'
  rw [hq] at hq'
  obtain ⟨rfl, rfl⟩ := List.cons.inj hq'
  refine Or.inr ⟨hfresh, fun node' hnode' _ => ?_⟩
  rw [hnode] at hnode'
  obtain rfl := Option.some.inj hnode'
  exact ⟨hlast, harrived, hpasses, fun he _ => hknown he, fun hx => absurd hx hplain⟩

theorem fine_of_spent {s : Run} (x : String) (rest : List String) (hq : s.queue = x :: rest)
    (h : Spent elements s.visited x) (w : Work) : Fine elements holds s w := by
  intro _ y rest' hq'
  rw [hq] at hq'
  obtain ⟨rfl, rfl⟩ := List.cons.inj hq'
  exact Or.inl h

end

/-- a parcel is checked and packed, each flow written between its two nodes -/
def handover : List Element := [
  .node "start" .startEvent, .sequenceFlow "f1" "start" "fork" none,
  .node "fork" .parallelGateway, .sequenceFlow "f2" "fork" "check" none,
  .sequenceFlow "f3" "fork" "pack" none, .node "check" .serviceTask, .node "pack" .serviceTask,
  .sequenceFlow "f4" "check" "join" none, .sequenceFlow "f5" "pack" "join" none,
  .node "join" .parallelGateway, .sequenceFlow "f6" "join" "end" none, .node "end" .endEvent]

def done : Work := ⟨none, none⟩

def never : String → Dict → Bool := fun _ _ => false

theorem handover_as_drawn :
    AsDrawn handover never
      (exec (step never (parse handover)) (begin (parse handover) [] none)
        (List.replicate 7 done)) := by
  have hd : WellFormed handover :=
    ⟨by decide +kernel, by decide +kernel, by decide +kernel, by decide +kernel, by decide +kernel⟩
  refine executed_as_drawn hd (List.Perm.refl _) [] _ ⟨?_, ?_, ?_, ?_, ?_, ?_, ?_, trivial⟩
  · exact fine_of_head "start" [] ⟨"start", .startEvent, ["f1"], []⟩
      (by decide +kernel) (by decide +kernel) (by decide) (by decide +kernel) _
  · exact fine_of_head "fork" []
      ⟨"fork", .parallelGateway, ["f2", "f3"], []⟩
      (by decide +kernel) (by decide +kernel) (by decide) (by decide +kernel) _
  · exact fine_of_head "check" ["pack"]
      ⟨"check", .serviceTask, ["f4"], []⟩
      (by decide +kernel) (by decide +kernel) (by decide) (by decide +kernel) _
  · exact fine_of_head "pack" ["join"]
      ⟨"pack", .serviceTask, ["f5"], []⟩
      (by decide +kernel) (by decide +kernel) (by decide) (by decide +kernel) _
  · -- both tokens are there, and the parser knows neither flow they came along
    exact fine_of_head "join" ["join"]
      ⟨"join", .parallelGateway, ["f6"], []⟩
      (by decide +kernel) (by decide +kernel) (by decide) (by decide +kernel) _
  · exact fine_of_spent "join" ["end"] (by decide +kernel) (by decide +kernel) _
  · exact fine_of_head "end" [] ⟨"end", .endEvent, [], []⟩
      (by decide +kernel) (by decide +kernel) (by decide) (by decide +kernel) _

/-- the same process with a step after the join, and its flows after its nodes -/
def shipping : List Element := [
  .node "start" .startEvent, .node "fork" .parallelGateway, .node "check" .serviceTask,
  .node "pack" .serviceTask, .node "join" .parallelGateway, .node "ship" .serviceTask,
  .node "end" .endEvent, .sequenceFlow "f1" "start" "fork" none,
  .sequenceFlow "f2" "fork" "check" none, .sequenceFlow "f3" "fork" "pack" none,
  .sequenceFlow "f4" "check" "join" none, .sequenceFlow "f5" "pack" "join" none,
  .sequenceFlow "f6" "join" "ship" none, .sequenceFlow "f7" "ship" "end" none]

/-- The join is executed for the first of its two tokens and passes none on; the instance is marked
completed and the parcel is never shipped. -/
theorem shipping_not_shipped :
    ¬ AsDrawn shipping never
      (exec (step never (parse shipping)) (begin (parse shipping) [] none)
        (List.replicate 7 done)) := by
  rintro ⟨m, hrun, hdone⟩
  have hlog : (exec (step never (parse shipping)) (begin (parse shipping) [] none)
      (List.replicate 7 done)).log.map Prod.fst = ["start", "fork", "check", "pack", "join"] := by
    decide +kernel
  have hcompleted : (exec (step never (parse shipping)) (begin (parse shipping) [] none)
      (List.replicate 7 done)).status = .completed := by
    decide +kernel
  have hwaits : Place.on ⟨"f6", "join", "ship", none⟩ ∈ m := by
    refine token_waits hrun (x := "join") ?_ ?_ ?_ ?_
    · rw [hlog]
      decide
    · decide +kernel
    · intro t ht
      have hall : ∀ e ∈ nodesOf shipping, e.1 = "join" →
          e.2 ≠ .endEvent ∧ e.2 ≠ .exclusiveGateway := by decide +kernel
      exact hall _ ht rfl
    · rw [hlog]
      decide
  rw [hdone hcompleted] at hwaits
  exact Multiset.notMem_zero _ hwaits

end HxFusion
