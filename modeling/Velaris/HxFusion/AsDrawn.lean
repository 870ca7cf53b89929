import Mathlib.Data.Multiset.UnionInter
import Velaris.Base.Run
import Velaris.HxFusion.Successors

/-!
# Runs of the interpreter that follow the drawing

The queue holds a node for every token, and a join that has been executed once more for every
token it took.

* `Fine`   what has to hold at a round of the loop;
* `Tracks`   a marking that the queue stands for;
* `tracks_step`   a fine round fires the node it executes, and keeps the marking;
* `executed_as_drawn` a run whose rounds are fine is a run of the token flow.
-/

namespace HxFusion

open Py Base

section
variable (elements : List Element) (holds : String → Dict → Bool)

/-- a parallel gateway with more than one incoming flow -/
def Joins (x : String) : Prop :=
  (x, NodeType.parallelGateway) ∈ nodesOf elements ∧ 1 < (incoming elements x).length

instance (x : String) : Decidable (Joins elements x) := inferInstanceAs (Decidable (_ ∧ _))

/-- the node in the queue stands for a token that a join has taken already -/
def Spent (visited : List String) (y : String) : Prop := y ∈ visited ∧ Joins elements y

instance (visited : List String) (y : String) : Decidable (Spent elements visited y) :=
  inferInstanceAs (Decidable (_ ∧ _))

def Completes (node : BpmnNode) (w : Work) : Prop :=
  (executeNode node.nodeType w).2.2.getD "" = "" ∧ (executeNode node.nodeType w).2.1 = false

/-- executing `x`, popped from before `rest`, does what the drawing says:
an end event is the last token, a join has all its tokens and the parser knows at most one of its
incoming flows, and the parser knows the flows to go on along -/
structure Sound (s : Run) (x : String) (rest : List String) (node : BpmnNode) : Prop where
  last : node.nodeType = .endEvent → ∀ y ∈ rest, Spent elements s.visited y
  arrived : Joins elements x → (x :: rest).count x = (incoming elements x).length
  passes : Joins elements x → node.incoming.length ≤ 1 ∨ outgoing elements x = []
  known : node.nodeType ≠ .endEvent → node.nodeType ≠ .exclusiveGateway →
    ∀ f ∈ outgoing elements x, f.id ∈ node.outgoing
  takes : node.nodeType = .exclusiveGateway → Takes elements holds s.context x node

/-- the round pops a token that was taken, or a node for the first time and soundly -/
def Fine (s : Run) (w : Work) : Prop :=
  s.status = .running → ∀ x rest, s.queue = x :: rest →
    Spent elements s.visited x ∨
      (x ∉ s.visited ∧ ∀ node, (parse elements).nodes.lookup x = some node →
        Completes node w → Sound elements holds s x rest node)

/-- the executed nodes are a run of the token flow, and no token is left where the instance is
marked completed -/
def AsDrawn (s : Run) : Prop :=
  ∃ m, TokenRun elements holds (initial elements) s.log m ∧ (s.status = .completed → m = 0)

structure Tracks (s : Run) (m : Marking) : Prop where
  run : TokenRun elements holds (initial elements) s.log m
  queue : s.status = .running →
    m.map Place.target = (s.queue.filter (¬ Spent elements s.visited ·) : List String)
  flows : ∀ f, Place.on f ∈ m → f ∈ flowsOf elements ∧ f.source ∈ s.visited
  starts : ∀ z, Place.start z ∈ m → (z, NodeType.startEvent) ∈ nodesOf elements
  nodup : m.Nodup
  spent : ∀ y ∈ s.visited, Joins elements y →
    ∀ f ∈ incoming elements y, f.source ∈ s.visited
  nodes : ∀ y ∈ s.queue, y ∈ (nodesOf elements).map Prod.fst
  pending : ∀ y, y ∉ s.visited → s.pending y = 0
  done : s.status = .completed → m = 0

end

/-! ## one execution -/

section
variable {elements : List Element} {holds : String → Dict → Bool}

theorem Tracks.fresh_source {s : Run} {m : Marking} (h : Tracks elements holds s m) {x : String}
    (hx : x ∉ s.visited) {f : BpmnFlow} (hf : Place.on f ∈ m) : f.source ≠ x := by
  intro he
  exact hx (he ▸ (h.flows f hf).2)

theorem Tracks.on_of_target (hd : WellFormed elements) {s : Run} {m : Marking}
    (h : Tracks elements holds s m) {p : Place} (hp : p ∈ m) {x : String} (hx : p.target = x)
    (hpar : (x, NodeType.parallelGateway) ∈ nodesOf elements) :
    ∃ f ∈ incoming elements x, p = .on f := by
  cases p with
  | start z =>
    obtain rfl : z = x := hx
    cases type_unique hd (h.starts z hp) hpar
  | on f => exact ⟨f, List.mem_filter.2 ⟨(h.flows f hp).1, decide_eq_true hx⟩, rfl⟩

theorem exists_taken (hd : WellFormed elements) {s : Run} {m : Marking}
    (h : Tracks elements holds s m) (hrunning : s.status = .running) {x : String}
    {rest : List String} (hq : s.queue = x :: rest) (hfresh : x ∉ s.visited) {t : NodeType}
    (ht : (x, t) ∈ nodesOf elements)
    (harrived : Joins elements x → (x :: rest).count x = (incoming elements x).length) :
    ∃ taken kept, m = taken + kept ∧ Consumes elements x t taken ∧
      kept.map Place.target =
        (rest.filter (¬ Spent elements (x :: s.visited) ·) : List String) ∧
      (Joins elements x → ∀ f ∈ incoming elements x, f.source ∈ s.visited) := by
  have hunspent : ¬ Spent elements s.visited x := fun hs => hfresh hs.1
  have hmap := h.queue hrunning
  rw [hq, List.filter_cons_of_pos (by simpa using hunspent), ← Multiset.cons_coe] at hmap
  by_cases hjoin : Joins elements x
  · -- all the tokens at `x` are taken: one on each of its incoming flows
    have hmem : ∀ p ∈ m.filter (·.target = x), ∃ f ∈ incoming elements x, p = .on f := by
      intro p hp
      obtain ⟨hpm, hpx⟩ := Multiset.mem_filter.1 hp
      exact h.on_of_target hd hpm hpx hjoin.1
    have hle : m.filter (·.target = x) ≤ ((incoming elements x).map Place.on : List Place) := by
      rw [Multiset.le_iff_subset (h.nodup.filter _)]
      intro p hp
      obtain ⟨f, hf, rfl⟩ := hmem p hp
      exact Multiset.mem_coe.2 (List.mem_map_of_mem hf)
    have hcard : (m.filter (·.target = x)).card = (incoming elements x).length := by
      have hcount : Multiset.count x (m.map Place.target) = (m.filter (·.target = x)).card := by
        rw [Multiset.count_map]
        simp only [eq_comm]
      have hkeep : (rest.filter (¬ Spent elements s.visited ·)).count x = rest.count x :=
        List.count_filter (by simpa using hunspent)
      rw [← hcount, hmap, Multiset.cons_coe, Multiset.coe_count, List.count_cons_self, hkeep,
        ← harrived hjoin, List.count_cons_self]
    have htaken : m.filter (·.target = x) = ((incoming elements x).map Place.on : List Place) := by
      refine Multiset.eq_of_le_of_card_le hle ?_
      rw [hcard, Multiset.coe_card, List.length_map]
    refine ⟨m.filter (·.target = x), m.filter (¬ ·.target = x),
      (Multiset.filter_add_not _ m).symm, ?_, ?_, ?_⟩
    · obtain rfl : t = .parallelGateway := type_unique hd ht hjoin.1
      rw [htaken]
      refine .all fun hnil => ?_
      have hlt := hjoin.2
      rw [hnil] at hlt
      exact absurd hlt (by decide)
    · have hfilter : (m.filter (¬ ·.target = x)).map Place.target =
          (m.map Place.target).filter (¬ · = x) := 
        (Multiset.filter_map (fun y => ¬ y = x) Place.target m).symm
      rw [hfilter, hmap, Multiset.cons_coe, Multiset.filter_coe, List.filter_cons_of_neg (by simp),
        List.filter_filter]
      congr 1
      refine List.filter_congr fun y _ => ?_
      have hiff : Spent elements (x :: s.visited) y ↔ y = x ∨ Spent elements s.visited y := by
        refine ⟨fun hy => ?_, fun hy => ?_⟩
        · rcases List.mem_cons.1 hy.1 with rfl | hvis
          · exact Or.inl rfl
          · exact Or.inr ⟨hvis, hy.2⟩
        · rcases hy with rfl | hy
          · exact ⟨List.mem_cons_self, hjoin⟩
          · exact ⟨List.mem_cons_of_mem _ hy.1, hy.2⟩
      simp only [hiff, not_or, Bool.decide_and]
    · intro _ f hf
      have hon : Place.on f ∈ m.filter (·.target = x) := by
        rw [htaken]
        exact Multiset.mem_coe.2 (List.mem_map_of_mem hf)
      exact (h.flows f (Multiset.mem_filter.1 hon).1).2
  · -- the first token at `x` is taken
    have hsame : ∀ y ∈ rest, (decide ¬ Spent elements (x :: s.visited) y) =
        decide ¬ Spent elements s.visited y := by
      intro y _
      have hiff : Spent elements (x :: s.visited) y ↔ Spent elements s.visited y := by
        refine ⟨fun hy => ⟨?_, hy.2⟩, fun hy => ⟨List.mem_cons_of_mem _ hy.1, hy.2⟩⟩
        rcases List.mem_cons.1 hy.1 with rfl | hmem
        · exact absurd hy.2 hjoin
        · exact hmem
      simp only [hiff]
    rw [List.filter_congr hsame]
    obtain ⟨p, hp, hpx, hkept⟩ := (Multiset.map_eq_cons Place.target m _ x).2 hmap
    refine ⟨{p}, m.erase p, ?_, ?_, hkept, fun hj => absurd hj hjoin⟩
    · rw [Multiset.singleton_add]
      exact (Multiset.cons_erase hp).symm
    · by_cases hpar : t = .parallelGateway
      · subst hpar
        obtain ⟨f, hf, rfl⟩ := h.on_of_target hd hp hpx ht
        have hlen : (incoming elements x).length ≤ 1 := not_lt.1 fun hlt => hjoin ⟨ht, hlt⟩
        have hone : incoming elements x = [f] := by
          cases hin : incoming elements x with
          | nil =>
            rw [hin] at hf
            cases hf
          | cons g l =>
            rw [hin] at hf hlen
            have hl : l = [] := List.length_eq_zero_iff.1 (by simpa using hlen)
            rw [hl] at hf ⊢
            rw [List.mem_singleton.1 hf]
        have hne : incoming elements x ≠ [] := by
          rw [hone]
          exact List.cons_ne_nil _ _
        have hall := Consumes.all hne
        rw [hone] at hall
        exact hall
      · exact .one hpar hpx

theorem tracks_fired (hd : WellFormed elements) {s s' : Run} {m : Marking}
    (h : Tracks elements holds s m) (hrunning : s.status = .running) {x : String}
    {rest : List String} (hq : s.queue = x :: rest) (hfresh : x ∉ s.visited) {t : NodeType}
    (ht : (x, t) ∈ nodesOf elements)
    (harrived : Joins elements x → (x :: rest).count x = (incoming elements x).length)
    {context : Dict} (sent : Marking) (next : List String) (hsent : Produces elements holds context x t sent)
    (hnext : sent.map Place.target = (next : List String))
    (hout : ∀ p ∈ sent, ∃ f ∈ outgoing elements x, p = .on f) (hnodup : sent.Nodup)
    (hlog : s'.log = s.log ++ [(x, context)]) (hvisited : s'.visited = x :: s.visited)
    (hqueue : s'.queue = rest ++ next) (hpending : ∀ y, y ≠ x → s'.pending y = s.pending y)
    (hdone : s'.status = .completed → sent = 0 ∧ ∀ y ∈ rest, Spent elements s.visited y) :
    ∃ m', Tracks elements holds s' m' := by
  obtain ⟨taken, kept, hm, htaken, hkept, hsources⟩ :=
    exists_taken hd h hrunning hq hfresh ht harrived
  have hin : ∀ p ∈ kept, p ∈ m := by
    intro p hp
    rw [hm]
    exact Multiset.mem_add.2 (Or.inr hp)
  -- the sources of the flows into an executed join are executed
  have hspent : ∀ y ∈ x :: s.visited, Joins elements y →
      ∀ f ∈ incoming elements y, f.source ∈ s.visited := by
    intro y hy hj
    rcases List.mem_cons.1 hy with rfl | hy
    · exact hsources hj
    · exact h.spent y hy hj
  have hunspent : ∀ f ∈ outgoing elements x, ¬ Spent elements (x :: s.visited) f.target := by
    intro f hf hs
    obtain ⟨hmem, hsource⟩ := List.mem_filter.1 hf
    have hvisit := hspent f.target hs.1 hs.2 f (List.mem_filter.2 ⟨hmem, decide_eq_true rfl⟩)
    rw [of_decide_eq_true hsource] at hvisit
    exact hfresh hvisit
  refine ⟨sent + kept, ?_, ?_, ?_, ?_, ?_, ?_, ?_, ?_, ?_⟩
  · rw [hlog]
    exact .concat h.run ⟨t, taken, sent, kept, ht, htaken, hsent, hm, rfl⟩
  · intro _
    have hall : next.filter (¬ Spent elements (x :: s.visited) ·) = next := by
      refine List.filter_eq_self.2 fun y hy => ?_
      have hy' : y ∈ sent.map Place.target := by
        rw [hnext]
        exact Multiset.mem_coe.2 hy
      obtain ⟨p, hp, rfl⟩ := Multiset.mem_map.1 hy'
      obtain ⟨f, hf, rfl⟩ := hout p hp
      exact decide_eq_true (hunspent f hf)
    rw [hvisited, hqueue, List.filter_append, hall, Multiset.map_add, hkept, hnext, Multiset.add_comm,
      Multiset.coe_add]
  · intro f hf
    rw [hvisited]
    rcases Multiset.mem_add.1 hf with hf | hf
    · obtain ⟨g, hg, hgf⟩ := hout _ hf
      obtain rfl : f = g := Place.on.inj hgf
      obtain ⟨hmem, hsource⟩ := List.mem_filter.1 hg
      exact ⟨hmem, List.mem_cons.2 (Or.inl (of_decide_eq_true hsource))⟩
    · obtain ⟨hmem, hvis⟩ := h.flows f (hin _ hf)
      exact ⟨hmem, List.mem_cons_of_mem _ hvis⟩
  · intro z hz
    rcases Multiset.mem_add.1 hz with hz | hz
    · obtain ⟨g, _, hgf⟩ := hout _ hz
      cases hgf
    · exact h.starts z (hin _ hz)
  · refine Multiset.nodup_add.2 ⟨hnodup, ?_, ?_⟩
    · have hboth := h.nodup
      rw [hm] at hboth
      exact (Multiset.nodup_add.1 hboth).2.1
    · refine Multiset.disjoint_left.2 fun {p} hp hk => ?_
      obtain ⟨f, hf, rfl⟩ := hout p hp
      exact h.fresh_source hfresh (hin _ hk) (of_decide_eq_true (List.mem_filter.1 hf).2)
  · intro y hy hj f hf
    rw [hvisited] at hy ⊢
    exact List.mem_cons_of_mem _ (hspent y hy hj f hf)
  · intro y hy
    rw [hqueue] at hy
    rcases List.mem_append.1 hy with hy | hy
    · exact h.nodes y (by rw [hq]; exact List.mem_cons_of_mem _ hy)
    · have hy' : y ∈ sent.map Place.target := by
        rw [hnext]
        exact Multiset.mem_coe.2 hy
      obtain ⟨p, hp, rfl⟩ := Multiset.mem_map.1 hy'
      obtain ⟨f, hf, rfl⟩ := hout p hp
      exact hd.target f (List.mem_of_mem_filter hf)
  · intro y hy
    rw [hvisited] at hy
    have hne : y ≠ x := fun he => hy (List.mem_cons.2 (Or.inl he))
    rw [hpending y hne]
    exact h.pending y fun hv => hy (List.mem_cons_of_mem _ hv)
  · intro hcompleted
    obtain ⟨hzero, hrest⟩ := hdone hcompleted
    have hnil : rest.filter (¬ Spent elements (x :: s.visited) ·) = [] := by
      refine List.filter_eq_nil_iff.2 fun y hy => ?_
      have hs := hrest y hy
      simpa using (show Spent elements (x :: s.visited) y from
        ⟨List.mem_cons_of_mem _ hs.1, hs.2⟩)
    rw [hnil] at hkept
    rw [hzero, Multiset.map_eq_zero.1 hkept, Multiset.add_zero]

/-! ## one round -/

theorem visit_eq {p : BpmnProcess} {node : BpmnNode} {x : String} {rest : List String} {s : Run}
    {w : Work} :
    s.visit holds p node x rest w =
      if (executeNode node.nodeType w).2.2.getD "" ≠ "" then
        { s with
          status := .failed, currentNode := some x
          errorMessage := some ((executeNode node.nodeType w).2.2.getD "") }
      else if (executeNode node.nodeType w).2.1 = true then
        { s with status := .suspended, currentNode := some x }
      else if node.nodeType = .endEvent then
        { s.mark x rest (executeNode node.nodeType w).1 with status := .completed }
      else (s.mark x rest (executeNode node.nodeType w).1).goOn holds p node x := rfl

theorem visit_stops (p : BpmnProcess) {node : BpmnNode} (x : String) (rest : List String) (s : Run)
    {w : Work} (h : ¬ Completes node w) :
    ∃ status message, status ≠ .running ∧ status ≠ .completed ∧
      s.visit holds p node x rest w =
        { s with status := status, currentNode := some x, errorMessage := message } := by
  rw [visit_eq]
  by_cases herror : (executeNode node.nodeType w).2.2.getD "" = ""
  · have hsuspended : (executeNode node.nodeType w).2.1 = true := by
      by_contra hnot
      exact h ⟨herror, Bool.eq_false_of_not_eq_true hnot⟩
    refine ⟨.suspended, s.errorMessage, Status.noConfusion, Status.noConfusion, ?_⟩
    rw [if_neg (not_not.2 herror), if_pos hsuspended]
  · refine ⟨.failed, some ((executeNode node.nodeType w).2.2.getD ""), Status.noConfusion,
      Status.noConfusion, ?_⟩
    rw [if_pos herror]

theorem visit_completes {p : BpmnProcess} {node : BpmnNode} {x : String} {rest : List String}
    {s : Run} {w : Work} (h : Completes node w) :
    s.visit holds p node x rest w =
      if node.nodeType = .endEvent then
        { s.mark x rest (executeNode node.nodeType w).1 with status := .completed }
      else (s.mark x rest (executeNode node.nodeType w).1).goOn holds p node x := by
  rw [visit_eq, if_neg (not_not.2 h.1), if_neg (by rw [h.2]; exact Bool.false_ne_true)]

/-- a run that has stopped short keeps what it has executed -/
theorem Tracks.stopped {s : Run} {m : Marking} (h : Tracks elements holds s m) {status : Status}
    (hr : status ≠ .running) (hc : status ≠ .completed) (x message : Option String) :
    Tracks elements holds
      { s with status := status, currentNode := x, errorMessage := message } m where
  run := h.run
  queue := fun hs => absurd hs hr
  flows := h.flows
  starts := h.starts
  nodup := h.nodup
  spent := h.spent
  nodes := h.nodes
  pending := h.pending
  done := fun hs => absurd hs hc

theorem tracks_visit (hd : WellFormed elements) {s : Run} {m : Marking}
    (h : Tracks elements holds s m) (hrunning : s.status = .running) {x : String}
    {rest : List String} (hq : s.queue = x :: rest) (hfresh : x ∉ s.visited) {node : BpmnNode}
    (hnode : (parse elements).nodes.lookup x = some node) (w : Work)
    (hsound : Completes node w → Sound elements holds s x rest node) :
    ∃ m', Tracks elements holds (s.visit holds (parse elements) node x rest w) m' := by
  have ht := mem_of_node hd hnode
  by_cases hcompletes : Completes node w
  swap
  · obtain ⟨status, message, hr, hc, heq⟩ := 
      visit_stops (parse elements) x rest s hcompletes
    rw [heq]
    exact ⟨m, h.stopped hr hc _ _⟩
  have hs := hsound hcompletes
  rw [visit_completes hcompletes]
  by_cases hend : node.nodeType = .endEvent
  · rw [if_pos hend]
    refine tracks_fired hd h hrunning hq hfresh ht hs.arrived 0 [] ?_ rfl
      (fun p hp => absurd hp (Multiset.notMem_zero p)) Multiset.nodup_zero rfl rfl
      (List.append_nil _).symm (fun _ _ => rfl) fun _ => ⟨rfl, hs.last hend⟩
    rw [hend]
    exact .none
  rw [if_neg hend]
  by_cases hwaits : node.nodeType = .parallelGateway ∧ 1 < node.incoming.length
  · -- a join whose flows the parser knows stops at its first token
    have hjoin : Joins elements x :=
      ⟨hwaits.1 ▸ ht, hwaits.2.trans_le (incoming_le hd hnode)⟩
    have hout : outgoing elements x = [] :=
      (hs.passes hjoin).resolve_left (Nat.not_le.2 hwaits.2)
    have hpend : s.pending x + 1 < node.incoming.length := by
      rw [h.pending x hfresh]
      exact hwaits.2
    have hgo : (s.mark x rest (executeNode node.nodeType w).1).goOn holds (parse elements) node x =
        { s.mark x rest (executeNode node.nodeType w).1 with
          pending := Function.update s.pending x (s.pending x + 1) } := by
      rw [Run.goOn, if_pos hwaits]
      refine if_pos ?_
      show Function.update s.pending x (s.pending x + 1) x < _
      rw [Function.update_self]
      exact hpend
    rw [hgo]
    refine tracks_fired hd h hrunning hq hfresh ht hs.arrived 0 [] ?_ rfl
      (fun p hp => absurd hp (Multiset.notMem_zero p)) Multiset.nodup_zero rfl rfl
      (List.append_nil _).symm (fun y hy => Function.update_of_ne hy _ _) fun hdone => ?_
    · have hxor : node.nodeType ≠ .exclusiveGateway := by
        rw [hwaits.1]
        exact NodeType.noConfusion
      have hall : Produces elements holds (s.mark x rest (executeNode node.nodeType w).1).context x
          node.nodeType ((outgoing elements x).map Place.on : List Place) := .all hend hxor
      rw [hout] at hall
      exact hall
    · have hr : s.status = .completed := hdone
      rw [hrunning] at hr
      cases hr
  · have hgo : (s.mark x rest (executeNode node.nodeType w).1).goOn holds (parse elements) node x =
        { s.mark x rest (executeNode node.nodeType w).1 with
          queue := rest ++ nextNodes holds (parse elements) x
            (s.mark x rest (executeNode node.nodeType w).1).context } := if_neg hwaits
    have hopen : (s.mark x rest (executeNode node.nodeType w).1).status = .completed → False := by
      intro hdone
      have hr : s.status = .completed := hdone
      rw [hrunning] at hr
      cases hr
    rw [hgo]
    by_cases hxor : node.nodeType = .exclusiveGateway
    · have hcontext : (s.mark x rest (executeNode node.nodeType w).1).context = s.context := by
        rw [hxor]
        rfl
      obtain ⟨f, hf, hnext⟩ := nextNodes_choose hd hnode hxor (hs.takes hxor)
      rw [hcontext, hnext]
      have hsent : Produces elements holds s.context x node.nodeType {.on f} := by
        rw [hxor]
        exact .one hf
      refine tracks_fired hd h hrunning hq hfresh ht hs.arrived {.on f} [f.target] hsent rfl
        (fun p hp => ?_) (Multiset.nodup_singleton _) ?_ rfl rfl (fun _ _ => rfl)
        fun hdone => (hopen hdone).elim
      · exact ⟨f, hf.1, Multiset.mem_singleton.1 hp⟩
      · show s.log ++ [(x, (s.mark x rest (executeNode node.nodeType w).1).context)] = _
        rw [hcontext]
    · rw [nextNodes_all hd hnode hxor (hs.known hend hxor)]
      refine tracks_fired hd h hrunning hq hfresh ht hs.arrived _ _ (.all hend hxor) ?_
        (fun p hp => ?_) ?_ rfl rfl rfl (fun _ _ => rfl) fun hdone => (hopen hdone).elim
      · rw [Multiset.map_coe, List.map_map]
        rfl
      · obtain ⟨f, hf, rfl⟩ := List.mem_map.1 (Multiset.mem_coe.1 hp)
        exact ⟨f, hf, rfl⟩
      · exact Multiset.coe_nodup.2 ((outgoing_nodup hd x).map fun _ _ => Place.on.inj)

theorem tracks_step (hd : WellFormed elements) {s : Run} (w : Work)
    (h : ∃ m, Tracks elements holds s m) (hfine : Fine elements holds s w) :
    ∃ m, Tracks elements holds (step holds (parse elements) s w) m := by
  obtain ⟨m, h⟩ := h
  by_cases hrunning : s.status = .running
  swap
  · exact ⟨m, by rwa [step, if_pos hrunning]⟩
  cases hq : s.queue with
  | nil =>
    -- the queue is empty: so is the marking
    have hzero : m = 0 := by
      have hmap := h.queue hrunning
      rw [hq] at hmap
      exact Multiset.map_eq_zero.1 hmap
    rw [step, if_neg (not_not.2 hrunning)]
    simp only [hq]
    exact ⟨m, { h with
      queue := fun hr => absurd hr Status.noConfusion
      nodes := fun _ hy => absurd hy List.not_mem_nil
      done := fun _ => hzero }⟩
  | cons x rest =>
    obtain hspent | ⟨hfresh, hsound⟩ := hfine hrunning x rest hq
    · -- the token was taken already
      rw [step, if_neg (not_not.2 hrunning)]
      simp only [hq, if_pos hspent.1]
      refine ⟨m, { h with queue := fun hr => ?_, nodes := fun y hy => ?_ }⟩
      · rw [h.queue hr, hq, List.filter_cons_of_neg (by simpa using hspent)]
      · exact h.nodes y (by rw [hq]; exact List.mem_cons_of_mem _ hy)
    · obtain ⟨node, hnode⟩ := exists_node hd (h.nodes x (by rw [hq]; exact List.mem_cons_self))
      rw [step, if_neg (not_not.2 hrunning)]
      simp only [hq, if_neg hfresh, hnode]
      exact tracks_visit hd h hrunning hq hfresh hnode w (hsound node hnode)

end

end HxFusion
