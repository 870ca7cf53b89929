import Velaris.HxFusion.Executed

/-!
# Resuming an instance

`resume_instance` keeps the context and the current node of a stopped instance, and begins the loop
again behind that node.

* `resume`, `continued`   the run it begins, and the run as it would have gone on;
* `hop`   a node executed: the rounds that only pop, and the one that executes;
* `Follows`   an uninterrupted run beside a resumed one;
* `follows_hop`   they execute the same node;
* `resumed_as_uninterrupted`   a resumed run with one branch that meets nothing executed before.
-/

namespace HxFusion

open Py Base

section
variable (holds : String → Dict → Bool) (p : BpmnProcess)

/-- `resume_instance`; `none` is its `ValueError` -/
def resume (s : Run) (resolution : Dict) : Option Run :=
  if s.status ≠ .suspended ∧ s.status ≠ .failed then none
  else
    let merged := s.context.update resolution
    let startNode := match s.currentNode with
      | none => none
      | some x => if x = "" then none else (nextNodes holds p x merged).head?
    some (begin p merged startNode)

/-- the run as it would have gone on: a task that waited has the resolution for its result, a task
that failed is executed again -/
def continued (s : Run) (resolution : Dict) : Run :=
  match s.queue with
  | [] => s
  | x :: rest =>
    match p.nodes.lookup x with
    | none => s
    | some node =>
      if s.status = .suspended then
        ({ s with status := .running }.mark x rest (some resolution)).goOn holds p node x
      else { s with status := .running, context := s.context.update resolution }

def skips (s : Run) (z : String) : Bool := z ∈ s.visited || (p.nodes.lookup z).isNone

/-- the run with the next node to execute first in its queue -/
def ready (s : Run) : Run :=
  if s.status = .running then { s with queue := s.queue.dropWhile (skips p s) } else s

def hop (s : Run) (w : Work) : Run := step holds p (ready p s) w

/-- what is executed after the instance was resumed is what the run would have executed next -/
def Resumes (s : Run) (resolution : Dict) (works : List Work) : Prop :=
  ∀ r, resume holds p s resolution = some r →
    (exec (hop holds p) (continued holds p s resolution) works).log =
      (continued holds p s resolution).log ++ (exec (hop holds p) r works).log

end

/-! ## the rounds that only pop -/

section
variable {α : Type} {q : α → Bool}

theorem filter_dropWhile (l : List α) :
    (l.dropWhile fun x => !q x).filter q = l.filter q := by
  induction l with
  | nil => rfl
  | cons x l ih =>
    by_cases hx : q x = true
    · rw [List.dropWhile_cons_of_neg (by simp [hx])]
    · rw [List.dropWhile_cons_of_pos (by simpa using hx), ih, List.filter_cons_of_neg hx]

theorem head_dropWhile {l t : List α} {z : α} (h : (l.dropWhile fun x => !q x) = z :: t) :
    q z = true := by
  induction l with
  | nil => cases h
  | cons x l ih =>
    by_cases hx : q x = true
    · rw [List.dropWhile_cons_of_neg (by simp [hx])] at h
      obtain ⟨rfl, -⟩ := List.cons.inj h
      exact hx
    · rw [List.dropWhile_cons_of_pos (by simpa using hx)] at h
      exact ih h

end

section
variable {holds : String → Dict → Bool} {p : BpmnProcess}

theorem step_skips {s : Run} (hr : s.status = .running) {z : String} {rest : List String}
    (hq : s.queue = z :: rest) (hz : skips p s z = true) (w : Work) :
    step holds p s w = { s with queue := rest } := by
  rw [step, if_neg (not_not.2 hr)]
  simp only [hq]
  by_cases hv : z ∈ s.visited
  · rw [if_pos hv]
  · rw [if_neg hv]
    have hnone : p.nodes.lookup z = none := by
      rw [skips, decide_eq_false hv] at hz
      exact Option.isNone_iff_eq_none.1 hz
    simp only [hnone]

/-- the node a hop executes is executed by some round of the loop -/
theorem hop_eq_exec (s : Run) (w : Work) :
    ∃ k, exec (step holds p) s (List.replicate (k + 1) w) = hop holds p s w := by
  by_cases hr : s.status = .running
  swap
  · refine ⟨0, ?_⟩
    rw [hop, ready, if_neg hr]
    rfl
  obtain ⟨status, queue, visited, pending, context, currentNode, log, message⟩ := s
  induction queue with
  | nil =>
    refine ⟨0, ?_⟩
    rw [hop, ready, if_pos hr]
    rfl
  | cons z rest ih =>
    let s : Run := ⟨status, z :: rest, visited, pending, context, currentNode, log, message⟩
    by_cases hz : skips p s z = true
    · obtain ⟨k, hk⟩ := ih hr
      refine ⟨k + 1, ?_⟩
      have hready : ready p s = ready p { s with queue := rest } := by
        rw [ready, ready, if_pos hr, if_pos hr]
        show { s with queue := (z :: rest).dropWhile (skips p s) } = _
        rw [List.dropWhile_cons_of_pos hz]
        rfl
      rw [List.replicate_succ, exec_cons, step_skips (s := s) hr rfl hz]
      exact hk.trans (congrArg (step holds p · w) hready.symm)
    · refine ⟨0, ?_⟩
      have hready : ready p s = s := by
        rw [ready, if_pos hr]
        show { s with queue := (z :: rest).dropWhile (skips p s) } = s
        rw [List.dropWhile_cons_of_neg hz]
      show step holds p s w = step holds p (ready p s) w
      rw [hready]

/-! ## the two runs beside each other -/

/-- The uninterrupted run `u` beside the resumed run `r`: `before` was executed when the instance
stopped, and `V` are the nodes executed up to then. -/
structure Follows (p : BpmnProcess) (V : List String) (before : List (String × Dict))
    (u r : Run) : Prop where
  log : u.log = before ++ r.log
  status : u.status = r.status
  context : u.context = r.context
  visited : ∀ z, z ∈ u.visited ↔ z ∈ r.visited ∨ z ∈ V
  pending : ∀ z, z ∉ u.visited → u.pending z = 0 ∧ r.pending z = 0
  queue : r.status = .running →
    u.queue.filter (fun z => !skips p u z) = r.queue.filter (fun z => !skips p u z)

/-- the resumed run does not come to a node executed before the instance stopped -/
def MeetsNone (p : BpmnProcess) (V : List String) (r : Run) (_ : Work) : Prop :=
  r.status = .running → ∀ z rest, (ready p r).queue = z :: rest → z ∉ V

section
variable {V : List String} {before : List (String × Dict)} {u r : Run}

theorem Follows.skips (h : Follows p V before u r) {z : String} (hz : skips p r z = true) :
    HxFusion.skips p u z = true := by
  rw [HxFusion.skips, Bool.or_eq_true, decide_eq_true_eq] at hz ⊢
  exact hz.imp_left fun hv => (h.visited z).2 (Or.inl hv)

theorem ready_queue {s : Run} (hr : s.status = .running) :
    (ready p s).queue = s.queue.dropWhile fun z => !!skips p s z := by
  rw [ready, if_pos hr]
  simp only [Bool.not_not]

/-- what the resumed run only pops, the uninterrupted run would only pop -/
theorem Follows.ready (h : Follows p V before u r) :
    Follows p V before (ready p u) (HxFusion.ready p r) := by
  by_cases hr : r.status = .running
  · have hu : u.status = .running := h.status.trans hr
    have hr' : HxFusion.ready p r = { r with queue := r.queue.dropWhile (HxFusion.skips p r) } :=
      if_pos hr
    have hu' : HxFusion.ready p u = { u with queue := u.queue.dropWhile (HxFusion.skips p u) } :=
      if_pos hu
    rw [hr', hu']
    refine ⟨h.log, h.status, h.context, h.visited, h.pending, fun _ => ?_⟩
    have hleft := filter_dropWhile (q := fun z => !HxFusion.skips p u z) u.queue
    simp only [Bool.not_not] at hleft
    -- a node that is dropped is skipped by both
    have hdrop : ∀ l : List String, (l.dropWhile (HxFusion.skips p r)).filter
        (fun z => !HxFusion.skips p u z) = l.filter fun z => !HxFusion.skips p u z := by
      intro l
      induction l with
      | nil => rfl
      | cons z l ih =>
        by_cases hz : HxFusion.skips p r z = true
        · rw [List.dropWhile_cons_of_pos hz, ih, List.filter_cons_of_neg (by simp [h.skips hz])]
        · rw [List.dropWhile_cons_of_neg hz]
    exact (hleft.trans (h.queue hr)).trans (hdrop r.queue).symm
  · have hu : ¬ u.status = .running := fun hu => hr (h.status.symm.trans hu)
    rw [HxFusion.ready, HxFusion.ready, if_neg hr, if_neg hu]
    exact h

theorem Follows.mark (h : Follows p V before u r) {z : String} {restU restR : List String}
    (result : Option Dict)
    (hrest : restU.filter (fun y => !HxFusion.skips p u y) =
      restR.filter fun y => !HxFusion.skips p u y) :
    Follows p V before (u.mark z restU result) (r.mark z restR result) := by
  have hcontext : (u.mark z restU result).context = (r.mark z restR result).context := by
    cases result with
    | none => exact h.context
    | some new => exact congrArg (Dict.update · new) h.context
  refine ⟨?_, h.status, hcontext, fun y => ?_, fun y hy => ?_, fun _ => ?_⟩
  · show u.log ++ [(z, (u.mark z restU result).context)] =
      before ++ (r.log ++ [(z, (r.mark z restR result).context)])
    rw [h.log, hcontext, List.append_assoc]
  · show y ∈ z :: u.visited ↔ y ∈ z :: r.visited ∨ y ∈ V
    rw [List.mem_cons, List.mem_cons, h.visited, or_assoc]
  · exact h.pending y fun hv => hy (List.mem_cons_of_mem _ hv)
  · show restU.filter (fun y => !(decide (y ∈ z :: u.visited) || _)) =
      restR.filter fun y => !(decide (y ∈ z :: u.visited) || _)
    have hsplit : ∀ l : List String,
        l.filter (fun y => !(decide (y ∈ z :: u.visited) || (p.nodes.lookup y).isNone)) =
          (l.filter fun y => !HxFusion.skips p u y).filter fun y => y ≠ z := by
      intro l
      rw [List.filter_filter]
      refine List.filter_congr fun y _ => ?_
      rw [HxFusion.skips]
      by_cases hyz : y = z
      · simp [hyz]
      · simp [hyz]
    rw [hsplit, hsplit, hrest]

theorem Follows.extend (h : Follows p V before u r) (next : List String) :
    Follows p V before { u with queue := u.queue ++ next } { r with queue := r.queue ++ next } := by
  refine ⟨h.log, h.status, h.context, h.visited, h.pending, fun hr => ?_⟩
  show (u.queue ++ next).filter (fun z => !HxFusion.skips p u z) =
    (r.queue ++ next).filter fun z => !HxFusion.skips p u z
  rw [List.filter_append, List.filter_append, h.queue hr]

theorem Follows.goOn (h : Follows p V before u r) {z : String} (hz : u.pending z = 0)
    (hz' : r.pending z = 0) (node : BpmnNode) (hmem : z ∈ u.visited) :
    Follows p V before (u.goOn holds p node z) (r.goOn holds p node z) := by
  by_cases hj : node.nodeType = .parallelGateway ∧ 1 < node.incoming.length
  · -- both have counted nothing at `z` yet
    have hcount : ∀ {s : Run}, s.pending z = 0 → s.goOn holds p node z =
        { s with pending := Function.update s.pending z 1 } := by
      intro s hs
      rw [Run.goOn, if_pos hj, hs]
      refine if_pos ?_
      show Function.update s.pending z 1 z < _
      rw [Function.update_self]
      exact hj.2
    rw [hcount hz, hcount hz']
    refine ⟨h.log, h.status, h.context, h.visited, fun y hy => ?_, h.queue⟩
    have hne : y ≠ z := fun he => hy (he ▸ hmem)
    show Function.update u.pending z 1 y = 0 ∧ Function.update r.pending z 1 y = 0
    rw [Function.update_of_ne hne, Function.update_of_ne hne]
    exact h.pending y hy
  · have hgo : ∀ s : Run, s.goOn holds p node z =
        { s with queue := s.queue ++ nextNodes holds p z s.context } := fun s => if_neg hj
    have hnext : nextNodes holds p z u.context = nextNodes holds p z r.context := by
      rw [h.context]
    rw [hgo u, hgo r, hnext]
    exact h.extend _

theorem Follows.visit (h : Follows p V before u r) {z : String} {restU restR : List String}
    (hfresh : z ∉ u.visited) (node : BpmnNode) (w : Work)
    (hrest : restU.filter (fun y => !HxFusion.skips p u y) =
      restR.filter fun y => !HxFusion.skips p u y) :
    Follows p V before (u.visit holds p node z restU w) (r.visit holds p node z restR w) := by
  have hpend := h.pending z hfresh
  rw [visit_eq, visit_eq]
  by_cases herror : (executeNode node.nodeType w).2.2.getD "" ≠ ""
  · rw [if_pos herror, if_pos herror]
    exact ⟨h.log, rfl, h.context, h.visited, h.pending, fun hs => absurd hs Status.noConfusion⟩
  rw [if_neg herror, if_neg herror]
  by_cases hwaits : (executeNode node.nodeType w).2.1 = true
  · rw [if_pos hwaits, if_pos hwaits]
    exact ⟨h.log, rfl, h.context, h.visited, h.pending, fun hs => absurd hs Status.noConfusion⟩
  rw [if_neg hwaits, if_neg hwaits]
  by_cases hend : node.nodeType = .endEvent
  · rw [if_pos hend, if_pos hend]
    have hmark := h.mark (z := z) (executeNode node.nodeType w).1 hrest
    exact ⟨hmark.log, rfl, hmark.context, hmark.visited, hmark.pending,
      fun hs => absurd hs Status.noConfusion⟩
  rw [if_neg hend, if_neg hend]
  exact (h.mark _ hrest).goOn hpend.1 hpend.2 node List.mem_cons_self

theorem follows_hop (h : Follows p V before u r) (w : Work) (hmeets : MeetsNone p V r w) :
    Follows p V before (hop holds p u w) (hop holds p r w) := by
  have hready := h.ready
  rw [hop, hop]
  by_cases hr : r.status = .running
  swap
  · have hstop : ∀ {s : Run}, ¬ s.status = .running → step holds p (ready p s) w = ready p s := by
      intro s hs
      have hs' : ready p s = s := if_neg hs
      rw [hs', step, if_pos hs]
    rw [hstop hr, hstop fun hu => hr (h.status.symm.trans hu)]
    exact hready
  have hu : u.status = .running := h.status.trans hr
  have hrun : ∀ {s : Run}, s.status = .running → (ready p s).status = .running := by
    intro s hs
    rw [HxFusion.ready, if_pos hs]
    exact hs
  have hlive : ∀ {s : Run}, s.status = .running → ∀ {z : String} {rest : List String},
      (ready p s).queue = z :: rest → HxFusion.skips p s z = false := by
    intro s hs z rest hq
    rw [ready_queue hs] at hq
    have hz := head_dropWhile hq
    simpa using hz
  have hsame : ∀ {s : Run}, s.status = .running → HxFusion.skips p (ready p s) =
      HxFusion.skips p s := by
    intro s hs
    rw [HxFusion.ready, if_pos hs]
    rfl
  have hqueue := hready.queue (hrun hr)
  rw [hsame hu] at hqueue
  -- the two queues begin with the same node
  have hnone : ∀ {z : String} {rest : List String}, (ready p r).queue = z :: rest →
      z ∉ u.visited ∧ HxFusion.skips p u z = false := by
    intro z rest hqr
    have hz := hlive hr hqr
    have hV := hmeets hr z rest hqr
    rw [HxFusion.skips, Bool.or_eq_false_iff, decide_eq_false_iff_not] at hz
    have hfresh : z ∉ u.visited := fun hv => ((h.visited z).1 hv).elim hz.1 hV
    refine ⟨hfresh, ?_⟩
    rw [HxFusion.skips, Bool.or_eq_false_iff]
    exact ⟨decide_eq_false hfresh, hz.2⟩
  cases hqr : (ready p r).queue with
  | nil =>
    have hqu : (ready p u).queue = [] := by
      cases hqu : (ready p u).queue with
      | nil => rfl
      | cons z rest =>
        rw [hqu, hqr, List.filter_cons_of_pos (by rw [hlive hu hqu]; rfl)] at hqueue
        cases hqueue
    rw [step, if_neg (not_not.2 (hrun hu)), step, if_neg (not_not.2 (hrun hr))]
    simp only [hqu, hqr]
    exact ⟨hready.log, rfl, hready.context, hready.visited, hready.pending, fun _ => rfl⟩
  | cons z restR =>
    obtain ⟨hfresh, hz⟩ := hnone hqr
    cases hqu : (ready p u).queue with
    | nil =>
      rw [hqu, hqr, List.filter_cons_of_pos (by rw [hz]; rfl)] at hqueue
      cases hqueue
    | cons y restU =>
      rw [hqu, hqr, List.filter_cons_of_pos (by rw [hlive hu hqu]; rfl),
        List.filter_cons_of_pos (by rw [hz]; rfl)] at hqueue
      obtain ⟨rfl, hrest⟩ := List.cons.inj hqueue
      have hfreshR : y ∉ r.visited := fun hv => hfresh ((h.visited y).2 (Or.inl hv))
      cases hnode : p.nodes.lookup y with
      | none =>
        rw [HxFusion.skips, hnode, Bool.or_eq_false_iff] at hz
        cases hz.2
      | some node =>
        have hvisit : ∀ {s : Run} {rest : List String}, s.status = .running → y ∉ s.visited →
            (ready p s).queue = y :: rest →
            step holds p (ready p s) w = (ready p s).visit holds p node y rest w := by
          intro s rest hs hy hq
          have hy' : y ∉ (ready p s).visited := by
            rw [HxFusion.ready, if_pos hs]
            exact hy
          rw [step, if_neg (not_not.2 (hrun hs))]
          simp only [hq, if_neg hy', hnode]
        rw [hvisit hu hfresh hqu, hvisit hr hfreshR hqr]
        refine hready.visit ?_ node w ?_
        · rw [HxFusion.ready, if_pos hu]
          exact hfresh
        · rw [hsame hu]
          exact hrest

end

/-! ## where an instance stops -/

/-- an instance that is suspended waits at a user or bot task at the head of its queue -/
structure Stops (p : BpmnProcess) (s : Run) : Prop where
  task : s.status = .suspended → ∃ x rest node, s.queue = x :: rest ∧ s.currentNode = some x ∧
    p.nodes.lookup x = some node ∧
    (node.nodeType = .userTask ∨ node.nodeType = .botTask) ∧ x ∉ s.visited
  pending : ∀ z, z ∉ s.visited → s.pending z = 0

theorem stops_begin (p : BpmnProcess) (context : Dict) (startNode : Option String) :
    Stops p (begin p context startNode) := by
  refine ⟨fun hs => ?_, fun _ _ => rfl⟩
  have hstatus : (begin p context startNode).status =
      if firstQueue p startNode = [] then .failed else .running := rfl
  rw [hstatus] at hs
  split at hs <;> cases hs

variable (holds p) in
theorem goOn_cases (s : Run) (node : BpmnNode) (x : String) :
    ∃ count queue, (count = s.pending ∨ count = Function.update s.pending x (s.pending x + 1)) ∧
      s.goOn holds p node x = { s with pending := count, queue := queue } := by
  by_cases hj : node.nodeType = .parallelGateway ∧ 1 < node.incoming.length
  · refine ⟨Function.update s.pending x (s.pending x + 1), ?_⟩
    rw [Run.goOn, if_pos hj]
    by_cases hfew : Function.update s.pending x (s.pending x + 1) x < node.incoming.length
    · exact ⟨s.queue, Or.inr rfl, if_pos hfew⟩
    · exact ⟨_, Or.inr rfl, if_neg hfew⟩
  · exact ⟨s.pending, _, Or.inl rfl, if_neg hj⟩

theorem pending_goOn {s : Run} {node : BpmnNode} {x : String} (hx : x ∈ s.visited)
    (h : ∀ z, z ∉ s.visited → s.pending z = 0) :
    ∀ z, z ∉ (s.goOn holds p node x).visited → (s.goOn holds p node x).pending z = 0 := by
  obtain ⟨count, queue, hcount, heq⟩ := goOn_cases holds p s node x
  rw [heq]
  intro z hz
  show count z = 0
  rcases hcount with rfl | rfl
  · exact h z hz
  · have hne : z ≠ x := by
      rintro rfl
      exact hz hx
    rw [Function.update_of_ne hne]
    exact h z hz

theorem status_goOn (s : Run) (node : BpmnNode) (x : String) :
    (s.goOn holds p node x).status = s.status := by
  obtain ⟨_, _, -, heq⟩ := goOn_cases holds p s node x
  rw [heq]

theorem stops_step {s : Run} (h : Stops p s) (w : Work) : Stops p (step holds p s w) := by
  by_cases hr : s.status = .running
  swap
  · rwa [step, if_pos hr]
  rw [step, if_neg (not_not.2 hr)]
  cases hq : s.queue with
  | nil => exact ⟨fun hs => absurd hs Status.noConfusion, h.pending⟩
  | cons x rest =>
    have hnot : s.status ≠ .suspended := by
      rw [hr]
      exact Status.noConfusion
    by_cases hx : x ∈ s.visited
    · simp only [if_pos hx]
      exact ⟨fun hs => absurd hs hnot, h.pending⟩
    simp only [if_neg hx]
    cases hnode : p.nodes.lookup x with
    | none => exact ⟨fun hs => absurd hs hnot, h.pending⟩
    | some node =>
      show Stops p (s.visit holds p node x rest w)
      rw [visit_eq]
      have hmark : ∀ z, z ∉ x :: s.visited → s.pending z = 0 :=
        fun z hz => h.pending z fun hv => hz (List.mem_cons_of_mem _ hv)
      by_cases herror : (executeNode node.nodeType w).2.2.getD "" ≠ ""
      · rw [if_pos herror]
        exact ⟨fun hs => absurd hs Status.noConfusion, h.pending⟩
      rw [if_neg herror]
      by_cases hwaits : (executeNode node.nodeType w).2.1 = true
      · rw [if_pos hwaits]
        refine ⟨fun _ => ⟨x, rest, node, hq, rfl, hnode, ?_, hx⟩, h.pending⟩
        -- only a user task and a bot task suspend
        cases ht : node.nodeType with
        | userTask => exact Or.inl rfl
        | botTask => exact Or.inr rfl
        | _ =>
          rw [ht] at hwaits
          cases hwaits
      rw [if_neg hwaits]
      by_cases hend : node.nodeType = .endEvent
      · rw [if_pos hend]
        exact ⟨fun hs => absurd hs Status.noConfusion, hmark⟩
      rw [if_neg hend]
      refine ⟨fun hs => ?_, pending_goOn List.mem_cons_self hmark⟩
      rw [status_goOn] at hs
      exact absurd hs hnot

/-! ## the resumed run -/

/-- a suspended instance whose task leads on to one node, with nothing else to be executed -/
structure OneBranch (holds : String → Dict → Bool) (p : BpmnProcess) (s : Run) (resolution : Dict) :
    Prop where
  suspended : s.status = .suspended
  alone : ∀ z ∈ s.queue.tail, skips p s z = true
  leads : ∃ x y others, s.currentNode = some x ∧ x ≠ "" ∧ y ≠ "" ∧
    nextNodes holds p x (s.context.update resolution) = y :: others ∧
    ∀ z ∈ others, z = x ∨ skips p s z = true

/-- the nodes executed when an instance stopped, the task it waits at among them -/
def executedBy (s : Run) : List String := s.currentNode.toList ++ s.visited

theorem follows_resume {s r : Run} {resolution : Dict} (hs : Stops p s)
    (h : OneBranch holds p s resolution) (hr : resume holds p s resolution = some r) :
    Follows p (executedBy s) (continued holds p s resolution).log
      (continued holds p s resolution) r := by
  obtain ⟨x, rest, node, hq, hcurrent, hnode, htype, hfresh⟩ := hs.task h.suspended
  obtain ⟨x', y, others, hcurrent', hx, hy, hnext, hothers⟩ := h.leads
  rw [hcurrent] at hcurrent'
  obtain rfl := Option.some.inj hcurrent'
  -- the resumed run begins at the one node
  have hbegin : r = begin p (s.context.update resolution) (some y) := by
    have hstopped : ¬ (s.status ≠ .suspended ∧ s.status ≠ .failed) := fun hboth =>
      hboth.1 h.suspended
    rw [resume, if_neg hstopped] at hr
    simp only [hcurrent, if_neg hx, hnext, List.head?_cons] at hr
    exact (Option.some.inj hr).symm
  have hfirst : firstQueue p (some y) = [y] := if_neg hy
  have hplain : ¬ (node.nodeType = .parallelGateway ∧ 1 < node.incoming.length) := by
    rintro ⟨hpar, -⟩
    rcases htype with ht | ht <;> rw [ht] at hpar <;> cases hpar
  -- the uninterrupted run goes on behind the task
  have hgoes : continued holds p s resolution =
      { { s with status := .running }.mark x rest (some resolution) with
        queue := rest ++ nextNodes holds p x (s.context.update resolution) } := by
    rw [continued]
    simp only [hq, hnode, if_pos h.suspended]
    exact if_neg hplain
  rw [hgoes, hbegin]
  refine ⟨(List.append_nil _).symm, ?_, rfl, fun z => ?_, fun z hz => ⟨?_, rfl⟩, fun _ => ?_⟩
  · show Status.running = if firstQueue p (some y) = [] then _ else _
    rw [hfirst]
    rfl
  · rw [executedBy, hcurrent]
    show z ∈ x :: s.visited ↔ z ∈ [] ∨ z ∈ x :: s.visited
    simp
  · exact hs.pending z fun hv => hz (List.mem_cons_of_mem _ hv)
  · show (rest ++ nextNodes holds p x (s.context.update resolution)).filter _ =
      (firstQueue p (some y)).filter _
    rw [hfirst, hnext]
    have hskip : ∀ z, skips p s z = true ∨ z = x →
        (!(decide (z ∈ x :: s.visited) || (p.nodes.lookup z).isNone)) = false := by
      intro z hz
      rw [Bool.not_eq_false', Bool.or_eq_true, decide_eq_true_eq]
      rcases hz with hz | rfl
      · rw [skips, Bool.or_eq_true, decide_eq_true_eq] at hz
        exact hz.imp_left (List.mem_cons_of_mem _)
      · exact Or.inl List.mem_cons_self
    have hrest : rest.filter
        (fun z => !(decide (z ∈ x :: s.visited) || (p.nodes.lookup z).isNone)) = [] := by
      refine List.filter_eq_nil_iff.2 fun z hz => ?_
      rw [hskip z (Or.inl (h.alone z (by rw [hq]; exact hz)))]
      exact Bool.false_ne_true
    have hmore : others.filter
        (fun z => !(decide (z ∈ x :: s.visited) || (p.nodes.lookup z).isNone)) = [] := by
      refine List.filter_eq_nil_iff.2 fun z hz => ?_
      rw [hskip z (hothers z hz).symm]
      exact Bool.false_ne_true
    show (rest ++ y :: others).filter
        (fun z => !(decide (z ∈ x :: s.visited) || (p.nodes.lookup z).isNone)) =
      [y].filter fun z => !(decide (z ∈ x :: s.visited) || (p.nodes.lookup z).isNone)
    rw [List.filter_append, hrest, List.nil_append, List.filter_cons, List.filter_cons, hmore,
      List.filter_nil]

/-- After a resume the nodes executed are those the run would have executed next, in every run in
which the instance was suspended with one branch and nothing executed before is met again. -/
theorem resumed_as_uninterrupted (context : Dict) (startNode : Option String)
    (before : List Work) (resolution : Dict) (works : List Work)
    (hbranch : OneBranch holds p (exec (step holds p) (begin p context startNode) before)
      resolution)
    (hmeets : ∀ r, resume holds p (exec (step holds p) (begin p context startNode) before)
        resolution = some r →
      Along (hop holds p)
        (MeetsNone p (executedBy (exec (step holds p) (begin p context startNode) before))) r
        works) :
    Resumes holds p (exec (step holds p) (begin p context startNode) before) resolution works := by
  intro r hr
  have hstops : Stops p (exec (step holds p) (begin p context startNode) before) :=
    exec_inv' (fun s w (h : Stops p s) => stops_step h w) before (stops_begin p context startNode)
  have hfollows := follows_resume hstops hbranch hr
  have hall := hmeets r hr
  generalize continued holds p (exec (step holds p) (begin p context startNode) before) resolution
    = u at hfollows ⊢
  generalize hbefore : u.log = before' at hfollows ⊢
  clear hbefore hr hmeets
  induction works generalizing u r with
  | nil => exact hfollows.log
  | cons w works ih => exact ih _ hall.2 _ (follows_hop hfollows w hall.1)

end

/-- an approval, each flow written between its two nodes -/
def approval : List Element := [
  .node "start" .startEvent, .sequenceFlow "f1" "start" "approve" none,
  .node "approve" .userTask, .sequenceFlow "f2" "approve" "end" none, .node "end" .endEvent]

def awaiting : Run := exec (step never (parse approval)) (begin (parse approval) [] none)
  [done, done]

theorem approval_resumed :
    Resumes never (parse approval) (exec (step never (parse approval))
      (begin (parse approval) [] none) [done, done]) [("approved", .bool true)] [done, done] := by
  refine resumed_as_uninterrupted [] none [done, done] [("approved", .bool true)] [done, done]
    ⟨by decide +kernel, by decide +kernel, "approve", "end", [], by decide +kernel,
      by decide, by decide, by decide +kernel, fun _ hz => absurd hz List.not_mem_nil⟩ ?_
  intro r hr
  have hresume : resume never (parse approval) awaiting [("approved", .bool true)] =
      some (begin (parse approval) [("approved", .bool true)] (some "end")) := rfl
  obtain rfl := Option.some.inj (hresume.symm.trans hr)
  refine ⟨fun _ z rest hq => ?_, fun hs => ?_, trivial⟩
  · have hend : (ready (parse approval)
        (begin (parse approval) [("approved", .bool true)] (some "end"))).queue = ["end"] := by
      decide +kernel
    rw [hend] at hq
    obtain ⟨rfl, -⟩ := List.cons.inj hq
    decide +kernel
  · have hcompleted : (hop never (parse approval)
        (begin (parse approval) [("approved", .bool true)] (some "end")) done).status =
          .completed := by
      decide +kernel
    rw [hcompleted] at hs
    cases hs

def notified : List Element := [
  .node "start" .startEvent, .sequenceFlow "f1" "start" "fork" none,
  .node "fork" .parallelGateway, .sequenceFlow "f2" "fork" "approve" none,
  .sequenceFlow "f3" "fork" "notify" none, .node "approve" .userTask,
  .node "notify" .serviceTask, .sequenceFlow "f4" "approve" "end" none, .node "end" .endEvent]

/-- The notification is queued when the instance is suspended, and is not executed after it is
resumed. -/
theorem notification_lost :
    ¬ Resumes never (parse notified) (exec (step never (parse notified))
      (begin (parse notified) [] none) [done, done, done]) [] [done, done] := by
  intro h
  have hlog := h (begin (parse notified) [] (some "end")) rfl
  have hnames := congrArg (List.map Prod.fst) hlog
  revert hnames
  decide +kernel

end HxFusion
