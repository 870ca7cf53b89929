import Mathlib.Data.Multiset.MapFold
import Mathlib.Data.Multiset.Filter
import Mathlib.Data.Multiset.AddSub
import Velaris.HxFusion.Drawing

/-!
# The token flow of a drawing

A marking is the tokens of an instance: one waits at every start event at first, the others are on
the flows they were sent along.  Nothing here reads the order of the elements.

* `Consumes`, `Produces`   what a node takes when it is executed, and what it sends on;
* `Fires`, `TokenRun`   one execution, and the executions of a run;
* `TokenRun.perm`   the drawing is what counts, not its order;
* `token_waits`   a token stays where nobody takes it.
-/

namespace HxFusion

open Py

inductive Place where
  | start (id : String)
  | on (f : BpmnFlow)
  deriving DecidableEq

def Place.target : Place → String
  | .start id => id
  | .on f => f.target

abbrev Marking := Multiset Place

def startIds (elements : List Element) : List String :=
  ((nodesOf elements).filter fun e => e.2 = .startEvent).map Prod.fst

def initial (elements : List Element) : Marking := ((startIds elements).map Place.start : List Place)

section
variable (elements : List Element) (holds : String → Dict → Bool)

/-- a flow that leaves `x`, and may be taken: its condition holds, or it has none and no condition
of another flow holds -/
def Takable (context : Dict) (x : String) (f : BpmnFlow) : Prop :=
  f ∈ outgoing elements x ∧
    ((∃ c, f.condition = some c ∧ holds c context = true) ∨
      (f.condition = none ∧
        ∀ g ∈ outgoing elements x, ∀ c, g.condition = some c → holds c context = false))

/-- a parallel gateway waits for a token on each of its incoming flows, any other node for one -/
inductive Consumes (x : String) : NodeType → Marking → Prop where
  | one {t : NodeType} {p : Place} (ht : t ≠ .parallelGateway) (hp : p.target = x) :
      Consumes x t {p}
  | all (hne : incoming elements x ≠ []) :
      Consumes x .parallelGateway ((incoming elements x).map Place.on : List Place)

/-- an end event sends nothing on, an exclusive gateway along one flow that may be taken, any other
node along all its flows -/
inductive Produces (context : Dict) (x : String) : NodeType → Marking → Prop where
  | none : Produces context x .endEvent 0
  | one {f : BpmnFlow} (hf : Takable elements holds context x f) :
      Produces context x .exclusiveGateway {.on f}
  | all {t : NodeType} (he : t ≠ .endEvent) (hx : t ≠ .exclusiveGateway) :
      Produces context x t ((outgoing elements x).map Place.on : List Place)

/-- `x` is executed and leaves `context` -/
def Fires (x : String) (context : Dict) (before after : Marking) : Prop :=
  ∃ t taken sent kept, (x, t) ∈ nodesOf elements ∧ Consumes elements x t taken ∧
    Produces elements holds context x t sent ∧ before = taken + kept ∧ after = sent + kept

inductive TokenRun (before : Marking) : List (String × Dict) → Marking → Prop where
  | nil : TokenRun before [] before
  | concat {log : List (String × Dict)} {between after : Marking} {x : String} {context : Dict}
      (hrun : TokenRun before log between) (hfires : Fires elements holds x context between after) :
      TokenRun before (log ++ [(x, context)]) after

end

/-! ## the order of the elements -/

section
variable {l l' : List Element} {holds : String → Dict → Bool}

theorem nodesOf_perm (h : l.Perm l') : (nodesOf l).Perm (nodesOf l') := by
  induction h with
  | nil => exact List.Perm.refl _
  | cons e _ ih =>
    cases e with
    | node id t => exact ih.cons _
    | sequenceFlow => exact ih
  | swap e e' l =>
    cases e <;> cases e' <;> first | exact List.Perm.swap _ _ _ | exact List.Perm.refl _
  | trans _ _ ih₁ ih₂ => exact ih₁.trans ih₂

theorem flowsOf_perm (h : l.Perm l') : (flowsOf l).Perm (flowsOf l') := by
  induction h with
  | nil => exact List.Perm.refl _
  | cons e _ ih =>
    cases e with
    | node => exact ih
    | sequenceFlow => exact ih.cons _
  | swap e e' l =>
    cases e <;> cases e' <;> first | exact List.Perm.swap _ _ _ | exact List.Perm.refl _
  | trans _ _ ih₁ ih₂ => exact ih₁.trans ih₂

theorem outgoing_perm (h : l.Perm l') (x : String) : (outgoing l x).Perm (outgoing l' x) :=
  (flowsOf_perm h).filter _

theorem incoming_perm (h : l.Perm l') (x : String) : (incoming l x).Perm (incoming l' x) :=
  (flowsOf_perm h).filter _

theorem initial_perm (h : l.Perm l') : initial l = initial l' :=
  Multiset.coe_eq_coe.2 ((((nodesOf_perm h).filter _).map _).map _)

theorem Takable.perm (h : l.Perm l') {context : Dict} {x : String} {f : BpmnFlow}
    (hf : Takable l holds context x f) : Takable l' holds context x f := by
  obtain ⟨hmem, hcond⟩ := hf
  refine ⟨(outgoing_perm h x).mem_iff.1 hmem, ?_⟩
  rcases hcond with hcond | ⟨hnone, hall⟩
  · exact Or.inl hcond
  · exact Or.inr ⟨hnone, fun g hg => hall g ((outgoing_perm h x).mem_iff.2 hg)⟩

theorem Consumes.perm (h : l.Perm l') {x : String} {t : NodeType} {m : Marking}
    (hm : Consumes l x t m) : Consumes l' x t m := by
  cases hm with
  | one ht hp => exact .one ht hp
  | all hne =>
    have hsame := Multiset.coe_eq_coe.2 ((incoming_perm h x).map Place.on)
    rw [hsame]
    refine .all fun hnil => hne ?_
    have hperm := incoming_perm h x
    rw [hnil] at hperm
    exact hperm.eq_nil

theorem Produces.perm (h : l.Perm l') {context : Dict} {x : String} {t : NodeType} {m : Marking}
    (hm : Produces l holds context x t m) : Produces l' holds context x t m := by
  cases hm with
  | none => exact .none
  | one hf => exact .one (hf.perm h)
  | all he hx =>
    have hsame := Multiset.coe_eq_coe.2 ((outgoing_perm h x).map Place.on)
    rw [hsame]
    exact .all he hx

theorem Fires.perm (h : l.Perm l') {x : String} {context : Dict} {m m' : Marking}
    (hm : Fires l holds x context m m') : Fires l' holds x context m m' := by
  obtain ⟨t, taken, sent, kept, hx, hc, hp, hb, ha⟩ := hm
  exact ⟨t, taken, sent, kept, (nodesOf_perm h).mem_iff.1 hx, hc.perm h, hp.perm h, hb, ha⟩

/-- the token flow of two documents with the same elements is one -/
theorem TokenRun.perm (h : l.Perm l') {m m' : Marking} {log : List (String × Dict)}
    (hrun : TokenRun l holds m log m') : TokenRun l' holds m log m' := by
  induction hrun with
  | nil => exact .nil
  | concat _ hfires ih => exact .concat ih (hfires.perm h)

theorem token_waits {m m' : Marking} {log : List (String × Dict)}
    (hrun : TokenRun l holds m log m') {x : String} (hx : x ∈ log.map Prod.fst) {f : BpmnFlow}
    (hf : f ∈ outgoing l x)
    (htype : ∀ t, (x, t) ∈ nodesOf l → t ≠ .endEvent ∧ t ≠ .exclusiveGateway)
    (htarget : f.target ∉ log.map Prod.fst) : Place.on f ∈ m' := by
  induction hrun with
  | nil => exact absurd hx List.not_mem_nil
  | @concat log between after y context _ hfires ih =>
    rw [List.map_append, List.mem_append] at hx htarget
    obtain ⟨t, taken, sent, kept, hy, htaken, hsent, rfl, rfl⟩ := hfires
    rcases hx with hx | hx
    · -- it was there, and `y` takes only what waits at `y`
      have hthere := ih hx fun h => htarget (Or.inl h)
      refine Multiset.mem_add.2 (Or.inr ?_)
      refine (Multiset.mem_add.1 hthere).resolve_left fun hmem => htarget (Or.inr ?_)
      have hat : f.target = y := by
        cases htaken with
        | one _ hp =>
          rw [← Multiset.mem_singleton.1 hmem] at hp
          exact hp
        | all _ =>
          obtain ⟨g, hg, hgf⟩ := List.mem_map.1 (Multiset.mem_coe.1 hmem)
          obtain rfl : g = f := Place.on.inj hgf
          exact of_decide_eq_true (List.mem_filter.1 hg).2
      exact List.mem_singleton.2 hat
    · obtain rfl : x = y := List.mem_singleton.1 hx
      refine Multiset.mem_add.2 (Or.inl ?_)
      obtain ⟨he, hg⟩ := htype t hy
      cases hsent with
      | none => exact absurd rfl he
      | one _ => exact absurd rfl hg
      | all _ _ => exact Multiset.mem_coe.2 (List.mem_map_of_mem hf)

end

end HxFusion
