import Velaris.Base.Reach
import Velaris.Base.Table
import Velaris.Bpmn.Process

/-!
# Dead paths

`helix_engine/compiler/optimizer/__init__.py` and `helix_engine/compiler/validator.py`.

* `successors`, `startEvents`   the accessors of a process;
* `reachable`, `removeDeadPaths`   what the optimizer keeps;
* `errors`   what the validator reports as an error;
* `Live`   the least set that starts, flows and boundary events give;
* `deadPaths_iff`   when exactly that is kept, and what is left is still valid.
-/

namespace Bpmn
open Py Base Relation

/-! ## accessors -/

def Element.id : Element → String
  | .startEvent id .. | .endEvent id .. | .intermediateCatchEvent id ..
  | .intermediateThrowEvent id .. | .boundaryEvent id .. => id
  | .userTask b .. | .serviceTask b .. | .scriptTask b .. | .sendTask b .. | .receiveTask b ..
  | .manualTask b | .businessRuleTask b .. | .genericTask b | .subProcess b ..
  | .callActivity b .. => b.id
  | .exclusiveGateway b | .parallelGateway b | .inclusiveGateway b | .eventBasedGateway b => b.id

def Element.attachedTo? : Element → Option String
  | .boundaryEvent _ attachedTo .. => some attachedTo
  | _ => none

namespace ProcessOf

variable (p : BPMNProcess)

def keys : List String := p.elements.map Prod.fst

def startEvents : List Element := (p.elements.map Prod.snd).filter fun e => e.cls = .startEvent

def outgoingFlows (eid : String) : List SequenceFlow :=
  (p.flows.map Prod.snd).filter fun f => f.sourceRef = eid

def successors (eid : String) : List Element :=
  (p.outgoingFlows eid).filterMap fun f => p.elements.lookup f.targetRef

/-! ## the optimizer -/

def next (eid : String) : List String := (p.successors eid).map Element.id

/-- the host of every boundary event with its id, in the order of the dictionary -/
def attachments : List (String × String) :=
  (p.elements.map Prod.snd).filterMap fun e => e.attachedTo?.map fun host => (host, e.id)

/-- enough to take every successor of every element from the queue -/
def fuel : Nat :=
  p.startEvents.length + (p.keys.map fun x => (p.next x).length).sum

/-- what is reached by flows from the start events, and then by one pass over the boundary events -/
def reachable : List String :=
  Reach.attach p.next (1 + p.keys.length) p.attachments
    (Reach.search p.next p.fuel [] (p.startEvents.map Element.id))

end ProcessOf

structure OptimizationReport where
  removedElements : List String := []
  removedFlows : List String := []
  transformations : List String := []

/-- `scan` is the order in which the set of dead elements is walked through -/
def removeDeadPaths (scan : Scan String) (p : BPMNProcess) (report : OptimizationReport) :
    BPMNProcess × OptimizationReport :=
  if p.startEvents.isEmpty then (p, report)
  else
    let reachable := p.reachable
    let deadElements := p.keys.filter (· ∉ reachable)
    let dead := fun f : SequenceFlow => f.sourceRef ∈ deadElements ∨ f.targetRef ∈ deadElements
    ({ p with
        elements := p.elements.filter fun i => i.1 ∉ deadElements
        flows := p.flows.filter fun i => ¬dead i.2 },
      { removedElements := report.removedElements ++ scan.order deadElements
        removedFlows := report.removedFlows ++
          (p.flows.filter fun i => dead i.2).map Prod.fst
        transformations :=
          if deadElements = [] then report.transformations
          else report.transformations ++
            ["Removed " ++ toString deadElements.length ++ " unreachable element(s)"] })

/-! ## the validator -/

def ALLOWED_SCRIPT_LANGUAGES : List String := ["python", "javascript", "groovy"]

def MAX_SCRIPT_BYTES : Nat := 65536

section
variable (lower : String → String)

/-- `_check_has_start_event` -/
def hasStartErrors (p : BPMNProcess) : List String :=
  if p.isExecutable && p.startEvents.isEmpty then ["Process '" ++ p.id ++ "' has no start event"]
  else []

/-- `_check_flow_references` -/
def flowErrors (p : BPMNProcess) : List String :=
  (p.flows.map Prod.snd).flatMap fun f =>
    (if f.sourceRef ∉ p.keys then
      ["Flow '" ++ f.id ++ "' references unknown source '" ++ f.sourceRef ++ "'"] else []) ++
    (if f.targetRef ∉ p.keys then
      ["Flow '" ++ f.id ++ "' references unknown target '" ++ f.targetRef ++ "'"] else [])

/-- `_check_boundary_events` -/
def boundaryErrors (p : BPMNProcess) : List String :=
  p.attachments.flatMap fun (host, id) =>
    if host ∉ p.keys then
      ["Boundary event '" ++ id ++ "' is attached to unknown element '" ++ host ++ "'"] else []

/-- `_check_script_tasks`, for one of them -/
def scriptErrors (b : TaskBase) (language script : String) : List String :=
  (if lower (String.ofList (strip language.toList)) ∉ ALLOWED_SCRIPT_LANGUAGES then
    ["ScriptTask '" ++ b.id ++ "': language '" ++ language ++ "' is not allowed. " ++
      "Permitted values: ['groovy', 'javascript', 'python']"] else []) ++
  (if MAX_SCRIPT_BYTES < script.utf8ByteSize then
    ["ScriptTask '" ++ b.id ++ "': script exceeds 64 KB hard limit (" ++
      toString script.utf8ByteSize ++ " bytes). Move logic to a ServiceTask instead."] else [])

def Element.scriptErrors : Element → List String
  | .scriptTask b language script => Bpmn.scriptErrors lower b language script
  | _ => []

mutual

/-- `Validator.validate(process).errors` -/
def errors : ProcessOf Element → List String
  | ⟨id, name, isExecutable, elements, flows⟩ =>
    let p : BPMNProcess := ⟨id, name, isExecutable, elements, flows⟩
    hasStartErrors p ++ flowErrors p ++ boundaryErrors p ++ bodiesErrors elements ++
      (elements.flatMap fun i => i.2.scriptErrors lower)

/-- `_check_subprocesses` -/
def bodiesErrors : List (String × Element) → List String
  | [] => []
  | (_, e) :: rest => bodyErrors e ++ bodiesErrors rest

def bodyErrors : Element → List String
  | .subProcess b (some body) =>
    (errors body).map fun e => "[subprocess '" ++ b.id ++ "'] " ++ e
  | _ => []

end

end

/-! ## what is reached -/

/-- every element stands under its own id -/
structure Keyed (p : BPMNProcess) : Prop where
  nodup : p.keys.Nodup
  id_eq : ∀ i ∈ p.elements, i.2.id = i.1

/-- the least set with the start events, closed under sequence flows, with each boundary event whose
host it has -/
inductive Live (p : BPMNProcess) : String → Prop where
  | start {e : Element} (he : e ∈ p.startEvents) : Live p e.id
  | flow {x : String} {e : Element} (hx : Live p x) (he : e ∈ p.successors x) : Live p e.id
  | boundary {host x : String} (hx : (host, x) ∈ p.attachments) (hhost : Live p host) : Live p x

namespace Keyed

variable {p : BPMNProcess}

theorem id_mem (h : Keyed p) {e : Element} (he : e ∈ p.elements.map Prod.snd) :
    (e.id, e) ∈ p.elements := by
  obtain ⟨i, hi, rfl⟩ := List.mem_map.mp he
  rw [h.id_eq i hi]
  exact hi

theorem id_mem_keys (h : Keyed p) {e : Element} (he : e ∈ p.elements.map Prod.snd) :
    e.id ∈ p.keys := List.mem_map_of_mem (h.id_mem he)

theorem start_mem (h : Keyed p) {e : Element} (he : e ∈ p.startEvents) : e.id ∈ p.keys :=
  h.id_mem_keys (List.mem_of_mem_filter he)

theorem successor_mem {x : String} {e : Element} (he : e ∈ p.successors x) :
    e ∈ p.elements.map Prod.snd := by
  obtain ⟨f, -, hf⟩ := List.mem_filterMap.mp he
  exact List.mem_map_of_mem (mem_of_lookup hf)

theorem next_mem (h : Keyed p) {x y : String} (hy : y ∈ p.next x) : y ∈ p.keys := by
  obtain ⟨e, he, rfl⟩ := List.mem_map.mp hy
  exact h.id_mem_keys (successor_mem he)

theorem of_attachment (h : Keyed p) {host x : String} (hx : (host, x) ∈ p.attachments) :
    ∃ e, (x, e) ∈ p.elements ∧ e.id = x ∧ e.attachedTo? = some host := by
  obtain ⟨e, he, hmap⟩ := List.mem_filterMap.mp hx
  obtain ⟨host', hhost, heq⟩ := Option.map_eq_some_iff.mp hmap
  obtain ⟨rfl, rfl⟩ := Prod.mk.inj heq
  exact ⟨e, h.id_mem he, rfl, hhost⟩

theorem live_mem (h : Keyed p) {x : String} (hx : Live p x) : x ∈ p.keys := by
  cases hx with
  | start he => exact h.start_mem he
  | flow _ he => exact h.id_mem_keys (successor_mem he)
  | boundary hx _ =>
    obtain ⟨e, he, -, -⟩ := h.of_attachment hx
    exact List.mem_map_of_mem he

theorem mem_reachable_iff (h : Keyed p) {x : String} :
    x ∈ p.reachable ↔ ∃ e ∈ p.startEvents, Reach.InOrder p.next p.attachments e.id x := by
  have hU : ∀ x ∈ p.keys, ∀ y ∈ p.next x, y ∈ p.keys := fun _ _ _ hy => h.next_mem hy
  have hfound : Reach.Found p.next [] (p.startEvents.map Element.id)
      (Reach.search p.next p.fuel [] (p.startEvents.map Element.id)) := by
    refine Reach.found_search hU ?_ (by simp) ?_
    · intro y hy
      obtain ⟨e, he, rfl⟩ := List.mem_map.mp hy
      exact h.start_mem he
    · rw [List.length_map, Reach.unseen, ProcessOf.fuel]
      simp
  have hlinks : ∀ l ∈ p.attachments, l.2 ∈ p.keys := by
    rintro ⟨host, y⟩ hl
    obtain ⟨e, he, -, -⟩ := h.of_attachment hl
    exact List.mem_map_of_mem he
  rw [ProcessOf.reachable, Reach.mem_attach hU (le_refl _) hlinks hfound.closed]
  constructor
  · rintro ⟨y, hy, hyx⟩
    rcases hfound.reached y hy with hnil | ⟨z, hz, hzy⟩
    · cases hnil
    · obtain ⟨e, he, rfl⟩ := List.mem_map.mp hz
      exact ⟨e, he, hyx.head hzy⟩
  · rintro ⟨e, he, hex⟩
    exact ⟨e.id, hfound.waiting _ (List.mem_map_of_mem he), hex⟩

end Keyed

theorem live_start {p : BPMNProcess} {x : String} (hx : x ∈ p.startEvents.map Element.id) :
    Live p x := by
  obtain ⟨e, he, rfl⟩ := List.mem_map.mp hx
  exact .start he

theorem live_next {p : BPMNProcess} {x y : String} (hx : Live p x) (hy : y ∈ p.next x) :
    Live p y := by
  obtain ⟨e, he, rfl⟩ := List.mem_map.mp hy
  exact .flow hx he

theorem live_of_walk {p : BPMNProcess} {x y : String} (hx : Live p x)
    (h : ReflTransGen (Reach.Leads p.next) x y) : Live p y := by
  induction h with
  | refl => exact hx
  | tail _ hlast ih => exact live_next ih hlast

theorem live_of_inOrder {p : BPMNProcess} {links : List (String × String)} {x y : String}
    (h : Reach.InOrder p.next links x y) (hlinks : links ⊆ p.attachments) (hx : Live p x) :
    Live p y := by
  induction h with
  | walk h => exact live_of_walk hx h
  | skip _ ih => exact ih (fun _ hl => hlinks (List.mem_cons_of_mem _ hl)) hx
  | take hwalk _ ih =>
    have hhost := live_of_walk hx hwalk
    exact ih (fun _ hl => hlinks (List.mem_cons_of_mem _ hl))
      (.boundary (hlinks List.mem_cons_self) hhost)

theorem Keyed.live_of_reachable {p : BPMNProcess} (h : Keyed p) {x : String}
    (hx : x ∈ p.reachable) : Live p x := by
  obtain ⟨e, he, hex⟩ := h.mem_reachable_iff.mp hx
  exact live_of_inOrder hex (List.Subset.refl _) (.start he)

/-! ## what is left -/

section
variable {scan : Scan String} {p : BPMNProcess} {report : OptimizationReport}

theorem mem_dead_iff {x : String} :
    x ∈ p.keys.filter (· ∉ p.reachable) ↔ x ∈ p.keys ∧ x ∉ p.reachable := by
  rw [List.mem_filter, decide_eq_true_eq]

theorem mem_elements_iff (hstart : p.startEvents ≠ []) {i : String × Element} :
    i ∈ (removeDeadPaths scan p report).1.elements ↔ i ∈ p.elements ∧ i.1 ∈ p.reachable := by
  unfold removeDeadPaths
  rw [if_neg (by simpa using hstart)]
  show i ∈ p.elements.filter _ ↔ _
  rw [List.mem_filter, decide_eq_true_eq, mem_dead_iff]
  refine and_congr_right fun hi => ?_
  rw [not_and, not_not]
  exact forall_prop_of_true (List.mem_map_of_mem hi)

theorem mem_keys_iff (hstart : p.startEvents ≠ []) {x : String} :
    x ∈ (removeDeadPaths scan p report).1.keys ↔ x ∈ p.keys ∧ x ∈ p.reachable := by
  constructor
  · intro hx
    obtain ⟨i, hi, rfl⟩ := List.mem_map.mp hx
    obtain ⟨hi, hreach⟩ := (mem_elements_iff hstart).mp hi
    exact ⟨List.mem_map_of_mem hi, hreach⟩
  · rintro ⟨hx, hreach⟩
    obtain ⟨i, hi, rfl⟩ := List.mem_map.mp hx
    exact List.mem_map_of_mem ((mem_elements_iff hstart).mpr ⟨hi, hreach⟩)

theorem mem_flows_iff (hstart : p.startEvents ≠ []) {i : String × SequenceFlow} :
    i ∈ (removeDeadPaths scan p report).1.flows ↔ i ∈ p.flows ∧
      (i.2.sourceRef ∈ p.keys → i.2.sourceRef ∈ p.reachable) ∧
      (i.2.targetRef ∈ p.keys → i.2.targetRef ∈ p.reachable) := by
  unfold removeDeadPaths
  rw [if_neg (by simpa using hstart)]
  show i ∈ p.flows.filter _ ↔ _
  rw [List.mem_filter, decide_eq_true_eq]
  beta_reduce
  rw [mem_dead_iff, mem_dead_iff, not_or, not_and, not_not, not_and, not_not]

theorem mem_attachments_iff (hkeyed : Keyed p) (hstart : p.startEvents ≠ [])
    {l : String × String} : l ∈ (removeDeadPaths scan p report).1.attachments ↔
      l ∈ p.attachments ∧ l.2 ∈ p.reachable := by
  obtain ⟨host, x⟩ := l
  constructor
  · intro hl
    obtain ⟨e, he, hmap⟩ := List.mem_filterMap.mp hl
    obtain ⟨i, hi, rfl⟩ := List.mem_map.mp he
    obtain ⟨hi, hreach⟩ := (mem_elements_iff hstart).mp hi
    obtain ⟨host', -, heq⟩ := Option.map_eq_some_iff.mp hmap
    refine ⟨List.mem_filterMap.mpr ⟨i.2, List.mem_map_of_mem hi, hmap⟩, ?_⟩
    rw [← (Prod.mk.inj heq).2, hkeyed.id_eq i hi]
    exact hreach
  · rintro ⟨hl, hreach⟩
    obtain ⟨e, he, hid, hhost⟩ := hkeyed.of_attachment hl
    have hkept : (x, e) ∈ (removeDeadPaths scan p report).1.elements :=
      (mem_elements_iff hstart).mpr ⟨he, hreach⟩
    exact List.mem_filterMap.mpr ⟨e, List.mem_map_of_mem hkept, by rw [hhost, hid]; rfl⟩

theorem startEvents_kept (hkeyed : Keyed p) (hstart : p.startEvents ≠ []) :
    (removeDeadPaths scan p report).1.startEvents ≠ [] := by
  obtain ⟨e, he⟩ := List.exists_mem_of_ne_nil _ hstart
  have hreach : e.id ∈ p.reachable := hkeyed.mem_reachable_iff.mpr ⟨e, he, .walk .refl⟩
  obtain ⟨hmem, hcls⟩ := List.mem_filter.mp he
  have hkept : (e.id, e) ∈ (removeDeadPaths scan p report).1.elements :=
    (mem_elements_iff hstart).mpr ⟨hkeyed.id_mem hmem, hreach⟩
  exact List.ne_nil_of_mem (List.mem_filter.mpr ⟨List.mem_map_of_mem hkept, hcls⟩)

end

/-! ## what is accepted -/

section
variable (lower : String → String)

structure Valid (p : BPMNProcess) : Prop where
  starts : p.isExecutable = true → p.startEvents ≠ []
  joined : ∀ i ∈ p.flows, i.2.sourceRef ∈ p.keys ∧ i.2.targetRef ∈ p.keys
  hosted : ∀ l ∈ p.attachments, l.1 ∈ p.keys
  elements : ∀ i ∈ p.elements, bodyErrors lower i.2 = [] ∧ i.2.scriptErrors lower = []

theorem bodiesErrors_eq (elements : List (String × Element)) :
    bodiesErrors lower elements = elements.flatMap fun i => bodyErrors lower i.2 := by
  induction elements with
  | nil => rfl
  | cons i elements ih => rw [bodiesErrors, ih, List.flatMap_cons]

theorem errors_eq (p : BPMNProcess) : errors lower p =
    hasStartErrors p ++ flowErrors p ++ boundaryErrors p ++ bodiesErrors lower p.elements ++
      (p.elements.flatMap fun i => i.2.scriptErrors lower) := by
  cases p
  rw [errors]

/-- **What the validator accepts.** -/
theorem errors_eq_nil_iff (p : BPMNProcess) : errors lower p = [] ↔ Valid lower p := by
  have hstarts : hasStartErrors p = [] ↔ (p.isExecutable = true → p.startEvents ≠ []) := by
    rw [hasStartErrors]
    split
    · rename_i h
      rw [Bool.and_eq_true, List.isEmpty_iff] at h
      exact iff_of_false (by simp) fun hne => hne h.1 h.2
    · rename_i h
      rw [Bool.and_eq_true, List.isEmpty_iff, not_and] at h
      exact iff_of_true rfl h
  have hflows : flowErrors p = [] ↔
      ∀ i ∈ p.flows, i.2.sourceRef ∈ p.keys ∧ i.2.targetRef ∈ p.keys := by
    rw [flowErrors, List.flatMap_eq_nil_iff, List.forall_mem_map]
    refine forall₂_congr fun i _ => ?_
    rw [List.append_eq_nil_iff]
    simp
  have hhosts : boundaryErrors p = [] ↔ ∀ l ∈ p.attachments, l.1 ∈ p.keys := by
    rw [boundaryErrors, List.flatMap_eq_nil_iff]
    refine forall₂_congr fun l _ => ?_
    simp
  rw [errors_eq, List.append_eq_nil_iff, List.append_eq_nil_iff, List.append_eq_nil_iff,
    List.append_eq_nil_iff, hstarts, hflows, hhosts, bodiesErrors_eq, List.flatMap_eq_nil_iff,
    List.flatMap_eq_nil_iff]
  constructor
  · rintro ⟨⟨⟨⟨hs, hf⟩, hh⟩, hb⟩, hc⟩
    exact ⟨hs, hf, hh, fun i hi => ⟨hb i hi, hc i hi⟩⟩
  · intro h
    exact ⟨⟨⟨⟨h.starts, h.joined⟩, h.hosted⟩, fun i hi => (h.elements i hi).1⟩,
      fun i hi => (h.elements i hi).2⟩

end

/-! ## the pass -/

/-- the pass keeps exactly what is live, leaves no flow with an end missing, and no accepted process
becomes one that is not -/
structure KeepsLive (lower : String → String) (p q : BPMNProcess) : Prop where
  live : ∀ x, x ∈ q.keys ↔ Live p x
  joined : ∀ i ∈ q.flows, i.2.sourceRef ∈ q.keys ∧ i.2.targetRef ∈ q.keys
  accepted : errors lower p = [] → errors lower q = []

/-- what is live is reached with the boundary events in the order of the dictionary, a flow with an
unknown end has an end that is not live, and of an accepted process the hosts of live boundary
events are live -/
structure Orderly (lower : String → String) (p : BPMNProcess) : Prop where
  inOrder : ∀ x, Live p x →
    ∃ e ∈ p.startEvents, Reach.InOrder p.next p.attachments e.id x
  flows : ∀ i ∈ p.flows, i.2.sourceRef ∉ p.keys ∨ i.2.targetRef ∉ p.keys →
    ∃ x, (x = i.2.sourceRef ∨ x = i.2.targetRef) ∧ x ∈ p.keys ∧ ¬Live p x
  hosts : errors lower p = [] → ∀ l ∈ p.attachments, Live p l.2 → Live p l.1

/-- **Dead-path removal keeps exactly what is live** if and only if the process is in order. -/
theorem deadPaths_iff (lower : String → String) (scan : Scan String) (p : BPMNProcess)
    (report : OptimizationReport) (hkeyed : Keyed p) (hstart : p.startEvents ≠ []) :
    KeepsLive lower p (removeDeadPaths scan p report).1 ↔ Orderly lower p := by
  constructor
  · intro h
    have hreach : ∀ x, Live p x → x ∈ p.reachable := fun x hx =>
      ((mem_keys_iff hstart).mp ((h.live x).mpr hx)).2
    refine ⟨fun x hx => hkeyed.mem_reachable_iff.mp (hreach x hx), ?_, ?_⟩
    · intro i hi hunknown
      by_contra hnone
      have hends : ∀ x, x = i.2.sourceRef ∨ x = i.2.targetRef → x ∈ p.keys → x ∈ p.reachable := by
        intro x hx hkey
        by_contra hdead
        exact hnone ⟨x, hx, hkey, fun hlive => hdead (hreach x hlive)⟩
      have hkept := h.joined i ((mem_flows_iff hstart).mpr
        ⟨hi, hends _ (Or.inl rfl), hends _ (Or.inr rfl)⟩)
      rcases hunknown with hsource | htarget
      · exact hsource ((mem_keys_iff hstart).mp hkept.1).1
      · exact htarget ((mem_keys_iff hstart).mp hkept.2).1
    · intro hvalid l hl hlive
      have hafter := (errors_eq_nil_iff lower _).mp (h.accepted hvalid)
      have hkept : l ∈ (removeDeadPaths scan p report).1.attachments :=
        (mem_attachments_iff hkeyed hstart).mpr ⟨hl, hreach _ hlive⟩
      exact (h.live _).mp (hafter.hosted l hkept)
  · intro h
    have hreach : ∀ x, x ∈ p.reachable ↔ Live p x := fun x =>
      ⟨hkeyed.live_of_reachable, fun hx => hkeyed.mem_reachable_iff.mpr (h.inOrder x hx)⟩
    have hkeys : ∀ x, x ∈ (removeDeadPaths scan p report).1.keys ↔ Live p x := by
      intro x
      rw [mem_keys_iff hstart, hreach]
      exact and_iff_right_of_imp hkeyed.live_mem
    have hjoined : ∀ i ∈ (removeDeadPaths scan p report).1.flows,
        i.2.sourceRef ∈ (removeDeadPaths scan p report).1.keys ∧
          i.2.targetRef ∈ (removeDeadPaths scan p report).1.keys := by
      intro i hi
      obtain ⟨hi, hsource, htarget⟩ := (mem_flows_iff hstart).mp hi
      have hknown : i.2.sourceRef ∈ p.keys ∧ i.2.targetRef ∈ p.keys := by
        by_contra hunknown
        rw [not_and_or] at hunknown
        obtain ⟨x, hx, hkey, hdead⟩ := h.flows i hi hunknown
        rcases hx with rfl | rfl
        · exact hdead ((hreach _).mp (hsource hkey))
        · exact hdead ((hreach _).mp (htarget hkey))
      exact ⟨(mem_keys_iff hstart).mpr ⟨hknown.1, hsource hknown.1⟩,
        (mem_keys_iff hstart).mpr ⟨hknown.2, htarget hknown.2⟩⟩
    refine ⟨hkeys, hjoined, fun hvalid => ?_⟩
    have hbefore := (errors_eq_nil_iff lower p).mp hvalid
    refine (errors_eq_nil_iff lower _).mpr
      ⟨fun _ => startEvents_kept hkeyed hstart, hjoined, ?_, ?_⟩
    · intro l hl
      obtain ⟨hl, hlreach⟩ := (mem_attachments_iff hkeyed hstart).mp hl
      exact (hkeys _).mpr (h.hosts hvalid l hl ((hreach _).mp hlreach))
    · exact fun i hi => hbefore.elements i ((mem_elements_iff hstart).mp hi).1

def asGiven : Scan String := ⟨id, fun _ => .refl _⟩

def task (id : String) : String × Element := (id, .genericTask { id := id })

def boundary (id host : String) : String × Element := (id, .boundaryEvent id host true none [] [])

def flow (source target : String) : String × SequenceFlow :=
  (source ++ "-" ++ target,
    { id := source ++ "-" ++ target, sourceRef := source, targetRef := target })

def remindedTask : BPMNProcess where
  id := "reminded"
  elements := [("start", .startEvent "start" none [] []), task "work", boundary "late" "work",
    task "remind"]
  flows := [flow "start" "work", flow "late" "remind"]

theorem remindedTask_keyed : Keyed remindedTask where
  nodup := by decide
  id_eq := by simp [remindedTask, task, boundary, Element.id]

theorem remindedTask_keepsLive :
    KeepsLive id remindedTask (removeDeadPaths asGiven remindedTask {}).1 := by
  have hall : ∀ x ∈ remindedTask.keys, x ∈ remindedTask.reachable := by decide +kernel
  refine (deadPaths_iff id asGiven remindedTask {} remindedTask_keyed (by decide)).mpr
    ⟨?_, ?_, ?_⟩
  · intro x hx
    exact remindedTask_keyed.mem_reachable_iff.mp (hall x (remindedTask_keyed.live_mem hx))
  · intro i hi hunknown
    have hknown : ∀ i ∈ remindedTask.flows,
        i.2.sourceRef ∈ remindedTask.keys ∧ i.2.targetRef ∈ remindedTask.keys := by decide
    exact absurd (hknown i hi) (by tauto)
  · intro _ l hl _
    have hhost : ∀ l ∈ remindedTask.attachments, l.1 ∈ remindedTask.keys := by decide
    exact remindedTask_keyed.live_of_reachable (hall _ (hhost l hl))

/-- a second timer, on the task behind the first, that stands before it -/
def chainedTimers : BPMNProcess where
  id := "chained"
  elements := [("start", .startEvent "start" none [] []), task "work", boundary "later" "remind",
    boundary "late" "work", task "remind"]
  flows := [flow "start" "work", flow "late" "remind"]

theorem chainedTimers_live : Live chainedTimers "later" := by
  have hstart : Live chainedTimers "start" := live_start (by decide)
  have hwork : Live chainedTimers "work" := live_next hstart (by decide +kernel)
  have hlate : Live chainedTimers "late" := .boundary (by decide) hwork
  have hremind : Live chainedTimers "remind" := live_next hlate (by decide +kernel)
  exact .boundary (by decide) hremind

theorem not_always_keepsLive : ¬∀ (lower : String → String) (scan : Scan String)
    (p : BPMNProcess) (report : OptimizationReport), Keyed p → p.startEvents ≠ [] →
      KeepsLive lower p (removeDeadPaths scan p report).1 := by
  intro h
  have hkeyed : Keyed chainedTimers :=
    ⟨by decide, by simp [chainedTimers, task, boundary, Element.id]⟩
  have hkept := ((h id asGiven chainedTimers {} hkeyed (by decide)).live "later").mpr
    chainedTimers_live
  exact absurd hkept (by decide +kernel)

end Bpmn
