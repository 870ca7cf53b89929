import Velaris.Py.Runtime

/-!
# The HxFusion interpreter

`hxfusion/parser.py` reads the elements of a process in document order and links a flow to its two
nodes as it reads it; `hxfusion/engine.py` works through a queue of node ids.

* `Element`   the children of the process element: nodes and sequence flows;
* `read`, `parse`   the nodes and the flows, linked;
* `nextNodes`   the successors of a node; an exclusive gateway has one;
* `executeNode`   what executing a node comes to;
* `step`   one round of the loop of `_run_instance`.
-/

namespace HxFusion

open Py

/-! ## the parser -/

inductive NodeType where
  | startEvent | endEvent
  | serviceTask | botTask | userTask | scriptTask | spawnCase
  | exclusiveGateway | parallelGateway
  deriving DecidableEq

structure BpmnNode where
  id : String
  nodeType : NodeType
  outgoing : List String
  incoming : List String
  deriving DecidableEq

structure BpmnFlow where
  id : String
  source : String
  target : String
  condition : Option String
  deriving DecidableEq

structure BpmnProcess where
  nodes : List (String × BpmnNode)
  flows : List (String × BpmnFlow)
  startEvents : List String

/-- a child of the process element: a node by its id and type, or a sequence flow with the text of
its condition -/
inductive Element where
  | node (id : String) (nodeType : NodeType)
  | sequenceFlow (id sourceRef targetRef : String) (conditionExpression : Option String)

/-- `d[k] = v` -/
def setItem {α : Type} (k : String) (v : α) : List (String × α) → List (String × α)
  | [] => [(k, v)]
  | (l, w) :: d => if l = k then (k, v) :: d else (l, w) :: setItem k v d

/-- `(cond_el.text or "").strip()`, or `None` -/
def conditionOf : Option String → Option String
  | none => none
  | some text =>
    let stripped := String.ofList (strip text.toList)
    if stripped = "" then none else some stripped

def addOutgoing (source flowId : String) (nodes : List (String × BpmnNode)) :
    List (String × BpmnNode) :=
  nodes.map fun e =>
    (e.1, if e.1 = source then { e.2 with outgoing := e.2.outgoing ++ [flowId] } else e.2)

def addIncoming (target flowId : String) (nodes : List (String × BpmnNode)) :
    List (String × BpmnNode) :=
  nodes.map fun e =>
    (e.1, if e.1 = target then { e.2 with incoming := e.2.incoming ++ [flowId] } else e.2)

def read (p : BpmnProcess) : Element → BpmnProcess
  | .node id nodeType => { p with nodes := setItem id ⟨id, nodeType, [], []⟩ p.nodes }
  | .sequenceFlow id source target text => { p with
      flows := setItem id ⟨id, source, target, conditionOf text⟩ p.flows
      nodes := addIncoming target id (addOutgoing source id p.nodes) }

def parse (elements : List Element) : BpmnProcess :=
  let p := elements.foldl read ⟨[], [], []⟩
  { p with startEvents :=
      (p.nodes.filter fun e => e.2.nodeType = .startEvent).map fun e => e.2.id }

/-! ## the successors of a node -/

section
variable (holds : String → Dict → Bool)

/-- the first condition that holds wins; failing that the last flow without one -/
def choose (context : Dict) : List BpmnFlow → Option String → List String
  | [], none => []
  | [], some t => if t = "" then [] else [t]
  | f :: rest, default =>
    match f.condition with
    | some condition => if holds condition context then [f.target] else choose context rest default
    | none => choose context rest (some f.target)

def nextNodes (p : BpmnProcess) (nodeId : String) (context : Dict) : List String :=
  match p.nodes.lookup nodeId with
  | none => []
  | some node =>
    let flows := node.outgoing.filterMap fun id => p.flows.lookup id
    if node.nodeType = .exclusiveGateway then choose holds context flows none
    else flows.map (·.target)

/-! ## the loop -/

inductive Status where
  | running | completed | failed | suspended
  deriving DecidableEq

/-- what the connector, the script or the bot queue of a task answers -/
structure Work where
  result : Option Dict
  error : Option String

/-- the result, whether the instance is suspended, and the error -/
def executeNode (t : NodeType) (w : Work) : Option Dict × Bool × Option String :=
  match t with
  | .serviceTask | .scriptTask => (w.result, false, w.error)
  | .userTask => (none, true, none)
  | .botTask => (none, w.error.isNone, w.error)
  | _ => (none, false, none)

structure Run where
  status : Status
  queue : List String
  visited : List String
  /-- `parallel_pending` -/
  pending : String → ℕ
  context : Dict
  currentNode : Option String
  /-- the nodes that were executed, each with the context it left -/
  log : List (String × Dict)
  errorMessage : Option String

def firstQueue (p : BpmnProcess) : Option String → List String
  | none => p.startEvents
  | some start => if start = "" then p.startEvents else [start]

def begin (p : BpmnProcess) (initialContext : Dict) (startNode : Option String) : Run where
  status := if firstQueue p startNode = [] then .failed else .running
  queue := firstQueue p startNode
  visited := []
  pending := fun _ => 0
  context := initialContext
  currentNode := none
  log := []
  errorMessage := if firstQueue p startNode = [] then some "No startEvent found" else none

def Run.mark (s : Run) (x : String) (rest : List String) (result : Option Dict) : Run :=
  let context := match result with
    | none => s.context
    | some new => s.context.update new
  { s with
    queue := rest
    visited := x :: s.visited
    context := context
    currentNode := some x
    log := s.log ++ [(x, context)] }

/-- what follows the execution of a node that is no end event -/
def Run.goOn (p : BpmnProcess) (node : BpmnNode) (x : String) (s : Run) : Run :=
  if node.nodeType = .parallelGateway ∧ 1 < node.incoming.length then
    let s := { s with pending := Function.update s.pending x (s.pending x + 1) }
    if s.pending x < node.incoming.length then s
    else { s with queue := s.queue ++ nextNodes holds p x s.context }
  else { s with queue := s.queue ++ nextNodes holds p x s.context }

/-- `node_id` is popped and executed -/
def Run.visit (p : BpmnProcess) (node : BpmnNode) (x : String) (rest : List String) (s : Run)
    (w : Work) : Run :=
  let (result, suspended, error) := executeNode node.nodeType w
  let message := error.getD ""
  if message ≠ "" then
    { s with status := .failed, currentNode := some x, errorMessage := some message }
  else if suspended then { s with status := .suspended, currentNode := some x }
  else if node.nodeType = .endEvent then { s.mark x rest result with status := .completed }
  else (s.mark x rest result).goOn holds p node x

def step (p : BpmnProcess) (s : Run) (w : Work) : Run :=
  if s.status ≠ .running then s
  else
    match s.queue with
    | [] => { s with status := .completed }
    | x :: rest =>
      if x ∈ s.visited then { s with queue := rest }
      else
        match p.nodes.lookup x with
        | none => { s with queue := rest }
        | some node => s.visit holds p node x rest w

end

end HxFusion
