import Velaris.Field.Protocol

/-!
# Wiping a lost node

A shred order waits for the node's next contact, or for its next sync, and the node is then
recorded as shredded.  A contact so marks a node only if it is signed; a sync does so whether it is
signed or not, and neither looks at when the signature was made.

* `orderShred`, `contact`   the order, and the two ways in which the device hears of it;
* `World`, `Act`, `step`   the hub, and what the devices sign while their wipe is ordered;
* `marked`, `signedWord`   the node that a request marks, and the message it carries signed;
* `OwnWord`, `Stays`   what is to hold of every step;
* `own_word_along_iff`   the runs in which it does.
-/

namespace Field.Shred
open Py Base Handoff

variable (R : Setup) (keyId : Uuid → String)

/-! ## the order -/

/-- the columns `shred_ordered_at` and `shred_reason` of a node -/
structure Order where
  nodeId : Uuid
  orderedAt : Int
  reason : String

def orderShred (now : Int) (hub : Hub) (node : Node) (reason : String) : Hub × Option Order :=
  if node.status = .shredded then (hub, none)
  else (hub.putNode { node with status := .shredOrdered }, some ⟨node.id, now, reason⟩)

/-! ## a contact -/

def contactMessage (node : Node) (stamp : String) : String :=
  "velaris-field-contact:" ++ node.slug ++ ":" ++ keyId node.id ++ ":" ++ stamp

def CONTACT_SKEW : Int := seconds (15 * 60)

/-- the contact's own time is near the hub's -/
def current (now : Int) (stamp : String) : Bool :=
  (parseTime R (.str stamp)).any fun t => decide (((now - t).natAbs : Int) ≤ CONTACT_SKEW)

def contactProblem (now : Int) (node : Node) (stamp signature : Option String) : Option String :=
  if signature.isSome || R.signatureRequired then
    let signature := signature.getD ""
    let stamp := stamp.getD ""
    if signature = "" ∨ stamp = "" then
      some "this hub requires a signed contact from the node's pinned key"
    else if !current R now stamp then
      some "the contact's timestamp is not current; check the node's clock"
    else if R.verifies node.publicKey (contactMessage keyId node stamp) signature then none
    else some "the contact is not signed by the node's pinned key"
  else none

structure Staleness where
  stale : Bool
  staleAfter : Option String
  reason : Option String

def staleness (now : Int) : Option Dispatch → Staleness
  | none => ⟨false, none, some "no dispatch outstanding"⟩
  | some row =>
    if row.staleAfter < now then
      ⟨true, some (R.isoformat row.staleAfter), some ("the node's policy snapshot is older than " ++
        "this node's limit; it must fail closed until it reconnects")⟩
    else ⟨false, some (R.isoformat row.staleAfter), none⟩

structure ContactAnswer where
  status : NodeStatus
  wipe : Bool
  signed : Bool
  outstandingDispatch : Option String
  staleness : Staleness
  note : String

/-- the node after a contact: a signed one executes the order -/
def contacted (now : Int) (node : Node) (signed : Bool) : Node :=
  let shred := node.status = .shredOrdered ∧ signed
  { node with
    lastContactAt := some now
    status := if shred then .shredded else node.status
    shreddedAt := if shred then some now else node.shreddedAt }

def contact (now : Int) (hub : Hub) (node : Node) (stamp signature : Option String) :
    Except String (Hub × ContactAnswer) :=
  match contactProblem R keyId now node stamp signature with
  | some message => .error message
  | none =>
    let wipe := node.status = .shredOrdered ∨ node.status = .shredded
    let node' := contacted now node signature.isSome
    -- a dispatch supersedes the ones before it, so the last one issued is the latest
    let latest := hub.dispatches.reverse.find? fun d => d.nodeId = node.id ∧ d.status = .issued
    .ok (hub.putNode node',
      { status := node'.status
        wipe := wipe
        signed := signature.isSome
        outstandingDispatch := latest.map fun d => uuidText d.id
        staleness := staleness R now latest
        note := if wipe then "Wipe the node now." else "Contact recorded." })

/-! ## the hub and its devices -/

structure World where
  hub : Hub
  orders : List Order := []
  /-- what the device of a node has signed since its wipe was ordered -/
  since : List (Uuid × String) := []

/-- requests by any caller, with what its token makes its tenant; a device that signs; and the rest
of the hub's work -/
inductive Act where
  | dispatch (tenant : Uuid) (now : Int) (id : Uuid) (args : DispatchArgs) (slug : String)
  | orderShred (tenant : Uuid) (now : Int) (slug reason : String)
  | contact (tenant : Uuid) (now : Int) (slug : String) (stamp signature : Option String)
  | sync (tenant : Uuid) (now : Int) (slug : String) (dispatchId : Uuid) (events : List Event)
      (signature : Option String)
  | signs (publicKey message : String)
  | hubWork (work : HubWork)

def Act.node? (hub : Hub) : Act → Option Node
  | .dispatch tenant _ _ _ slug | .orderShred tenant _ slug _ | .contact tenant _ slug _ _
  | .sync tenant _ slug _ _ _ => nodeOf hub tenant slug
  | .signs _ _ | .hubWork _ => none

def rowOf (hub : Hub) (node : Node) (dispatchId : Uuid) : Option Dispatch :=
  (hub.dispatches.find? fun d => d.id = dispatchId).filter fun row => row.nodeId = node.id

def hubAfter (hub : Hub) : SyncOutcome → Hub
  | .refused hub' _ => hub'
  | .uncaught => hub
  | .done hub' _ _ => hub'

variable (scan : Scan Case)

def step (w : World) (a : Act) : World :=
  match a with
  | .dispatch tenant now id args slug =>
    match dispatchNode R scan tenant now id args slug w.hub with
    | some d => { w with hub := d.hub }
    | none => w
  | .orderShred tenant now slug reason =>
    match nodeOf w.hub tenant slug with
    | none => w
    | some node =>
      let (hub, order) := orderShred now w.hub node reason
      { hub := hub
        orders := order.toList ++ w.orders
        since :=
          if node.status = .shredOrdered then w.since
          else w.since.filter fun p => p.1 ≠ node.id }
  | .contact tenant now slug stamp signature =>
    match nodeOf w.hub tenant slug with
    | none => w
    | some node =>
      match contact R keyId now w.hub node stamp signature with
      | .error _ => w
      | .ok (hub, _) => { w with hub := hub }
  | .sync tenant now slug dispatchId events signature =>
    match nodeOf w.hub tenant slug with
    | none => w
    | some node =>
      match rowOf w.hub node dispatchId with
      | none => w
      | some row =>
        { w with hub := hubAfter w.hub (sync R now w.hub node row events signature) }
  | .signs publicKey message =>
    let ordered := w.hub.nodes.filter fun n => n.publicKey = publicKey ∧ n.status = .shredOrdered
    { w with since := ordered.map (fun n => (n.id, message)) ++ w.since }
  | .hubWork work => { w with hub := w.hub.doWork work }

/-! ## what marks a node -/

def accepted (hub : Hub) (node : Node) (row : Dispatch) (events : List Event)
    (signature : Option String) : Bool :=
  row.status = .issued &&
    (Subchain.verify R.toRuntime events row.subchainGenesis).any fun v =>
      v.ok && (signatureProblem R node v.head signature).isNone &&
        (mergeAll R node row hub.cases events).isSome

def executes (hub : Hub) (node : Node) : Act → Bool
  | .contact _ now _ stamp signature =>
    signature.isSome && (contactProblem R keyId now node stamp signature).isNone
  | .sync _ _ _ dispatchId events signature =>
    (rowOf hub node dispatchId).any fun row => accepted R hub node row events signature
  | _ => false

def marked (hub : Hub) (a : Act) : Option Node :=
  (a.node? hub).filter fun node => node.status = .shredOrdered && executes R keyId hub node a

/-- the message that the request carries signed, and the signature -/
def signedWord (hub : Hub) (node : Node) : Act → Option (String × String)
  | .contact _ _ _ stamp signature =>
    stamp.bind fun t => signature.map fun s => (contactMessage keyId node t, s)
  | .sync _ _ _ dispatchId events signature =>
    (rowOf hub node dispatchId).bind fun row =>
      (Subchain.verify R.toRuntime events row.subchainGenesis).bind fun v =>
        signature.map fun s => (v.head, s)
  | _ => none

def statusOf (hub : Hub) (id : Uuid) : Option NodeStatus :=
  (hub.nodes.find? fun n => n.id = id).map Node.status

/-- a node becomes shredded only by a request of its own, with a signature that verifies under its
key and that its device has made since the order -/
def OwnWord (w : World) (a : Act) : Prop :=
  ∀ id, statusOf w.hub id ≠ some .shredded →
    statusOf (step R keyId scan w a).hub id = some .shredded →
    ∃ node message signature, a.node? w.hub = some node ∧ node.id = id ∧
      signedWord R keyId w.hub node a = some (message, signature) ∧
      R.verifies node.publicKey message signature = true ∧ (id, message) ∈ w.since

/-- a shredded node stays so, and its own requests merge nothing -/
def Stays (w : World) (a : Act) : Prop :=
  ∀ id, statusOf w.hub id = some .shredded →
    statusOf (step R keyId scan w a).hub id = some .shredded ∧
      ∀ node, a.node? w.hub = some node → node.id = id →
        (step R keyId scan w a).hub.cases = w.hub.cases ∧
          (step R keyId scan w a).hub.events = w.hub.events

/-- what executes an order is signed, and was signed since the order -/
def Fresh (w : World) (a : Act) : Prop :=
  ∀ node ∈ marked R keyId w.hub a,
    ∃ p ∈ signedWord R keyId w.hub node a, (node.id, p.1) ∈ w.since

/-- the node that takes the place of the old one in a step: marked, touched, or ordered wiped -/
def Moved (w : World) (a : Act) (node node' : Node) : Prop :=
  (marked R keyId w.hub a = some node ∧ node'.status = .shredded) ∨
    (marked R keyId w.hub a = none ∧
      (node'.status = node.status ∨ node.status ≠ .shredded ∧ node'.status = .shredOrdered))

instance (w : World) (a : Act) : Decidable (Fresh R keyId w a) :=
  inferInstanceAs (Decidable (∀ node ∈ marked R keyId w.hub a, _))

variable {R keyId scan}

/-! ## the nodes after a step -/

theorem statusOf_putNode (hub : Hub) (node : Node) (id : Uuid) :
    statusOf (hub.putNode node) id =
      (statusOf hub id).map fun s => if id = node.id then node.status else s := by
  unfold statusOf Hub.putNode
  rw [List.find?_map, Option.map_map, Option.map_map]
  have hsame : ((fun n : Node => decide (n.id = id)) ∘
      fun n => if n.id = node.id then node else n) = fun n => decide (n.id = id) := by
    funext n
    show decide ((if n.id = node.id then node else n).id = id) = _
    split
    next h => rw [h]
    next => rfl
  rw [hsame]
  cases hf : hub.nodes.find? fun n => decide (n.id = id) with
  | none => rfl
  | some n =>
    have hkey := List.find?_some hf
    have hid : n.id = id := of_decide_eq_true hkey
    show some (if n.id = node.id then node else n).status = some (if id = node.id then _ else _)
    rw [hid]
    split <;> rfl

theorem statusOf_of_nodeOf {hub : Hub} (hids : (hub.nodes.map Node.id).Nodup) {tenant : Uuid}
    {slug : String} {node : Node} (h : nodeOf hub tenant slug = some node) :
    statusOf hub node.id = some node.status := by
  have hfound := (find?_key_iff hids).mpr ⟨List.mem_of_find?_eq_some h, rfl⟩
  unfold statusOf
  rw [hfound]
  rfl

theorem statusOf_of_node? {hub : Hub} (hids : (hub.nodes.map Node.id).Nodup) {a : Act}
    {node : Node} (h : a.node? hub = some node) : statusOf hub node.id = some node.status := by
  cases a with
  | dispatch | orderShred | contact | sync => exact statusOf_of_nodeOf hids h
  | signs | hubWork => cases h

theorem marked_eq {hub : Hub} {a : Act} {node : Node} (hnode : a.node? hub = some node) :
    marked R keyId hub a =
      if node.status = .shredOrdered ∧ executes R keyId hub node a = true then some node
      else none := by
  unfold marked
  rw [hnode, Option.filter_some]
  exact if_congr (by rw [Bool.and_eq_true, decide_eq_true_eq]) rfl rfl

theorem nodes_dispatchNode {tenant id : Uuid} {now : Int} {args : DispatchArgs} {slug : String}
    {hub : Hub} {d : Dispatched}
    (h : dispatchNode R scan tenant now id args slug hub = some d) :
    d.hub.nodes = hub.nodes ∧ ∃ node, nodeOf hub tenant slug = some node ∧ node.status = .active := by
  unfold dispatchNode at h
  split at h
  · cases h
  · obtain ⟨node, hnode, hd⟩ := Option.bind_eq_some_iff.mp h
    unfold dispatch at hd
    split at hd
    · cases hd
    next hactive =>
      cases hcases : charterCases R scan hub.cases node with
      | none =>
        rw [hcases] at hd
        cases hd
      | some cases =>
        rw [hcases] at hd
        cases hd
        exact ⟨rfl, node, hnode, not_not.mp hactive⟩

theorem nodes_sync (now : Int) (hub : Hub) (node : Node) (row : Dispatch) (events : List Event)
    (signature : Option String) :
    (hubAfter hub (sync R now hub node row events signature)).nodes = hub.nodes ∧
        (node.status ≠ .shredded → accepted R hub node row events signature = false) ∨
      ∃ node', node'.id = node.id ∧
        (hubAfter hub (sync R now hub node row events signature)).nodes = (hub.putNode node').nodes ∧
        (accepted R hub node row events signature = true ∧
            node'.status = (if node.status = .shredOrdered then .shredded else node.status) ∨
          accepted R hub node row events signature = false ∧ node'.status = node.status) := by
  unfold sync
  by_cases hshredded : node.status = .shredded
  · rw [if_pos hshredded]
    exact Or.inl ⟨rfl, fun h => absurd hshredded h⟩
  rw [if_neg hshredded]
  unfold accepted
  by_cases hissued : row.status = .issued
  · rw [if_neg (not_not.mpr hissued), decide_eq_true hissued, Bool.true_and]
    cases hv : Subchain.verify R.toRuntime events row.subchainGenesis with
    | none => exact Or.inl ⟨rfl, fun _ => rfl⟩
    | some v =>
      obtain ⟨ok, head, reason⟩ := v
      rw [Option.any_some]
      cases ok with
      | false => exact Or.inr ⟨{ node with lastContactAt := some now }, rfl, rfl, Or.inr ⟨rfl, rfl⟩⟩
      | true =>
        rw [Bool.true_and]
        show _ ∨ _
        cases hp : signatureProblem R node head signature with
        | some message =>
          refine Or.inl ⟨?_, fun _ => rfl⟩
          simp only [hp]
          rfl
        | none =>
          cases hm : mergeAll R node row hub.cases events with
          | none =>
            refine Or.inl ⟨?_, fun _ => rfl⟩
            simp only [hp]
            rfl
          | some merged =>
            obtain ⟨cases, kept⟩ := merged
            let node' : Node :=
              { node with
                subchainHead := some head
                lastContactAt := some now
                status := if node.status = .shredOrdered then .shredded else node.status
                shreddedAt := if node.status = .shredOrdered then some now else node.shreddedAt }
            refine Or.inr ⟨node', rfl, ?_, Or.inl ⟨rfl, rfl⟩⟩
            simp only [hp]
            rfl
  · rw [if_pos hissued, decide_eq_false hissued]
    exact Or.inl ⟨rfl, fun _ => rfl⟩

theorem of_marked {hub : Hub} {a : Act} {node : Node} (h : marked R keyId hub a = some node) :
    a.node? hub = some node ∧ node.status = .shredOrdered ∧
      executes R keyId hub node a = true := by
  unfold marked at h
  obtain ⟨hnode, hboth⟩ := Option.filter_eq_some_iff.mp h
  rw [Bool.and_eq_true, decide_eq_true_eq] at hboth
  exact ⟨hnode, hboth⟩

theorem marked_of_no_node {hub : Hub} {a : Act} (h : a.node? hub = none) :
    marked R keyId hub a = none := by
  unfold marked
  rw [h]
  rfl

theorem marked_of_not_executes {hub : Hub} {a : Act}
    (h : ∀ node, a.node? hub = some node → executes R keyId hub node a = false) :
    marked R keyId hub a = none := by
  unfold marked
  rw [Option.filter_eq_none_iff]
  intro node hnode hboth
  rw [h node hnode, Bool.and_false] at hboth
  cases hboth

variable (R keyId scan) in
theorem nodes_step (w : World) (a : Act) :
    (step R keyId scan w a).hub.nodes = w.hub.nodes ∧ marked R keyId w.hub a = none ∨
      ∃ node node', a.node? w.hub = some node ∧ node'.id = node.id ∧
        (step R keyId scan w a).hub.nodes = (w.hub.putNode node').nodes ∧
        Moved R keyId w a node node' := by
  cases a with
  | signs publicKey message => exact Or.inl ⟨rfl, rfl⟩
  | hubWork work => exact Or.inl ⟨rfl, rfl⟩
  | dispatch tenant now id args slug =>
    refine Or.inl ⟨?_, marked_of_not_executes fun _ _ => rfl⟩
    cases hd : dispatchNode R scan tenant now id args slug w.hub with
    | none => simp only [step, hd]
    | some d =>
      simp only [step, hd]
      exact (nodes_dispatchNode hd).1
  | orderShred tenant now slug reason =>
    have hnone : marked R keyId w.hub (.orderShred tenant now slug reason) = none :=
      marked_of_not_executes fun _ _ => rfl
    cases hnode : nodeOf w.hub tenant slug with
    | none => exact Or.inl ⟨by simp only [step, hnode], hnone⟩
    | some node =>
      by_cases hs : node.status = .shredded
      · exact Or.inl ⟨by simp only [step, hnode, orderShred, if_pos hs], hnone⟩
      · refine Or.inr ⟨node, { node with status := .shredOrdered }, hnode, rfl, ?_,
          Or.inr ⟨hnone, Or.inr ⟨hs, rfl⟩⟩⟩
        simp only [step, hnode, orderShred, if_neg hs]
  | contact tenant now slug stamp signature =>
    cases hnode : nodeOf w.hub tenant slug with
    | none => exact Or.inl ⟨by simp only [step, hnode], marked_of_no_node hnode⟩
    | some node =>
      have hmarked : marked R keyId w.hub (.contact tenant now slug stamp signature) = _ :=
        marked_eq hnode
      cases hp : contactProblem R keyId now node stamp signature with
      | some message =>
        refine Or.inl ⟨by simp only [step, hnode, contact, hp], ?_⟩
        rw [hmarked, executes, hp]
        simp
      | none =>
        refine Or.inr ⟨node, contacted now node signature.isSome, hnode, rfl,
          by simp only [step, hnode, contact, hp], ?_⟩
        unfold Moved
        rw [hmarked, executes, hp]
        by_cases hshred : node.status = .shredOrdered ∧ signature.isSome = true
        · left
          exact ⟨by simp [hshred], if_pos hshred⟩
        · right
          refine ⟨if_neg (by simpa using hshred), Or.inl (if_neg hshred)⟩
  | sync tenant now slug dispatchId events signature =>
    cases hnode : nodeOf w.hub tenant slug with
    | none => exact Or.inl ⟨by simp only [step, hnode], marked_of_no_node hnode⟩
    | some node =>
      have hmarked :
          marked R keyId w.hub (.sync tenant now slug dispatchId events signature) = _ :=
        marked_eq hnode
      cases hrow : rowOf w.hub node dispatchId with
      | none =>
        refine Or.inl ⟨by simp only [step, hnode, hrow], ?_⟩
        rw [hmarked, executes, hrow]
        simp
      | some row =>
        have hnodes : (step R keyId scan w
            (.sync tenant now slug dispatchId events signature)).hub =
              hubAfter w.hub (sync R now w.hub node row events signature) := by
          simp only [step, hnode, hrow]
        rw [executes, hrow, Option.any_some] at hmarked
        unfold Moved
        rw [hnodes, hmarked]
        rcases nodes_sync (R := R) now w.hub node row events signature with
          ⟨hsame, hrefused⟩ | ⟨node', hid, hput, ⟨hok, hstatus⟩ | ⟨hno, hstatus⟩⟩
        · refine Or.inl ⟨hsame, if_neg ?_⟩
          intro h
          rw [hrefused (by rw [h.1]; decide)] at h
          cases h.2
        · refine Or.inr ⟨node, node', hnode, hid, hput, ?_⟩
          by_cases hordered : node.status = .shredOrdered
          · left
            exact ⟨if_pos ⟨hordered, hok⟩, hstatus.trans (if_pos hordered)⟩
          · right
            exact ⟨if_neg fun h => hordered h.1, Or.inl (hstatus.trans (if_neg hordered))⟩
        · refine Or.inr ⟨node, node', hnode, hid, hput, Or.inr ⟨if_neg ?_, Or.inl hstatus⟩⟩
          intro h
          rw [hno] at h
          cases h.2

/-! ## the statuses after a step -/

theorem ids_step (w : World) (a : Act) :
    (step R keyId scan w a).hub.nodes.map Node.id = w.hub.nodes.map Node.id := by
  rcases nodes_step R keyId scan w a with
    ⟨hsame, -⟩ | ⟨node, node', -, -, hput, -⟩
  · rw [hsame]
  · rw [hput]
    show (w.hub.nodes.map fun n => if n.id = node'.id then node' else n).map Node.id = _
    rw [List.map_map]
    apply List.map_congr_left
    intro n _
    show (if n.id = node'.id then node' else n).id = n.id
    split
    next h => exact h.symm
    next => rfl

theorem statusOf_congr {hub hub' : Hub} (h : hub.nodes = hub'.nodes) (id : Uuid) :
    statusOf hub id = statusOf hub' id := by
  unfold statusOf
  rw [h]

theorem shredded_step_iff {w : World} (hids : (w.hub.nodes.map Node.id).Nodup) (a : Act)
    {id : Uuid} (hid : statusOf w.hub id ≠ some .shredded) :
    statusOf (step R keyId scan w a).hub id = some .shredded ↔
      ∃ node ∈ marked R keyId w.hub a, node.id = id := by
  rcases nodes_step R keyId scan w a with
    ⟨hsame, hnone⟩ | ⟨node, node', hnode, hsameid, hput, hmoved⟩
  · rw [statusOf_congr hsame, hnone]
    exact iff_of_false hid fun h => nomatch h
  · rw [statusOf_congr hput, statusOf_putNode, hsameid]
    have hstatus := statusOf_of_node? hids hnode
    by_cases heq : id = node.id
    · subst heq
      rw [hstatus, Option.map_some, if_pos rfl]
      rw [hstatus] at hid
      rcases hmoved with ⟨hmarked, hs⟩ | ⟨hnone, hs⟩
      · rw [hs]
        exact iff_of_true rfl ⟨node, hmarked, rfl⟩
      · rw [hnone]
        refine iff_of_false ?_ fun h => nomatch h
        intro h
        rcases hs with hs | ⟨-, hs⟩
        · exact hid (hs ▸ h)
        · rw [hs] at h
          cases h
    · simp only [if_neg heq, Option.map_id']
      refine iff_of_false hid ?_
      intro h
      obtain ⟨n, hn, rfl⟩ := h
      obtain rfl := Option.some.inj ((of_marked hn).1.symm.trans hnode)
      exact heq rfl

theorem shredded_step {w : World} (hids : (w.hub.nodes.map Node.id).Nodup) (a : Act)
    {id : Uuid} (hid : statusOf w.hub id = some .shredded) :
    statusOf (step R keyId scan w a).hub id = some .shredded := by
  rcases nodes_step R keyId scan w a with
    ⟨hsame, -⟩ | ⟨node, node', hnode, hsameid, hput, hmoved⟩
  · rw [statusOf_congr hsame, hid]
  · rw [statusOf_congr hput, statusOf_putNode, hsameid, hid, Option.map_some]
    by_cases heq : id = node.id
    · subst heq
      rw [if_pos rfl]
      have hs : node.status = .shredded :=
        Option.some.inj ((statusOf_of_node? hids hnode).symm.trans hid)
      rcases hmoved with ⟨-, hs'⟩ | ⟨-, hs' | ⟨hne, -⟩⟩
      · rw [hs']
      · rw [hs', hs]
      · exact absurd hs hne
    · rw [if_neg heq]

theorem untouched_step {w : World} {a : Act} {node : Node} (hnode : a.node? w.hub = some node)
    (hs : node.status = .shredded) :
    (step R keyId scan w a).hub.cases = w.hub.cases ∧
      (step R keyId scan w a).hub.events = w.hub.events := by
  cases a with
  | signs | hubWork => cases hnode
  | dispatch tenant now id args slug =>
    have hnode' : nodeOf w.hub tenant slug = some node := hnode
    cases hd : dispatchNode R scan tenant now id args slug w.hub with
    | none => simp only [step, hd, and_self]
    | some d =>
      obtain ⟨-, n, hn, hactive⟩ := nodes_dispatchNode hd
      obtain rfl := Option.some.inj (hn.symm.trans hnode')
      rw [hs] at hactive
      cases hactive
  | orderShred tenant now slug reason =>
    have hnode' : nodeOf w.hub tenant slug = some node := hnode
    simp only [step, hnode', orderShred, if_pos hs, and_self]
  | contact tenant now slug stamp signature =>
    have hnode' : nodeOf w.hub tenant slug = some node := hnode
    cases hp : contactProblem R keyId now node stamp signature with
    | some message => simp only [step, hnode', contact, hp, and_self]
    | none =>
      simp only [step, hnode', contact, hp]
      exact ⟨rfl, rfl⟩
  | sync tenant now slug dispatchId events signature =>
    have hnode' : nodeOf w.hub tenant slug = some node := hnode
    cases hrow : rowOf w.hub node dispatchId with
    | none => simp only [step, hnode', hrow, and_self]
    | some row =>
      simp only [step, hnode', hrow, sync, if_pos hs]
      exact ⟨rfl, rfl⟩

/-! ## the device's own word -/

theorem verifies_of_executes {hub : Hub} {a : Act} {node : Node} {message signature : String}
    (h : executes R keyId hub node a = true)
    (hword : signedWord R keyId hub node a = some (message, signature)) :
    R.verifies node.publicKey message signature = true := by
  cases a with
  | dispatch | orderShred | signs | hubWork => cases h
  | contact tenant now slug stamp signature' =>
    obtain ⟨t, rfl, hmap⟩ := Option.bind_eq_some_iff.mp hword
    obtain ⟨s, rfl, hpair⟩ := Option.map_eq_some_iff.mp hmap
    cases hpair
    have hnone : contactProblem R keyId now node (some t) (some signature) = none := by
      simpa [executes] using h
    unfold contactProblem at hnone
    rw [Option.isSome_some, Bool.true_or, if_pos rfl] at hnone
    simp only [Option.getD_some] at hnone
    split at hnone
    · cases hnone
    · split at hnone
      · cases hnone
      · split at hnone
        next hverified => exact hverified
        next => cases hnone
  | sync tenant now slug dispatchId events signature' =>
    obtain ⟨row, hrow, hbind⟩ := Option.bind_eq_some_iff.mp hword
    obtain ⟨v, hv, hmap⟩ := Option.bind_eq_some_iff.mp hbind
    obtain ⟨s, rfl, hpair⟩ := Option.map_eq_some_iff.mp hmap
    cases hpair
    rw [executes, hrow, Option.any_some, accepted, hv, Option.any_some] at h
    have hnone : signatureProblem R node v.head (some signature) = none := by
      simp only [Bool.and_eq_true, Option.isNone_iff_eq_none] at h
      exact h.2.1.2
    unfold signatureProblem at hnone
    simp only at hnone
    split at hnone
    next hverified => exact hverified
    next => cases hnone

theorem ownWord_iff {w : World} (hids : (w.hub.nodes.map Node.id).Nodup) (a : Act) :
    OwnWord R keyId scan w a ∧ Stays R keyId scan w a ↔ Fresh R keyId w a := by
  constructor
  · intro h node hmarked
    obtain ⟨hnode, hordered, hexec⟩ := of_marked hmarked
    have hstatus := statusOf_of_node? hids hnode
    have hne : statusOf w.hub node.id ≠ some .shredded := by
      rw [hstatus, hordered]
      exact nofun
    obtain ⟨n, message, signature, hn, -, hword, -, hsince⟩ := h.1 node.id hne
      ((shredded_step_iff hids a hne).mpr ⟨node, hmarked, rfl⟩)
    obtain rfl := Option.some.inj (hn.symm.trans hnode)
    exact ⟨_, hword, hsince⟩
  · intro h
    constructor
    · intro id hne hs
      obtain ⟨node, hmarked, rfl⟩ := (shredded_step_iff hids a hne).mp hs
      obtain ⟨hnode, hordered, hexec⟩ := of_marked hmarked
      obtain ⟨p, hword, hsince⟩ := h node hmarked
      exact ⟨node, p.1, p.2, hnode, rfl, hword, verifies_of_executes hexec hword, hsince⟩
    · intro id hid
      refine ⟨shredded_step hids a hid, ?_⟩
      intro node hnode hnodeid
      subst hnodeid
      apply untouched_step hnode
      exact Option.some.inj ((statusOf_of_node? hids hnode).symm.trans hid)

/-- Whatever the hub's nodes are at the start, and whether it requires signatures or not: in a run
of requests by any callers every node that becomes shredded does so on its device's own word, and a
shredded node stays so and merges nothing, exactly if every contact and every sync that executes an
order carries a signature that the device has made since the order. -/
theorem own_word_along_iff (w : World) (hids : (w.hub.nodes.map Node.id).Nodup)
    (acts : List Act) :
    Along (step R keyId scan) (fun w a => OwnWord R keyId scan w a ∧ Stays R keyId scan w a) w
        acts ↔
      Along (step R keyId scan) (Fresh R keyId) w acts := by
  apply Along.iff_of_inv (I := fun w => (w.hub.nodes.map Node.id).Nodup)
  · intro w a hids _
    rw [ids_step]
    exact hids
  · intro w a hids
    exact ownWord_iff hids a
  · exact hids

/-! ## a lost tablet -/

def setup (signatureRequired : Bool) : Setup where
  toRuntime := { Runtime.silent with fromisoformat := fun _ => some 0 }
  verifies := fun publicKey message signature => signature = publicKey ++ ":" ++ message
  signatureRequired := signatureRequired

/-- a tablet of the tenant 1 that is away with the dispatch 5 -/
def away : World where
  hub :=
    { nodes := [{ id := 3, tenantId := 1, slug := "tablet", publicKey := "key", charter := [] }]
      dispatches :=
        [{ id := 5, nodeId := 3, tenantId := 1, caseIds := [], projection := [],
           policySnapshot := .dict [], policySnapshotHash := "", offlineDeny := [],
           subchainGenesis := "genesis", status := .issued, staleAfter := 0, createdBy := none }] }

def tabletKey : Uuid → String := fun _ => "k1"

def anyOrder : Scan Case := ⟨id, List.Perm.refl⟩

/-- the tablet hears of the order in a contact that it signs -/
def heard : List Act :=
  [.orderShred 1 0 "tablet" "stolen", .signs "key" "velaris-field-contact:tablet:k1:now",
    .contact 1 0 "tablet" (some "now") (some "key:velaris-field-contact:tablet:k1:now")]

theorem heard_by_own_word :
    Along (step (setup false) tabletKey anyOrder) (Fresh (setup false) tabletKey) away heard ∧
      Along (step (setup false) tabletKey anyOrder)
        (fun w a => OwnWord (setup false) tabletKey anyOrder w a ∧
          Stays (setup false) tabletKey anyOrder w a) away heard := by
  have hfresh : Along (step (setup false) tabletKey anyOrder) (Fresh (setup false) tabletKey) away
      heard := by
    decide +kernel
  exact ⟨hfresh, (own_word_along_iff away (by decide) heard).mpr hfresh⟩

/-- Somebody with a token syncs an empty stream, unsigned; or, where signatures are required, hands
in a stream that the tablet signed before the order. -/
theorem shredded_without_own_word :
    (¬ Along (step (setup false) tabletKey anyOrder)
        (fun w a => OwnWord (setup false) tabletKey anyOrder w a ∧
          Stays (setup false) tabletKey anyOrder w a) away
        [.orderShred 1 0 "tablet" "stolen", .sync 1 0 "tablet" 5 [] none]) ∧
      ¬ Along (step (setup true) tabletKey anyOrder)
        (fun w a => OwnWord (setup true) tabletKey anyOrder w a ∧
          Stays (setup true) tabletKey anyOrder w a) away
        [.signs "key" "genesis", .orderShred 1 0 "tablet" "stolen",
          .sync 1 0 "tablet" 5 [] (some "key:genesis")] := by
  constructor
  · intro h
    obtain ⟨node, message, signature, hnode, -, hword, -, -⟩ :=
      h.2.1.1 3 (by decide +kernel) (by decide +kernel)
    cases hnode
    cases hword
  · intro h
    obtain ⟨node, message, signature, -, -, -, -, hsince⟩ :=
      h.2.2.1.1 3 (by decide +kernel) (by decide +kernel)
    cases hsince

end Field.Shred
