import Velaris.Base.Run
import Velaris.Field.Device
import Velaris.Field.Dispatched

/-!
# A node and its hub over a network

The hub answers requests, and the node acts on what it receives.  Every bundle, request and reply
that was ever sent can be delivered at any later moment, any number of times or never.

* `dispatchNode`, `syncNode`, `contactNode`   what the hub does with a request;
* `World`, `Act`, `step`   the two parties, the messages between them, and what can happen;
* `Safe`   every event the node has deleted was recorded by the hub exactly once, and none
    was recorded twice;
* `AnswersHeld`   a reply the node acts on answers a stream with every event it then holds;
* `safe_run`   where every step is of this kind, every run is safe.

Each event that is recorded on the node gets a number, which only the model knows: a stream carries
the numbers of its events beside them.
-/

namespace Field
open Py Base Handoff

/-! ## the hub's requests -/

section
variable (R : Setup)

/-- `_node`: the node of the tenant with this slug -/
def nodeOf (hub : Hub) (tenant : Uuid) (slug : String) : Option Node :=
  hub.nodes.find? fun n => n.tenantId = tenant ∧ n.slug = slug

/-- the hub's own work in between: it may change the cases, the findings and the namespaces -/
structure HubWork where
  cases : List Case
  findings : Option (List PiiFinding)
  namespaces : Option (List NamespaceRow)

def Hub.doWork (hub : Hub) (work : HubWork) : Hub :=
  { hub with cases := work.cases, findings := work.findings, namespaces := work.namespaces }

/-- `POST /nodes/{slug}/dispatch`; the id is a new one, as the key of the table demands -/
def dispatchNode (scan : Scan Case) (tenant : Uuid) (now : Int) (id : Uuid) (args : DispatchArgs)
    (slug : String) (hub : Hub) : Option Dispatched :=
  if id ∈ hub.dispatches.map Dispatch.id then none
  else (nodeOf hub tenant slug).bind fun node => (dispatch R scan now id args hub node).toOption

/-- `POST /nodes/{slug}/sync` -/
def syncNode (tenant : Uuid) (now : Int) (slug : String) (body : FieldNode.SyncBody) (hub : Hub) :
    SyncOutcome :=
  match nodeOf hub tenant slug with
  | none => .uncaught
  | some node =>
    match (uuid body.dispatchId).bind fun id => hub.dispatches.find? fun d => d.id = id with
    | none => .uncaught
    | some row =>
      if row.nodeId ≠ node.id then .uncaught
      else sync R now hub node row body.events (some body.signature)

structure ContactReport where
  hub : Hub
  wipe : Bool

/-- `POST /nodes/{slug}/contact`, for a contact whose signature, where there is one, is accepted -/
def contactNode (tenant : Uuid) (now : Int) (slug : String) (signed : Bool) (hub : Hub) :
    Option ContactReport :=
  (nodeOf hub tenant slug).map fun node =>
    let ordered := node.status = .shredOrdered
    { hub := hub.putNode
        { node with
          lastContactAt := some now
          status := if ordered ∧ signed then .shredded else node.status
          shreddedAt := if ordered ∧ signed then some now else node.shreddedAt }
      wipe := node.status = .shredOrdered ∨ node.status = .shredded }

/-! ## the two parties -/

/-- a sync on its way to the hub, with the numbers of its events -/
structure Request where
  slug : String
  body : FieldNode.SyncBody
  numbers : List Nat

/-- an accepted sync on its way to the node, with the numbers of the events it answers -/
structure Reply where
  report : SyncReport
  numbers : List Nat

structure World where
  hub : Hub
  node : FieldNode
  bundles : List Bundle := []
  requests : List Request := []
  replies : List Reply := []
  /-- the numbers of the events on the node -/
  held : List Nat := []
  /-- the dispatch that the node held when each event was recorded, by number -/
  owners : List (Option String) := []
  /-- the rows the hub has kept, with the numbers of their events -/
  recorded : List (Nat × SyncEvent) := []
  deleted : List Nat := []

inductive Act where
  | dispatch (now : Int) (id : Uuid) (args : DispatchArgs)
  | loadBundle (clock : Int) (i : Nat)
  | record (clock : Int) (work : FieldNode.Work)
  | syncBody (clock : Int)
  /-- a request reaches the hub -/
  | sync (now : Int) (i : Nat)
  /-- a reply reaches the node -/
  | synced (i : Nat)
  | contact (now : Int) (signed : Bool)
  | hubWork (work : HubWork)

def World.drop (w : World) (node : FieldNode) : World :=
  { w with node := node, held := [], deleted := w.deleted ++ w.held }

variable (scan : Scan Case) (tenant : Uuid) (sign : String → String)

def step (w : World) : Act → World
  | .dispatch now id args =>
    match dispatchNode R scan tenant now id args w.node.slug w.hub with
    | some d => { w with hub := d.hub, bundles := w.bundles ++ [d.bundle] }
    | none => w
  | .loadBundle clock i =>
    match w.bundles[i]? with
    | some bundle => { w with node := (w.node.loadBundle R clock bundle).1 }
    | none => w
  | .record clock work =>
    match w.node.record R clock work with
    | (node, .ok _) =>
      { w with
        node := node
        held := w.held ++ [w.owners.length]
        owners := w.owners ++ [w.node.dispatchId] }
    | (node, .error _) => { w with node := node }
  | .syncBody clock =>
    match w.node.syncBody sign clock with
    | (node, .ok body) =>
      { w with node := node, requests := w.requests ++ [⟨w.node.slug, body, w.held⟩] }
    | (node, .error _) => { w with node := node }
  | .sync now i =>
    match w.requests[i]? with
    | none => w
    | some request =>
      match syncNode R tenant now request.slug request.body w.hub with
      | .done hub kept report =>
        { w with
          hub := hub
          recorded := w.recorded ++ request.numbers.zip kept
          replies := w.replies ++ [⟨report, request.numbers⟩] }
      | .refused hub _ => { w with hub := hub }
      | .uncaught => w
  | .synced i =>
    match w.replies[i]? with
    | none => w
    | some reply =>
      match w.node.synced reply.report with
      | (node, .ok _) =>
        let w := w.drop node
        if reply.report.shredOrdered then w.drop w.node.wipe else w
      | (_, .error _) => w
  | .contact now signed =>
    match contactNode tenant now w.node.slug signed w.hub with
    | none => w
    | some report =>
      let w := { w with hub := report.hub }
      if report.wipe then w.drop w.node.wipe else w
  | .hubWork work => { w with hub := w.hub.doWork work }

end

/-- a hub whose rows have keys of their own, and which has ordered no node shredded -/
structure CalmHub extends Hub where
  keyed : (dispatches.map Dispatch.id).Nodup
  calm : ∀ n ∈ nodes, n.status = .active ∨ n.status = .suspended

/-- `FieldNode.init` -/
def init (hub : CalmHub) (slug : String) (clock : Int) : World where
  hub := hub.toHub
  node := { slug := slug, clockHighWater := some clock }

/-! ## what is asked -/

def World.times (w : World) (k : Nat) : Nat := (w.recorded.map Prod.fst).count k

/-- every event the node has deleted was recorded exactly once, and none was recorded twice -/
def Safe (w : World) : Prop := (∀ k ∈ w.deleted, w.times k = 1) ∧ ∀ k, w.times k ≤ 1

/-- a reply that the node acts on answers a stream with every event the node then holds -/
def AnswersHeld (w : World) : Act → Prop
  | .synced i => ∀ reply ∈ w.replies[i]?, ∀ k ∈ w.held, k ∈ reply.numbers
  | _ => True

instance (w : World) : ∀ a, Decidable (AnswersHeld w a)
  | .synced i =>
    inferInstanceAs (Decidable (∀ reply ∈ w.replies[i]?, ∀ k ∈ w.held, k ∈ reply.numbers))
  | .dispatch .. | .loadBundle .. | .record .. | .syncBody _ | .sync .. | .contact .. | .hubWork _ =>
    isTrue trivial

/-! ## what the device does -/

variable {R : Setup}

namespace FieldNode

theorem now_spec {clock : Int} {n n' : FieldNode} (h : n.now clock = some n') :
    n'.dispatchId = n.dispatchId ∧ n'.events = n.events := by
  rw [now] at h
  split at h
  · split at h
    · cases h
    · split at h
      · cases h
        exact ⟨rfl, rfl⟩
      · cases h
        exact ⟨rfl, rfl⟩
  · cases h
    exact ⟨rfl, rfl⟩

theorem loadBundle_spec {clock : Int} {bundle : Bundle} {n : FieldNode} :
    (n.loadBundle R clock bundle).1.events = n.events ∧
      ((n.loadBundle R clock bundle).1.dispatchId = n.dispatchId ∨ n.events = []) := by
  rw [loadBundle]
  split
  · exact ⟨rfl, Or.inl rfl⟩
  next n' hn =>
    obtain ⟨hd, he⟩ := now_spec hn
    split
    · exact ⟨he, Or.inl hd⟩
    · split
      · exact ⟨he, Or.inl hd⟩
      next hempty =>
        have hnil : n'.events = [] := List.length_eq_zero_iff.mp (not_not.mp hempty)
        split
        · exact ⟨he, Or.inl hd⟩
        · split
          · exact ⟨he, Or.inl hd⟩
          · exact ⟨he, Or.inr (he.symm.trans hnil)⟩

theorem record_spec {clock : Int} {work : Work} {n n' : FieldNode} {result : Except Refusal Event}
    (h : n.record R clock work = (n', result)) : n'.dispatchId = n.dispatchId ∧
      ((∃ event, result = .ok event ∧ n'.events = n.events ++ [event]) ∨
        ∃ problem, result = .error problem ∧ n'.events = n.events) := by
  rw [record] at h
  split at h
  · cases h
    exact ⟨rfl, Or.inr ⟨_, rfl, rfl⟩⟩
  next m hm =>
    obtain ⟨hd, he⟩ := now_spec hm
    split at h
    · cases h
      exact ⟨hd, Or.inr ⟨_, rfl, he⟩⟩
    · split at h
      · cases h
        exact ⟨hd, Or.inr ⟨_, rfl, he⟩⟩
      · cases h
        exact ⟨hd, Or.inl ⟨_, rfl, by rw [← he]⟩⟩

theorem syncBody_spec {sign : String → String} {clock : Int} {n n' : FieldNode}
    {result : Except Refusal SyncBody} (h : n.syncBody sign clock = (n', result)) :
    n'.dispatchId = n.dispatchId ∧ n'.events = n.events ∧
      ∀ body, result = .ok body → n.dispatchId = some body.dispatchId ∧ body.events = n.events := by
  rw [syncBody] at h
  split at h
  · cases h
    exact ⟨rfl, rfl, fun _ h => nomatch h⟩
  next m hm =>
    obtain ⟨hd, he⟩ := now_spec hm
    split at h
    · cases h
      exact ⟨hd, he, fun _ h => nomatch h⟩
    next d hdispatch =>
      cases h
      refine ⟨hd, he, fun body hb => ?_⟩
      cases hb
      exact ⟨hd.symm.trans hdispatch, he⟩

end FieldNode

/-! ## what the hub does -/

def Hub.Synced (hub : Hub) (u : Uuid) : Prop :=
  ∃ row ∈ hub.dispatches, row.id = u ∧ row.status = .synced

def Hub.Calm (hub : Hub) : Prop := ∀ n ∈ hub.nodes, n.status = .active ∨ n.status = .suspended

structure Keeps (hub hub' : Hub) : Prop where
  keyed : (hub.dispatches.map Dispatch.id).Nodup → (hub'.dispatches.map Dispatch.id).Nodup
  synced : ∀ u, hub.Synced u → hub'.Synced u
  calm : hub.Calm → hub'.Calm

theorem Keeps.of_eq {hub hub' : Hub} (hd : hub'.dispatches = hub.dispatches)
    (hn : hub.Calm → hub'.Calm) : Keeps hub hub' :=
  ⟨fun h => by rw [hd]; exact h, fun u h => by rw [Hub.Synced, hd]; exact h, hn⟩

theorem Keeps.trans {hub hub' hub'' : Hub} (h : Keeps hub hub') (h' : Keeps hub' hub'') :
    Keeps hub hub'' :=
  ⟨fun hk => h'.keyed (h.keyed hk), fun u hu => h'.synced u (h.synced u hu),
    fun hc => h'.calm (h.calm hc)⟩

theorem calm_putNode {hub : Hub} {node : Node} (h : hub.Calm)
    (hs : node.status = .active ∨ node.status = .suspended) : (hub.putNode node).Calm := by
  intro n hn
  obtain ⟨n', hn', rfl⟩ := List.mem_map.mp hn
  split
  · exact hs
  · exact h n' hn'

theorem dispatchNode_spec {scan : Scan Case} {tenant : Uuid} {now : Int} {id : Uuid}
    {args : DispatchArgs} {slug : String} {hub : Hub} {d : Dispatched}
    (h : dispatchNode R scan tenant now id args slug hub = some d) :
    Keeps hub d.hub ∧ d.hub.events = hub.events := by
  rw [dispatchNode] at h
  split at h
  · cases h
  next hfresh =>
    obtain ⟨node, -, h⟩ := Option.bind_eq_some_iff.mp h
    have hok : dispatch R scan now id args hub node = .ok d := by
      cases hd : dispatch R scan now id args hub node with
      | error e =>
        rw [hd] at h
        cases h
      | ok d' =>
        rw [hd] at h
        cases h
        rfl
    rw [dispatch] at hok
    split at hok
    · cases hok
    · split at hok
      · cases hok
      · cases hok
        refine ⟨⟨fun hkeyed => ?_, fun u hu => ?_, fun hcalm => hcalm⟩, rfl⟩
        · have hids : (hub.dispatches.map fun d =>
              if d.nodeId = node.id ∧ d.status = .issued then { d with status := .superseded }
              else d).map Dispatch.id = hub.dispatches.map Dispatch.id := by
            rw [List.map_map]
            refine List.map_congr_left fun d _ => ?_
            show Dispatch.id (if _ then _ else d) = d.id
            split <;> rfl
          rw [List.map_append, hids]
          exact List.nodup_append.mpr ⟨hkeyed, List.nodup_singleton _, fun a ha b hb hab => by
            rw [List.mem_singleton.mp hb] at hab
            have hid : a = id := hab
            exact hfresh (hid ▸ ha)⟩
        · obtain ⟨row, hrow, hid, hstatus⟩ := hu
          refine ⟨row, List.mem_append_left _ (List.mem_map.mpr ⟨row, hrow, ?_⟩), hid, hstatus⟩
          rw [if_neg fun h => by rw [hstatus] at h; cases h.2]

theorem putDispatch_keeps {hub : Hub} {row : Dispatch} (hs : row.status = .synced) :
    Keeps hub (hub.putDispatch row) := by
  refine ⟨fun hkeyed => ?_, fun u hu => ?_, fun hcalm => hcalm⟩
  · have hids : (hub.putDispatch row).dispatches.map Dispatch.id =
        hub.dispatches.map Dispatch.id := by
      rw [Hub.putDispatch, List.map_map]
      refine List.map_congr_left fun d _ => ?_
      show Dispatch.id (if d.id = row.id then row else d) = d.id
      split
      next h => exact h.symm
      next => rfl
    rw [hids]
    exact hkeyed
  · obtain ⟨d, hd, hid, hstatus⟩ := hu
    by_cases h : d.id = row.id
    · exact ⟨row, List.mem_map.mpr ⟨d, hd, if_pos h⟩, h.symm.trans hid, hs⟩
    · exact ⟨d, List.mem_map.mpr ⟨d, hd, if_neg h⟩, hid, hstatus⟩

theorem finish_spec {now : Int} {hub : Hub} {node : Node} {row : Dispatch} {head : String}
    {cases : List Case} {kept : List SyncEvent} {hub' : Hub} {kept' : List SyncEvent}
    {report : SyncReport} (hnode : node.status = .active ∨ node.status = .suspended)
    (hrow : row ∈ hub.dispatches)
    (h : finish now hub node row head cases kept = .done hub' kept' report) :
    Keeps hub hub' ∧ hub'.events = hub.events ++ kept ∧ kept' = kept ∧ hub'.Synced row.id ∧
      report.shredOrdered = false := by
  have hshred : ¬ node.status = .shredOrdered := by
    rcases hnode with hs | hs <;> rw [hs] <;> decide
  cases h
  refine ⟨?_, rfl, rfl, ⟨_, List.mem_map.mpr ⟨row, hrow, if_pos rfl⟩, rfl, rfl⟩,
    decide_eq_false hshred⟩
  have hstatus : (if node.status = NodeStatus.shredOrdered then NodeStatus.shredded
      else node.status) = node.status := if_neg hshred
  have hput : Keeps hub (({ hub with cases := cases, events := hub.events ++ kept }).putNode
      { node with
        subchainHead := some head
        lastContactAt := some now
        status := if node.status = NodeStatus.shredOrdered then .shredded else node.status
        shreddedAt :=
          if node.status = NodeStatus.shredOrdered then some now else node.shreddedAt }) := by
    refine .of_eq rfl fun hcalm => calm_putNode hcalm ?_
    rw [hstatus]
    exact hnode
  exact hput.trans (putDispatch_keeps rfl)

theorem sync_spec {now : Int} {hub : Hub} {node : Node} {row : Dispatch} {events : List Event}
    {signature : Option String} (hnode : node.status = .active ∨ node.status = .suspended)
    (hrow : row ∈ hub.dispatches) :
    (∀ hub' message, sync R now hub node row events signature = .refused hub' message →
      Keeps hub hub' ∧ hub'.events = hub.events) ∧
    ∀ hub' kept report, sync R now hub node row events signature = .done hub' kept report →
      Keeps hub hub' ∧ hub'.events = hub.events ++ kept ∧ kept.length = events.length ∧
        row.status = .issued ∧ hub'.Synced row.id ∧ report.shredOrdered = false := by
  constructor
  · intro hub' message h
    have hself : Keeps hub hub := .of_eq rfl id
    rw [sync] at h
    split at h
    · cases h
      exact ⟨hself, rfl⟩
    · split at h
      · cases h
        exact ⟨hself, rfl⟩
      · split at h
        · cases h
        · cases h
          exact ⟨.of_eq rfl fun hc => calm_putNode hc hnode, rfl⟩
        · split at h
          · cases h
            exact ⟨hself, rfl⟩
          · split at h <;> cases h
  · intro hub' kept report h
    have hkept : (sync R now hub node row events signature).kept? = some kept := by
      rw [h]
      rfl
    obtain ⟨cases', hmerge⟩ := sync_kept hkept
    rw [sync] at h
    split at h
    · cases h
    · split at h
      · cases h
      next hissued =>
        split at h
        · cases h
        · cases h
        · split at h
          · cases h
          · rw [hmerge] at h
            obtain ⟨hkeeps, hevents, -, hsynced, hshred⟩ := finish_spec hnode hrow h
            exact ⟨hkeeps, hevents, (mergeAll_spec hmerge).length_eq.symm, not_not.mp hissued,
              hsynced, hshred⟩

theorem nodeOf_calm {hub : Hub} (hcalm : hub.Calm) {tenant : Uuid} {slug : String} {node : Node}
    (h : nodeOf hub tenant slug = some node) : node.status = .active ∨ node.status = .suspended :=
  hcalm node (List.mem_of_find?_eq_some h)

theorem syncNode_spec {tenant : Uuid} {now : Int} {slug : String} {body : FieldNode.SyncBody}
    {hub : Hub} (hcalm : hub.Calm) :
    (∀ hub' message, syncNode R tenant now slug body hub = .refused hub' message →
      Keeps hub hub' ∧ hub'.events = hub.events) ∧
    ∀ hub' kept report, syncNode R tenant now slug body hub = .done hub' kept report →
      Keeps hub hub' ∧ hub'.events = hub.events ++ kept ∧ kept.length = body.events.length ∧
        report.shredOrdered = false ∧
        ∃ u, uuid body.dispatchId = some u ∧
          (∃ row ∈ hub.dispatches, row.id = u ∧ row.status = .issued) ∧ hub'.Synced u := by
  rw [syncNode]
  split
  · exact ⟨(fun _ _ h => nomatch h), fun _ _ _ h => nomatch h⟩
  next node hnode =>
    have hstatus := nodeOf_calm hcalm hnode
    split
    · exact ⟨(fun _ _ h => nomatch h), fun _ _ _ h => nomatch h⟩
    next row hrow =>
      obtain ⟨u, hu, hfind⟩ := Option.bind_eq_some_iff.mp hrow
      have hmem := List.mem_of_find?_eq_some hfind
      have hkey := List.find?_some hfind
      have hid : row.id = u := of_decide_eq_true hkey
      split
      · exact ⟨(fun _ _ h => nomatch h), fun _ _ _ h => nomatch h⟩
      · obtain ⟨hrefused, hdone⟩ := sync_spec (R := R)
          hstatus hmem
        refine ⟨hrefused, fun hub' kept report h => ?_⟩
        obtain ⟨hkeeps, hevents, hlen, hissued, hsynced, hshred⟩ := hdone hub' kept report h
        exact ⟨hkeeps, hevents, hlen, hshred, u, hu, ⟨row, hmem, hid, hissued⟩, hid ▸ hsynced⟩

theorem contactNode_spec {tenant : Uuid} {now : Int} {slug : String} {signed : Bool} {hub : Hub}
    {report : ContactReport} (hcalm : hub.Calm)
    (h : contactNode tenant now slug signed hub = some report) :
    Keeps hub report.hub ∧ report.hub.events = hub.events ∧ report.wipe = false := by
  obtain ⟨node, hnode, rfl⟩ := Option.map_eq_some_iff.mp h
  have hstatus := nodeOf_calm hcalm hnode
  have hordered : ¬ node.status = .shredOrdered := by
    rcases hstatus with hs | hs <;> rw [hs] <;> decide
  have hshredded : ¬ node.status = .shredded := by
    rcases hstatus with hs | hs <;> rw [hs] <;> decide
  refine ⟨.of_eq rfl fun hc => calm_putNode hc ?_, rfl,
    decide_eq_false (not_or.mpr ⟨hordered, hshredded⟩)⟩
  show (if _ then _ else _) = _ ∨ _
  rw [if_neg fun h => hordered h.1]
  exact hstatus

/-! ## the invariant -/

/-- what holds in every state of a run from the hub `hub₀` -/
structure Inv (hub₀ : Hub) (w : World) : Prop where
  keyed : (w.hub.dispatches.map Dispatch.id).Nodup
  calm : w.hub.Calm
  /-- the numbers of the held events, one for each -/
  length : w.held.length = w.node.events.length
  nodup : w.held.Nodup
  /-- the events on the node were recorded under the dispatch it holds -/
  owned : ∀ k ∈ w.held, w.owners[k]? = some w.node.dispatchId
  /-- a stream has events of its dispatch only -/
  requests : ∀ r ∈ w.requests, r.numbers.length = r.body.events.length ∧ r.numbers.Nodup ∧
    ∀ k ∈ r.numbers, w.owners[k]? = some (some r.body.dispatchId)
  /-- what was recorded belongs to a dispatch that is closed -/
  closed : ∀ k ∈ w.recorded.map Prod.fst, ∃ d u, w.owners[k]? = some (some d) ∧ uuid d = some u ∧
    w.hub.Synced u
  once : (w.recorded.map Prod.fst).Nodup
  rows : w.hub.events = hub₀.events ++ w.recorded.map Prod.snd
  replies : ∀ r ∈ w.replies, r.report.shredOrdered = false ∧
    ∀ k ∈ r.numbers, k ∈ w.recorded.map Prod.fst
  deleted : ∀ k ∈ w.deleted, k ∈ w.recorded.map Prod.fst

theorem Inv.safe {hub₀ : Hub} {w : World} (h : Inv hub₀ w) : Safe w :=
  ⟨fun k hk => List.count_eq_one_of_mem h.once (h.deleted k hk),
    fun k => List.nodup_iff_count_le_one.mp h.once k⟩

theorem inv_init (hub : CalmHub) (slug : String) (clock : Int) :
    Inv hub.toHub (init hub slug clock) where
  keyed := hub.keyed
  calm := hub.calm
  length := rfl
  nodup := .nil
  owned := fun _ h => nomatch h
  requests := fun _ h => nomatch h
  closed := fun _ h => nomatch h
  once := .nil
  rows := (List.append_nil _).symm
  replies := fun _ h => nomatch h
  deleted := fun _ h => nomatch h

/-- a request that records nothing, of a hub that keeps what it must -/
theorem Inv.withHub {hub₀ : Hub} {w : World} (h : Inv hub₀ w) {hub : Hub}
    (hkeeps : Keeps w.hub hub) (hevents : hub.events = w.hub.events) :
    Inv hub₀ { w with hub := hub } where
  keyed := hkeeps.keyed h.keyed
  calm := hkeeps.calm h.calm
  length := h.length
  nodup := h.nodup
  owned := h.owned
  requests := h.requests
  closed := fun k hk => by
    obtain ⟨d, u, hd, hu, hsynced⟩ := h.closed k hk
    exact ⟨d, u, hd, hu, hkeeps.synced u hsynced⟩
  once := h.once
  rows := hevents.trans h.rows
  replies := h.replies
  deleted := h.deleted

theorem Inv.withNode {hub₀ : Hub} {w : World} (h : Inv hub₀ w) {node : FieldNode}
    (hevents : node.events = w.node.events)
    (hdispatch : node.dispatchId = w.node.dispatchId ∨ w.node.events = []) :
    Inv hub₀ { w with node := node } where
  keyed := h.keyed
  calm := h.calm
  length := h.length.trans (congrArg List.length hevents).symm
  nodup := h.nodup
  owned := fun k hk => by
    rcases hdispatch with hd | hnil
    · exact (h.owned k hk).trans (congrArg some hd.symm)
    · have hlen := h.length
      rw [hnil] at hlen
      rw [List.length_eq_zero_iff.mp hlen] at hk
      cases hk
  requests := h.requests
  closed := h.closed
  once := h.once
  rows := h.rows
  replies := h.replies
  deleted := h.deleted

theorem getElem?_append_of_some {α : Type} {xs ys : List α} {k : Nat} {a : α}
    (h : xs[k]? = some a) : (xs ++ ys)[k]? = some a := by
  rw [List.getElem?_append_left (List.getElem?_eq_some_iff.mp h).1]
  exact h

/-- an event recorded on the node gets a number that no event had -/
theorem Inv.record {hub₀ : Hub} {w : World} (h : Inv hub₀ w) {node : FieldNode} {event : Event}
    (hevents : node.events = w.node.events ++ [event])
    (hdispatch : node.dispatchId = w.node.dispatchId) :
    Inv hub₀
      { w with
        node := node
        held := w.held ++ [w.owners.length]
        owners := w.owners ++ [w.node.dispatchId] } where
  keyed := h.keyed
  calm := h.calm
  length := by
    show (w.held ++ [w.owners.length]).length = node.events.length
    rw [hevents, List.length_append, List.length_append, h.length]
    rfl
  nodup := by
    refine List.nodup_append.mpr ⟨h.nodup, List.nodup_singleton _, fun a ha b hb hab => ?_⟩
    rw [List.mem_singleton.mp hb] at hab
    have hlt := (List.getElem?_eq_some_iff.mp (h.owned a ha)).1
    omega
  owned := fun k hk => by
    show (w.owners ++ [w.node.dispatchId])[k]? = some node.dispatchId
    rw [hdispatch]
    rcases List.mem_append.mp hk with hk | hk
    · exact getElem?_append_of_some (h.owned k hk)
    · rw [List.mem_singleton.mp hk, List.getElem?_concat_length]
  requests := fun r hr =>
    ⟨(h.requests r hr).1, (h.requests r hr).2.1,
      fun k hk => getElem?_append_of_some ((h.requests r hr).2.2 k hk)⟩
  closed := fun k hk => by
    obtain ⟨d, u, hd, hrest⟩ := h.closed k hk
    exact ⟨d, u, getElem?_append_of_some hd, hrest⟩
  once := h.once
  rows := h.rows
  replies := h.replies
  deleted := h.deleted

/-- the events of an accepted stream were not recorded before, since their dispatch was open -/
theorem Inv.sync {hub₀ : Hub} {w : World} (h : Inv hub₀ w) {tenant : Uuid} {now : Int}
    {request : Request} (hr : request ∈ w.requests) {hub : Hub} {kept : List SyncEvent}
    {report : SyncReport}
    (hdone : syncNode R tenant now request.slug request.body w.hub = .done hub kept report) :
    Inv hub₀
      { w with
        hub := hub
        recorded := w.recorded ++ request.numbers.zip kept
        replies := w.replies ++ [⟨report, request.numbers⟩] } := by
  obtain ⟨hkeeps, hevents, hlen, hshred, u, hu, ⟨row, hrow, hid, hissued⟩, hsynced⟩ :=
    (syncNode_spec h.calm).2 hub kept report hdone
  obtain ⟨hnumbers, hnodup, howned⟩ := h.requests request hr
  have hfst : (request.numbers.zip kept).map Prod.fst = request.numbers :=
    List.map_fst_zip (by omega)
  have hsnd : (request.numbers.zip kept).map Prod.snd = kept := List.map_snd_zip (by omega)
  have hnew : ∀ k ∈ request.numbers, k ∉ w.recorded.map Prod.fst := by
    intro k hk hrec
    obtain ⟨d, u', hd, hu', row', hrow', hid', hstatus⟩ := h.closed k hrec
    have hdd : d = request.body.dispatchId :=
      Option.some.inj (Option.some.inj (hd.symm.trans (howned k hk)))
    rw [hdd, hu] at hu'
    have hsame : row' = row :=
      List.inj_on_of_nodup_map h.keyed hrow' hrow
        (hid'.trans ((Option.some.inj hu').symm.trans hid.symm))
    rw [hsame, hissued] at hstatus
    cases hstatus
  have hrecorded : (w.recorded ++ request.numbers.zip kept).map Prod.fst =
      w.recorded.map Prod.fst ++ request.numbers := by
    rw [List.map_append, hfst]
  refine
    { keyed := hkeeps.keyed h.keyed
      calm := hkeeps.calm h.calm
      length := h.length
      nodup := h.nodup
      owned := h.owned
      requests := h.requests
      closed := fun k hk => ?_
      once := ?_
      rows := ?_
      replies := fun r hr' => ?_
      deleted := fun k hk => ?_ }
  · rw [hrecorded] at hk
    rcases List.mem_append.mp hk with hk | hk
    · obtain ⟨d, u', hd, hu', hs⟩ := h.closed k hk
      exact ⟨d, u', hd, hu', hkeeps.synced u' hs⟩
    · exact ⟨request.body.dispatchId, u, howned k hk, hu, hsynced⟩
  · rw [hrecorded]
    exact List.nodup_append.mpr ⟨h.once, hnodup, fun a ha b hb hab => hnew b hb (hab ▸ ha)⟩
  · show hub.events = hub₀.events ++ (w.recorded ++ request.numbers.zip kept).map Prod.snd
    rw [hevents, h.rows, List.map_append, hsnd, List.append_assoc]
  · rw [hrecorded]
    rcases List.mem_append.mp hr' with hr' | hr'
    · exact ⟨(h.replies r hr').1, fun k hk =>
        List.mem_append_left _ ((h.replies r hr').2 k hk)⟩
    · rw [List.mem_singleton.mp hr']
      exact ⟨hshred, fun k hk => List.mem_append_right _ hk⟩
  · rw [hrecorded]
    exact List.mem_append_left _ (h.deleted k hk)

/-- a node that drops what it holds, where all of it was recorded -/
theorem Inv.drop {hub₀ : Hub} {w : World} (h : Inv hub₀ w) {node : FieldNode}
    (hevents : node.events = []) (hheld : ∀ k ∈ w.held, k ∈ w.recorded.map Prod.fst) :
    Inv hub₀ (w.drop node) where
  keyed := h.keyed
  calm := h.calm
  length := (congrArg List.length hevents).symm
  nodup := .nil
  owned := fun _ hk => nomatch hk
  requests := h.requests
  closed := h.closed
  once := h.once
  rows := h.rows
  replies := h.replies
  deleted := fun k hk => (List.mem_append.mp hk).elim (h.deleted k) (hheld k)

variable {scan : Scan Case} {tenant : Uuid} {sign : String → String}

theorem Inv.step {hub₀ : Hub} {w : World} (h : Inv hub₀ w) {a : Act} (ha : AnswersHeld w a) :
    Inv hub₀ (Field.step R scan tenant sign w a) := by
  cases a with
  | dispatch now id args =>
    rw [Field.step]
    split
    next d hd =>
      obtain ⟨hkeeps, hevents⟩ := dispatchNode_spec hd
      have hhub := h.withHub hkeeps hevents
      exact ⟨hhub.keyed, hhub.calm, hhub.length, hhub.nodup, hhub.owned, hhub.requests,
        hhub.closed, hhub.once, hhub.rows, hhub.replies, hhub.deleted⟩
    next => exact h
  | loadBundle clock i =>
    rw [Field.step]
    split
    next bundle _ =>
      obtain ⟨hevents, hdispatch⟩ := FieldNode.loadBundle_spec (R := R)
        (n := w.node)
      exact h.withNode hevents hdispatch
    next => exact h
  | record clock work =>
    rw [Field.step]
    split
    next node event hrecord =>
      obtain ⟨hd, ⟨event', -, he⟩ | ⟨problem, hp, -⟩⟩ := FieldNode.record_spec hrecord
      · exact h.record he hd
      · cases hp
    next node problem hrecord =>
      obtain ⟨hd, ⟨event', he, -⟩ | ⟨problem', -, he⟩⟩ := FieldNode.record_spec hrecord
      · cases he
      · exact h.withNode he (Or.inl hd)
  | syncBody clock =>
    rw [Field.step]
    split
    next node body hbody =>
      obtain ⟨hd, he, hsent⟩ := FieldNode.syncBody_spec hbody
      obtain ⟨hdispatch, hevents⟩ := hsent body rfl
      have hnode := h.withNode he (Or.inl hd)
      refine ⟨hnode.keyed, hnode.calm, hnode.length, hnode.nodup, hnode.owned, ?_, hnode.closed,
        hnode.once, hnode.rows, hnode.replies, hnode.deleted⟩
      intro r hr
      rcases List.mem_append.mp hr with hr | hr
      · exact h.requests r hr
      · rw [List.mem_singleton.mp hr]
        refine ⟨h.length.trans (congrArg List.length hevents).symm, h.nodup, fun k hk => ?_⟩
        exact (h.owned k hk).trans (congrArg some hdispatch)
    next node problem hbody =>
      obtain ⟨hd, he, -⟩ := FieldNode.syncBody_spec hbody
      exact h.withNode he (Or.inl hd)
  | sync now i =>
    rw [Field.step]
    split
    · exact h
    next request hi =>
      have hr := List.mem_of_getElem? hi
      split
      next hub kept report hdone => exact h.sync hr hdone
      next hub message hrefused =>
        obtain ⟨hkeeps, hevents⟩ := (syncNode_spec h.calm).1 hub message hrefused
        exact h.withHub hkeeps hevents
      next => exact h
  | synced i =>
    rw [Field.step]
    split
    · exact h
    next reply hi =>
      obtain ⟨hshred, hnumbers⟩ := h.replies reply (List.mem_of_getElem? hi)
      split
      next node hsynced =>
        rw [FieldNode.synced] at hsynced
        split at hsynced
        · cases hsynced
        · cases hsynced
          rw [hshred, if_neg Bool.false_ne_true]
          exact h.drop rfl fun k hk => hnumbers k (ha reply hi k hk)
      next => exact h
  | contact now signed =>
    rw [Field.step]
    split
    · exact h
    next report hreport =>
      obtain ⟨hkeeps, hevents, hwipe⟩ := contactNode_spec h.calm hreport
      rw [hwipe, if_neg Bool.false_ne_true]
      exact h.withHub hkeeps hevents
  | hubWork work => exact h.withHub (.of_eq rfl id) rfl

/-- in every run where each reply that the node acts on answers a stream with all that the node
holds then, no work is lost and none is merged twice -/
theorem safe_run (R : Setup) (scan : Scan Case) (tenant : Uuid) (sign : String → String)
    (hub : CalmHub) (slug : String) (clock : Int) (acts : List Act)
    (h : Along (step R scan tenant sign) AnswersHeld (init hub slug clock) acts) :
    Safe (exec (step R scan tenant sign) (init hub slug clock) acts) :=
  (exec_inv (I := Inv hub.toHub) (fun _ _ hw ha => hw.step ha) (inv_init hub slug clock) h).safe

/-! ## a note made while the hub answers -/

/-- texts as their own hashes, and the two moments of the run -/
def desk : Setup where
  repr := jsonText
  dumps := fun v => jsonText v.sortKeys
  sha256 := id
  fromisoformat := fun text =>
    if text = "1970-01-01T00:00:00+00:00" then some 0
    else if text = "1970-01-04T00:00:00+00:00" then some (seconds 259200) else none
  isoformat := fun t =>
    if t = 0 then "1970-01-01T00:00:00+00:00" else "1970-01-04T00:00:00+00:00"
  verifies := fun _ message signature => signature = "signed " ++ message
  signatureRequired := true

def harbour : CalmHub where
  cases := [claimCase 9]
  nodes := [ship]
  dispatches := []
  keyed := List.nodup_nil
  calm := by decide

def noteOf (text : String) : FieldNode.Work where
  caseId := uuidText 9
  kind := "note"
  payload := [("text", .str text)]

/-- the ship is dispatched, makes a note and hands it back; more can happen before the reply -/
def returning (between : List Act) : List Act :=
  [.dispatch 0 5 {}, .loadBundle 0 0, .record 0 (noteOf "seen"), .syncBody 0, .sync 0 0] ++
    between ++ [.synced 0]

def atSea (acts : List Act) : World :=
  exec (step desk asGiven 1 fun message => "signed " ++ message) (init harbour "ship-a" 0) acts

/-- the note is deleted, and recorded once -/
theorem returning_safe : Safe (atSea (returning [])) ∧ (atSea (returning [])).deleted = [0] :=
  ⟨safe_run desk asGiven 1 (fun message => "signed " ++ message) harbour "ship-a" 0 (returning [])
    (by decide +kernel), by decide +kernel⟩

/-- a note made before the reply is deleted with the others, and the hub never sees it -/
theorem late_note_lost : ¬ Safe (atSea (returning [.record 0 (noteOf "seen again")])) := by
  intro h
  have hdeleted : 1 ∈ (atSea (returning [.record 0 (noteOf "seen again")])).deleted := by
    decide +kernel
  exact absurd (h.1 1 hdeleted) (by decide +kernel)

end Field
