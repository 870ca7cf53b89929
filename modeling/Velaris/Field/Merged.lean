import Velaris.Base.Table
import Velaris.Field.Chained
import Velaris.Field.Dispatched

/-!
# What a sync takes over

* `merged_intime_iff`   no work done after the lockout is merged, where the times can be read;
* `write`, `writes`   what the `variable_set`s of a stream do to the data of a case;
* `Settled`   the values recorded for one target never contradict what is there;
* `own_edits_iff`   when a node's own edits are all applied.
-/

namespace Field
open Py Base Handoff

variable {R : Setup}

/-! ## the lockout -/

/-- every event that is merged or queued has a time that can be read, and before the lockout -/
def MergedIntime (row : Dispatch) (kept : List SyncEvent) : Prop :=
  ∀ k ∈ kept, k.mergeState = .applied ∨ k.mergeState = .conflict →
    ∃ t, k.nodeTime = some t ∧ t ≤ row.staleAfter

theorem not_late_iff {staleAfter : Int} {event : Event} :
    late R staleAfter event = false ↔
      ∀ t, parseTime R (event.get "node_time") = some t → t ≤ staleAfter := by
  rw [late]
  cases parseTime R (event.get "node_time") <;> simp

/-- **No work done after the lockout is merged** exactly if every event that the checks of the sync
accept has a time that can be read: the check of the time passes over the others. -/
theorem merged_intime_iff (R : Setup) (now : Int) (hub : Hub) (node : Node) (row : Dispatch)
    (events : List Event) (signature : Option String) (kept : List SyncEvent)
    (hs : (sync R now hub node row events signature).kept? = some kept) :
    MergedIntime row kept ↔
      ∀ event ∈ events, ∀ c, Accepted R node row.staleAfter hub.cases event c →
        parseTime R (event.get "node_time") ≠ none := by
  obtain ⟨cases', hmerge⟩ := sync_kept hs
  have hspec := mergeAll_spec hmerge
  constructor
  · intro hintime event hevent c hc
    obtain ⟨k, hk, -, htime, hstate⟩ := mem_right_of_forall₂ hspec hevent
    obtain ⟨t, ht, -⟩ := hintime k hk ((merged_iff k).mpr (hstate.mpr ⟨c, hc⟩))
    rw [← htime, ht]
    exact Option.some_ne_none t
  · intro hread k hk hmerged
    obtain ⟨event, hevent, -, htime, hstate⟩ := mem_right_of_forall₂ hspec.flip hk
    obtain ⟨c, hc⟩ := hstate.mp ((merged_iff k).mp hmerged)
    obtain ⟨t, ht⟩ := Option.ne_none_iff_exists'.mp (hread event hevent c hc)
    exact ⟨t, htime.trans ht, not_late_iff.mp hc.intime t ht⟩

/-- a note without a time, chained from the genesis of the dispatch, comes back -/
theorem undated_note_applied :
    ¬ ∀ (R : Setup) (scan : Scan Case) (now : Int) (id : Uuid) (args : DispatchArgs) (hub : Hub)
        (node : Node) (row : Dispatch),
        (dispatch R scan now id args hub node).map (·.row) = .ok row →
        ∀ (now' : Int) (hub' : Hub) (events : List Event) (signature : Option String)
          (kept : List SyncEvent),
          (sync R now' hub' node row events signature).kept? = some kept →
          MergedIntime row kept := by
  intro h
  have hwhat : (voyage [claimCase 9] [claimCase 9] 9).any (fun p =>
      p.2.map (·.nodeTime) = [none] ∧ p.2.map (·.mergeState) = [.applied]) = true := by
    decide +kernel
  obtain ⟨⟨row, kept⟩, hvoyage, hp⟩ := (Option.any_eq_true _ _).mp hwhat
  obtain ⟨htime, hstate⟩ := of_decide_eq_true hp
  obtain ⟨hd, hs⟩ := voyage_ends hvoyage
  have hintime := h _ _ _ _ _ _ _ row hd _ _ _ _ _ hs
  cases kept with
  | nil => cases hstate
  | cons k rest =>
    have hk : k.mergeState = .applied := (List.cons.inj hstate).1
    obtain ⟨t, ht, -⟩ := hintime k List.mem_cons_self (Or.inl hk)
    have hnone : k.nodeTime = none := (List.cons.inj htime).1
    rw [hnone] at ht
    cases ht

/-- a dispatch of the ship with a genesis that is easy to read -/
def shipRow : Dispatch where
  id := 5
  nodeId := 1
  tenantId := 1
  caseIds := [uuidText 9]
  projection := []
  policySnapshot := .none
  policySnapshotHash := ""
  offlineDeny := []
  subchainGenesis := "g"
  status := .issued
  staleAfter := 0
  createdBy := none

/-- a hub that can read the ship's clock -/
def clocked : Setup :=
  { unsigned with fromisoformat := fun text =>
      if text = "1970-01-01T00:00:00+00:00" then some 0 else none }

def datedNote : List Event :=
  (Subchain.build clocked.toRuntime [[("case_id", .str (uuidText 9)), ("kind", .str "note"),
    ("node_time", .str "1970-01-01T00:00:00Z")]] "g").getD []

theorem dated_note_intime :
    ∃ kept,
      (sync clocked 1 { cases := [claimCase 9] } ship shipRow datedNote none).kept? = some kept ∧
      kept.map (·.mergeState) = [.applied] ∧ MergedIntime shipRow kept := by
  have hwhat : (sync clocked 1 { cases := [claimCase 9] } ship shipRow datedNote none).kept?.any
      (fun kept => kept.map (·.mergeState) = [.applied]) = true := by decide +kernel
  obtain ⟨kept, hkept, hp⟩ := (Option.any_eq_true _ _).mp hwhat
  have hread : ∀ e ∈ datedNote, parseTime clocked (e.get "node_time") ≠ none := by decide +kernel
  refine ⟨kept, hkept, of_decide_eq_true hp, ?_⟩
  exact (merged_intime_iff clocked 1 { cases := [claimCase 9] } ship shipRow datedNote none kept
    hkept).mpr fun event hevent _ _ => hread event hevent

/-! ## the writes of a node -/

/-- the data `_merge_one` reads -/
def dataOf (c : Case) : Dict := c.data.dict?.getD []

/-- what a `variable_set` that is applied does to the data -/
def write (d : Dict) (target : String) (v : Value) : Option Dict :=
  if (d.get target).eq v then some d
  else if !d.has target then some (Dict.set target v d)
  else none

def writes : Dict → List (String × Value) → Option Dict
  | d, [] => some d
  | d, (target, v) :: ws => (write d target v).bind fun d => writes d ws

def recorded (ws : List (String × Value)) (target : String) : List Value :=
  (ws.filter (·.1 = target)).map (·.2)

/-- no value contradicts the one before: what is there, or else the first that is not null -/
def Settled : Option Value → List Value → Prop
  | some w, vs => ∀ v ∈ vs, w.eq v = true
  | none, vs => ∀ w rest, vs.dropWhile (· = .none) = w :: rest → ∀ v ∈ rest, w.eq v = true

/-- the value of a target, up to `==` -/
def Holds (d : Dict) (target : String) (v : Value) : Prop :=
  d.get target = v ∨ (d.get target).eq v = true

theorem none_eq_iff {v : Value} : Value.none.eq v = true ↔ v = .none := by
  cases v <;> simp [Value.eq, Value.num?]

theorem recorded_cons (target : String) (v : Value) (ws : List (String × Value)) (l : String) :
    recorded ((target, v) :: ws) l = if target = l then v :: recorded ws l else recorded ws l := by
  rw [recorded, List.filter_cons]
  by_cases h : target = l
  · simp [h, recorded]
  · simp [h, recorded]

theorem settled_of_eq {o : Option Value} {v : Value} {vs : List Value}
    (h : (o.getD .none).eq v = true) : Settled o (v :: vs) ↔ Settled o vs := by
  cases o with
  | some w => simp only [Settled, List.forall_mem_cons, show w.eq v = true from h, true_and]
  | none =>
    obtain rfl : v = .none := none_eq_iff.mp h
    simp [Settled]

theorem settled_new {v : Value} {vs : List Value} (h : v ≠ .none) :
    Settled none (v :: vs) ↔ Settled (some v) vs := by
  simp [Settled, h]

theorem write_isSome_or (d : Dict) (target : String) (v : Value) :
    ((d.get target).eq v = true ∧ write d target v = some d) ∨
    (d.lookup target = none ∧ v ≠ .none ∧ write d target v = some (Dict.set target v d)) ∨
    (∃ w, d.lookup target = some w ∧ w.eq v = false ∧ write d target v = none) := by
  by_cases heq : (d.get target).eq v = true
  · exact Or.inl ⟨heq, by rw [write, if_pos heq]⟩
  · right
    rw [write, if_neg heq]
    rw [Dict.get] at heq
    rw [Dict.has]
    cases hlookup : d.lookup target with
    | none =>
      rw [hlookup] at heq
      exact Or.inl ⟨rfl, fun hv => heq (none_eq_iff.mpr hv), rfl⟩
    | some w =>
      rw [hlookup] at heq
      exact Or.inr ⟨w, rfl, by simpa using heq, rfl⟩

/-- **The writes of a stream go through** exactly if those for each target do. -/
theorem writes_isSome_iff (d : Dict) (ws : List (String × Value)) :
    (writes d ws).isSome = true ↔ ∀ l, Settled (d.lookup l) (recorded ws l) := by
  induction ws generalizing d with
  | nil =>
    refine iff_of_true rfl fun l => ?_
    cases d.lookup l <;> simp [Settled, recorded]
  | cons p ws ih =>
    obtain ⟨target, v⟩ := p
    rw [writes]
    simp only [recorded_cons]
    rcases write_isSome_or d target v with ⟨heq, hwrite⟩ | ⟨hnew, hv, hwrite⟩ | ⟨w, hw, hne, hwrite⟩
    · rw [hwrite, Option.bind_some, ih]
      refine forall_congr' fun l => ?_
      by_cases hl : target = l
      · rw [if_pos hl, settled_of_eq (by rw [← hl]; exact heq)]
      · rw [if_neg hl]
    · rw [hwrite, Option.bind_some, ih]
      refine forall_congr' fun l => ?_
      rw [Dict.lookup_set]
      by_cases hl : target = l
      · rw [if_pos hl, if_pos hl.symm, ← hl, hnew, settled_new hv]
      · rw [if_neg hl, if_neg (Ne.symm hl)]
    · rw [hwrite, Option.bind_none]
      refine iff_of_false (by simp) fun h => ?_
      have hsettled := h target
      rw [if_pos rfl, hw] at hsettled
      rw [hsettled v List.mem_cons_self] at hne
      cases hne

theorem lookup_writes {d d' : Dict} {ws : List (String × Value)} (h : writes d ws = some d')
    {l : String} (hl : recorded ws l = []) : d'.lookup l = d.lookup l := by
  induction ws generalizing d with
  | nil =>
    cases h
    rfl
  | cons p ws ih =>
    obtain ⟨target, v⟩ := p
    obtain ⟨d₁, hwrite, h⟩ := Option.bind_eq_some_iff.mp h
    rw [recorded_cons] at hl
    by_cases htarget : target = l
    · rw [if_pos htarget] at hl
      cases hl
    · rw [if_neg htarget] at hl
      rw [ih h hl]
      rcases write_isSome_or d target v with ⟨-, h₁⟩ | ⟨-, -, h₁⟩ | ⟨w, -, -, h₁⟩
      · cases hwrite.symm.trans h₁
        rfl
      · cases hwrite.symm.trans h₁
        rw [Dict.lookup_set, if_neg (Ne.symm htarget)]
      · cases hwrite.symm.trans h₁

theorem holds_write {d d' : Dict} {target : String} {v : Value} (h : write d target v = some d') :
    Holds d' target v := by
  rcases write_isSome_or d target v with ⟨heq, h₁⟩ | ⟨-, -, h₁⟩ | ⟨w, -, -, h₁⟩
  · cases h.symm.trans h₁
    exact Or.inr heq
  · cases h.symm.trans h₁
    left
    rw [Dict.get, Dict.lookup_set, if_pos rfl]
    rfl
  · cases h.symm.trans h₁

theorem holds_last {d d' : Dict} {ws : List (String × Value)} (h : writes d ws = some d')
    {l : String} {v : Value} (hv : (recorded ws l).getLast? = some v) : Holds d' l v := by
  induction ws generalizing d with
  | nil => cases hv
  | cons p ws ih =>
    obtain ⟨target, u⟩ := p
    obtain ⟨d₁, hwrite, h⟩ := Option.bind_eq_some_iff.mp h
    rw [recorded_cons] at hv
    by_cases htarget : target = l
    · rw [if_pos htarget, List.getLast?_cons] at hv
      cases hrest : (recorded ws l).getLast? with
      | some x =>
        rw [hrest] at hv
        cases hv
        exact ih h hrest
      | none =>
        rw [hrest] at hv
        cases hv
        have hget : d'.get l = d₁.get l := by
          rw [Dict.get, Dict.get, lookup_writes h (List.getLast?_eq_none_iff.mp hrest)]
        rw [Holds, hget, ← htarget]
        exact holds_write hwrite
    · rw [if_neg htarget] at hv
      exact ih h hv

/-! ## a stream of them -/

/-- what a `variable_set` records: its target, and the value -/
def writeOf (R : Setup) (event : Event) : String × Value :=
  (Subchain.textOf R.toRuntime event "target", (payloadValue event).getD .none)

section
variable {node : Node} {row : Dispatch} {cases : List Case} {c : Case} {event : Event}

theorem mergeOne_variable {staleAfter : Int} (h : Accepted R node staleAfter cases event c)
    (hset : Subchain.textOf R.toRuntime event "kind" = "variable_set") :
    mergeOne R node staleAfter cases event = mergeVariable R cases c event := by
  obtain ⟨id, hnamed, hfind⟩ := h.named
  unfold mergeOne
  rw [if_neg (not_not.mpr h.kind), hnamed, Option.bind_some, Option.bind_some, hfind]
  dsimp only
  rw [h.inside, Option.bind_some, if_neg (by simp), h.intime, hset]
  simp

theorem id_of_find? {id : Uuid} (hfind : cases.find? (fun c' => c'.id = id) = some c) :
    c.id = id := by
  have hkey := List.find?_some hfind
  exact of_decide_eq_true hkey

theorem find?_put {id : Uuid} (d : Dict)
    (hfind : cases.find? (fun c' => c'.id = id) = some c) :
    (cases.map fun c' => if c'.id = c.id then { c' with data := .dict d } else c').find?
      (fun c' => c'.id = id) = some { c with data := .dict d } := by
  have hid : c.id = id := id_of_find? hfind
  have hkeep : ∀ c' : Case, ({ c' with data := .dict d } : Case).id = c'.id := fun _ => rfl
  have hfound := @find?_modify Case Uuid _ Case.id c.id _ cases hkeep id
  rw [hfind, Option.map_some, if_pos rfl] at hfound
  exact hfound

theorem mergeVariable_write {id : Uuid} {v : Value}
    (hfind : cases.find? (fun c' => c'.id = id) = some c)
    (htarget : Subchain.textOf R.toRuntime event "target" ≠ "")
    (hv : payloadValue event = some v) :
    ∃ m, mergeVariable R cases c event = some m ∧
      ((write (dataOf c) (writeOf R event).1 (writeOf R event).2 = none ∧ m.state = .conflict) ∨
        (m.state = .applied ∧ ∃ c', m.cases.find? (fun c' => c'.id = id) = some c' ∧
          write (dataOf c) (writeOf R event).1 (writeOf R event).2 = some (dataOf c'))) := by
  unfold mergeVariable
  rw [if_neg htarget, writeOf, hv]
  refine ⟨_, rfl, ?_⟩
  dsimp only [Option.getD_some]
  rw [write, dataOf]
  split
  · exact Or.inr ⟨rfl, c, hfind, rfl⟩
  · split
    · exact Or.inr ⟨rfl, _, find?_put _ hfind, rfl⟩
    · left
      split <;> exact ⟨rfl, rfl⟩

theorem payloadValue_of_mergeVariable {m : Merge} (h : mergeVariable R cases c event = some m)
    (htarget : Subchain.textOf R.toRuntime event "target" ≠ "") : payloadValue event ≠ none := by
  intro hnone
  unfold mergeVariable at h
  rw [if_neg htarget, hnone] at h
  cases h

/-- the events of a node about the case `id`, in a stream that has been verified -/
structure Own (R : Setup) (id : Uuid) (event : Event) : Prop where
  set : Subchain.textOf R.toRuntime event "kind" = "variable_set"
  named : namedCase R event = some (some id)
  seq : Subchain.seqOf event ≠ none

theorem syncEvent_of_own {id : Uuid} (h : Own R id event) (m : Merge) :
    ∃ k, syncEvent R node row event m = some k ∧ k.mergeState = m.state := by
  obtain ⟨seq, hseq⟩ := Option.ne_none_iff_exists'.mp h.seq
  exact ⟨_, by rw [syncEvent, h.named, hseq]; rfl, rfl⟩

theorem accepted_of_bare {id : Uuid} {staleAfter : Int} {cases₁ : List Case} {c₁ : Case}
    (hown : Own R id event) (hbare : cases₁.map bare = cases.map bare)
    (hfind : cases.find? (fun c' => c'.id = id) = some c)
    (h : Accepted R node staleAfter cases₁ event c₁) :
    Accepted R node staleAfter cases event c := by
  obtain ⟨c', hc', -⟩ := h.of_bare hbare
  rw [← hc'.eq_of_find hown.named hfind]
  exact hc'

def writesOf (R : Setup) (events : List Event) : List (String × Value) := events.map (writeOf R)

theorem writes_of_applied {id : Uuid} {events : List Event} (hown : ∀ e ∈ events, Own R id e)
    {cases' : List Case} {kept : List SyncEvent}
    (hfind : cases.find? (fun c' => c'.id = id) = some c)
    (h : mergeAll R node row cases events = some (cases', kept))
    (happlied : ∀ k ∈ kept, k.mergeState = .applied) :
    (∀ e ∈ events, Accepted R node row.staleAfter cases e c ∧ payloadValue e ≠ none) ∧
      ∃ c', cases'.find? (fun c' => c'.id = id) = some c' ∧
        writes (dataOf c) (writesOf R events) = some (dataOf c') := by
  induction events generalizing cases c kept with
  | nil =>
    cases h
    exact ⟨by simp, c, hfind, rfl⟩
  | cons e events ih =>
    obtain ⟨hself, htail⟩ := List.forall_mem_cons.mp hown
    rw [mergeAll] at h
    obtain ⟨m, hm, h⟩ := Option.bind_eq_some_iff.mp h
    obtain ⟨k, hk, h⟩ := Option.bind_eq_some_iff.mp h
    obtain ⟨⟨cases₁, rest⟩, hrest, h⟩ := Option.map_eq_some_iff.mp h
    obtain ⟨rfl, rfl⟩ := Prod.mk.inj h
    obtain ⟨happliedk, happlied⟩ := List.forall_mem_cons.mp happlied
    have hstate : m.state = .applied := (syncEvent_spec hk).2.2.symm.trans happliedk
    obtain ⟨hbare, haccepted⟩ := mergeOne_spec hm
    obtain ⟨c', hc⟩ := haccepted.mp (by rw [hstate]; simp)
    obtain rfl : c' = c := hc.eq_of_find hself.named hfind
    rw [mergeOne_variable hc hself.set] at hm
    have hpayload := payloadValue_of_mergeVariable hm (hc.target hself.set)
    obtain ⟨v, hv⟩ := Option.ne_none_iff_exists'.mp hpayload
    obtain ⟨m', hm', hwrite⟩ := mergeVariable_write hfind (hc.target hself.set) hv
    obtain rfl : m' = m := Option.some.inj (hm'.symm.trans hm)
    rcases hwrite with ⟨-, hconflict⟩ | ⟨-, c₁, hfind₁, hwrite⟩
    · cases hstate.symm.trans hconflict
    · obtain ⟨hrestok, c₂, hfind₂, hwrites⟩ := ih htail hfind₁ hrest happlied
      refine ⟨List.forall_mem_cons.mpr ⟨⟨hc, hpayload⟩, fun e' he' => ?_⟩, c₂, hfind₂, ?_⟩
      · exact ⟨accepted_of_bare (htail e' he') hbare hfind (hrestok e' he').1, (hrestok e' he').2⟩
      · rw [writesOf, List.map_cons, writes, hwrite, Option.bind_some]
        exact hwrites

theorem applied_of_writes {id : Uuid} {events : List Event} (hown : ∀ e ∈ events, Own R id e)
    (hfind : cases.find? (fun c' => c'.id = id) = some c)
    (haccepted : ∀ e ∈ events, Accepted R node row.staleAfter cases e c ∧ payloadValue e ≠ none)
    {d : Dict} (h : writes (dataOf c) (writesOf R events) = some d) :
    ∃ cases' kept, mergeAll R node row cases events = some (cases', kept) ∧
      ∀ k ∈ kept, k.mergeState = .applied := by
  induction events generalizing cases c with
  | nil => exact ⟨cases, [], rfl, by simp⟩
  | cons e events ih =>
    obtain ⟨hself, htail⟩ := List.forall_mem_cons.mp hown
    obtain ⟨⟨hc, hpayload⟩, hrestok⟩ := List.forall_mem_cons.mp haccepted
    rw [writesOf, List.map_cons, writes] at h
    obtain ⟨d₁, hwrite, h⟩ := Option.bind_eq_some_iff.mp h
    obtain ⟨v, hv⟩ := Option.ne_none_iff_exists'.mp hpayload
    obtain ⟨m, hm, hcase⟩ := mergeVariable_write hfind (hc.target hself.set) hv
    rw [← mergeOne_variable hc hself.set] at hm
    rw [hwrite] at hcase
    rcases hcase with ⟨hnone, -⟩ | ⟨hstate, c₁, hfind₁, hdata⟩
    · cases hnone
    · rw [Option.some.inj hdata] at h
      have hbare := (mergeOne_spec hm).1
      obtain ⟨cases', kept, hmerge, happlied⟩ := ih htail hfind₁ (fun e' he' => by
        obtain ⟨c', hc', -⟩ := (hrestok e' he').1.of_bare hbare.symm
        rw [hc'.eq_of_find (htail e' he').named hfind₁] at hc'
        exact ⟨hc', (hrestok e' he').2⟩) h
      obtain ⟨k, hk, hkstate⟩ := @syncEvent_of_own R node row e id hself m
      refine ⟨cases', k :: kept, ?_, List.forall_mem_cons.mpr ⟨hkstate.trans hstate, happlied⟩⟩
      rw [mergeAll, hm, Option.bind_some, hk, Option.bind_some, hmerge]
      rfl

end

/-! ## the sync -/

theorem seq_of_verifyFrom {seq : Nat} {prev head reason : String} {events : List Event}
    (h : Subchain.verifyFrom R.toRuntime seq prev events = some ⟨true, head, reason⟩) :
    ∀ e ∈ events, Subchain.seqOf e ≠ none := by
  induction events generalizing seq prev with
  | nil => simp
  | cons e events ih =>
    obtain ⟨document, hv, hrest⟩ := Subchain.verifyFrom_cons.mp h
    refine List.forall_mem_cons.mpr ⟨?_, ih hrest⟩
    rw [hv.placed]
    exact Option.some_ne_none _

structure Received (R : Setup) (node : Node) (row : Dispatch) (events : List Event)
    (signature : Option String) (head : String) : Prop where
  alive : node.status ≠ .shredded
  issued : row.status = .issued
  verified : ∃ reason, Subchain.verify R.toRuntime events row.subchainGenesis =
    some ⟨true, head, reason⟩
  signed : signatureProblem R node head signature = none

theorem sync_of_received {now : Int} {hub : Hub} {node : Node} {row : Dispatch}
    {events : List Event} {signature : Option String} {head : String}
    (h : Received R node row events signature head) {cases' : List Case} {kept : List SyncEvent}
    (hmerge : mergeAll R node row hub.cases events = some (cases', kept)) :
    sync R now hub node row events signature = finish now hub node row head cases' kept := by
  obtain ⟨reason, hverified⟩ := h.verified
  unfold sync
  rw [if_neg h.alive, if_neg (not_not.mpr h.issued), hverified]
  dsimp only
  rw [h.signed]
  dsimp only
  rw [hmerge]

theorem sync_done {now : Int} {hub hub' : Hub} {node : Node} {row : Dispatch}
    {events : List Event} {signature : Option String} {kept : List SyncEvent} {report : SyncReport}
    (h : sync R now hub node row events signature = .done hub' kept report) :
    mergeAll R node row hub.cases events = some (hub'.cases, kept) := by
  unfold sync at h
  split at h
  · cases h
  · split at h
    · cases h
    · split at h
      · cases h
      · cases h
      · split at h
        · cases h
        · split at h
          · cases h
          · rename_i cases' kept' hmerge
            cases h
            exact hmerge

/-- every event is applied, and each target holds the last value recorded for it -/
def Converges (R : Setup) (id : Uuid) (events : List Event) (outcome : SyncOutcome) : Prop :=
  ∃ hub' kept report, outcome = .done hub' kept report ∧ (∀ k ∈ kept, k.mergeState = .applied) ∧
    ∃ c', hub'.cases.find? (fun c => c.id = id) = some c' ∧
      ∀ target v, (recorded (writesOf R events) target).getLast? = some v →
        Holds (dataOf c') target v

/-- **When a node's own edits are all applied.**  A stream of `variable_set`s about one case
converges exactly if each passes the checks, and the values recorded for a target never contradict
what the case has there, or else the first of them that is not null. -/
theorem own_edits_iff (R : Setup) (now : Int) (hub : Hub) (node : Node) (row : Dispatch)
    (events : List Event) (signature : Option String) (head : String)
    (hreceived : Received R node row events signature head) (id : Uuid) (c : Case)
    (hfind : hub.cases.find? (fun c => c.id = id) = some c)
    (hset : ∀ e ∈ events, Subchain.textOf R.toRuntime e "kind" = "variable_set")
    (hnamed : ∀ e ∈ events, namedCase R e = some (some id)) :
    Converges R id events (sync R now hub node row events signature) ↔
      (∀ e ∈ events, Accepted R node row.staleAfter hub.cases e c ∧ payloadValue e ≠ none) ∧
        ∀ target, Settled ((dataOf c).lookup target) (recorded (writesOf R events) target) := by
  have hown : ∀ e ∈ events, Own R id e := by
    obtain ⟨reason, hverified⟩ := hreceived.verified
    exact fun e he => ⟨hset e he, hnamed e he, seq_of_verifyFrom hverified e he⟩
  rw [← writes_isSome_iff]
  constructor
  · rintro ⟨hub', kept, report, hdone, happlied, -⟩
    obtain ⟨haccepted, c', -, hwrites⟩ :=
      writes_of_applied hown hfind (sync_done hdone) happlied
    exact ⟨haccepted, Option.isSome_of_eq_some hwrites⟩
  · rintro ⟨haccepted, hsome⟩
    obtain ⟨d, hd⟩ := Option.isSome_iff_exists.mp hsome
    obtain ⟨cases', kept, hmerge, happlied⟩ := applied_of_writes hown hfind haccepted hd
    have hdone : sync R now hub node row events signature =
        finish now hub node row head cases' kept := sync_of_received hreceived hmerge
    obtain ⟨-, c', hfind', hwrites⟩ := writes_of_applied hown hfind hmerge happlied
    rw [finish] at hdone
    refine ⟨_, kept, _, hdone, happlied, c', hfind', fun target v hv => ?_⟩
    exact holds_last hwrites hv

/-- the ship sets the colour of a case, once for each value -/
def edits (genesis : String) (values : List String) : List Event :=
  (Subchain.build unsigned.toRuntime (values.map fun v =>
    [("case_id", .str (uuidText 9)), ("kind", .str "variable_set"), ("target", .str "colour"),
      ("payload", .dict [("value", .str v)])]) genesis).getD []

/-- the same colour twice is applied twice -/
theorem red_converges :
    Converges unsigned 9 (edits "g" ["red", "red"])
      (sync unsigned 1 { cases := [claimCase 9] } ship shipRow
        (edits "g" ["red", "red"]) none) := by
  have hreceived : Received unsigned ship shipRow (edits "g" ["red", "red"]) none
      (Subchain.headOf unsigned.toRuntime "g" (edits "g" ["red", "red"])) :=
    ⟨by decide, rfl, ⟨"", by decide +kernel⟩, rfl⟩
  have hkinds : ∀ e ∈ edits "g" ["red", "red"],
      Subchain.textOf unsigned.toRuntime e "kind" = "variable_set" ∧
      namedCase unsigned e = some (some 9) ∧
      Subchain.textOf unsigned.toRuntime e "target" = "colour" ∧
      e.get "node_time" = .none ∧ payloadValue e = some (.str "red") := by decide +kernel
  have hwrites : writesOf unsigned (edits "g" ["red", "red"]) =
      [("colour", .str "red"), ("colour", .str "red")] := by decide +kernel
  refine (own_edits_iff unsigned 1 { cases := [claimCase 9] } ship shipRow _ none _ hreceived 9
    (claimCase 9) rfl (fun e he => (hkinds e he).1) (fun e he => (hkinds e he).2.1)).mpr ⟨?_, ?_⟩
  · intro e he
    obtain ⟨hkind, hnamed, htarget, htime, hvalue⟩ := hkinds e he
    refine ⟨⟨by rw [hkind]; decide, ⟨9, hnamed, rfl⟩, by decide +kernel, ?_, ?_⟩, ?_⟩
    · rw [late, htime]
      rfl
    · intro _
      rw [htarget]
      decide
    · rw [hvalue]
      exact Option.some_ne_none _
  · intro target
    rw [hwrites, recorded_cons, recorded_cons]
    show Settled none _
    by_cases htarget : "colour" = target
    · rw [if_pos htarget, if_pos htarget]
      refine (settled_new (by decide)).mpr fun v hv => ?_
      obtain rfl : v = .str "red" := by simpa [recorded] using hv
      decide
    · rw [if_neg htarget, if_neg htarget]
      intro w rest h
      cases h

theorem second_edit_conflicts :
    ¬ ∀ (R : Setup) (scan : Scan Case) (now : Int) (id : Uuid) (args : DispatchArgs) (hub : Hub)
        (node : Node) (row : Dispatch),
        (dispatch R scan now id args hub node).map (·.row) = .ok row →
        ∀ (now' : Int) (hub' : Hub) (events : List Event) (signature : Option String)
          (head : String), Received R node row events signature head →
          ∀ (u : Uuid) (c : Case), hub.cases.find? (fun c => c.id = u) = some c →
            hub'.cases.find? (fun c => c.id = u) = some c →
            (∀ e ∈ events, Subchain.textOf R.toRuntime e "kind" = "variable_set") →
            (∀ e ∈ events, namedCase R e = some (some u)) →
            Converges R u events (sync R now' hub' node row events signature) := by
  intro h
  have hwhat : ((dispatch unsigned asGiven 0 5 {} { cases := [claimCase 9] } ship).map
      (·.row)).toOption.any (fun row =>
        let events := edits row.subchainGenesis ["red", "blue"]
        row.status = .issued ∧
        Subchain.verify unsigned.toRuntime events row.subchainGenesis =
          some ⟨true, Subchain.headOf unsigned.toRuntime row.subchainGenesis events, ""⟩ ∧
        (∀ e ∈ events, Subchain.textOf unsigned.toRuntime e "kind" = "variable_set") ∧
        (∀ e ∈ events, namedCase unsigned e = some (some 9)) ∧
        ((sync unsigned 1 { cases := [claimCase 9] } ship row events none).kept?.map
          (·.map (·.mergeState))) = some [.applied, .conflict]) = true := by
    decide +kernel
  obtain ⟨row, hrow, hp⟩ := (Option.any_eq_true _ _).mp hwhat
  obtain ⟨hissued, hverified, hkinds, hnamed, hstates⟩ := of_decide_eq_true hp
  obtain ⟨hub', kept, report, hdone, happlied, -⟩ := h unsigned asGiven 0 5 {} _ ship row
    (ok_of_toOption hrow) 1 { cases := [claimCase 9] } _ none _
    ⟨by decide, hissued, ⟨"", hverified⟩, rfl⟩ 9 (claimCase 9) rfl rfl hkinds hnamed
  rw [hdone] at hstates
  have hall : ∀ s ∈ kept.map (·.mergeState), s = .applied := by
    intro s hs
    obtain ⟨k, hk, rfl⟩ := List.mem_map.mp hs
    exact happlied k hk
  rw [show kept.map (·.mergeState) = [.applied, .conflict] from Option.some.inj hstates] at hall
  exact absurd (hall .conflict (by simp)) (by decide)

end Field
