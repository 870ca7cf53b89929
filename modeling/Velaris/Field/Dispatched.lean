import Velaris.Base.Traverse
import Velaris.Field.Service
import Velaris.Py.Doc

/-!
# Work accepted for what was sent

* `Accepted`   an event passes every check of `_merge_one`, about a case;
* `mergeOne_spec`   what one event does: no case changes but in its data, and the event is merged
    or queued exactly if it is accepted;
* `mergeAll_spec`   so every event is judged on the cases as they stood before the stream;
* `sync_within_dispatch_iff`   when a sync stays within its dispatch.
-/

namespace Field
open Py Base Handoff

variable {R : Setup}

/-! ## one event -/

/-- the event passes every check, about the case `c` of the table -/
structure Accepted (R : Setup) (node : Node) (staleAfter : Int) (cases : List Case)
    (event : Event) (c : Case) : Prop where
  kind : Subchain.textOf R.toRuntime event "kind" ∈ EVENT_KINDS
  named : ∃ id, namedCase R event = some (some id) ∧
    cases.find? (fun c => c.id = id) = some c
  inside : inCharter R node c = some true
  intime : late R staleAfter event = false
  target : Subchain.textOf R.toRuntime event "kind" = "variable_set" →
    Subchain.textOf R.toRuntime event "target" ≠ ""

namespace Accepted

variable {node : Node} {staleAfter : Int} {cases : List Case} {event : Event} {c : Case}

theorem namedCase_eq (h : Accepted R node staleAfter cases event c) :
    namedCase R event = some (some c.id) := by
  obtain ⟨id, hid, hfind⟩ := h.named
  have hkey := List.find?_some hfind
  rw [hid, show c.id = id from of_decide_eq_true hkey]

theorem eq_of_find (h : Accepted R node staleAfter cases event c) {id : Uuid} {c' : Case}
    (hnamed : namedCase R event = some (some id))
    (hfind : cases.find? (fun c => c.id = id) = some c') : c = c' := by
  obtain ⟨id', hid', hfind'⟩ := h.named
  obtain rfl : id = id' := Option.some.inj (Option.some.inj (hnamed.symm.trans hid'))
  exact Option.some.inj (hfind'.symm.trans hfind)

end Accepted

def bare (c : Case) : Case := { c with data := .none }

theorem inCharter_of_bare {node : Node} {c c' : Case} (h : bare c = bare c') :
    inCharter R node c = inCharter R node c' := by
  have hid : (bare c).id = (bare c').id := congrArg Case.id h
  have htype : (bare c).caseTypeId = (bare c').caseTypeId := congrArg Case.caseTypeId h
  unfold inCharter
  rw [show c.id = c'.id from hid, show c.caseTypeId = c'.caseTypeId from htype]

theorem find?_of_bare {cases cases' : List Case} (h : cases.map bare = cases'.map bare) {id : Uuid}
    {c : Case} (hc : cases.find? (fun c => c.id = id) = some c) :
    ∃ c', cases'.find? (fun c => c.id = id) = some c' ∧ bare c = bare c' := by
  have hmap : ∀ cs : List Case, (cs.map bare).find? (fun c => c.id = id) =
      (cs.find? fun c => c.id = id).map bare := fun cs => List.find?_map
  have hfind : (cases'.find? fun c => c.id = id).map bare = some (bare c) := by
    rw [← hmap, ← h, hmap, hc]
    rfl
  obtain ⟨c', hc', hbare⟩ := Option.map_eq_some_iff.mp hfind
  exact ⟨c', hc', hbare.symm⟩

theorem Accepted.of_bare {node : Node} {staleAfter : Int} {cases cases' : List Case}
    {event : Event} {c : Case} (h : cases.map bare = cases'.map bare)
    (hc : Accepted R node staleAfter cases event c) :
    ∃ c', Accepted R node staleAfter cases' event c' ∧ bare c = bare c' := by
  obtain ⟨id, hnamed, hfind⟩ := hc.named
  obtain ⟨c', hfind', hbare⟩ := find?_of_bare h hfind
  have hinside : inCharter R node c' = some true := by
    rw [← inCharter_of_bare hbare]
    exact hc.inside
  exact ⟨c', ⟨hc.kind, ⟨id, hnamed, hfind'⟩, hinside, hc.intime, hc.target⟩, hbare⟩

theorem mergeVariable_spec {cases : List Case} {c : Case} {event : Event} {m : Merge}
    (h : mergeVariable R cases c event = some m) :
    m.cases.map bare = cases.map bare ∧
      (m.state ≠ .rejected ↔ Subchain.textOf R.toRuntime event "target" ≠ "") := by
  unfold mergeVariable at h
  dsimp only at h
  split at h
  · rename_i htarget
    cases h
    exact ⟨rfl, by simp [htarget]⟩
  · rename_i htarget
    obtain ⟨v, -, h⟩ := Option.map_eq_some_iff.mp h
    have hstate : m.state ≠ .rejected ∧ m.cases.map bare = cases.map bare := by
      split at h
      · cases h
        exact ⟨by simp, rfl⟩
      · split at h
        · cases h
          refine ⟨by simp, ?_⟩
          rw [List.map_map]
          refine List.map_congr_left fun c' _ => ?_
          show bare (if c'.id = c.id then _ else c') = bare c'
          split <;> rfl
        · split at h
          · cases h
            exact ⟨by simp, rfl⟩
          · cases h
            exact ⟨by simp, rfl⟩
    exact ⟨hstate.2, iff_of_true hstate.1 htarget⟩

/-- **What `_merge_one` does with an event.** -/
theorem mergeOne_spec {node : Node} {staleAfter : Int} {cases : List Case} {event : Event}
    {m : Merge} (h : mergeOne R node staleAfter cases event = some m) :
    m.cases.map bare = cases.map bare ∧
      (m.state ≠ .rejected ↔ ∃ c, Accepted R node staleAfter cases event c) := by
  unfold mergeOne at h
  dsimp only at h
  split at h
  · rename_i hkind
    cases h
    exact ⟨rfl, iff_of_false (by simp) fun ⟨c, hc⟩ => hkind hc.kind⟩
  · rename_i hkind
    obtain ⟨caseId, hnamed, h⟩ := Option.bind_eq_some_iff.mp h
    split at h
    · rename_i hnone
      cases h
      refine ⟨rfl, iff_of_false (by simp) fun ⟨c, hc⟩ => ?_⟩
      obtain ⟨id, hid, hfind⟩ := hc.named
      obtain rfl : some id = caseId := Option.some.inj (hid.symm.trans hnamed)
      rw [Option.bind_some, hfind] at hnone
      cases hnone
    · rename_i c hfind
      obtain ⟨id, rfl, hfind⟩ := Option.bind_eq_some_iff.mp hfind
      obtain ⟨inside, hinside, h⟩ := Option.bind_eq_some_iff.mp h
      split at h
      · rename_i hout
        cases h
        refine ⟨rfl, iff_of_false (by simp) fun ⟨c', hc'⟩ => ?_⟩
        rw [hc'.eq_of_find hnamed hfind] at hc'
        have htrue : inside = true := Option.some.inj (hinside.symm.trans hc'.inside)
        rw [htrue] at hout
        cases hout
      · rename_i hin
        have hin' : inCharter R node c = some true := by
          rw [hinside]
          simpa using hin
        split at h
        · rename_i hlate
          cases h
          refine ⟨rfl, iff_of_false (by simp) fun ⟨c', hc'⟩ => ?_⟩
          rw [hc'.intime] at hlate
          cases hlate
        · rename_i hlate
          have haccept : (Subchain.textOf R.toRuntime event "kind" = "variable_set" →
              Subchain.textOf R.toRuntime event "target" ≠ "") →
              Accepted R node staleAfter cases event c := fun htarget =>
            ⟨not_not.mp hkind, ⟨id, hnamed, hfind⟩, hin', by simpa using hlate, htarget⟩
          split at h
          · rename_i hadditive
            cases h
            refine ⟨rfl, iff_of_true (by simp) ⟨c, haccept fun hset => ?_⟩⟩
            rw [hset] at hadditive
            exact absurd hadditive (by decide)
          · rename_i hadditive
            have hset : Subchain.textOf R.toRuntime event "kind" = "variable_set" := by
              have hmem := not_not.mp hkind
              simp only [EVENT_KINDS, List.mem_cons, List.not_mem_nil, or_false] at hmem
              tauto
            obtain ⟨hcases, hstate⟩ := mergeVariable_spec h
            refine ⟨hcases, hstate.trans ⟨fun htarget => ⟨c, haccept fun _ => htarget⟩, ?_⟩⟩
            intro hx
            obtain ⟨c', hc'⟩ := hx
            exact hc'.target hset

/-! ## the stream -/

theorem syncEvent_spec {node : Node} {row : Dispatch} {event : Event} {m : Merge} {k : SyncEvent}
    (h : syncEvent R node row event m = some k) :
    namedCase R event = some k.caseId ∧ k.nodeTime = parseTime R (event.get "node_time") ∧
      k.mergeState = m.state := by
  obtain ⟨caseId, hnamed, h⟩ := Option.bind_eq_some_iff.mp h
  obtain ⟨seq, -, rfl⟩ := Option.map_eq_some_iff.mp h
  exact ⟨hnamed, rfl, rfl⟩

/-- **Every event of a stream is judged as on the cases before it.** -/
theorem mergeAll_spec {node : Node} {row : Dispatch} {cases cases' : List Case}
    {events : List Event} {kept : List SyncEvent}
    (h : mergeAll R node row cases events = some (cases', kept)) :
    List.Forall₂ (fun event k => namedCase R event = some k.caseId ∧
      k.nodeTime = parseTime R (event.get "node_time") ∧
      (k.mergeState ≠ .rejected ↔ ∃ c, Accepted R node row.staleAfter cases event c))
      events kept := by
  induction events generalizing cases kept with
  | nil =>
    cases h
    exact .nil
  | cons event events ih =>
    rw [mergeAll] at h
    obtain ⟨m, hm, h⟩ := Option.bind_eq_some_iff.mp h
    obtain ⟨k, hk, h⟩ := Option.bind_eq_some_iff.mp h
    obtain ⟨⟨cases₁, rest⟩, hrest, h⟩ := Option.map_eq_some_iff.mp h
    obtain ⟨rfl, rfl⟩ := Prod.mk.inj h
    obtain ⟨hbare, hstate⟩ := mergeOne_spec hm
    obtain ⟨hnamed, htime, hkm⟩ := syncEvent_spec hk
    refine .cons ⟨hnamed, htime, by rw [hkm]; exact hstate⟩ ?_
    refine (ih hrest).imp fun e k' hek => ⟨hek.1, hek.2.1, hek.2.2.trans ⟨?_, ?_⟩⟩
    · intro hx
      obtain ⟨c, hc⟩ := hx
      obtain ⟨c', hc', -⟩ := hc.of_bare hbare
      exact ⟨c', hc'⟩
    · intro hx
      obtain ⟨c, hc⟩ := hx
      obtain ⟨c', hc', -⟩ := hc.of_bare hbare.symm
      exact ⟨c', hc'⟩

theorem sync_kept {now : Int} {hub : Hub} {node : Node} {row : Dispatch} {events : List Event}
    {signature : Option String} {kept : List SyncEvent}
    (h : (sync R now hub node row events signature).kept? = some kept) :
    ∃ cases', mergeAll R node row hub.cases events = some (cases', kept) := by
  unfold sync at h
  split at h
  · cases h
  · split at h
    · cases h
    · split at h
      · cases h
      · cases h
      · split at h
        · cases h
        · split at h
          · cases h
          · rename_i cases' kept' hmerge
            cases h
            exact ⟨cases', hmerge⟩

theorem merged_iff (k : SyncEvent) : (k.mergeState = .applied ∨ k.mergeState = .conflict) ↔
    k.mergeState ≠ .rejected := by
  cases k.mergeState <;> simp

/-! ## the two ends -/

theorem dispatch_caseIds {scan : Scan Case} {now : Int} {id : Uuid} {args : DispatchArgs}
    {hub : Hub} {node : Node} {row : Dispatch}
    (h : (dispatch R scan now id args hub node).map (·.row) = .ok row) :
    ∃ cases, charterCases R scan hub.cases node = some cases ∧
      row.caseIds = cases.map fun c => uuidText c.id := by
  unfold dispatch at h
  split at h
  · cases h
  · split at h
    · cases h
    · rename_i cases hcases
      cases h
      exact ⟨cases, hcases, rfl⟩

/-- every event that is merged or queued is about a case of the dispatch -/
def WithinDispatch (row : Dispatch) (kept : List SyncEvent) : Prop :=
  ∀ k ∈ kept, k.mergeState = .applied ∨ k.mergeState = .conflict →
    ∃ u, k.caseId = some u ∧ uuidText u ∈ row.caseIds

/-- the case was admitted by the charter when the node was dispatched -/
def WasSent (R : Setup) (scan : Scan Case) (hub : Hub) (node : Node) (c : Case) : Prop :=
  ∃ sent, charterCases R scan hub.cases node = some sent ∧
    uuidText c.id ∈ sent.map fun c => uuidText c.id

/-- **When a sync stays within its dispatch.**  Whatever became of the node and of the cases since,
every event merged or queued is about a case of the dispatch exactly if every event that the checks
of the sync accept is about a case that the charter admitted at the dispatch. -/
theorem sync_within_dispatch_iff (R : Setup) (scan : Scan Case) (now : Int) (id : Uuid)
    (args : DispatchArgs) (hub : Hub) (node : Node) (row : Dispatch)
    (hd : (dispatch R scan now id args hub node).map (·.row) = .ok row)
    (now' : Int) (hub' : Hub) (node' : Node) (events : List Event) (signature : Option String)
    (kept : List SyncEvent)
    (hs : (sync R now' hub' node' row events signature).kept? = some kept) :
    WithinDispatch row kept ↔
      ∀ event ∈ events, ∀ c, Accepted R node' row.staleAfter hub'.cases event c →
        WasSent R scan hub node c := by
  obtain ⟨sent, hsent, hids⟩ := dispatch_caseIds hd
  obtain ⟨cases', hmerge⟩ := sync_kept hs
  have hspec := mergeAll_spec hmerge
  constructor
  · intro hwithin event hevent c hc
    obtain ⟨k, hk, hnamed, -, hstate⟩ := mem_right_of_forall₂ hspec hevent
    obtain ⟨u, hu, hmem⟩ := hwithin k hk ((merged_iff k).mpr (hstate.mpr ⟨c, hc⟩))
    have hid : some c.id = k.caseId := Option.some.inj (hc.namedCase_eq.symm.trans hnamed)
    rw [hu] at hid
    refine ⟨sent, hsent, ?_⟩
    rw [Option.some.inj hid, ← hids]
    exact hmem
  · intro hall k hk hmergedk
    obtain ⟨event, hevent, hnamed, -, hstate⟩ := mem_right_of_forall₂ hspec.flip hk
    obtain ⟨c, hc⟩ := hstate.mp ((merged_iff k).mp hmergedk)
    obtain ⟨sent', hsent', hmem⟩ := hall event hevent c hc
    obtain rfl : sent = sent' := Option.some.inj (hsent.symm.trans hsent')
    refine ⟨c.id, Option.some.inj (hnamed.symm.trans hc.namedCase_eq), ?_⟩
    rw [hids]
    exact hmem

/-! ## a case created since the dispatch -/

mutual

/-- the JSON text of a value in which no character needs an escape -/
def jsonText : Value → String
  | .none => "null"
  | .bool b => if b then "true" else "false"
  | .int n => toString n
  | .float q => toString q.num ++ "/" ++ toString q.den
  | .str s => "\"" ++ s ++ "\""
  | .list xs => "[" ++ ",".intercalate (jsonTexts xs) ++ "]"
  | .dict items => "\x7b" ++ ",".intercalate (jsonItems items) ++ "\x7d"

def jsonTexts : List Value → List String
  | [] => []
  | x :: xs => jsonText x :: jsonTexts xs

def jsonItems : List (String × Value) → List String
  | [] => []
  | (k, x) :: xs => ("\"" ++ k ++ "\":" ++ jsonText x) :: jsonItems xs

end

def unsigned : Setup where
  repr := jsonText
  dumps := fun v => jsonText v.sortKeys
  sha256 := id
  fromisoformat := fun _ => none
  isoformat := fun t =>
    if t = 0 then "1970-01-01T00:00:00+00:00" else "1970-01-04T00:00:00+00:00"
  verifies := fun _ _ _ => false
  signatureRequired := false

def asGiven : Scan Case := ⟨id, fun _ => .refl _⟩

def ship : Node where
  id := 1
  tenantId := 1
  slug := "ship-a"
  publicKey := "AAAAAAAAAAAAAAAAAAAAAAAAAAAAAAAAAAAAAAAAAAA="
  charter := [("case_type_ids", .list [.str (uuidText 7)])]

def claimCase (id : Uuid) : Case where
  id := id
  tenantId := 1
  caseTypeId := 7

/-- a note about a case, chained from the genesis of the dispatch -/
def noteAbout (id : Uuid) (row : Dispatch) : List Event :=
  (Subchain.build unsigned.toRuntime [[("case_id", .str (uuidText id)), ("kind", .str "note"),
    ("payload", .dict [("text", .str "seen")])]] row.subchainGenesis).getD []

/-- the ship is dispatched, and comes back with a note when there are other cases -/
def voyage (cases cases' : List Case) (id : Uuid) : Option (Dispatch × List SyncEvent) :=
  ((dispatch unsigned asGiven 0 5 {} { cases := cases } ship).map (·.row)).toOption.bind fun row =>
    (sync unsigned 1 { cases := cases' } ship row (noteAbout id row) none).kept?.map (row, ·)

theorem ok_of_toOption {ε α : Type} {e : Except ε α} {a : α} (h : e.toOption = some a) :
    e = .ok a := by
  cases e with
  | error _ => cases h
  | ok b =>
    cases h
    rfl

theorem voyage_ends {cases cases' : List Case} {id : Uuid} {row : Dispatch}
    {kept : List SyncEvent} (h : voyage cases cases' id = some (row, kept)) :
    (dispatch unsigned asGiven 0 5 {} { cases := cases } ship).map (·.row) = .ok row ∧
      (sync unsigned 1 { cases := cases' } ship row (noteAbout id row) none).kept? = some kept := by
  obtain ⟨row', hrow, h⟩ := Option.bind_eq_some_iff.mp h
  obtain ⟨kept', hkept, h⟩ := Option.map_eq_some_iff.mp h
  obtain ⟨rfl, rfl⟩ := Prod.mk.inj h
  exact ⟨ok_of_toOption hrow, hkept⟩

/-- the charter admits a case that was created after the dispatch, and work on it is applied -/
theorem new_case_accepted :
    ¬ ∀ (R : Setup) (scan : Scan Case) (now : Int) (id : Uuid) (args : DispatchArgs) (hub : Hub)
        (node : Node) (row : Dispatch),
        (dispatch R scan now id args hub node).map (·.row) = .ok row →
        ∀ (now' : Int) (hub' : Hub) (events : List Event) (signature : Option String)
          (kept : List SyncEvent),
          (sync R now' hub' node row events signature).kept? = some kept →
          WithinDispatch row kept := by
  intro h
  have hwhat : (voyage [] [claimCase 9] 9).any (fun p =>
      p.1.caseIds = [] ∧ p.2.map (·.mergeState) = [.applied]) = true := by decide +kernel
  obtain ⟨⟨row, kept⟩, hvoyage, hp⟩ := (Option.any_eq_true _ _).mp hwhat
  obtain ⟨hids, hkept⟩ := of_decide_eq_true hp
  obtain ⟨hd, hs⟩ := voyage_ends hvoyage
  have hwithin := h _ _ _ _ _ _ _ row hd _ _ _ _ _ hs
  cases kept with
  | nil => cases hkept
  | cons k rest =>
    have hk : k.mergeState = .applied := (List.cons.inj hkept).1
    obtain ⟨u, -, hu⟩ := hwithin k List.mem_cons_self (Or.inl hk)
    rw [hids] at hu
    cases hu

/-- work on the case that was sent stays within the dispatch, whatever was created since -/
theorem sent_case_within :
    ∃ row kept, voyage [claimCase 9] [claimCase 10, claimCase 9] 9 = some (row, kept) ∧
      kept.map (·.mergeState) = [.applied] ∧ WithinDispatch row kept := by
  have hwhat : (voyage [claimCase 9] [claimCase 10, claimCase 9] 9).any (fun p =>
      p.2.map (·.mergeState) = [.applied] ∧
        (noteAbout 9 p.1).map (namedCase unsigned) = [some (some 9)]) = true := by
    decide +kernel
  obtain ⟨⟨row, kept⟩, hvoyage, hp⟩ := (Option.any_eq_true _ _).mp hwhat
  obtain ⟨hkept, hnamed⟩ := of_decide_eq_true hp
  obtain ⟨hd, hs⟩ := voyage_ends hvoyage
  refine ⟨row, kept, hvoyage, hkept, ?_⟩
  refine (sync_within_dispatch_iff unsigned asGiven 0 5 {} { cases := [claimCase 9] } ship row hd 1
    { cases := [claimCase 10, claimCase 9] } ship (noteAbout 9 row) none kept hs).mpr ?_
  intro event hevent c hc
  have hnine : namedCase unsigned event = some (some 9) := by
    have hmem := List.mem_map_of_mem (f := namedCase unsigned) hevent
    rw [hnamed] at hmem
    exact List.mem_singleton.mp hmem
  have hid : c.id = 9 := Option.some.inj (Option.some.inj (hc.namedCase_eq.symm.trans hnine))
  refine ⟨[claimCase 9], by decide, ?_⟩
  rw [hid]
  decide

end Field
