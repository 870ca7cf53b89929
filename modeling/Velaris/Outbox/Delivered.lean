import Velaris.Base.Run
import Velaris.Base.Table
import Velaris.Outbox.Relay

/-!
# What the relay delivers

* `Kept`   what is to hold of the outbox at every moment;
* `Allowed`   the steps after which it still holds;
* `RowOk`, `Entry`, `Inv`   a row, what a worker knows of it, and the whole state;
* `Inv.write`   a write to the rows, with the phase of the worker that makes it;
* `inv_step`   one step;
* `kept_run`   a run.
-/

namespace Outbox

open Py Base

/-! ## the promise -/

/-- every subscription that matched has accepted it, or refused it for good -/
def Settled (r : Tracked) : Prop := ∃ attempt ∈ r.tried, ∀ x ∈ attempt, x.2.final = true

def RowKept (clock : Int) (r : Tracked) : Prop :=
  (r.deliveredAt.isSome = true → Settled r) ∧ (r.marked = true → r.deliveredAt.isSome = true) ∧
    (r.failed = true → r.attempts < MAX_ATTEMPTS → r.nextAttemptAt.all (· ≤ clock) = true →
      claimable clock r.toOutboxEvent = true) ∧ r.tried.length ≤ MAX_ATTEMPTS

/-- What is delivered was accepted by everyone and stays so; what failed can be claimed when it is
due; and nothing is tried too often. -/
def Kept (s : State) : Prop := ∀ r ∈ s.rows, RowKept s.clock r

instance (r : Tracked) : Decidable (Settled r) :=
  inferInstanceAs (Decidable (∃ attempt ∈ r.tried, ∀ x ∈ attempt, x.2.final = true))

instance (clock : Int) (r : Tracked) : Decidable (RowKept clock r) :=
  inferInstanceAs (Decidable ((_ → _) ∧ (_ → _) ∧ (_ → _ → _ → _) ∧ _))

instance (s : State) : Decidable (Kept s) :=
  inferInstanceAs (Decidable (∀ r ∈ s.rows, RowKept s.clock r))

/-! ## the steps that keep it -/

def MayClaim (s : State) (locked : List Uuid) : Phase → Prop
  | .begun now => ∀ r ∈ chosen now locked s.rows, r.heldBy = []
  | .idle | .busy _ _ _ => True

def MayDeliver (s : State) (answer : Subscription → Answer) : Phase → Prop
  | .busy _ (c :: _) _ =>
    ∀ a ∈ matching s.subs c.eventType c.caseTypeId, ∀ b ∈ matching s.subs c.eventType c.caseTypeId,
      (answer a).final = (answer b).final
  | .idle | .begun _ | .busy _ [] _ => True

/-- a failure that is not the last comes back when the claim has run out -/
def MayReport (s : State) : Phase → Prop
  | .busy now [] results => ∀ res ∈ results, res.deliveredAt = none → res.attempts < MAX_ATTEMPTS →
    now < s.clock - CLAIM_TTL
  | .idle | .begun _ | .busy _ (_ :: _) _ => True

def MayCrash : Phase → Prop
  | .busy _ _ results => results = []
  | .idle | .begun _ => True

def Allowed (s : State) : Act → Prop
  | .claim w locked => MayClaim s locked (s.phase w)
  | .deliver w answer => MayDeliver s answer (s.phase w)
  | .writeBack w => MayReport s (s.phase w)
  | .crash w => MayCrash (s.phase w)
  | .tick _ | .enqueue _ | .subscribe _ | .begin _ => True

instance (s : State) (locked : List Uuid) : ∀ phase, Decidable (MayClaim s locked phase)
  | .begun now => inferInstanceAs (Decidable (∀ r ∈ chosen now locked s.rows, r.heldBy = []))
  | .idle | .busy _ _ _ => isTrue trivial

instance (s : State) (answer : Subscription → Answer) :
    ∀ phase, Decidable (MayDeliver s answer phase)
  | .busy _ (c :: _) _ =>
    inferInstanceAs (Decidable (∀ a ∈ matching s.subs c.eventType c.caseTypeId,
      ∀ b ∈ matching s.subs c.eventType c.caseTypeId, (answer a).final = (answer b).final))
  | .idle | .begun _ | .busy _ [] _ => isTrue trivial

instance (s : State) : ∀ phase, Decidable (MayReport s phase)
  | .busy now [] results =>
    inferInstanceAs (Decidable (∀ res ∈ results, res.deliveredAt = none →
      res.attempts < MAX_ATTEMPTS → now < s.clock - CLAIM_TTL))
  | .idle | .begun _ | .busy _ (_ :: _) _ => isTrue trivial

instance : ∀ phase, Decidable (MayCrash phase)
  | .busy _ _ results => inferInstanceAs (Decidable (results = []))
  | .idle | .begun _ => isTrue trivial

instance (s : State) : ∀ a, Decidable (Allowed s a)
  | .claim w locked => inferInstanceAs (Decidable (MayClaim s locked (s.phase w)))
  | .deliver w answer => inferInstanceAs (Decidable (MayDeliver s answer (s.phase w)))
  | .writeBack w => inferInstanceAs (Decidable (MayReport s (s.phase w)))
  | .crash w => inferInstanceAs (Decidable (MayCrash (s.phase w)))
  | .tick _ | .enqueue _ | .subscribe _ | .begin _ => isTrue trivial

/-! ## one row -/

structure RowOk (clock : Int) (r : Tracked) : Prop where
  count : r.attempts ≤ MAX_ATTEMPTS
  rest : r.heldBy = [] → r.tried.length = r.attempts
  held : r.heldBy ≠ [] → r.attempts < MAX_ATTEMPTS ∧ r.deliveredAt = none ∧ r.failed = false ∧
    r.tried.length ≤ r.attempts + 1
  delivered : r.deliveredAt.isSome = true → Settled r
  marked : r.marked = true → r.deliveredAt.isSome = true
  failed : r.failed = true → r.deliveredAt = none ∧ (r.attempts < MAX_ATTEMPTS →
    ∃ claimed, r.claimedAt = some claimed ∧ claimed < clock - CLAIM_TTL)

theorem RowOk.later {clock clock' : Int} {r : Tracked} (h : RowOk clock r) (hle : clock ≤ clock') :
    RowOk clock' r := by
  refine ⟨h.count, h.rest, h.held, h.delivered, h.marked, fun hf => ⟨(h.failed hf).1, ?_⟩⟩
  intro hleft
  obtain ⟨c, hc, hlt⟩ := (h.failed hf).2 hleft
  exact ⟨c, hc, by omega⟩

theorem RowOk.kept {clock : Int} {r : Tracked} (h : RowOk clock r) : RowKept clock r := by
  refine ⟨h.delivered, h.marked, ?_, ?_⟩
  · intro hfailed hleft hdue
    obtain ⟨hnone, hclaimed⟩ := h.failed hfailed
    obtain ⟨c, hc, hlt⟩ := hclaimed hleft
    rw [claimable, hnone, hc, hdue]
    simpa using ⟨hleft, hlt⟩
  · by_cases hheld : r.heldBy = []
    · rw [h.rest hheld]
      exact h.count
    · have hh := h.held hheld
      omega

structure Outcome (r : Tracked) (res : RowResult) : Prop where
  row : res.rowId = r.key
  attempts : res.attempts = r.attempts + 1
  tried : r.tried.length = r.attempts + 1
  settled : res.deliveredAt.isSome = true → Settled r

structure Entry (now : Int) (todo : List Claimed) (results : List RowResult) (r : Tracked) :
    Prop where
  claimedAt : r.claimedAt = some now
  known : (∃ c ∈ todo, c.rowId = r.key ∧ c.attempts = r.attempts ∧ r.tried.length = r.attempts) ∨
    ∃ res ∈ results, Outcome r res

def batchIds (todo : List Claimed) (results : List RowResult) : List Uuid :=
  todo.map Claimed.rowId ++ results.map RowResult.rowId

theorem Entry.mem {now : Int} {todo : List Claimed} {results : List RowResult} {r : Tracked}
    (h : Entry now todo results r) : r.key ∈ batchIds todo results := by
  rcases h.known with ⟨c, hc, hid, -⟩ | ⟨res, hres, hout⟩
  · exact List.mem_append_left _ (List.mem_map.mpr ⟨c, hc, hid⟩)
  · exact List.mem_append_right _ (List.mem_map.mpr ⟨res, hres, hout.row⟩)

/-! ## the state -/

def PhaseOk (s : State) (w : Nat) : Phase → Prop
  | .busy _ todo results => (batchIds todo results).Nodup ∧
    ∀ id ∈ batchIds todo results, ∃ r ∈ s.rows, r.key = id ∧ w ∈ r.heldBy
  | .idle | .begun _ => True

/-- a held row is one worker's, who knows of it -/
def Owned (s : State) (r : Tracked) : Prop :=
  ∀ w ∈ r.heldBy, r.heldBy = [w] ∧
    ∃ now todo results, s.phase w = .busy now todo results ∧ Entry now todo results r

structure Inv (s : State) : Prop where
  ids : (s.rows.map Tracked.key).Nodup
  rows : ∀ r ∈ s.rows, RowOk s.clock r
  owned : ∀ r ∈ s.rows, Owned s r
  phases : ∀ w, PhaseOk s w (s.phase w)

variable {s : State}

theorem Inv.kept (h : Inv s) : Kept s := fun r hr => (h.rows r hr).kept

theorem Inv.eq_of_key (h : Inv s) {r r' : Tracked} (hr : r ∈ s.rows) (hr' : r' ∈ s.rows)
    (hkey : r.key = r'.key) : r = r' := List.inj_on_of_nodup_map h.ids hr hr' hkey

theorem Inv.not_held (h : Inv s) {w : Nat} (hphase : ∀ now todo results,
    s.phase w ≠ .busy now todo results) {r : Tracked} (hr : r ∈ s.rows) : w ∉ r.heldBy := by
  intro hw
  obtain ⟨-, now, todo, results, hbusy, -⟩ := h.owned r hr w hw
  exact hphase now todo results hbusy

/-- A worker writes to rows, and goes on. Rows of other workers are left alone. -/
theorem Inv.write (h : Inv s) {w : Nat} {phase : Phase} {f : Tracked → Tracked}
    (hkey : ∀ r, (f r).key = r.key) (hok : ∀ r ∈ s.rows, RowOk s.clock (f r))
    (hothers : ∀ r ∈ s.rows, ∀ w' ∈ r.heldBy, w' ≠ w → f r = r)
    (hmine : ∀ r ∈ s.rows, ∀ w' ∈ (f r).heldBy, w' ∈ r.heldBy ∧ w' ≠ w ∨
      (f r).heldBy = [w] ∧ ∃ now todo results, phase = .busy now todo results ∧
        Entry now todo results (f r))
    (hphase : PhaseOk (s.write f) w phase) : Inv ((s.write f).goto w phase) := by
  refine ⟨?_, ?_, ?_, ?_⟩
  · show ((s.rows.map f).map Tracked.key).Nodup
    rw [List.map_map]
    have hsame : Tracked.key ∘ f = Tracked.key := funext hkey
    rw [hsame]
    exact h.ids
  · intro r' hr'
    obtain ⟨r, hr, rfl⟩ := List.mem_map.mp hr'
    exact hok r hr
  · intro r' hr' w' hw'
    obtain ⟨r, hr, rfl⟩ := List.mem_map.mp hr'
    rcases hmine r hr w' hw' with ⟨hheld, hne⟩ | ⟨hsole, now, todo, results, rfl, hentry⟩
    · rw [hothers r hr w' hheld hne]
      obtain ⟨hsole, now, todo, results, hbusy, hentry⟩ := h.owned r hr w' hheld
      refine ⟨hsole, now, todo, results, ?_, hentry⟩
      show Function.update s.phase w phase w' = .busy now todo results
      rw [Function.update_of_ne hne]
      exact hbusy
    · have hw : w' = w := by
        rw [hsole] at hw'
        exact List.mem_singleton.mp hw'
      subst hw
      refine ⟨hsole, now, todo, results, ?_, hentry⟩
      exact Function.update_self _ _ _
  · intro w'
    show PhaseOk _ w' (Function.update s.phase w phase w')
    by_cases hw : w' = w
    · subst hw
      rw [Function.update_self]
      exact hphase
    · rw [Function.update_of_ne hw]
      have hold := h.phases w'
      cases hp : s.phase w' with
      | idle | begun now => trivial
      | busy now todo results =>
        rw [hp] at hold
        refine ⟨hold.1, fun id hid => ?_⟩
        obtain ⟨r, hr, hrid, hheld⟩ := hold.2 id hid
        have hsame := hothers r hr w' hheld hw
        refine ⟨r, List.mem_map.mpr ⟨r, hr, hsame⟩, hrid, hheld⟩

/-- a worker that holds nothing, and goes on without a claim -/
theorem Inv.goto (h : Inv s) {w : Nat} {phase : Phase} (hfree : ∀ r ∈ s.rows, w ∉ r.heldBy)
    (hphase : PhaseOk s w phase) : Inv (s.goto w phase) := by
  have hsame : s.write id = s := by
    show { s with rows := s.rows.map id } = s
    rw [List.map_id]
  have hmine : ∀ r ∈ s.rows, ∀ w' ∈ (id r).heldBy, w' ∈ r.heldBy ∧ w' ≠ w ∨
      (id r).heldBy = [w] ∧ ∃ now todo results, phase = .busy now todo results ∧
        Entry now todo results (id r) :=
    fun r hr w' hw' => Or.inl ⟨hw', fun he => hfree r hr (he ▸ hw')⟩
  have hwritten : Inv ((s.write id).goto w phase) :=
    h.write (fun _ => rfl) h.rows (fun _ _ _ _ _ => rfl) hmine (by rw [hsame]; exact hphase)
  rw [hsame] at hwritten
  exact hwritten

/-! ## the claim -/

theorem mem_chosen {now : Int} {locked : List Uuid} {rows : List Tracked} {r : Tracked}
    (h : r ∈ chosen now locked rows) : r ∈ rows ∧ claimable now r.toOutboxEvent = true := by
  have hfiltered := (List.mem_insertionSort _).mp (List.mem_of_mem_take h)
  obtain ⟨hr, hboth⟩ := List.mem_filter.mp hfiltered
  exact ⟨hr, (Bool.and_eq_true_iff.mp hboth).1⟩

theorem nodup_chosen {now : Int} {locked : List Uuid} {rows : List Tracked}
    (h : (rows.map Tracked.key).Nodup) : ((chosen now locked rows).map Tracked.key).Nodup := by
  have hfiltered := h.sublist (List.Sublist.map Tracked.key
    (List.filter_sublist (p := fun r => claimable now r.toOutboxEvent && r.key ∉ locked)))
  have hsorted := ((List.perm_insertionSort (fun a b : Tracked => a.createdAt ≤ b.createdAt)
    (rows.filter fun r => claimable now r.toOutboxEvent && r.key ∉ locked)).map
      Tracked.key).nodup_iff.mpr hfiltered
  exact hsorted.sublist (List.Sublist.map _ (List.take_sublist _ _))

theorem of_claimable {now : Int} {row : OutboxEvent} (h : claimable now row = true) :
    row.deliveredAt = none ∧ row.attempts < MAX_ATTEMPTS := by
  rw [claimable] at h
  simp only [Bool.and_eq_true, Option.isNone_iff_eq_none, decide_eq_true_eq] at h
  exact ⟨h.1.1.1, h.1.1.2⟩

theorem RowOk.taken {clock : Int} {r : Tracked} (h : RowOk clock r) (w : Nat) {now : Int}
    (hfree : r.heldBy = []) (hclaim : claimable now r.toOutboxEvent = true) :
    RowOk clock (r.taken w now) := by
  obtain ⟨hnone, hleft⟩ := of_claimable hclaim
  refine ⟨h.count, fun he => (nomatch he), fun _ => ⟨hleft, hnone, rfl, ?_⟩, h.delivered,
    h.marked, fun hf => (nomatch hf)⟩
  show r.tried.length ≤ r.attempts + 1
  rw [h.rest hfree]
  omega

theorem Inv.claim (h : Inv s) {w : Nat} {now : Int} (hphase : s.phase w = .begun now)
    {locked : List Uuid} (hallowed : MayClaim s locked (s.phase w)) :
    Inv ((s.write fun r =>
        if r.key ∈ (chosen now locked s.rows).map Tracked.key then r.taken w now else r).goto w
      (.busy now ((chosen now locked s.rows).map Tracked.claimed) [])) := by
  rw [hphase] at hallowed
  have hidle : ∀ r ∈ s.rows, w ∉ r.heldBy := fun r hr =>
    h.not_held (by rw [hphase]; exact fun _ _ _ he => (nomatch he)) hr
  -- a row with the key of a chosen one is the chosen one
  have hbatch : ∀ r ∈ s.rows, r.key ∈ (chosen now locked s.rows).map Tracked.key →
      r.heldBy = [] ∧ claimable now r.toOutboxEvent = true ∧ r ∈ chosen now locked s.rows := by
    intro r hr hmem
    obtain ⟨b, hb, hkey⟩ := List.mem_map.mp hmem
    obtain ⟨hbrow, hclaim⟩ := mem_chosen hb
    have hsame := h.eq_of_key hr hbrow hkey.symm
    subst hsame
    exact ⟨hallowed r hb, hclaim, hb⟩
  refine h.write ?_ ?_ ?_ ?_ ?_
  · intro r
    split <;> rfl
  · intro r hr
    split
    · obtain ⟨hfree, hclaim, -⟩ := hbatch r hr ‹_›
      exact (h.rows r hr).taken w hfree hclaim
    · exact h.rows r hr
  · intro r hr w' hw' _
    rw [if_neg]
    intro hmem
    rw [(hbatch r hr hmem).1] at hw'
    cases hw'
  · intro r hr w' hw'
    split at hw'
    · rename_i hmem
      obtain ⟨hfree, -, hchosen⟩ := hbatch r hr hmem
      rw [if_pos hmem]
      refine Or.inr ⟨?_, now, _, _, rfl, rfl, Or.inl ⟨r.claimed, ?_, rfl, rfl, ?_⟩⟩
      · show w :: r.heldBy = [w]
        rw [hfree]
      · exact List.mem_map_of_mem hchosen
      · exact (h.rows r hr).rest hfree
    · exact Or.inl ⟨hw', fun he => hidle r hr (he ▸ hw')⟩
  · have hids : batchIds ((chosen now locked s.rows).map Tracked.claimed) [] =
        (chosen now locked s.rows).map Tracked.key := by
      rw [batchIds, List.map_map, List.map_nil, List.append_nil]
      rfl
    refine ⟨hids ▸ nodup_chosen h.ids, ?_⟩
    rw [hids]
    intro id hid
    obtain ⟨b, hb, rfl⟩ := List.mem_map.mp hid
    refine ⟨b.taken w now, List.mem_map.mpr ⟨b, (mem_chosen hb).1, if_pos hid⟩, rfl, ?_⟩
    exact List.mem_cons_self

/-! ## a delivery -/

theorem settled_deliverOne {now : Int} {c : Claimed} {attempt : Attempt}
    (halike : ∀ x ∈ attempt, ∀ y ∈ attempt, x.2.final = y.2.final)
    (h : (deliverOne now c attempt).deliveredAt.isSome = true) :
    ∀ x ∈ attempt, x.2.final = true := by
  rw [deliverOne] at h
  split at h
  · rename_i hany
    intro x hx
    rcases Bool.or_eq_true_iff.mp hany with hempty | hany
    · rw [List.isEmpty_iff.mp hempty] at hx
      cases hx
    · obtain ⟨y, hy, hfinal⟩ := List.any_eq_true.mp hany
      rw [halike x hx y hy]
      exact hfinal
  · cases h

theorem deliverOne_row (now : Int) (c : Claimed) (attempt : Attempt) :
    (deliverOne now c attempt).rowId = c.rowId ∧
      (deliverOne now c attempt).attempts = c.attempts + 1 := by
  rw [deliverOne]
  split <;> exact ⟨rfl, rfl⟩

theorem Inv.of_batch (h : Inv s) {w : Nat} {now : Int} {todo : List Claimed}
    {results : List RowResult} (hphase : s.phase w = .busy now todo results) {r : Tracked}
    (hr : r ∈ s.rows) (hmem : r.key ∈ batchIds todo results) :
    r.heldBy = [w] ∧ Entry now todo results r := by
  have hok := h.phases w
  rw [hphase] at hok
  obtain ⟨r', hr', hkey, hheld⟩ := hok.2 r.key hmem
  have hsame := h.eq_of_key hr hr' hkey.symm
  subst hsame
  obtain ⟨hsole, now', todo', results', hbusy, hentry⟩ := h.owned r hr w hheld
  rw [hphase] at hbusy
  cases hbusy
  exact ⟨hsole, hentry⟩

theorem Inv.in_batch (h : Inv s) {w : Nat} {now : Int} {todo : List Claimed}
    {results : List RowResult} (hphase : s.phase w = .busy now todo results) {r : Tracked}
    (hr : r ∈ s.rows) (hheld : w ∈ r.heldBy) : r.key ∈ batchIds todo results := by
  obtain ⟨-, now', todo', results', hbusy, hentry⟩ := h.owned r hr w hheld
  rw [hphase] at hbusy
  cases hbusy
  exact hentry.mem

theorem RowOk.attempted {clock : Int} {r : Tracked} (h : RowOk clock r) (attempt : Attempt)
    (hheld : r.heldBy ≠ []) (htried : r.tried.length = r.attempts) :
    RowOk clock (r.attempted attempt) := by
  obtain ⟨hleft, hnone, hnot, -⟩ := h.held hheld
  refine ⟨h.count, fun he => absurd he hheld, fun _ => ⟨hleft, hnone, hnot, ?_⟩, ?_, h.marked,
    h.failed⟩
  · show (r.tried ++ [attempt]).length ≤ r.attempts + 1
    rw [List.length_append, htried]
    exact le_refl _
  · intro hsome
    obtain ⟨a, ha, hfinal⟩ := h.delivered hsome
    exact ⟨a, List.mem_append_left _ ha, hfinal⟩

theorem Inv.deliver (h : Inv s) {w : Nat} {now : Int} {c : Claimed} {todo : List Claimed}
    {results : List RowResult} (hphase : s.phase w = .busy now (c :: todo) results)
    {attempt : Attempt} (halike : ∀ x ∈ attempt, ∀ y ∈ attempt, x.2.final = y.2.final) :
    Inv ((s.write fun r => if r.key = c.rowId then r.attempted attempt else r).goto w
      (.busy now todo (results ++ [deliverOne now c attempt]))) := by
  have hok := h.phases w
  rw [hphase] at hok
  obtain ⟨hfirst, hrest⟩ := List.nodup_cons.mp hok.1
  obtain ⟨hrow, hattempts⟩ := deliverOne_row now c attempt
  -- the row of this delivery has not been tried since it was claimed
  have hmine : ∀ r ∈ s.rows, r.key = c.rowId →
      r.heldBy = [w] ∧ r.claimedAt = some now ∧ c.attempts = r.attempts ∧
        r.tried.length = r.attempts := by
    intro r hr hkey
    have hmem : r.key ∈ batchIds (c :: todo) results := by
      rw [hkey]
      exact List.mem_cons_self
    obtain ⟨hsole, hentry⟩ := h.of_batch hphase hr hmem
    refine ⟨hsole, hentry.claimedAt, ?_⟩
    rcases hentry.known with ⟨c', hc', hid, hknown⟩ | ⟨res, hres, hout⟩
    · rcases List.mem_cons.mp hc' with rfl | hc'
      · exact hknown
      · have hlater : c'.rowId ∈ batchIds todo results :=
          List.mem_append_left _ (List.mem_map_of_mem hc')
        rw [hid, hkey] at hlater
        exact absurd hlater hfirst
    · have hlater : res.rowId ∈ batchIds todo results :=
        List.mem_append_right _ (List.mem_map_of_mem hres)
      rw [hout.row, hkey] at hlater
      exact absurd hlater hfirst
  refine h.write ?_ ?_ ?_ ?_ ?_
  · intro r
    split <;> rfl
  · intro r hr
    split
    · obtain ⟨hsole, -, -, htried⟩ := hmine r hr ‹_›
      exact (h.rows r hr).attempted attempt (by rw [hsole]; exact List.cons_ne_nil _ _) htried
    · exact h.rows r hr
  · intro r hr w' hw' hne
    rw [if_neg]
    intro hkey
    rw [(hmine r hr hkey).1] at hw'
    exact hne (List.mem_singleton.mp hw')
  · intro r hr w' hw'
    by_cases hkey : r.key = c.rowId
    · rw [if_pos hkey]
      obtain ⟨hsole, hclaimed, hcount, htried⟩ := hmine r hr hkey
      refine Or.inr ⟨hsole, now, _, _, rfl, hclaimed, Or.inr ⟨_, List.mem_append_right _
        List.mem_cons_self, ?_⟩⟩
      refine ⟨hrow.trans hkey.symm, ?_, ?_, ?_⟩
      · rw [hattempts, hcount]
        rfl
      · show (r.tried ++ [attempt]).length = r.attempts + 1
        rw [List.length_append, htried]
        rfl
      · intro hsome
        exact ⟨attempt, List.mem_append_right _ List.mem_cons_self,
          settled_deliverOne halike hsome⟩
    · rw [if_neg hkey] at hw' ⊢
      by_cases hw : w' = w
      · subst hw
        refine Or.inr ?_
        obtain ⟨hsole, hentry⟩ := h.of_batch hphase hr (h.in_batch hphase hr hw')
        refine ⟨hsole, now, _, _, rfl, hentry.claimedAt, ?_⟩
        rcases hentry.known with ⟨c', hc', hid, hknown⟩ | ⟨res, hres, hout⟩
        · rcases List.mem_cons.mp hc' with rfl | hc'
          · exact absurd hid.symm hkey
          · exact Or.inl ⟨c', hc', hid, hknown⟩
        · exact Or.inr ⟨res, List.mem_append_left _ hres, hout⟩
      · exact Or.inl ⟨hw', hw⟩
  · have hperm : (batchIds todo (results ++ [deliverOne now c attempt])).Perm
        (batchIds (c :: todo) results) := by
      rw [batchIds, List.map_append, List.map_singleton, hrow, ← List.append_assoc]
      exact List.perm_append_singleton _ _
    refine ⟨hperm.nodup_iff.mpr hok.1, fun id hid => ?_⟩
    obtain ⟨r, hr, hkey, hheld⟩ := hok.2 id (hperm.mem_iff.mp hid)
    refine ⟨_, List.mem_map.mpr ⟨r, hr, rfl⟩, ?_, ?_⟩
    · split
      · exact hkey
      · exact hkey
    · split
      · exact hheld
      · exact hheld

/-! ## the write-back -/

theorem key_foldl_report (w : Nat) (results : List RowResult) (r : Tracked) :
    (results.foldl (report w) r).key = r.key := by
  induction results generalizing r with
  | nil => rfl
  | cons res results ih =>
    rw [List.foldl_cons, ih, report]
    split <;> rfl

theorem foldl_report_of_not_mem {w : Nat} {results : List RowResult} {r : Tracked}
    (h : r.key ∉ results.map RowResult.rowId) : results.foldl (report w) r = r := by
  induction results with
  | nil => rfl
  | cons res results ih =>
    rw [List.map_cons, List.mem_cons, not_or] at h
    rw [List.foldl_cons, report, if_neg h.1]
    exact ih h.2

theorem foldl_report_of_mem {w : Nat} {results : List RowResult} {r : Tracked}
    (hnodup : (results.map RowResult.rowId).Nodup) {res : RowResult} (hres : res ∈ results)
    (hkey : res.rowId = r.key) : results.foldl (report w) r = r.reported w res := by
  induction results with
  | nil => cases hres
  | cons res' results ih =>
    obtain ⟨hfirst, hrest⟩ := List.nodup_cons.mp hnodup
    rw [List.foldl_cons, report]
    rcases List.mem_cons.mp hres with rfl | hres
    · rw [if_pos hkey.symm]
      apply foldl_report_of_not_mem
      show r.key ∉ results.map RowResult.rowId
      rw [← hkey]
      exact hfirst
    · rw [if_neg]
      · exact ih hrest hres
      · intro he
        rw [← he, ← hkey] at hfirst
        exact hfirst (List.mem_map_of_mem hres)

theorem RowOk.reported {clock : Int} {r : Tracked} (h : RowOk clock r) {w : Nat}
    (hsole : r.heldBy = [w]) {now : Int} (hclaimed : r.claimedAt = some now) {res : RowResult}
    (hout : Outcome r res) (hlate : res.deliveredAt = none → res.attempts < MAX_ATTEMPTS →
      now < clock - CLAIM_TTL) : RowOk clock (r.reported w res) := by
  obtain ⟨hleft, hnone, -, -⟩ := h.held (by rw [hsole]; exact List.cons_ne_nil _ _)
  have hfree : (r.reported w res).heldBy = [] := by
    show r.heldBy.filter (· ≠ w) = []
    rw [hsole]
    simp
  refine ⟨?_, fun _ => ?_, fun hheld => absurd hfree hheld, hout.settled, ?_, ?_⟩
  · show res.attempts ≤ MAX_ATTEMPTS
    rw [hout.attempts]
    exact hleft
  · show r.tried.length = res.attempts
    rw [hout.tried, hout.attempts]
  · intro hmarked
    rcases Bool.or_eq_true_iff.mp hmarked with hm | hm
    · have hsome := h.marked hm
      rw [hnone] at hsome
      cases hsome
    · exact hm
  · intro hfailed
    have hnot : res.deliveredAt = none := Option.isNone_iff_eq_none.mp hfailed
    exact ⟨hnot, fun hagain => ⟨now, hclaimed, hlate hnot hagain⟩⟩

theorem Inv.writeBack (h : Inv s) {w : Nat} {now : Int} {results : List RowResult}
    (hphase : s.phase w = .busy now [] results) (hallowed : MayReport s (s.phase w)) :
    Inv ((s.write fun r => results.foldl (report w) r).goto w .idle) := by
  rw [hphase] at hallowed
  have hnodup : (results.map RowResult.rowId).Nodup := by
    have hok := h.phases w
    rw [hphase] at hok
    exact hok.1
  -- a row of the batch has one outcome, and no other row has any
  have hin : ∀ r ∈ s.rows, w ∈ r.heldBy → r.heldBy = [w] ∧ r.claimedAt = some now ∧
      ∃ res ∈ results, Outcome r res ∧ results.foldl (report w) r = r.reported w res := by
    intro r hr hheld
    obtain ⟨hsole, hentry⟩ := h.of_batch hphase hr (h.in_batch hphase hr hheld)
    rcases hentry.known with ⟨c, hc, -⟩ | ⟨res, hres, hout⟩
    · cases hc
    · exact ⟨hsole, hentry.claimedAt, res, hres, hout,
        foldl_report_of_mem hnodup hres hout.row⟩
  have hout : ∀ r ∈ s.rows, w ∉ r.heldBy → results.foldl (report w) r = r := by
    intro r hr hnot
    refine foldl_report_of_not_mem fun hmem => hnot ?_
    rw [(h.of_batch hphase hr hmem).1]
    exact List.mem_cons_self
  refine h.write (key_foldl_report w results) ?_ ?_ ?_ trivial
  · intro r hr
    by_cases hheld : w ∈ r.heldBy
    · obtain ⟨hsole, hclaimed, res, hres, houtcome, heq⟩ := hin r hr hheld
      rw [heq]
      exact (h.rows r hr).reported hsole hclaimed houtcome (hallowed res hres)
    · rw [hout r hr hheld]
      exact h.rows r hr
  · intro r hr w' hw' hne
    refine hout r hr fun hheld => hne ?_
    rw [(hin r hr hheld).1] at hw'
    exact List.mem_singleton.mp hw'
  · intro r hr w' hw'
    by_cases hheld : w ∈ r.heldBy
    · obtain ⟨hsole, -, res, -, -, heq⟩ := hin r hr hheld
      rw [heq] at hw'
      have hfree : (r.reported w res).heldBy = [] := by
        show r.heldBy.filter (· ≠ w) = []
        rw [hsole]
        simp
      rw [hfree] at hw'
      cases hw'
    · rw [hout r hr hheld] at hw'
      exact Or.inl ⟨hw', fun he => hheld (he ▸ hw')⟩

/-! ## a crash -/

theorem released_of_not_mem {r : Tracked} {w : Nat} (h : w ∉ r.heldBy) : r.released w = r := by
  have hsame : r.heldBy.filter (· ≠ w) = r.heldBy := by
    rw [List.filter_eq_self]
    intro w' hw'
    simpa using fun he : w' = w => h (he ▸ hw')
  rw [Tracked.released, hsame]

theorem RowOk.released {clock : Int} {r : Tracked} (h : RowOk clock r) {w : Nat}
    (hsole : r.heldBy = [w]) (htried : r.tried.length = r.attempts) :
    RowOk clock (r.released w) := by
  have hfree : (r.released w).heldBy = [] := by
    show r.heldBy.filter (· ≠ w) = []
    rw [hsole]
    simp
  exact ⟨h.count, fun _ => htried, fun hheld => absurd hfree hheld, h.delivered, h.marked,
    h.failed⟩

theorem Inv.crash (h : Inv s) {w : Nat} (hallowed : MayCrash (s.phase w)) :
    Inv ((s.write fun r => r.released w).goto w .idle) := by
  have hin : ∀ r ∈ s.rows, w ∈ r.heldBy → r.heldBy = [w] ∧ r.tried.length = r.attempts := by
    intro r hr hheld
    obtain ⟨hsole, now, todo, results, hbusy, hentry⟩ := h.owned r hr w hheld
    rw [hbusy] at hallowed
    cases (show results = [] from hallowed)
    rcases hentry.known with ⟨c, -, -, -, htried⟩ | ⟨res, hres, -⟩
    · exact ⟨hsole, htried⟩
    · cases hres
  refine h.write (fun _ => rfl) ?_ ?_ ?_ trivial
  · intro r hr
    by_cases hheld : w ∈ r.heldBy
    · exact (h.rows r hr).released (hin r hr hheld).1 (hin r hr hheld).2
    · rw [released_of_not_mem hheld]
      exact h.rows r hr
  · intro r hr w' hw' hne
    refine released_of_not_mem fun hheld => hne ?_
    rw [(hin r hr hheld).1] at hw'
    exact List.mem_singleton.mp hw'
  · intro r hr w' hw'
    obtain ⟨hheld, hne⟩ := List.mem_filter.mp hw'
    exact Or.inl ⟨hheld, by simpa using hne⟩

/-! ## runs -/

theorem Inv.tick (h : Inv s) (d : Nat) : Inv { s with clock := s.clock + d } := by
  refine ⟨h.ids, fun r hr => (h.rows r hr).later ?_, h.owned, fun w => ?_⟩
  · show s.clock ≤ s.clock + d
    omega
  · have hok := h.phases w
    show PhaseOk _ w (s.phase w)
    cases hp : s.phase w with
    | idle | begun now => trivial
    | busy now todo results =>
      rw [hp] at hok
      exact hok

theorem Inv.enqueue (h : Inv s) {row : Tracked} (hfresh : row.key ∉ s.rows.map Tracked.key)
    (hok : RowOk s.clock row) (hfree : row.heldBy = []) :
    Inv { s with rows := s.rows ++ [row] } := by
  refine ⟨?_, ?_, ?_, fun w => ?_⟩
  · show ((s.rows ++ [row]).map Tracked.key).Nodup
    rw [List.map_append]
    exact List.Nodup.append h.ids (List.nodup_singleton _) (by simpa using hfresh)
  · intro r hr
    rcases List.mem_append.mp hr with hr | hr
    · exact h.rows r hr
    · rw [List.mem_singleton.mp hr]
      exact hok
  · intro r hr w hw
    rcases List.mem_append.mp hr with hr | hr
    · exact h.owned r hr w hw
    · rw [List.mem_singleton.mp hr, hfree] at hw
      cases hw
  · have hold := h.phases w
    show PhaseOk _ w (s.phase w)
    cases hp : s.phase w with
    | idle | begun now => trivial
    | busy now todo results =>
      rw [hp] at hold
      refine ⟨hold.1, fun id hid => ?_⟩
      obtain ⟨r, hr, hrow⟩ := hold.2 id hid
      exact ⟨r, List.mem_append_left _ hr, hrow⟩

theorem inv_step (s : State) (a : Act) (h : Inv s) (hallowed : Allowed s a) : Inv (step s a) := by
  cases a with
  | tick d => exact h.tick d
  | enqueue row =>
    rw [step]
    split
    · exact h
    · rename_i hfresh
      refine h.enqueue hfresh ⟨Nat.zero_le _, fun _ => rfl, fun hheld => absurd rfl hheld, ?_, ?_, ?_⟩
        rfl
      all_goals
        intro hno
        cases hno
  | subscribe subs =>
    refine ⟨h.ids, h.rows, h.owned, fun w => ?_⟩
    have hok := h.phases w
    show PhaseOk _ w (s.phase w)
    cases hp : s.phase w with
    | idle | begun now => trivial
    | busy now todo results =>
      rw [hp] at hok
      exact hok
  | begin w =>
    rw [step]
    split
    · rename_i hphase
      refine h.goto (fun r hr => h.not_held ?_ hr) trivial
      rw [hphase]
      exact fun _ _ _ he => (nomatch he)
    · exact h
    · exact h
  | claim w locked =>
    rw [step]
    split
    · rename_i now hphase
      dsimp only
      split
      · refine h.goto (fun r hr => h.not_held ?_ hr) trivial
        rw [hphase]
        exact fun _ _ _ he => (nomatch he)
      · exact h.claim hphase hallowed
    · exact h
    · exact h
  | deliver w answer =>
    rw [step]
    split
    · rename_i now c todo results hphase
      refine h.deliver hphase ?_
      have halike : MayDeliver s answer (s.phase w) := hallowed
      rw [hphase] at halike
      intro x hx y hy
      obtain ⟨a, ha, rfl⟩ := List.mem_map.mp hx
      obtain ⟨b, hb, rfl⟩ := List.mem_map.mp hy
      exact halike a ha b hb
    · exact h
    · exact h
    · exact h
  | writeBack w =>
    rw [step]
    split
    · rename_i now results hphase
      exact h.writeBack hphase hallowed
    · exact h
    · exact h
    · exact h
  | crash w => exact h.crash hallowed

def start (subs : List Subscription) (clock : Int) : State := { subs := subs, clock := clock }

theorem inv_start (subs : List Subscription) (clock : Int) : Inv (start subs clock) :=
  ⟨List.nodup_nil, fun _ hr => (nomatch hr), fun _ hr => (nomatch hr), fun _ => trivial⟩

theorem kept_run {subs : List Subscription} {clock : Int} {acts : List Act}
    (h : Along step Allowed (start subs clock) acts) :
    Always step Kept (start subs clock) acts := by
  intro done left hsplit
  rw [hsplit, along_append] at h
  exact (exec_inv inv_step (inv_start subs clock) h.1).kept

/-! ## two subscribers and two workers -/

def listener (id : Uuid) : Subscription :=
  { id := id, url := "https://listener.test", events := ["*"], caseTypeId := none, isActive := true }

def opened : OutboxEvent :=
  { id := 1, eventType := "case.created", payload := .dict [], caseTypeId := none, createdAt := 0 }

/-- one worker fails for longer than its claim runs, and then delivers -/
def patient : List Act :=
  [.enqueue opened, .begin 0, .claim 0 [], .deliver 0 fun _ => .failed, .tick 301000000,
    .writeBack 0, .begin 1, .claim 1 [], .deliver 1 fun _ => .status 200, .writeBack 1]

theorem kept_run_patient :
    Along step Allowed (start [listener 7, listener 8] 0) patient ∧
      Always step Kept (start [listener 7, listener 8] 0) patient := by
  have hallowed : Along step Allowed (start [listener 7, listener 8] 0) patient := by
    decide +kernel
  exact ⟨hallowed, kept_run hallowed⟩

/-- one round of a worker in which every call is answered alike -/
def round (w : Nat) (answer : Answer) : List Act :=
  [.begin w, .claim w [], .deliver w fun _ => answer, .writeBack w]

/-- one subscriber of two accepts; a claim that has run out is taken over, and its first worker
undoes the delivery; a failed row is due while it is still claimed; and a crash before the
write-back is not counted -/
theorem not_always_kept :
    ¬Kept (exec step (start [listener 7, listener 8] 0)
      [.enqueue opened, .begin 0, .claim 0 [],
        .deliver 0 fun sub => if sub.id = 7 then .status 200 else .failed, .writeBack 0]) ∧
    ¬Kept (exec step (start [listener 7] 0)
      ([.enqueue opened, .begin 0, .claim 0 [], .tick 301000000] ++ round 1 (.status 200) ++
        [.deliver 0 fun _ => .failed, .writeBack 0])) ∧
    ¬Kept (exec step (start [listener 7] 0)
      ([.enqueue opened] ++ round 0 .failed ++ [.tick 30000000])) ∧
    ¬Kept (exec step (start [listener 7] 0)
      ([.enqueue opened, .begin 0, .claim 0 [], .deliver 0 fun _ => .failed, .crash 0] ++
        (List.replicate 5 (.tick 301000000 :: round 0 .failed)).flatten)) := by
  refine ⟨?_, ?_, ?_, ?_⟩
  all_goals decide +kernel

end Outbox
