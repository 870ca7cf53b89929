import Velaris.Base.Run
import Velaris.Handoff.Orders

/-!
# Disclosure under a live order

* `Call`, `step`   the calls of both sides, by anybody and at any time;
* `Inv`   no order goes above its enrolment, and no case has two open orders;
* `guard_ok`   what is known of an order whose verb runs;
* `UnderOrder`   the same of the orders of a run;
* `disclosed_under_order`   the projections, the proposals and the open orders of a run.
-/

namespace Handoff.Orders

open Py Base

inductive Call where
  | enrol (fresh tenant : Uuid) (body : EnrolIn) (createdBy : Option String)
  | suspend (tenant : Uuid) (slug : String)
  | issue (now : Int) (fresh : Fresh) (tenant : Uuid) (body : IssueIn) (createdBy : Option String)
  | accept (now : Int) (caller order : Uuid) (signature : String)
  | read (now : Int) (caller order : Uuid)
  | propose (now : Int) (fresh caller order : Uuid) (target : String) (value : Value)
    (note : Option String)
  | handBack (now : Int) (caller order : Uuid) (summary : String)
  | revoke (now : Int) (tenant order : Uuid) (reason : String)

def Db.order (db : Db) (id : Uuid) : Option WorkOrder := db.orders.find? fun o => o.id = id

def NOT_FOUND : String := "VEL-HANDOFF-404: no such work order"

/-- a verb of the caller whose agent the order was issued to -/
def byCaller {ρ : Type} (caller order : Uuid) (verb : WorkOrder → Db → Db × Except String ρ)
    (db : Db) : Db × Except String ρ :=
  match (db.order order).filter (·.agentId = caller) with
  | none => (db, .error NOT_FOUND)
  | some o => verb o db

def revokeOrder (now : Int) (tenant order : Uuid) (reason : String) (db : Db) :
    Except String Db :=
  match (db.order order).filter (·.tenantId = tenant) with
  | none => .error NOT_FOUND
  | some o => revoke now o reason db

variable (S : Setup)

def step (db : Db) : Call → Db
  | .enrol fresh tenant body createdBy =>
    match enrol S fresh tenant body createdBy db with
    | .ok (db', _) => db'
    | .error _ => db
  | .suspend tenant slug => suspend tenant slug db
  | .issue now fresh tenant body createdBy =>
    match issue S now fresh tenant body createdBy db with
    | .ok (db', _) => db'
    | .error _ => db
  | .accept now caller order signature =>
    (byCaller caller order (fun o => accept S now o signature) db).1
  | .read now caller order => (byCaller caller order (read S now) db).1
  | .propose now fresh caller order target value note =>
    (byCaller caller order (fun o => propose S now fresh o target value note) db).1
  | .handBack now caller order summary =>
    (byCaller caller order (fun o => handBack S now o summary) db).1
  | .revoke now tenant order reason =>
    match revokeOrder now tenant order reason db with
    | .ok db' => db'
    | .error _ => db

/-! ## the invariant -/

def Accepted (c : Counterparty) (o : WorkOrder) : Prop :=
  ∃ signature, o.acceptanceSignature = some signature ∧
    verifySignature S c (o.digest S) signature = true

structure Enrolled (c : Counterparty) (o : WorkOrder) : Prop where
  same : c.id = o.counterpartyId
  ceiling : o.ceiling.rank ≤ c.maxCeiling.rank
  signed : o.status = .accepted → Accepted S c o

def OneOpen (db : Db) : Prop :=
  ∀ o ∈ db.orders, ∀ p ∈ db.orders, o.status ∈ OPEN_STATUSES → p.status ∈ OPEN_STATUSES →
    o.caseId = p.caseId → o.id = p.id

structure Inv (db : Db) : Prop where
  parties : (db.counterparties.map (·.id)).Nodup
  ids : (db.orders.map (·.id)).Nodup
  enrolled : ∀ o ∈ db.orders, ∃ c ∈ db.counterparties, Enrolled S c o
  unrevoked : ∀ o ∈ db.orders, o.status ∈ OPEN_STATUSES → o.revokedAt = none
  single : OneOpen db

variable {S} {db : Db}

theorem Inv.of_eq (h : Inv S db) {db' : Db} (hc : db'.counterparties = db.counterparties)
    (ho : db'.orders = db.orders) : Inv S db' := by
  refine ⟨hc ▸ h.parties, ho ▸ h.ids, ?_, ho ▸ h.unrevoked, ?_⟩
  · rw [ho, hc]
    exact h.enrolled
  · rw [OneOpen, ho]
    exact h.single

theorem Inv.record (h : Inv S db) (action : HandoffAction) : Inv S (db.record action) :=
  h.of_eq rfl rfl

theorem Inv.revokeToken (h : Inv S db) (now : Int) (order : WorkOrder) :
    Inv S (db.revokeToken now order) := h.of_eq rfl rfl

/-- what a verb may write to an order: it opens none, and leaves what it stands under -/
structure Written (c : Counterparty) (o o' : WorkOrder) : Prop where
  id : o'.id = o.id
  case : o'.caseId = o.caseId
  party : o'.counterpartyId = o.counterpartyId
  ceiling : o'.ceiling = o.ceiling
  opened : o'.status ∈ OPEN_STATUSES → o.status ∈ OPEN_STATUSES ∧ o'.revokedAt = o.revokedAt
  signed : c.id = o.counterpartyId → o'.status = .accepted → Accepted S c o'

theorem Inv.write (h : Inv S db) {id : Uuid} {f : WorkOrder → WorkOrder}
    (hid : ∀ o, (f o).id = o.id)
    (hf : ∀ o ∈ db.orders, o.id = id → ∀ c ∈ db.counterparties, Written (S := S) c o (f o)) :
    Inv S (db.write id f) := by
  -- each row afterwards comes from one that stood under the same enrolment
  have hfrom : ∀ o' ∈ (db.write id f).orders, ∃ o ∈ db.orders, o'.id = o.id ∧
      o'.caseId = o.caseId ∧ (o'.status ∈ OPEN_STATUSES →
        o.status ∈ OPEN_STATUSES ∧ o'.revokedAt = o.revokedAt) := by
    intro o' ho'
    rcases mem_modify ho' with ⟨o, ho, hk, rfl⟩ | ho
    · obtain ⟨c, hc, -⟩ := h.enrolled o ho
      have hw := hf o ho hk c hc
      exact ⟨o, ho, hw.id, hw.case, hw.opened⟩
    · exact ⟨o', ho, rfl, rfl, fun hopen => ⟨hopen, rfl⟩⟩
  refine ⟨h.parties, ?_, ?_, ?_, ?_⟩
  · show ((modify WorkOrder.id id f db.orders).map WorkOrder.id).Nodup
    rw [map_key_modify hid]
    exact h.ids
  · intro o' ho'
    rcases mem_modify ho' with ⟨o, ho, hk, rfl⟩ | ho
    · obtain ⟨c, hc, henrolled⟩ := h.enrolled o ho
      have hw := hf o ho hk c hc
      refine ⟨c, hc, henrolled.same.trans hw.party.symm, ?_, hw.signed henrolled.same⟩
      rw [hw.ceiling]
      exact henrolled.ceiling
    · exact h.enrolled o' ho
  · intro o' ho' hopen
    obtain ⟨o, ho, -, -, hback⟩ := hfrom o' ho'
    rw [(hback hopen).2]
    exact h.unrevoked o ho (hback hopen).1
  · intro o' ho' p' hp' hopen hopen' hcase
    obtain ⟨o, ho, hoid, hocase, hoback⟩ := hfrom o' ho'
    obtain ⟨p, hp, hpid, hpcase, hpback⟩ := hfrom p' hp'
    have hsame : o.caseId = p.caseId := hocase.symm.trans (hcase.trans hpcase)
    rw [hoid, hpid]
    exact h.single o ho p hp (hoback hopen).1 (hpback hopen').1 hsame

theorem Inv.close (h : Inv S db) {id : Uuid} {f : WorkOrder → WorkOrder}
    (hid : ∀ o, (f o).id = o.id) (hcase : ∀ o, (f o).caseId = o.caseId)
    (hparty : ∀ o, (f o).counterpartyId = o.counterpartyId)
    (hceiling : ∀ o, (f o).ceiling = o.ceiling) (hclosed : ∀ o, (f o).status ∉ OPEN_STATUSES) :
    Inv S (db.write id f) := by
  refine h.write hid fun o _ _ c _ => ?_
  have hnot : (f o).status ≠ .accepted := by
    intro he
    have := hclosed o
    rw [he] at this
    exact this (by decide)
  exact ⟨hid o, hcase o, hparty o, hceiling o, fun hopen => absurd hopen (hclosed o),
    fun _ he => absurd he hnot⟩

/-! ## the guard -/

theorem mem_of_active {o : WorkOrder} {c : Counterparty} (h : db.active o = some c) :
    c ∈ db.counterparties ∧ c.id = o.counterpartyId ∧ c.status = .active := by
  obtain ⟨hfind, hstatus⟩ := Option.filter_eq_some_iff.mp h
  have hid := List.find?_some hfind
  exact ⟨List.mem_of_find?_eq_some hfind, of_decide_eq_true hid, of_decide_eq_true hstatus⟩

theorem guard_ok {now : Int} {o : WorkOrder} {verb : Verb} {db' : Db} {c : Counterparty}
    (h : guard S now o verb db = (db', .ok c)) :
    db' = db ∧ db.active o = some c ∧ o.status ∈ OPEN_STATUSES ∧ now < o.expiresAt ∧
      verb.text ∈ o.allowedActions := by
  rw [guard] at h
  split at h
  · cases h
  · split at h
    · cases h
    · split at h
      · cases h
      · split at h
        · cases h
        · cases h
          exact ⟨rfl, ‹_›, not_not.mp ‹_›, by omega, not_not.mp ‹_›⟩

theorem guard_inv (h : Inv S db) (now : Int) (o : WorkOrder) (verb : Verb) :
    Inv S (guard S now o verb db).1 := by
  rw [guard]
  split
  · exact h.record _
  · split
    · exact h.record _
    · split
      · have hclosed : Status.expired ∉ OPEN_STATUSES := by decide
        exact (h.close (f := WorkOrder.lapsed) (fun _ => rfl) (fun _ => rfl) (fun _ => rfl)
          (fun _ => rfl) fun _ => hclosed).record _
      · split
        · exact h.record _
        · exact h

/-! ## one step -/

theorem accept_inv (h : Inv S db) (now : Int) {o : WorkOrder} (ho : db.order o.id = some o)
    (signature : String) : Inv S (accept S now o signature db).1 := by
  have hguard := guard_inv h now o .accept
  rw [accept]
  split
  · rename_i db' e he
    rw [he] at hguard
    exact hguard
  · rename_i db' c he
    obtain ⟨rfl, hactive, hopen, -, -⟩ := guard_ok he
    split
    · exact h
    · split
      · exact h.record _
      · rename_i hverified
        refine (h.write (f := fun o => o.signed now signature) (fun _ => rfl) ?_).record _
        intro o' ho' hid c' hc'
        -- the ids are the orders' own, and the counterparties'
        have hsame : o' = o :=
          List.inj_on_of_nodup_map h.ids ho' (List.mem_of_find?_eq_some ho) hid
        subst hsame
        refine ⟨rfl, rfl, rfl, rfl, fun _ => ⟨hopen, rfl⟩, fun hparty _ => ?_⟩
        obtain ⟨hc, hcid, -⟩ := mem_of_active hactive
        have hparties : c' = c := List.inj_on_of_nodup_map h.parties hc' hc (hparty.trans hcid.symm)
        subst hparties
        have hdigest : verifySignature S c' (o'.digest S) signature = true := by
          simpa using hverified
        exact ⟨signature, rfl, hdigest⟩

theorem read_inv (h : Inv S db) (now : Int) (o : WorkOrder) : Inv S (read S now o db).1 := by
  have hguard := guard_inv h now o .read
  rw [read]
  split
  · rename_i db' e he
    rw [he] at hguard
    exact hguard
  · rename_i db' c he
    obtain ⟨rfl, -⟩ := guard_ok he
    split
    · exact h
    · exact h.record _

theorem propose_inv (h : Inv S db) (now : Int) (fresh : Uuid) (o : WorkOrder) (target : String)
    (value : Value) (note : Option String) :
    Inv S (propose S now fresh o target value note db).1 := by
  have hguard := guard_inv h now o .propose
  rw [propose]
  split
  · rename_i db' e he
    rw [he] at hguard
    exact hguard
  · rename_i db' c he
    obtain ⟨rfl, -⟩ := guard_ok he
    split
    · exact h
    · dsimp only
      split
      · exact h.record _
      · exact h.of_eq rfl rfl

theorem handBack_inv (h : Inv S db) (now : Int) (o : WorkOrder) (summary : String) :
    Inv S (handBack S now o summary db).1 := by
  have hguard := guard_inv h now o .handBack
  rw [handBack]
  split
  · rename_i db' e he
    rw [he] at hguard
    exact hguard
  · rename_i db' c he
    obtain ⟨rfl, -⟩ := guard_ok he
    have hclosed : Status.returned ∉ OPEN_STATUSES := by decide
    exact ((h.close (f := fun o => o.handedBack now summary) (fun _ => rfl) (fun _ => rfl)
      (fun _ => rfl) (fun _ => rfl) fun _ => hclosed).revokeToken _ _).record _

theorem revoke_inv (h : Inv S db) {now : Int} {o : WorkOrder} {reason : String} {db' : Db}
    (hrevoke : revoke now o reason db = .ok db') : Inv S db' := by
  rw [revoke] at hrevoke
  split at hrevoke
  · cases hrevoke
  · cases hrevoke
    have hclosed : Status.revoked ∉ OPEN_STATUSES := by decide
    exact ((h.close (f := fun o => o.taken now reason) (fun _ => rfl) (fun _ => rfl)
      (fun _ => rfl) (fun _ => rfl) fun _ => hclosed).revokeToken _ _).record _

theorem enrol_inv (h : Inv S db) {fresh tenant : Uuid} {body : EnrolIn} {createdBy : Option String}
    {db' : Db} {row : Counterparty} (henrol : enrol S fresh tenant body createdBy db = .ok (db', row)) :
    Inv S db' := by
  rw [enrol] at henrol
  split at henrol
  · cases henrol
  · split at henrol
    · cases henrol
    · split at henrol
      · cases henrol
      · split at henrol
        · cases henrol
        · rename_i hfresh
          cases henrol
          refine ⟨?_, h.ids, ?_, h.unrevoked, h.single⟩
          · show (db.counterparties ++ [_]).map Counterparty.id |>.Nodup
            rw [List.map_append]
            exact List.Nodup.append h.parties (List.nodup_singleton _) (by simpa using hfresh)
          · intro o ho
            obtain ⟨c, hc, henrolled⟩ := h.enrolled o ho
            exact ⟨c, List.mem_append_left _ hc, henrolled⟩

theorem suspend_inv (h : Inv S db) (tenant : Uuid) (slug : String) :
    Inv S (suspend tenant slug db) := by
  rw [suspend]
  split
  · exact h
  · rename_i row _
    refine ⟨?_, h.ids, ?_, h.unrevoked, h.single⟩
    · show ((modify Counterparty.id row.id Counterparty.suspended db.counterparties).map
        Counterparty.id).Nodup
      have hid : ∀ c : Counterparty, c.suspended.id = c.id := fun _ => rfl
      rw [map_key_modify hid]
      exact h.parties
    · intro o ho
      obtain ⟨c, hc, henrolled⟩ := h.enrolled o ho
      refine ⟨if c.id = row.id then c.suspended else c, List.mem_map.mpr ⟨c, hc, rfl⟩, ?_⟩
      split
      · exact ⟨henrolled.same, henrolled.ceiling, henrolled.signed⟩
      · exact henrolled

theorem rank_atMost_le (requested allowed : Ceiling) :
    (atMost requested allowed).rank ≤ allowed.rank := by
  rw [atMost]
  split
  · assumption
  · exact le_refl _

theorem externalAgentToken_orders {now : Int} {freshAgent freshGrant caseId : Uuid}
    {c : Counterparty} {ttl : Int} {issuedBy : Option String} {db' : Db} {agent : Agent}
    {grant : Grant}
    (h : externalAgentToken S now freshAgent freshGrant c caseId ttl issuedBy db =
      .ok (db', agent, grant)) :
    db'.counterparties = db.counterparties ∧ db'.orders = db.orders := by
  have hagent : (ensureAgent freshAgent c db).1.counterparties = db.counterparties ∧
      (ensureAgent freshAgent c db).1.orders = db.orders := by
    rw [ensureAgent]
    split <;> exact ⟨rfl, rfl⟩
  rw [externalAgentToken] at h
  dsimp only at h
  repeat (split at h; · cases h)
  cases h
  exact hagent

theorem mem_of_openOrder_none {caseId : Uuid} (h : db.openOrder caseId = none) {o : WorkOrder}
    (ho : o ∈ db.orders) (hopen : o.status ∈ OPEN_STATUSES) : o.caseId ≠ caseId := by
  intro hcase
  have hno := List.find?_eq_none.mp h o ho
  simp [hcase, hopen] at hno

structure Opened (db db' : Db) (c : Counterparty) (o : WorkOrder) : Prop where
  parties : db'.counterparties = db.counterparties
  orders : db'.orders = db.orders ++ [o]
  fresh : o.id ∉ db.orders.map (·.id)
  free : db.openOrder o.caseId = none
  party : c.id = o.counterpartyId
  ceiling : o.ceiling.rank ≤ c.maxCeiling.rank
  status : o.status = .issued
  unrevoked : o.revokedAt = none

theorem issueTo_ok {now : Int} {fresh : Fresh} {tenant : Uuid} {c : Counterparty} {body : IssueIn}
    {createdBy : Option String} {db' : Db} {o : WorkOrder}
    (hissue : issueTo S now fresh tenant c body createdBy db = .ok (db', o)) :
    Opened db db' c o := by
  rw [issueTo] at hissue
  dsimp only at hissue
  split at hissue
  · cases hissue
  · split at hissue
    · cases hissue
    · rename_i requested _
      repeat (split at hissue; · cases hissue)
      rename_i hfree _ _ db₁ agent grant htoken hfresh
      obtain ⟨hparties, horders⟩ := externalAgentToken_orders htoken
      cases hissue
      refine ⟨hparties, ?_, ?_, ?_, rfl, rank_atMost_le requested c.maxCeiling, rfl, rfl⟩
      · show db₁.orders ++ _ = db.orders ++ _
        rw [horders]
      · rw [← horders]
        exact hfresh
      · exact Option.not_isSome_iff_eq_none.mp hfree

theorem Opened.inv (h : Inv S db) {db' : Db} {c : Counterparty} (hc : c ∈ db.counterparties)
    {o : WorkOrder} (ho : Opened db db' c o) : Inv S db' := by
  have hissued : o.status ≠ .accepted := by
    rw [ho.status]
    decide
  refine ⟨ho.parties ▸ h.parties, ?_, ?_, ?_, ?_⟩
  · rw [ho.orders, List.map_append]
    exact List.Nodup.append h.ids (List.nodup_singleton _) (by simpa using ho.fresh)
  · intro o' ho'
    rw [ho.orders] at ho'
    rw [ho.parties]
    rcases List.mem_append.mp ho' with ho' | ho'
    · exact h.enrolled o' ho'
    · cases List.mem_singleton.mp ho'
      exact ⟨c, hc, ho.party, ho.ceiling, fun he => absurd he hissued⟩
  · intro o' ho' hopen
    rw [ho.orders] at ho'
    rcases List.mem_append.mp ho' with ho' | ho'
    · exact h.unrevoked o' ho' hopen
    · cases List.mem_singleton.mp ho'
      exact ho.unrevoked
  · intro p hp q hq hpopen hqopen hcase
    rw [ho.orders] at hp hq
    rcases List.mem_append.mp hp with hp | hp <;> rcases List.mem_append.mp hq with hq | hq
    · exact h.single p hp q hq hpopen hqopen hcase
    · cases List.mem_singleton.mp hq
      exact absurd hcase (mem_of_openOrder_none ho.free hp hpopen)
    · cases List.mem_singleton.mp hp
      exact absurd hcase.symm (mem_of_openOrder_none ho.free hq hqopen)
    · rw [List.mem_singleton.mp hp, List.mem_singleton.mp hq]

theorem inv_step (h : Inv S db) (call : Call) : Inv S (step S db call) := by
  -- a verb of a caller runs on an order that was found
  have hfound : ∀ {caller order : Uuid} {o : WorkOrder},
      (db.order order).filter (·.agentId = caller) = some o → db.order o.id = some o := by
    intro caller order o ho
    obtain ⟨hfind, -⟩ := Option.filter_eq_some_iff.mp ho
    have hid : o.id = order := by simpa using List.find?_some hfind
    rw [hid]
    exact hfind
  cases call with
  | enrol fresh tenant body createdBy =>
    simp only [step]
    split
    · rename_i henrol
      exact enrol_inv h henrol
    · exact h
  | suspend tenant slug => exact suspend_inv h tenant slug
  | issue now fresh tenant body createdBy =>
    simp only [step, issue]
    split
    · rename_i hissue
      split at hissue
      · cases hissue
      · rename_i c hc
        exact (issueTo_ok hissue).inv h (List.mem_of_find?_eq_some hc)
    · exact h
  | accept now caller order signature =>
    simp only [step, byCaller]
    split
    · exact h
    · rename_i o ho
      exact accept_inv h now (hfound ho) signature
  | read now caller order =>
    simp only [step, byCaller]
    split
    · exact h
    · exact read_inv h now _
  | propose now fresh caller order target value note =>
    simp only [step, byCaller]
    split
    · exact h
    · exact propose_inv h now fresh _ target value note
  | handBack now caller order summary =>
    simp only [step, byCaller]
    split
    · exact h
    · exact handBack_inv h now _ summary
  | revoke now tenant order reason =>
    simp only [step, revokeOrder]
    split
    · rename_i hrevoke
      split at hrevoke
      · cases hrevoke
      · exact revoke_inv h hrevoke
    · exact h

/-! ## what a run discloses -/

/-- an order of the installation that is live and permits the verb, of a party that is active and
was enrolled for its ceiling, and whose acceptance, where it has one, is signed by the party -/
structure UnderOrder (S : Setup) (db : Db) (now : Int) (verb : Verb) (o : WorkOrder) : Prop where
  found : o ∈ db.orders
  opened : o.status ∈ OPEN_STATUSES
  unrevoked : o.revokedAt = none
  unexpired : now < o.expiresAt
  permitted : verb.text ∈ o.allowedActions
  party : ∃ c ∈ db.counterparties, c.status = .active ∧ Enrolled S c o

def Disclosing (S : Setup) (db : Db) : Call → Prop
  | .read now caller order => ∀ view, (byCaller caller order (read S now) db).2 = .ok view →
    ∃ o, UnderOrder S db now .read o ∧ o.id = order ∧ view.ceiling = o.ceiling
  | .propose now fresh caller order target value note => ∀ proposal,
    (byCaller caller order (fun o => propose S now fresh o target value note) db).2 =
      .ok proposal →
    ∃ o, UnderOrder S db now .propose o ∧ o.id = order ∧ proposal.caseId = o.caseId
  | _ => True

theorem underOrder_of_guard (h : Inv S db) {now : Int} {o : WorkOrder} (ho : o ∈ db.orders)
    {verb : Verb} {db' : Db} {c : Counterparty} (hguard : guard S now o verb db = (db', .ok c)) :
    UnderOrder S db now verb o := by
  obtain ⟨-, hactive, hopen, hlive, hverb⟩ := guard_ok hguard
  obtain ⟨hc, hid, hstatus⟩ := mem_of_active hactive
  obtain ⟨c', hc', henrolled⟩ := h.enrolled o ho
  have hsame : c' = c :=
    List.inj_on_of_nodup_map h.parties hc' hc (henrolled.same.trans hid.symm)
  subst hsame
  exact ⟨ho, hopen, h.unrevoked o ho hopen, hlive, hverb, c', hc', hstatus, henrolled⟩

theorem byCaller_ok {ρ : Type} {caller order : Uuid} {verb : WorkOrder → Db → Db × Except String ρ}
    {r : ρ} (h : (byCaller caller order verb db).2 = .ok r) :
    ∃ o ∈ db.orders, o.id = order ∧ (verb o db).2 = .ok r := by
  rw [byCaller] at h
  split at h
  · cases h
  · rename_i o ho
    obtain ⟨hfind, -⟩ := Option.filter_eq_some_iff.mp ho
    exact ⟨o, List.mem_of_find?_eq_some hfind, by simpa using List.find?_some hfind, h⟩

theorem disclosing (h : Inv S db) (call : Call) : Disclosing S db call := by
  cases call with
  | read now caller order =>
    intro view hview
    obtain ⟨o, ho, hid, hread⟩ := byCaller_ok hview
    rw [read] at hread
    split at hread
    · cases hread
    · rename_i db' c hguard
      split at hread
      · cases hread
      · cases hread
        exact ⟨o, underOrder_of_guard h ho hguard, hid, rfl⟩
  | propose now fresh caller order target value note =>
    intro proposal hproposal
    obtain ⟨o, ho, hid, hpropose⟩ := byCaller_ok hproposal
    rw [propose] at hpropose
    split at hpropose
    · cases hpropose
    · rename_i db' c hguard
      split at hpropose
      · cases hpropose
      · rename_i case hcase
        dsimp only at hpropose
        split at hpropose
        · cases hpropose
        · cases hpropose
          refine ⟨o, underOrder_of_guard h ho hguard, hid, ?_⟩
          show case.id = o.caseId
          simpa using List.find?_some hcase
  | enrol | suspend | issue | accept | handBack | revoke => trivial

/-! ## no case is stuck -/

/-- a request that asks for what may be granted, to a party that is active, and whose token can be
minted -/
structure Proper (S : Setup) (db : Db) (now : Int) (fresh : Fresh) (tenant : Uuid) (body : IssueIn)
    (createdBy : Option String) (c : Counterparty) : Prop where
  party : db.counterparty tenant body.counterparty = some c
  active : c.status = .active
  ceiling : ∃ requested, rankText S body.ceiling = .ok requested
  verbs : body.allowedActions ≠ []
  known : ∀ a ∈ body.allowedActions, a ∈ ACTIONS
  case : body.caseId ∈ db.cases.map (·.id)
  ttl : 0 < ttlOf body.ttlMinutes ∧ ttlOf body.ttlMinutes ≤ MAX_TTL_MINUTES
  token : ∃ token, externalAgentToken S now fresh.agent fresh.grant c body.caseId
    (min (ttlOf body.ttlMinutes) S.agentTokenMaxTtlMinutes) createdBy db = .ok token
  fresh : fresh.order ∉ db.orders.map (·.id)

theorem mem_verbsOf {allowed : List String} {a : String} : a ∈ verbsOf allowed ↔ a ∈ allowed := by
  rw [verbsOf, List.mem_insertionSort, List.mem_dedup]

theorem issue_ok {now : Int} {fresh : Fresh} {tenant : Uuid} {body : IssueIn}
    {createdBy : Option String} {c : Counterparty}
    (h : Proper S db now fresh tenant body createdBy c)
    (hfree : db.openOrder body.caseId = none) :
    ∃ db' o, issue S now fresh tenant body createdBy db = .ok (db', o) := by
  obtain ⟨requested, hrank⟩ := h.ceiling
  obtain ⟨⟨db₁, agent, grant⟩, htoken⟩ := h.token
  have hunknown : ¬(verbsOf body.allowedActions).filter (· ∉ ACTIONS) ≠ [] := by
    rw [not_not, List.filter_eq_nil_iff]
    intro a ha
    simpa using h.known a (mem_verbsOf.mp ha)
  have hverbs : verbsOf body.allowedActions ≠ [] := by
    obtain ⟨a, ha⟩ := List.exists_mem_of_ne_nil _ h.verbs
    exact List.ne_nil_of_mem (mem_verbsOf.mpr ha)
  have hfresh : fresh.order ∉ db₁.orders.map (·.id) := by
    rw [(externalAgentToken_orders htoken).2]
    exact h.fresh
  have httl : ¬(ttlOf body.ttlMinutes ≤ 0 ∨ ttlOf body.ttlMinutes > MAX_TTL_MINUTES) := by
    have := h.ttl
    omega
  rw [issue, h.party]
  dsimp only
  rw [issueTo, if_neg (not_not.mpr h.active), hrank]
  dsimp only
  rw [if_neg hunknown, if_neg hverbs, if_neg (not_not.mpr h.case), hfree, if_neg (by decide),
    if_neg httl, htoken]
  dsimp only
  rw [if_neg hfresh]
  exact ⟨_, _, rfl⟩

theorem revoke_frees (h : Inv S db) {o : WorkOrder} (ho : o ∈ db.orders)
    (hopen : o.status ∈ OPEN_STATUSES) (now : Int) (reason : String) :
    ∃ db', revokeOrder now o.tenantId o.id reason db = .ok db' ∧
      db'.openOrder o.caseId = none := by
  have hfind : db.order o.id = some o := (find?_key_iff h.ids).mpr ⟨ho, rfl⟩
  have hmine : (some o).filter (fun p => decide (p.tenantId = o.tenantId)) = some o := by simp
  rw [revokeOrder, hfind, hmine]
  dsimp only
  rw [revoke, if_neg (not_not.mpr hopen)]
  refine ⟨_, rfl, ?_⟩
  rw [Db.openOrder, List.find?_eq_none]
  intro p' hp' hboth
  obtain ⟨hcase, hopen'⟩ := of_decide_eq_true hboth
  obtain ⟨p, hp, rfl⟩ := List.mem_map.mp hp'
  by_cases hid : p.id = o.id
  · rw [if_pos hid] at hopen'
    have hclosed : Status.revoked ∉ OPEN_STATUSES := by decide
    exact hclosed hopen'
  · rw [if_neg hid] at hcase hopen'
    exact hid (h.single p hp o ho hopen' hopen hcase)

/-- a case without an open order can be issued one, and an open order can be revoked, which leaves
its case without one -/
structure Unstuck (S : Setup) (db : Db) : Prop where
  issues : ∀ now fresh tenant body createdBy c, Proper S db now fresh tenant body createdBy c →
    db.openOrder body.caseId = none →
    ∃ db' o, issue S now fresh tenant body createdBy db = .ok (db', o)
  frees : ∀ o ∈ db.orders, o.status ∈ OPEN_STATUSES → ∀ now reason, ∃ db',
    revokeOrder now o.tenantId o.id reason db = .ok db' ∧ db'.openOrder o.caseId = none

/-! ## runs -/

/-- an installation that has handed over nothing yet -/
def Db.unused (db : Db) : Db := { db with counterparties := [], orders := [] }

theorem unused_inv (db : Db) : Inv S db.unused where
  parties := List.nodup_nil
  ids := List.nodup_nil
  enrolled := fun _ h => nomatch h
  unrevoked := fun _ h => nomatch h
  single := fun _ h => nomatch h

theorem disclosed_under_order (S : Setup) (db : Db) (calls : List Call) :
    Along (step S) (Disclosing S) db.unused calls ∧
      Always (step S) (fun db => OneOpen db ∧ Unstuck S db) db.unused calls := by
  have hinv := unused_inv (S := S) db
  constructor
  · exact along_of_inv (fun _ call h => inv_step h call) (fun _ call h => disclosing h call) calls
      hinv
  · intro done left _
    have h : Inv S (exec (step S) db.unused done) :=
      exec_inv' (I := Inv S) (fun _ call h => inv_step h call) done hinv
    exact ⟨h.single, fun _ _ _ _ _ _ hproper hfree => issue_ok hproper hfree,
      fun _ ho hopen now reason => revoke_frees h ho hopen now reason⟩

/-! ## an order that nobody accepted -/

/-- texts of one byte a character are their own bytes, and every signature is the key -/
def plain : Setup where
  toRuntime := Runtime.silent
  b64decode := fun text => some (text.toList.map fun c => UInt8.ofNat c.toNat)
  sha256Raw := fun _ => ""
  ed25519 := fun key signature _ => key == signature
  sign := fun _ _ => none
  agentTokensEnabled := true
  agentTokenMaxTtlMinutes := 60
  agentTokenDefaultTtlMinutes := 15

def oneCase : Db where
  counterparties := []
  orders := []
  cases := [{ id := 7, tenantId := 1, caseTypeId := 2, data := .dict [("amount", .int 5)] }]

def partner : EnrolIn :=
  { slug := "partner", displayName := "Partner", publicKey := "k".pushn 'k' 31 }

def handOver : IssueIn := { caseId := 7, counterparty := "partner" }

/-- an order of one hour, from the time `0` -/
def issuedOnce : List Call :=
  [.enrol 3 1 partner none, .issue 0 ⟨4, 5, 6⟩ 1 handOver none]

/-- the case is read under an order that was never accepted, and an order that has expired keeps
the case from being issued another -/
theorem read_before_accept :
    ((exec (step plain) oneCase.unused issuedOnce).orders.map fun o =>
        (o.status, o.acceptanceSignature, o.expiresAt)) =
      [(.issued, none, minutes 60)] ∧
    ((byCaller 5 4 (read plain 1) (exec (step plain) oneCase.unused issuedOnce)).2.map fun view =>
        view.disclosed).toOption = some ["amount"] ∧
    (issue plain (minutes 61) ⟨8, 9, 10⟩ 1 handOver none
        (exec (step plain) oneCase.unused issuedOnce)).toOption.isSome = false := by
  decide +kernel

end Handoff.Orders
