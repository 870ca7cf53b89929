import Velaris.Bots.Queue
import Velaris.Base.Run

/-!
# Leases are exclusive and bounded

* `Bounded`   what is to hold of the queue at every moment;
* `Allowed`   the steps after which it still holds;
* `JobOk`, `PhaseOk`, `Inv`   a row, a runner, and the whole state;
* `Inv.write`, `Inv.goto`   what a write, and a runner's own move, preserve;
* `inv_step`   one step;
* `bounded_run`   a run.
-/

namespace Bots.Queue

open Py Base

def botSlots (jobs : List Tracked) (bot : Nat) : Nat :=
  jobs.countP fun j => j.status.live && j.botId = bot

def tenantSlots (jobs : List Tracked) (tenant : String) : Nat :=
  jobs.countP fun j => j.status.live && j.tenantId = tenant

section
variable (L : Limits)

structure Bounded (s : State) : Prop where
  exclusive : ∀ j ∈ s.jobs, ∀ l ∈ j.leases, ∀ m ∈ j.leases,
    s.clock < l.expires → s.clock < m.expires → l.runner = m.runner
  perBot : ∀ bot n, L.maxConcurrency bot = some n → botSlots s.jobs bot ≤ max 1 n
  perTenant : ∀ tenant, tenantSlots s.jobs tenant ≤ L.tenantLimit tenant
  attempts : ∀ j ∈ s.jobs, j.granted ≤ MAX_ATTEMPTS
  results : ∀ j ∈ s.jobs, j.accepted ≤ 1

/-! ## the steps that keep it -/

/-- An expired lease that is taken over is still expired, and its job has an attempt left; a queued
job that is taken still has a slot. -/
def ClaimFits (s : State) (now : Int) (seen : BotJob) (j : Tracked) : Prop :=
  (j.status = .leased → expired now j.toBotJob = true ∧ j.attempt < MAX_ATTEMPTS) ∧
  (j.status = .queued →
    tenantLive s.jobs j.tenantId seen.id < L.tenantLimit j.tenantId ∧
    (L.rowLocks = false →
      ∀ n ∈ L.maxConcurrency seen.botId, botLive s.jobs seen.botId seen.id < max 1 n))

instance (s : State) (now : Int) (seen : BotJob) (j : Tracked) :
    Decidable (ClaimFits L s now seen j) :=
  inferInstanceAs (Decidable ((_ → _ ∧ _) ∧ (_ → _ ∧ (_ → _))))

def MayClaim (s : State) : Phase → Prop
  | .weighed now seen _ => ∀ j ∈ s.row seen.id, j.status = seen.status → ClaimFits L s now seen j
  | _ => True

/-- the row is still at the attempt that the runner leased -/
def MayStart (s : State) : Phase → Prop
  | .loaded job attempt _ => ∀ j ∈ s.row job, j.status = .leased ∧ j.attempt = attempt
  | _ => True

/-- the same for a job that is taken back, since the row was read -/
def MayRetire (s : State) : Phase → Prop
  | .retiring job attempt read =>
    ∀ j ∈ s.row job, j.status.live = true ∧ j.attempt = attempt ∧ read = attempt
  | _ => True

instance (s : State) : ∀ phase, Decidable (MayClaim L s phase)
  | .weighed now seen _ =>
    inferInstanceAs (Decidable (∀ j ∈ s.row seen.id, _ → ClaimFits L s now seen j))
  | .idle | .scanning _ _ | .leased _ _ | .loaded _ _ _ | .running _ _ _ | .retiring _ _ _ =>
    isTrue trivial

instance (s : State) : ∀ phase, Decidable (MayStart s phase)
  | .loaded job _ _ => inferInstanceAs (Decidable (∀ j ∈ s.row job, _ ∧ _))
  | .idle | .scanning _ _ | .weighed _ _ _ | .leased _ _ | .running _ _ _ | .retiring _ _ _ =>
    isTrue trivial

instance (s : State) : ∀ phase, Decidable (MayRetire s phase)
  | .retiring job _ _ => inferInstanceAs (Decidable (∀ j ∈ s.row job, _ ∧ _ ∧ _))
  | .idle | .scanning _ _ | .weighed _ _ _ | .leased _ _ | .loaded _ _ _ | .running _ _ _ =>
    isTrue trivial

/-- A claim that takes a job fits; a runner starts, and takes back, the attempt it leased; a result
is stored while the job is open. -/
def MayStep (s : State) : Act → Prop
  | .claim r => MayClaim L s (s.phase r)
  | .start r => MayStart s (s.phase r)
  | .retire r _ => MayRetire s (s.phase r)
  | .redeem job _ => ∀ j ∈ s.row job, j.status ∉ TERMINAL_STATUSES
  | _ => True

instance (s : State) : ∀ a, Decidable (MayStep L s a)
  | .claim r => inferInstanceAs (Decidable (MayClaim L s (s.phase r)))
  | .start r => inferInstanceAs (Decidable (MayStart s (s.phase r)))
  | .retire r _ => inferInstanceAs (Decidable (MayRetire s (s.phase r)))
  | .redeem job _ => inferInstanceAs (Decidable (∀ j ∈ s.row job, j.status ∉ TERMINAL_STATUSES))
  | .tick _ | .enqueue _ _ _ | .select _ | .weigh _ | .load _ | .refuse _ _ | .cannotStart _
  | .timeOut _ | .crash _ | .present _ _ | .askCancel _ | .cancel _ => isTrue trivial

end

/-! ## one row -/

structure JobOk (clock : Int) (j : Tracked) : Prop where
  granted : j.granted = j.attempt
  bounded : j.attempt ≤ MAX_ATTEMPTS
  retries : j.status = .queued → j.attempt < MAX_ATTEMPTS
  results : j.accepted ≤ 1
  unanswered : j.status ∉ TERMINAL_STATUSES → j.accepted = 0
  older : ∀ l ∈ j.leases, l.attempt ≤ j.attempt
  current : ∀ l ∈ j.leases, clock < l.expires →
    j.status.live = true ∧ j.leaseExpiresAt = some l.expires ∧ l.attempt = j.attempt
  distinct : (j.leases.map Lease.attempt).Nodup

section
variable {clock : Int} {j : Tracked}

theorem JobOk.later (h : JobOk clock j) {clock' : Int} (hle : clock ≤ clock') :
    JobOk clock' j := by
  refine ⟨h.granted, h.bounded, h.retries, h.results, h.unanswered, h.older, ?_, h.distinct⟩
  intro l hl hlt
  exact h.current l hl (lt_of_le_of_lt hle hlt)

theorem JobOk.exclusive (h : JobOk clock j) {l m : Lease} (hl : l ∈ j.leases)
    (hm : m ∈ j.leases) (hl' : clock < l.expires) (hm' : clock < m.expires) : l = m := by
  have hsame : l.attempt = m.attempt :=
    (h.current l hl hl').2.2.trans (h.current m hm hm').2.2.symm
  exact List.inj_on_of_nodup_map h.distinct hl hm hsame

/-- no lease on it is running: it is queued, or what was leased has expired -/
theorem JobOk.claimed (h : JobOk clock j) {now : Int} (hnow : now ≤ clock) (r : Nat)
    (hopen : j.status = .queued ∨
      j.status = .leased ∧ expired now j.toBotJob = true ∧ j.attempt < MAX_ATTEMPTS) :
    JobOk clock (j.claimed r now) := by
  have hleft : j.attempt < MAX_ATTEMPTS := hopen.elim h.retries fun hl => hl.2.2
  have hpast : ∀ l ∈ j.leases, ¬ clock < l.expires := by
    intro l hl hlt
    obtain ⟨hlive, hexpires, -⟩ := h.current l hl hlt
    rcases hopen with hq | ⟨-, hexp, -⟩
    · rw [hq] at hlive
      cases hlive
    · rw [expired, hexpires, Bool.and_eq_true] at hexp
      have hle : l.expires ≤ now := by simpa using hexp.2
      omega
  have hnonterminal : j.status ∉ TERMINAL_STATUSES := by
    rcases hopen with hq | ⟨hl, -⟩
    · rw [hq]
      decide
    · rw [hl]
      decide
  refine ⟨?_, hleft, ?_, h.results, fun _ => h.unanswered hnonterminal, ?_, ?_, ?_⟩
  · show j.granted + 1 = j.attempt + 1
    rw [h.granted]
  · intro hq
    cases hq
  · intro l hl
    rcases List.mem_cons.1 hl with rfl | hl
    · exact le_refl _
    · exact le_trans (h.older l hl) (Nat.le_succ _)
  · intro l hl hlt
    rcases List.mem_cons.1 hl with rfl | hl
    · exact ⟨rfl, rfl, rfl⟩
    · exact absurd hlt (hpast l hl)
  · show ((j.attempt + 1) :: j.leases.map Lease.attempt).Nodup
    refine List.nodup_cons.2 ⟨?_, h.distinct⟩
    intro hmem
    obtain ⟨l, hl, heq⟩ := List.mem_map.1 hmem
    have hle := h.older l hl
    omega

theorem JobOk.started (h : JobOk clock j) (token : Nat) (hleased : j.status = .leased) :
    JobOk clock (j.started token) := by
  refine ⟨h.granted, h.bounded, fun hq => (nomatch hq), h.results, fun _ => h.unanswered ?_,
    h.older, ?_, h.distinct⟩
  · rw [hleased]
    decide
  · intro l hl hlt
    exact ⟨rfl, (h.current l hl hlt).2⟩

theorem JobOk.ended (h : JobOk clock j) (status : JobStatus) (error : String)
    (hover : status ∈ TERMINAL_STATUSES) : JobOk clock (j.ended status error) := by
  refine ⟨h.granted, h.bounded, ?_, h.results, fun hopen => absurd hover hopen,
    fun _ hl => (nomatch hl), fun _ hl => (nomatch hl), List.nodup_nil⟩
  intro hq
  obtain rfl : status = .queued := hq
  exact absurd hover (by decide)

theorem JobOk.requeued (h : JobOk clock j) {attempt read : Nat} (now : Int) (error : String)
    (hlive : j.status.live = true) (hattempt : j.attempt = attempt)
    (hleft : attempt < MAX_ATTEMPTS) :
    JobOk clock (j.requeued attempt read now error) := by
  have hopen : j.status ∉ TERMINAL_STATUSES := by
    cases hs : j.status <;> rw [hs] at hlive <;> revert hlive <;> decide
  refine ⟨h.granted, h.bounded, fun _ => ?_, h.results, fun _ => h.unanswered hopen, ?_, ?_, ?_⟩
  · show j.attempt < MAX_ATTEMPTS
    rwa [hattempt]
  · intro l hl
    exact h.older l (List.mem_filter.1 hl).1
  · intro l hl hlt
    obtain ⟨hl, hne⟩ := List.mem_filter.1 hl
    have hcurrent := (h.current l hl hlt).2.2
    rw [hcurrent, hattempt] at hne
    simp at hne
  · exact h.distinct.sublist (List.filter_sublist.map _)

theorem JobOk.redeemed (h : JobOk clock j) (now : Int) (refused : Option String)
    (hopen : j.status ∉ TERMINAL_STATUSES) : JobOk clock (j.redeemed now refused) := by
  cases refused with
  | some error =>
    have hended := h.ended .failed error (by decide)
    exact ⟨hended.granted, hended.bounded, hended.retries, hended.results, hended.unanswered,
      hended.older, hended.current, hended.distinct⟩
  | none =>
    refine ⟨h.granted, h.bounded, fun hq => (nomatch hq), ?_, fun hs => absurd ?_ hs,
      fun _ hl => (nomatch hl), fun _ hl => (nomatch hl), List.nodup_nil⟩
    · show j.accepted + 1 ≤ 1
      rw [h.unanswered hopen]
    · show JobStatus.succeeded ∈ TERMINAL_STATUSES
      decide

end

/-! ## the state -/

/-- a selected job, as far as it does not change: the row is there, and is of its bot -/
def Sighted (s : State) (seen : BotJob) : Prop :=
  ∃ j, s.row seen.id = some j ∧ j.botId = seen.botId

section
variable (L : Limits)

/-- a candidate that was weighed under the lock of its definition has its slot -/
def Holds (s : State) (r : Nat) (seen : BotJob) : Prop :=
  L.rowLocks = true → ∀ n, L.maxConcurrency seen.botId = some n →
    s.locked seen.botId = some r ∧ botLive s.jobs seen.botId seen.id < max 1 n

def PhaseOk (s : State) (r : Nat) : Phase → Prop
  | .scanning now rest => now ≤ s.clock ∧ ∀ seen ∈ rest, Sighted s seen
  | .weighed now seen rest =>
    (now ≤ s.clock ∧ (seen.status = .queued ∨ seen.status = .leased)) ∧
      (∀ x ∈ seen :: rest, Sighted s x) ∧ Holds L s r seen
  | _ => True

structure Inv (s : State) : Prop where
  nodup : (s.jobs.map fun j => j.id).Nodup
  jobs : ∀ j ∈ s.jobs, JobOk s.clock j
  perBot : ∀ bot n, L.maxConcurrency bot = some n → botSlots s.jobs bot ≤ max 1 n
  perTenant : ∀ tenant, tenantSlots s.jobs tenant ≤ L.tenantLimit tenant
  phases : ∀ r, PhaseOk L s r (s.phase r)

structure Keeps (f : Tracked → Tracked) : Prop where
  id : ∀ j, (f j).id = j.id
  botId : ∀ j, (f j).botId = j.botId
  tenantId : ∀ j, (f j).tenantId = j.tenantId

end

section
variable {L : Limits} {s : State}

theorem Inv.bounded (h : Inv L s) : Bounded L s := by
  refine ⟨?_, h.perBot, h.perTenant, ?_, fun j hj => (h.jobs j hj).results⟩
  · intro j hj l hl m hm hl' hm'
    rw [(h.jobs j hj).exclusive hl hm hl' hm']
  · intro j hj
    rw [(h.jobs j hj).granted]
    exact (h.jobs j hj).bounded

theorem Inv.row_mem (h : Inv L s) {job : Nat} {j : Tracked} :
    s.row job = some j ↔ j ∈ s.jobs ∧ j.id = job :=
  find?_key_iff h.nodup

theorem Inv.row_eq (h : Inv L s) {job : Nat} {j : Tracked} (hj : j ∈ s.jobs) (hid : j.id = job) :
    s.row job = some j := h.row_mem.2 ⟨hj, hid⟩

/-! ## what a write changes -/

variable {f : Tracked → Tracked} {job : Nat}

theorem row_write (hf : Keeps f) (l : Nat) :
    (s.write job f).row l = (s.row l).map fun j => if j.id = job then f j else j :=
  find?_modify hf.id l

theorem Sighted.write (hf : Keeps f) {seen : BotJob} (h : Sighted s seen) :
    Sighted (s.write job f) seen := by
  obtain ⟨j, hj, hbot⟩ := h
  refine ⟨if j.id = job then f j else j, ?_, ?_⟩
  · rw [row_write hf, hj]
    rfl
  · split
    · exact (hf.botId j).trans hbot
    · exact hbot

/-- a write after which no other job holds a slot -/
def Frees (s : State) (job : Nat) (f : Tracked → Tracked) : Prop :=
  ∀ j ∈ s.jobs, j.id = job → (f j).status.live = true → j.status.live = true

theorem Frees.botLive (hf : Keeps f) (h : Frees s job f) (bot exclude : Nat) :
    botLive (s.write job f).jobs bot exclude ≤ botLive s.jobs bot exclude := by
  apply countP_modify_le
  intro j hj hid hp
  rw [hf.id, hf.botId, Bool.and_eq_true, Bool.and_eq_true] at hp
  rw [Bool.and_eq_true, Bool.and_eq_true]
  exact ⟨⟨h j hj hid hp.1.1, hp.1.2⟩, hp.2⟩

theorem Frees.botSlots (hf : Keeps f) (h : Frees s job f) (bot : Nat) :
    botSlots (s.write job f).jobs bot ≤ botSlots s.jobs bot := by
  apply countP_modify_le
  intro j hj hid hp
  rw [hf.botId, Bool.and_eq_true] at hp
  rw [Bool.and_eq_true]
  exact ⟨h j hj hid hp.1, hp.2⟩

theorem Frees.tenantSlots (hf : Keeps f) (h : Frees s job f) (tenant : String) :
    tenantSlots (s.write job f).jobs tenant ≤ tenantSlots s.jobs tenant := by
  apply countP_modify_le
  intro j hj hid hp
  rw [hf.tenantId, Bool.and_eq_true] at hp
  rw [Bool.and_eq_true]
  exact ⟨h j hj hid hp.1, hp.2⟩

/-- where a runner is stays right when its candidates are sighted still, and its slot is free -/
theorem PhaseOk.mono {t : State} {r : Nat} {phase : Phase} (h : PhaseOk L s r phase)
    (hclock : s.clock ≤ t.clock) (hsight : ∀ seen, Sighted s seen → Sighted t seen)
    (hhold : ∀ seen, Holds L s r seen → Holds L t r seen) : PhaseOk L t r phase := by
  cases phase with
  | scanning now rest => exact ⟨le_trans h.1 hclock, fun seen hseen => hsight seen (h.2 seen hseen)⟩
  | weighed now seen rest =>
    exact ⟨⟨le_trans h.1.1 hclock, h.1.2⟩, fun x hx => hsight x (h.2.1 x hx), hhold seen h.2.2⟩
  | idle | leased _ _ | loaded _ _ _ | running _ _ _ | retiring _ _ _ => trivial

theorem Inv.write (h : Inv L s) (hf : Keeps f) (hfrees : Frees s job f)
    (hok : ∀ j ∈ s.jobs, j.id = job → JobOk s.clock (f j)) : Inv L (s.write job f) := by
  refine ⟨?_, ?_, ?_, ?_, ?_⟩
  · show ((modify (fun j : Tracked => j.id) job f s.jobs).map fun j => j.id).Nodup
    rw [map_key_modify hf.id]
    exact h.nodup
  · exact forall_modify h.jobs fun j hj hid _ => hok j hj hid
  · intro bot n hn
    exact le_trans (hfrees.botSlots hf bot) (h.perBot bot n hn)
  · intro tenant
    exact le_trans (hfrees.tenantSlots hf tenant) (h.perTenant tenant)
  · intro r
    refine (h.phases r).mono (le_refl _) (fun seen hseen => hseen.write hf) ?_
    intro seen hhold hlocks n hn
    exact ⟨(hhold hlocks n hn).1,
      lt_of_le_of_lt (hfrees.botLive hf seen.botId seen.id) (hhold hlocks n hn).2⟩

theorem Inv.goto (h : Inv L s) {r : Nat} {phase : Phase} (hphase : PhaseOk L s r phase) :
    Inv L (s.goto r phase) := by
  refine ⟨h.nodup, h.jobs, h.perBot, h.perTenant, ?_⟩
  intro r'
  show PhaseOk L s r' (Function.update s.phase r phase r')
  by_cases hr : r' = r
  · subst hr
    rw [Function.update_self]
    exact hphase
  · rw [Function.update_of_ne hr]
    exact h.phases r'

theorem Inv.release_goto (h : Inv L s) {r : Nat} {phase : Phase}
    (hphase : ∀ t : State, PhaseOk L t r phase) : Inv L ((s.release r).goto r phase) := by
  refine ⟨h.nodup, h.jobs, h.perBot, h.perTenant, ?_⟩
  intro r'
  show PhaseOk L (s.release r) r' (Function.update s.phase r phase r')
  by_cases hr : r' = r
  · subst hr
    rw [Function.update_self]
    exact hphase _
  · rw [Function.update_of_ne hr]
    refine (h.phases r').mono (le_refl _) (fun _ hseen => hseen) ?_
    intro seen hhold hlocks n hn
    refine ⟨?_, (hhold hlocks n hn).2⟩
    show (if s.locked seen.botId = some r then none else s.locked seen.botId) = some r'
    rw [(hhold hlocks n hn).1, if_neg]
    exact fun heq => hr (Option.some.inj heq)

theorem Inv.lock (h : Inv L s) {r bot : Nat} (hfree : s.waits L r bot = false) :
    Inv L (s.lock L r bot) := by
  rw [State.lock]
  split
  swap
  · exact h
  rename_i hlocks
  refine ⟨h.nodup, h.jobs, h.perBot, h.perTenant, ?_⟩
  intro r'
  refine (h.phases r').mono (le_refl _) (fun _ hseen => hseen) ?_
  intro seen hhold hlocks' n hn
  refine ⟨?_, (hhold hlocks' n hn).2⟩
  have hold := (hhold hlocks' n hn).1
  show Function.update s.locked bot (some r) seen.botId = some r'
  by_cases hbot : seen.botId = bot
  · -- the lock was free or its own
    rw [← hbot, Function.update_self]
    rw [State.waits, hlocks, Bool.true_and, ← hbot, hold] at hfree
    have heq : r' = r := by simpa using hfree
    rw [heq]
  · rw [Function.update_of_ne hbot]
    exact hold

/-! ## the claim -/

theorem keeps_claimed (r : Nat) (now : Int) : Keeps (Tracked.claimed r now) :=
  ⟨fun _ => rfl, fun _ => rfl, fun _ => rfl⟩

variable {r : Nat} {now : Int} {seen : BotJob} {rest : List BotJob} {j : Tracked}

theorem Inv.frees (h : Inv L s) (hrow : s.row job = some j)
    (hlive : (f j).status.live = true → j.status.live = true) : Frees s job f := by
  intro x hx hid hp
  obtain rfl : j = x := Option.some.inj (hrow.symm.trans (h.row_eq hx hid))
  exact hlive hp

theorem Inv.slots_claimed (h : Inv L s) (hrow : s.row seen.id = some j)
    (hphase : PhaseOk L s r (.weighed now seen rest)) (hfits : ClaimFits L s now seen j)
    (hopen : j.status = .queued ∨ j.status = .leased) {bot n : Nat}
    (hn : L.maxConcurrency bot = some n) :
    botSlots (s.write seen.id (Tracked.claimed r now)).jobs bot ≤ max 1 n := by
  have hbot : j.botId = seen.botId := by
    obtain ⟨x, hx, hbot⟩ := hphase.2.1 seen List.mem_cons_self
    rw [Option.some.inj (hrow.symm.trans hx)]
    exact hbot
  rcases hopen with hq | hl
  · by_cases hb : bot = seen.botId
    · -- a queued job is one more, and there was a slot
      obtain rfl := hb
      have hslot : botLive s.jobs seen.botId seen.id < max 1 n := by
        cases hlocks : L.rowLocks with
        | true => exact (hphase.2.2 hlocks n hn).2
        | false => exact (hfits.2 hq).2 hlocks n hn
      have hsucc : botSlots (s.write seen.id (Tracked.claimed r now)).jobs seen.botId ≤
          botLive s.jobs seen.botId seen.id + 1 := countP_modify_le_succ h.nodup
      exact le_trans hsucc hslot
    · refine le_trans ?_ (h.perBot bot n hn)
      apply countP_modify_le
      intro x hx hid hp
      obtain rfl : j = x := Option.some.inj (hrow.symm.trans (h.row_eq hx hid))
      rw [Bool.and_eq_true, decide_eq_true_eq] at hp
      exact absurd (hp.2.symm.trans hbot) hb
  · have hfrees : Frees s seen.id (Tracked.claimed r now) := h.frees hrow fun _ => by rw [hl]; rfl
    exact le_trans (hfrees.botSlots (keeps_claimed r now) bot) (h.perBot bot n hn)

theorem Inv.tenant_claimed (h : Inv L s) (hrow : s.row seen.id = some j)
    (hfits : ClaimFits L s now seen j) (hopen : j.status = .queued ∨ j.status = .leased)
    (tenant : String) :
    tenantSlots (s.write seen.id (Tracked.claimed r now)).jobs tenant ≤ L.tenantLimit tenant := by
  rcases hopen with hq | hl
  · by_cases ht : tenant = j.tenantId
    · obtain rfl := ht
      have hsucc : tenantSlots (s.write seen.id (Tracked.claimed r now)).jobs j.tenantId ≤
          tenantLive s.jobs j.tenantId seen.id + 1 := countP_modify_le_succ h.nodup
      exact le_trans hsucc (hfits.2 hq).1
    · refine le_trans ?_ (h.perTenant tenant)
      apply countP_modify_le
      intro x hx hid hp
      obtain rfl : j = x := Option.some.inj (hrow.symm.trans (h.row_eq hx hid))
      rw [Bool.and_eq_true, decide_eq_true_eq] at hp
      exact absurd hp.2.symm ht
  · have hfrees : Frees s seen.id (Tracked.claimed r now) := h.frees hrow fun _ => by rw [hl]; rfl
    exact le_trans (hfrees.tenantSlots (keeps_claimed r now) tenant) (h.perTenant tenant)

theorem Inv.holds_claimed (h : Inv L s) (hrow : s.row seen.id = some j)
    (hphase : PhaseOk L s r (.weighed now seen rest)) {r' : Nat} {other : BotJob}
    (hhold : Holds L s r' other)
    (hmine : r' = r → other = seen) :
    Holds L (s.write seen.id (Tracked.claimed r now)) r' other := by
  intro hlocks n hn
  obtain ⟨hlocked, hslot⟩ := hhold hlocks n hn
  refine ⟨hlocked, lt_of_le_of_lt ?_ hslot⟩
  have hbot : j.botId = seen.botId := by
    obtain ⟨x, hx, hbot⟩ := hphase.2.1 seen List.mem_cons_self
    rw [Option.some.inj (hrow.symm.trans hx)]
    exact hbot
  apply countP_modify_le
  intro x hx hid hp
  obtain rfl : j = x := Option.some.inj (hrow.symm.trans (h.row_eq hx hid))
  rw [Bool.and_eq_true, Bool.and_eq_true, decide_eq_true_eq, decide_eq_true_eq] at hp
  have hsame : other.botId = seen.botId := hp.1.2.symm.trans hbot
  -- one runner has the lock
  rw [hsame] at hlocked hn
  have hmylock := (hphase.2.2 hlocks n hn).1
  have hr : r' = r := Option.some.inj (hlocked.symm.trans hmylock)
  rw [hmine hr] at hp
  exact absurd hid hp.2

theorem Inv.claim (h : Inv L s) (hphase : s.phase r = .weighed now seen rest)
    (hallowed : MayStep L s (.claim r)) : Inv L (s.claim r now seen rest) := by
  have hok := h.phases r
  rw [hphase] at hok
  rw [MayStep, hphase] at hallowed
  rw [State.claim]
  have hback : Inv L (s.goto r (.scanning now rest)) :=
    h.goto ⟨hok.1.1, fun x hx => hok.2.1 x (List.mem_cons_of_mem _ hx)⟩
  cases hrow : s.row seen.id with
  | none => exact hback
  | some j =>
    show Inv L (if j.status = seen.status then _ else _)
    by_cases hsame : j.status = seen.status
    · rw [if_pos hsame]
      have hfits := hallowed j hrow hsame
      have hopen : j.status = .queued ∨ j.status = .leased := by
        rw [hsame]
        exact hok.1.2
      refine Inv.release_goto ⟨?_, ?_, ?_, ?_, ?_⟩ fun _ => trivial
      · show ((modify (fun j : Tracked => j.id) seen.id _ s.jobs).map fun j => j.id).Nodup
        rw [map_key_modify (keeps_claimed r now).id]
        exact h.nodup
      · refine forall_modify h.jobs fun x hx hid hx' => ?_
        obtain rfl : j = x := Option.some.inj (hrow.symm.trans (h.row_eq hx hid))
        refine hx'.claimed hok.1.1 r ?_
        exact hopen.imp_right fun hl => ⟨hl, hfits.1 hl⟩
      · intro bot n hn
        exact h.slots_claimed hrow hok hfits hopen hn
      · exact h.tenant_claimed hrow hfits hopen
      · intro r'
        have hother := h.phases r'
        cases hp : s.phase r' with
        | weighed now' other rest' =>
          show PhaseOk L (s.write seen.id (Tracked.claimed r now)) r' (s.phase r')
          rw [hp] at hother ⊢
          refine ⟨hother.1, fun x hx => (hother.2.1 x hx).write (keeps_claimed r now), ?_⟩
          refine h.holds_claimed hrow hok hother.2.2 fun hr => ?_
          rw [hr, hphase] at hp
          exact ((Phase.weighed.inj hp).2.1).symm
        | scanning now' rest' =>
          show PhaseOk L (s.write seen.id (Tracked.claimed r now)) r' (s.phase r')
          rw [hp] at hother ⊢
          exact ⟨hother.1, fun x hx => (hother.2 x hx).write (keeps_claimed r now)⟩
        | idle | leased _ _ | loaded _ _ _ | running _ _ _ | retiring _ _ _ =>
          show PhaseOk L (s.write seen.id (Tracked.claimed r now)) r' (s.phase r')
          rw [hp]
          trivial
    · rw [if_neg hsame]
      exact hback

/-! ## the other steps -/

theorem Inv.tick (h : Inv L s) (n : Nat) : Inv L { s with clock := s.clock + n } := by
  have hle : s.clock ≤ s.clock + n := by omega
  exact ⟨h.nodup, fun j hj => (h.jobs j hj).later hle, h.perBot, h.perTenant,
    fun r => (h.phases r).mono hle (fun _ hseen => hseen) fun _ hhold => hhold⟩

theorem jobOk_new (clock : Int) (id bot : Nat) (tenant : String) (runAfter : Option Int) :
    JobOk clock { id := id, tenantId := tenant, botId := bot, runAfter := runAfter } :=
  ⟨rfl, Nat.zero_le _, fun _ => show 0 < MAX_ATTEMPTS by decide, Nat.zero_le _, fun _ => rfl,
    fun _ hl => (nomatch hl), fun _ hl => (nomatch hl), List.nodup_nil⟩

theorem Inv.append (h : Inv L s) {new : Tracked} (hnew : JobOk s.clock new)
    (hqueued : new.status = .queued) (hfresh : s.row new.id = none) :
    Inv L { s with jobs := s.jobs ++ [new] } := by
  have hcount : ∀ p : Tracked → Bool, p new = false →
      (s.jobs ++ [new]).countP p = s.jobs.countP p := by
    intro p hp
    rw [List.countP_append, List.countP_singleton, hp]
    rfl
  have hlive : new.status.live = false := by rw [hqueued]; rfl
  refine ⟨?_, ?_, ?_, ?_, ?_⟩
  · show ((s.jobs ++ [new]).map fun j => j.id).Nodup
    rw [List.map_append, List.nodup_append]
    refine ⟨h.nodup, List.nodup_singleton _, ?_⟩
    intro a ha b hb
    obtain ⟨j, hj, rfl⟩ := List.mem_map.1 ha
    obtain rfl := List.mem_singleton.1 hb
    exact find?_key_eq_none.1 hfresh j hj
  · intro j hj
    rcases List.mem_append.1 hj with hj | hj
    · exact h.jobs j hj
    · obtain rfl := List.mem_singleton.1 hj
      exact hnew
  · intro bot n hn
    refine le_trans (le_of_eq (hcount _ ?_)) (h.perBot bot n hn)
    simp [hlive]
  · intro tenant
    refine le_trans (le_of_eq (hcount _ ?_)) (h.perTenant tenant)
    simp [hlive]
  · intro r
    refine (h.phases r).mono (le_refl _) ?_ ?_
    · rintro seen ⟨j, hj, hbot⟩
      refine ⟨j, ?_, hbot⟩
      show (s.jobs ++ [new]).find? _ = some j
      rw [List.find?_append]
      exact congrArg (Option.or · _) hj
    · intro seen hhold hlocks n hn
      refine ⟨(hhold hlocks n hn).1, ?_⟩
      refine lt_of_le_of_lt (le_of_eq (hcount _ ?_)) (hhold hlocks n hn).2
      simp [hlive]

theorem Inv.select (h : Inv L s) (r : Nat) :
    Inv L (s.goto r (.scanning s.clock (candidates s.clock s.jobs))) := by
  refine h.goto ⟨le_refl _, fun seen hseen => ?_⟩
  obtain ⟨j, hj, rfl⟩ := List.mem_map.1 (List.mem_filter.1 (List.mem_of_mem_take hseen)).1
  exact ⟨j, h.row_eq hj rfl, rfl⟩

theorem Inv.weigh (h : Inv L s) (hphase : PhaseOk L s r (.scanning now (seen :: rest)))
    (hopen : seen.status = .queued ∨ expired now seen = true) :
    Inv L (s.weigh L r now seen rest) := by
  have hstatus : seen.status = .queued ∨ seen.status = .leased := by
    refine hopen.imp_right fun hexp => ?_
    rw [expired, Bool.and_eq_true, decide_eq_true_eq] at hexp
    exact hexp.1
  rw [State.weigh]
  cases hn : L.maxConcurrency seen.botId with
  | none =>
    refine h.goto ⟨⟨hphase.1, hstatus⟩, hphase.2, ?_⟩
    intro _ n hn'
    rw [hn] at hn'
    cases hn'
  | some n =>
    show Inv L (if s.waits L r seen.botId = true then _ else _)
    by_cases hwaits : s.waits L r seen.botId = true
    · rw [if_pos hwaits]
      exact h
    rw [if_neg hwaits]
    have hlock : Inv L (s.lock L r seen.botId) := h.lock (by simpa using hwaits)
    have hjobs : (s.lock L r seen.botId).jobs = s.jobs := by
      rw [State.lock]
      split <;> rfl
    have hclock : (s.lock L r seen.botId).clock = s.clock := by
      rw [State.lock]
      split <;> rfl
    have hsight : ∀ x ∈ seen :: rest, Sighted (s.lock L r seen.botId) x := by
      intro x hx
      obtain ⟨j, hj, hbot⟩ := hphase.2 x hx
      refine ⟨j, ?_, hbot⟩
      rw [State.row, hjobs]
      exact hj
    by_cases hfull : atCapacity L s.jobs seen.botId n seen.id = true
    · rw [if_pos hfull]
      exact hlock.goto ⟨hclock.symm ▸ hphase.1, fun x hx => hsight x (List.mem_cons_of_mem _ hx)⟩
    · rw [if_neg hfull]
      refine hlock.goto ⟨⟨hclock.symm ▸ hphase.1, hstatus⟩, hsight, ?_⟩
      intro hlocks m hm
      obtain rfl : n = m := Option.some.inj (hn.symm.trans hm)
      refine ⟨?_, ?_⟩
      · rw [State.lock, if_pos hlocks]
        exact Function.update_self _ _ _
      · rw [hjobs]
        rw [atCapacity, Bool.or_eq_true, decide_eq_true_eq, not_or] at hfull
        exact not_le.1 hfull.1

theorem keeps_started (token : Nat) : Keeps (Tracked.started token) :=
  ⟨fun _ => rfl, fun _ => rfl, fun _ => rfl⟩

theorem keeps_ended (status : JobStatus) (error : String) : Keeps (Tracked.ended status error) :=
  ⟨fun _ => rfl, fun _ => rfl, fun _ => rfl⟩

theorem keeps_requeued (attempt read : Nat) (now : Int) (error : String) :
    Keeps (Tracked.requeued attempt read now error) :=
  ⟨fun _ => rfl, fun _ => rfl, fun _ => rfl⟩

theorem keeps_redeemed (now : Int) (refused : Option String) :
    Keeps (Tracked.redeemed now refused) := by
  cases refused <;> exact ⟨fun _ => rfl, fun _ => rfl, fun _ => rfl⟩

theorem Inv.ended (h : Inv L s) (job : Nat) {status : JobStatus} (error : String)
    (hover : status ∈ TERMINAL_STATUSES) :
    Inv L (s.write job (Tracked.ended status error)) := by
  have hlive : status.live = false := by
    cases status <;> first | rfl | exact absurd hover (by decide)
  refine h.write (keeps_ended status error) ?_ fun j hj _ => (h.jobs j hj).ended status error hover
  intro j _ _ hp
  change status.live = true at hp
  rw [hlive] at hp
  cases hp

theorem inv_step (a : Act) (h : Inv L s) (hallowed : MayStep L s a) : Inv L (step L s a) := by
  cases a with
  | tick n => exact h.tick n
  | enqueue id bot runAfter =>
    rw [step]
    by_cases hid : (s.row id).isSome = true
    · rw [if_pos hid]
      exact h
    · rw [if_neg hid]
      exact h.append (jobOk_new s.clock id bot _ runAfter) rfl (by simpa using hid)
  | select r =>
    rw [step]
    cases s.phase r with
    | idle => exact h.select r
    | _ => exact h
  | weigh r =>
    have hok := h.phases r
    rw [step]
    cases hp : s.phase r with
    | scanning now rest =>
      rw [hp] at hok
      cases rest with
      | nil => exact h.release_goto fun _ => trivial
      | cons seen rest =>
        show Inv L (if seen.status = .queued ∨ expired now seen = true then _ else _)
        by_cases hopen : seen.status = .queued ∨ expired now seen = true
        · rw [if_pos hopen]
          exact h.weigh hok hopen
        · rw [if_neg hopen]
          exact h.goto ⟨hok.1, fun x hx => hok.2 x (List.mem_cons_of_mem _ hx)⟩
    | _ => exact h
  | claim r =>
    rw [step]
    cases hp : s.phase r with
    | weighed now seen rest => exact h.claim hp hallowed
    | _ => exact h
  | load r =>
    rw [step]
    cases s.phase r with
    | leased job attempt =>
      dsimp only
      cases s.row job <;> exact h.goto trivial
    | _ => exact h
  | start r =>
    rw [step]
    rw [MayStep] at hallowed
    cases hp : s.phase r with
    | loaded job attempt read =>
      rw [hp] at hallowed
      have hwrite : Inv L (s.write job (Tracked.started s.minted)) := by
        refine h.write (keeps_started _) ?_ ?_
        · intro j hj hid _
          rw [(hallowed j (h.row_eq hj hid)).1]
          rfl
        · intro j hj hid
          exact (h.jobs j hj).started _ (hallowed j (h.row_eq hj hid)).1
      have hgoto : Inv L ((s.write job (Tracked.started s.minted)).goto r
          (.running job attempt read)) := hwrite.goto trivial
      exact ⟨hgoto.nodup, hgoto.jobs, hgoto.perBot, hgoto.perTenant, hgoto.phases⟩
    | _ => exact h
  | refuse r error =>
    rw [step]
    cases s.phase r with
    | leased job _ => exact (h.ended job error (by decide)).goto trivial
    | loaded job _ _ => exact (h.ended job error (by decide)).goto trivial
    | running job _ _ => exact (h.ended job error (by decide)).goto trivial
    | _ => exact h
  | cannotStart r =>
    rw [step]
    cases s.phase r with
    | loaded _ _ _ => exact h.goto trivial
    | running _ _ _ => exact h.goto trivial
    | _ => exact h
  | timeOut r =>
    rw [step]
    cases s.phase r with
    | running job attempt _ =>
      dsimp only
      cases s.row job with
      | none => exact h.goto trivial
      | some j =>
        show Inv L (if j.status ∈ TERMINAL_STATUSES then _ else _)
        split <;> exact h.goto trivial
    | _ => exact h
  | retire r error =>
    rw [step]
    rw [MayStep] at hallowed
    cases hp : s.phase r with
    | retiring job attempt read =>
      rw [hp] at hallowed
      show Inv L (if MAX_ATTEMPTS ≤ read then _ else _)
      by_cases hlast : MAX_ATTEMPTS ≤ read
      · rw [if_pos hlast]
        exact (h.ended job error (by decide)).goto trivial
      · rw [if_neg hlast]
        refine Inv.goto (h.write (keeps_requeued attempt read s.clock error) ?_ ?_) trivial
        · intro _ _ _ hp
          cases hp
        · intro j hj hid
          obtain ⟨hlive, hattempt, hread⟩ := hallowed j (h.row_eq hj hid)
          exact (h.jobs j hj).requeued s.clock error hlive hattempt (hread ▸ not_le.1 hlast)
    | _ => exact h
  | crash r => exact h.release_goto fun _ => trivial
  | present job token =>
    rw [step]
    split
    · split
      · exact ⟨h.nodup, h.jobs, h.perBot, h.perTenant, h.phases⟩
      · exact h
    · exact h
  | redeem job refused =>
    rw [step]
    split
    swap
    · exact h
    have hwrite : Inv L (s.write job (Tracked.redeemed s.clock refused)) := by
      refine h.write (keeps_redeemed s.clock refused) ?_ ?_
      · intro j _ _ hp
        cases refused <;> cases hp
      · intro j hj hid
        exact (h.jobs j hj).redeemed s.clock refused (hallowed j (h.row_eq hj hid))
    exact ⟨hwrite.nodup, hwrite.jobs, hwrite.perBot, hwrite.perTenant, hwrite.phases⟩
  | askCancel job =>
    rw [step]
    split
    · split
      · exact h
      · exact ⟨h.nodup, h.jobs, h.perBot, h.perTenant, h.phases⟩
    · exact h
  | cancel job =>
    rw [step]
    split
    · have hended : Inv L (s.write job (Tracked.ended .cancelled "Cancelled by an operator.")) :=
        h.ended job _ (by decide)
      exact ⟨hended.nodup, hended.jobs, hended.perBot, hended.perTenant, hended.phases⟩
    · exact h

end

/-! ## runs -/

theorem inv_start (L : Limits) : Inv L {} :=
  ⟨List.nodup_nil, fun _ hj => (nomatch hj), fun _ _ _ => Nat.zero_le _, fun _ => Nat.zero_le _,
    fun _ => trivial⟩

/-- In every run of the queue whose steps are allowed, leases are exclusive, the limits are kept, no
job is leased more than `MAX_ATTEMPTS` times and at most one result of it is accepted. -/
theorem bounded_run (L : Limits) (acts : List Act) (h : Along (step L) (MayStep L) {} acts) :
    Always (step L) (Bounded L) {} acts := by
  intro before after hsplit
  rw [hsplit, along_append] at h
  exact (exec_inv (fun _ a hs ha => inv_step a hs ha) (inv_start L) h.1).bounded

/-! ## two runners -/

def oneBot : Limits where
  maxConcurrency := fun _ => some 1
  tenantOf := fun _ => "acme"
  tenantRow := fun _ => none
  rowLocks := true

/-- runner 0 takes the job, starts it, and the result comes -/
def answered : List Act :=
  [.enqueue 7 1 none, .select 0, .weigh 0, .claim 0, .load 0, .start 0, .present 7 (some 0),
    .redeem 7 none, .timeOut 0]

theorem answered_bounded :
    Along (step oneBot) (MayStep oneBot) {} answered ∧
      Always (step oneBot) (Bounded oneBot) {} answered := by
  have hallowed : Along (step oneBot) (MayStep oneBot) {} answered := by decide +kernel
  exact ⟨hallowed, bounded_run oneBot answered hallowed⟩

/-- runner 0 dies, and runners 1 and 2 both select its expired lease -/
def takenTwice : List Act :=
  [.enqueue 7 1 none, .select 0, .weigh 0, .claim 0, .crash 0, .tick 600000000, .select 1,
    .select 2, .weigh 1, .claim 1, .weigh 2, .claim 2]

def takenFourTimes : List Act :=
  .enqueue 7 1 none :: (List.replicate 4
    [.select 0, .weigh 0, .claim 0, .crash 0, .tick 600000000]).flatten

/-- two requests with the token of the job read it before either writes -/
def answeredTwice : List Act :=
  [.enqueue 7 1 none, .select 0, .weigh 0, .claim 0, .load 0, .start 0, .present 7 (some 0),
    .present 7 (some 0), .redeem 7 none, .redeem 7 none]

def oneSlot : Limits := { oneBot with tenantRow := fun _ => some 1 }

/-- Runner 1 selects job 8 of the one bot, runner 0 selects job 7 of the other while job 8 is
leased, and both weigh theirs when job 8 is back in the queue. -/
def slotTakenTwice : List Act :=
  [.enqueue 8 2 none, .select 1, .select 2, .weigh 2, .claim 2, .enqueue 7 1 none, .select 0,
    .load 2, .cannotStart 2, .retire 2 "no docker", .weigh 0, .weigh 0, .weigh 1, .claim 0,
    .claim 1]

theorem taken_twice :
    ¬ Always (step oneBot) (Bounded oneBot) {} takenTwice ∧
      ¬ Always (step oneSlot) (Bounded oneSlot) {} slotTakenTwice ∧
        ¬ Always (step oneBot) (Bounded oneBot) {} takenFourTimes ∧
          ¬ Always (step oneBot) (Bounded oneBot) {} answeredTwice := by
  refine ⟨?_, ?_, ?_, ?_⟩
  · intro h
    have hbounded := h takenTwice [] (List.append_nil _).symm
    have hpair : ∃ j ∈ (exec (step oneBot) {} takenTwice).jobs, ∃ l ∈ j.leases, ∃ m ∈ j.leases,
        (exec (step oneBot) {} takenTwice).clock < l.expires ∧
          (exec (step oneBot) {} takenTwice).clock < m.expires ∧ l.runner ≠ m.runner := by
      decide +kernel
    obtain ⟨j, hj, l, hl, m, hm, hl', hm', hne⟩ := hpair
    exact hne (hbounded.exclusive j hj l hl m hm hl' hm')
  · intro h
    have hbounded := h slotTakenTwice [] (List.append_nil _).symm
    exact absurd (hbounded.perTenant "acme") (by decide +kernel)
  · intro h
    have hbounded := h takenFourTimes [] (List.append_nil _).symm
    exact absurd hbounded.attempts (by decide +kernel)
  · intro h
    have hbounded := h answeredTwice [] (List.append_nil _).symm
    exact absurd hbounded.results (by decide +kernel)

end Bots.Queue
