import Velaris.Base.Table
import Velaris.Bots.Definition

/-!
# The bot queue

The rows of `bot_jobs`, and the steps that runners, requests and the clock take on them. A step is
what happens between two points where another session can come in: a read, or a write with its
commit.

* `BotJob`, `Tracked`   a job's row; beside it the leases given on it and the results taken;
* `candidates`, `atCapacity`   what `lease_next` selects and counts;
* `Phase`   where a runner is in `lease_next`, `_execute` and `requeue_or_fail`;
* `Act`, `step`   the steps.
-/

namespace Bots.Queue

open Py Base

inductive JobStatus where
  | queued
  | leased
  | running
  | succeeded
  | failed
  | timedOut
  | cancelled
  deriving DecidableEq

def TERMINAL_STATUSES : List JobStatus := [.succeeded, .failed, .timedOut, .cancelled]

def RETRY_BACKOFF_SECONDS : List Int := [60, 300, 1800]

def MAX_ATTEMPTS : Nat := RETRY_BACKOFF_SECONDS.length

def JobStatus.live (s : JobStatus) : Bool := s = .leased || s = .running

structure BotJob where
  id : Nat
  tenantId : String
  botId : Nat
  status : JobStatus := .queued
  attempt : Nat := 0
  leaseExpiresAt : Option Int := none
  runAfter : Option Int := none
  resultToken : Option Nat := none
  resultTokenUsedAt : Option Int := none
  error : String := ""

structure Lease where
  runner : Nat
  attempt : Nat
  expires : Int

/-- a row, the leases on it that were not given back, how many were given, and how many results
were accepted -/
structure Tracked extends BotJob where
  leases : List Lease := []
  granted : Nat := 0
  accepted : Nat := 0

/-- what is held fixed: the definitions, the limits, and whether the database locks rows and reads
what was committed last -/
structure Limits where
  /-- `max_concurrency` of a definition that exists -/
  maxConcurrency : Nat → Option Nat
  tenantOf : Nat → String
  /-- a tenant's own row in `bot_tenant_limits` -/
  tenantRow : String → Option Nat
  bot_tenant_max_concurrent : Nat := 4
  rowLocks : Bool

section
variable (L : Limits)

def Limits.tenantLimit (tenant : String) : Nat :=
  match L.tenantRow tenant with
  | some n => if 0 < n then n else max 1 L.bot_tenant_max_concurrent
  | none => max 1 L.bot_tenant_max_concurrent

/-! ## what `lease_next` reads -/

def runnable (now : Int) (job : BotJob) : Bool :=
  (job.status = .queued || job.status = .leased) && job.runAfter.all (· ≤ now)

/-- the rows stand in the order of `queued_at` -/
def candidates (now : Int) (jobs : List Tracked) : List BotJob :=
  ((jobs.map Tracked.toBotJob).filter (runnable now)).take 50

def expired (now : Int) (job : BotJob) : Bool :=
  job.status = .leased && job.leaseExpiresAt.all (· ≤ now)

/-- `_live_jobs` of a bot -/
def botLive (jobs : List Tracked) (bot exclude : Nat) : Nat :=
  jobs.countP fun j => (j.status.live && j.botId = bot) && j.id ≠ exclude

/-- `_live_jobs` of a tenant -/
def tenantLive (jobs : List Tracked) (tenant : String) (exclude : Nat) : Nat :=
  jobs.countP fun j => (j.status.live && j.tenantId = tenant) && j.id ≠ exclude

def atCapacity (jobs : List Tracked) (bot maxConcurrency exclude : Nat) : Bool :=
  max 1 maxConcurrency ≤ botLive jobs bot exclude ||
    L.tenantLimit (L.tenantOf bot) ≤ tenantLive jobs (L.tenantOf bot) exclude

end

/-! ## the state -/

inductive Phase where
  | idle
  /-- with the candidates it has still to look at, as it selected them -/
  | scanning (now : Int) (rest : List BotJob)
  /-- the limits left a slot for the first of them -/
  | weighed (now : Int) (job : BotJob) (rest : List BotJob)
  | leased (job attempt : Nat)
  /-- `_execute` holds the row as it read it -/
  | loaded (job attempt read : Nat)
  | running (job attempt read : Nat)
  /-- about to write what `requeue_or_fail` decides on the attempt it read -/
  | retiring (job attempt read : Nat)

structure State where
  jobs : List Tracked := []
  clock : Int := 0
  phase : Nat → Phase := fun _ => .idle
  /-- the runner that has locked a definition's row -/
  locked : Nat → Option Nat := fun _ => none
  minted : Nat := 0
  /-- the results that passed the checks of `redeem_result` -/
  redeeming : List Nat := []
  cancelling : List Nat := []

namespace State

def row (s : State) (job : Nat) : Option Tracked := s.jobs.find? fun j => j.id = job

def goto (s : State) (r : Nat) (phase : Phase) : State :=
  { s with phase := Function.update s.phase r phase }

def write (s : State) (job : Nat) (f : Tracked → Tracked) : State :=
  { s with jobs := modify (fun j : Tracked => j.id) job f s.jobs }

/-- the end of a transaction -/
def release (s : State) (r : Nat) : State :=
  { s with locked := fun b => if s.locked b = some r then none else s.locked b }

end State

/-! ## the writes -/

namespace Tracked

def claimed (r : Nat) (now : Int) (j : Tracked) : Tracked :=
  { j with
    status := .leased
    leaseExpiresAt := some (now + seconds 600)
    attempt := j.attempt + 1
    leases := ⟨r, j.attempt + 1, now + seconds 600⟩ :: j.leases
    granted := j.granted + 1 }

/-- `mint_result_token`, and `running` -/
def started (token : Nat) (j : Tracked) : Tracked :=
  { j with status := .running, resultToken := some token, resultTokenUsedAt := none }

/-- `fail`; a job that is over has no leases -/
def ended (status : JobStatus) (error : String) (j : Tracked) : Tracked :=
  { j with status := status, error := String.ofList (error.toList.take 2000), leases := [] }

/-- `RETRY_BACKOFF_SECONDS[min(attempt, MAX_ATTEMPTS - 1) - 1]` -/
def delay (attempt : Nat) : Int :=
  match min attempt (MAX_ATTEMPTS - 1) with
  | 0 => RETRY_BACKOFF_SECONDS.getLastD 0
  | n + 1 => RETRY_BACKOFF_SECONDS.getD n 0

/-- back to the queue; the runner's lease is over -/
def requeued (attempt read : Nat) (now : Int) (error : String) (j : Tracked) : Tracked :=
  { j with
    status := .queued
    leaseExpiresAt := none
    runAfter := some (now + seconds (delay read))
    error := String.ofList (error.toList.take 2000)
    leases := j.leases.filter fun l => l.attempt ≠ attempt }

/-- the result is stored; where the schema refuses it the job has failed -/
def redeemed (now : Int) (refused : Option String) (j : Tracked) : Tracked :=
  match refused with
  | some error => { j.ended .failed error with resultTokenUsedAt := some now }
  | none =>
    { j with
      status := .succeeded
      resultTokenUsedAt := some now
      leases := []
      accepted := j.accepted + 1 }

end Tracked

/-! ## the steps -/

inductive Act where
  | tick (microseconds : Nat)
  | enqueue (id bot : Nat) (runAfter : Option Int)
  /-- `lease_next` reads the candidates -/
  | select (r : Nat)
  /-- it looks at the next of them, locks its definition and counts -/
  | weigh (r : Nat)
  /-- its conditional UPDATE, and the commit -/
  | claim (r : Nat)
  | load (r : Nat)
  | start (r : Nat)
  /-- the bot is not active, or a credential or the deployment refuses -/
  | refuse (r : Nat) (error : String)
  | cannotStart (r : Nat)
  /-- the runner stops waiting and reads the job -/
  | timeOut (r : Nat)
  | retire (r : Nat) (error : String)
  | crash (r : Nat)
  /-- `redeem_result` reads the job and checks the token -/
  | present (job : Nat) (token : Option Nat)
  | redeem (job : Nat) (refused : Option String)
  | askCancel (job : Nat)
  | cancel (job : Nat)

section
variable (L : Limits) (s : State)

/-- `_locked_definition` has to wait -/
def State.waits (r bot : Nat) : Bool :=
  L.rowLocks && (s.locked bot).any (· ≠ r)

def State.lock (r bot : Nat) : State :=
  if L.rowLocks then { s with locked := Function.update s.locked bot (some r) } else s

/-- the limits, for a candidate that is queued or expired -/
def State.weigh (r : Nat) (now : Int) (job : BotJob) (rest : List BotJob) : State :=
  match L.maxConcurrency job.botId with
  | none => s.goto r (.weighed now job rest)
  | some n =>
    if s.waits L r job.botId then s
    else if atCapacity L s.jobs job.botId n job.id then
      (s.lock L r job.botId).goto r (.scanning now rest)
    else (s.lock L r job.botId).goto r (.weighed now job rest)

/-- `UPDATE … WHERE id = … AND status = …` of what was selected -/
def State.claim (r : Nat) (now : Int) (job : BotJob) (rest : List BotJob) : State :=
  match s.row job.id with
  | none => s.goto r (.scanning now rest)
  | some j =>
    if j.status = job.status then
      ((s.write job.id (Tracked.claimed r now)).release r).goto r (.leased job.id (j.attempt + 1))
    else s.goto r (.scanning now rest)

def step : Act → State
  | .tick n => { s with clock := s.clock + n }
  | .enqueue id bot runAfter =>
    if (s.row id).isSome then s
    else
      { s with jobs := s.jobs ++
          [{ id := id, tenantId := L.tenantOf bot, botId := bot, runAfter := runAfter }] }
  | .select r =>
    match s.phase r with
    | .idle => s.goto r (.scanning s.clock (candidates s.clock s.jobs))
    | _ => s
  | .weigh r =>
    match s.phase r with
    | .scanning _ [] => (s.release r).goto r .idle
    | .scanning now (job :: rest) =>
      if job.status = .queued ∨ expired now job then s.weigh L r now job rest
      else s.goto r (.scanning now rest)
    | _ => s
  | .claim r =>
    match s.phase r with
    | .weighed now job rest => s.claim r now job rest
    | _ => s
  | .load r =>
    match s.phase r with
    | .leased job attempt =>
      match s.row job with
      | some j => s.goto r (.loaded job attempt j.attempt)
      | none => s.goto r .idle
    | _ => s
  | .start r =>
    match s.phase r with
    | .loaded job attempt read =>
      { (s.write job (Tracked.started s.minted)).goto r (.running job attempt read) with
        minted := s.minted + 1 }
    | _ => s
  | .refuse r error =>
    match s.phase r with
    | .leased job _ | .loaded job _ _ | .running job _ _ =>
      (s.write job (Tracked.ended .failed error)).goto r .idle
    | _ => s
  | .cannotStart r =>
    match s.phase r with
    | .loaded job attempt read | .running job attempt read => s.goto r (.retiring job attempt read)
    | _ => s
  | .timeOut r =>
    match s.phase r with
    | .running job attempt _ =>
      match s.row job with
      | some j =>
        if j.status ∈ TERMINAL_STATUSES then s.goto r .idle
        else s.goto r (.retiring job attempt j.attempt)
      | none => s.goto r .idle
    | _ => s
  | .retire r error =>
    match s.phase r with
    | .retiring job attempt read =>
      if MAX_ATTEMPTS ≤ read then (s.write job (Tracked.ended .failed error)).goto r .idle
      else (s.write job (Tracked.requeued attempt read s.clock error)).goto r .idle
    | _ => s
  | .crash r => (s.release r).goto r .idle
  | .present job token =>
    match s.row job with
    | some j =>
      if token.isSome ∧ token = j.resultToken ∧ j.resultTokenUsedAt = none ∧
          j.status ∉ TERMINAL_STATUSES then
        { s with redeeming := job :: s.redeeming }
      else s
    | none => s
  | .redeem job refused =>
    if job ∈ s.redeeming then
      { s.write job (Tracked.redeemed s.clock refused) with redeeming := s.redeeming.erase job }
    else s
  | .askCancel job =>
    match s.row job with
    | some j =>
      if j.status ∈ TERMINAL_STATUSES then s else { s with cancelling := job :: s.cancelling }
    | none => s
  | .cancel job =>
    if job ∈ s.cancelling then
      { s.write job (Tracked.ended .cancelled "Cancelled by an operator.") with
        cancelling := s.cancelling.erase job }
    else s

end

end Bots.Queue
