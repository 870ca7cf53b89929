import Velaris.Base.Table
import Velaris.Py.Value
import Mathlib.Logic.Function.Basic

/-!
# The index queue

`case_service/hxnexus/index_queue.py`, with the erasure of `case_service/compliance/retention.py`.
Any number of workers drain the queue and any number of erasures run; a step is what happens between
two points where another of them can come in.

* `Job`, `ChunkSet`   a row of the queue, and the chunks that one run has made;
* `Run`, `Phase`, `Erasure`  what a worker and an erasure hold between their steps;
* `finish`   `_finish`, where the unique index may refuse it;
* `Act`, `step`   the steps.
-/

namespace HxNexus

open Py Base

inductive Status where
  | pending | running | done | failed | cancelled
  deriving DecidableEq

def Status.active : Status → Bool
  | .pending | .running => true
  | .done | .failed | .cancelled => false

/-- `DocumentIndexJobModel` -/
structure Job where
  id : Uuid
  documentId : Uuid
  caseId : Option Uuid
  status : Status
  /-- the document, while the job is pending or running; unique -/
  activeKey : Option Uuid
  attempts : Nat := 0
  maxAttempts : Nat := 3
  reindex : Bool
  /-- a `staged_storage_key` is set -/
  staged : Bool
  startedAt : Option Int := none

/-- the rows of `DocumentChunkModel` that one call of `index_document` has committed -/
structure ChunkSet where
  run : Nat
  documentId : Uuid
  caseId : Option Uuid
  count : Nat
  /-- the run started before its case was anonymized -/
  early : Bool
  deriving DecidableEq

structure Run where
  run : Nat
  jobId : Uuid
  documentId : Uuid
  caseId : Option Uuid
  attempts : Nat
  maxAttempts : Nat
  reindex : Bool
  staged : Bool
  early : Bool
  deriving DecidableEq

/-- where a worker is in `run_one` -/
inductive Phase where
  | idle
  | claimed (run : Run)
  /-- the row is read again -/
  | refreshed (run : Run)
  /-- the case may be indexed -/
  | passed (run : Run)
  /-- the chunks to be dropped are marked and the bytes are read; nothing is committed -/
  | opened (run : Run) (stale : List Nat)
  /-- the outcome is not written yet, nor are the chunks dropped that are still marked -/
  | ending (run : Run) (status : Status) (stale : List Nat)
  deriving DecidableEq

def Phase.run : Phase → Option Run
  | .idle => none
  | .claimed run | .refreshed run | .passed run | .opened run _ | .ending run _ _ => some run

/-- a transaction of `_anonymize_cases`: the chunks that its DELETE has seen, and the jobs that it
has selected -/
structure Erasure where
  caseIds : List Uuid
  runs : List Nat
  jobs : List Uuid

structure State where
  now : Int := 0
  /-- the cases that carry `ANON_MARKER` -/
  anonymized : List Uuid := []
  jobs : List Job := []
  chunks : List ChunkSet := []
  runs : Nat := 0
  workers : Nat → Phase := fun _ => .idle
  erasures : Nat → Option Erasure := fun _ => none

def State.goto (s : State) (w : Nat) (phase : Phase) : State :=
  { s with workers := Function.update s.workers w phase }

def State.setErasure (s : State) (e : Nat) (erasure : Option Erasure) : State :=
  { s with erasures := Function.update s.erasures e erasure }

def State.isAnonymized (s : State) (caseId : Option Uuid) : Bool :=
  caseId.any (· ∈ s.anonymized)

/-! ## the rows -/

def insert (id documentId : Uuid) (caseId : Option Uuid) (reindex staged : Bool) : Job where
  id := id
  documentId := documentId
  caseId := caseId
  status := .pending
  activeKey := some documentId
  reindex := reindex
  staged := staged

def Job.claim (j : Job) (now : Int) : Job :=
  { j with
    status := .running
    startedAt := some now
    attempts := j.attempts + 1 }

def Job.start (j : Job) (run : Nat) (early : Bool) : Run where
  run := run
  jobId := j.id
  documentId := j.documentId
  caseId := j.caseId
  attempts := j.attempts + 1
  maxAttempts := j.maxAttempts
  reindex := j.reindex
  staged := j.staged
  early := early

/-- the row once more: what may have changed since the claim -/
def Run.refresh (run : Run) (j : Job) : Run :=
  { run with
    attempts := j.attempts
    reindex := j.reindex }

def Run.chunkSet (run : Run) (count : Nat) : ChunkSet where
  run := run.run
  documentId := run.documentId
  caseId := run.caseId
  count := count
  early := run.early

def Job.finish (documentId : Uuid) (status : Status) (j : Job) : Job :=
  { j with
    status := status
    activeKey := if status = .pending then some documentId else none }

def taken (jobId documentId : Uuid) (jobs : List Job) : Bool :=
  jobs.any fun k => k.id ≠ jobId && k.activeKey = some documentId

/-- `_finish`; an `IntegrityError` leaves the row as it was -/
def finish (jobId documentId : Uuid) (status : Status) (jobs : List Job) : List Job :=
  if status = .pending ∧ taken jobId documentId jobs = true then jobs
  else modify Job.id jobId (Job.finish documentId status) jobs

def Job.reclaim (cutoff : Int) (j : Job) : Job :=
  if j.status = .running ∧ j.startedAt.any (· < cutoff) = true then { j with status := .pending }
  else j

/-- `_discard_queued_uploads_for`, at its commit -/
def Job.discard (ids : List Uuid) (j : Job) : Job :=
  if j.id ∈ ids then
    { j with
      status := .cancelled
      activeKey := none }
  else j

def Run.stale (run : Run) (chunks : List ChunkSet) : List Nat :=
  if run.reindex && !run.staged then
    (chunks.filter fun x => x.documentId = run.documentId).map ChunkSet.run
  else []

def dropped (runs : List Nat) (chunks : List ChunkSet) : List ChunkSet :=
  chunks.filter fun x => x.run ∉ runs

def State.erasure (s : State) (caseIds : List Uuid) : Erasure where
  caseIds := caseIds
  runs := (s.chunks.filter fun x => x.caseId.any (· ∈ caseIds)).map ChunkSet.run
  jobs := (s.jobs.filter fun j =>
    j.caseId.any (· ∈ caseIds) && j.status = .pending && j.staged).map Job.id

/-! ## the steps -/

inductive Act where
  | tick (d : Nat)
  | enqueue (id documentId : Uuid) (caseId : Option Uuid) (reindex staged : Bool)
  /-- an `enqueue_document` with `reindex` that has found the job active -/
  | widen (id : Uuid)
  /-- `abandon_staged` -/
  | abandon (id : Uuid)
  | claim (w : Nat) (id : Uuid)
  | refresh (w : Nat)
  /-- `_refused_now`, where the subject has a lawful basis or not -/
  | check (w : Nat) (lawful : Bool)
  /-- the document is gone, or has no version -/
  | giveUp (w : Nat)
  | open (w : Nat)
  /-- `index_document` commits this many chunks, or none and commits nothing -/
  | index (w : Nat) (count : Nat)
  | fail (w : Nat)
  | finish (w : Nat)
  | crash (w : Nat)
  | reclaimStale (olderThan : Nat)
  | erase (e : Nat) (caseIds : List Uuid)
  | commitErase (e : Nat)
  | abortErase (e : Nat)

def step (s : State) : Act → State
  | .tick d => { s with now := s.now + d }
  | .enqueue id documentId caseId reindex staged =>
    if s.jobs.any fun j => j.id = id || j.activeKey = some documentId then s
    else { s with jobs := s.jobs ++ [insert id documentId caseId reindex staged] }
  | .widen id => { s with jobs := modify Job.id id (fun j => { j with reindex := true }) s.jobs }
  | .abandon id =>
    match s.jobs.find? (·.id = id) with
    | some j => { s with jobs := finish id j.documentId .cancelled s.jobs }
    | none => s
  | .claim w id =>
    match s.workers w, s.jobs.find? fun j => j.id = id && j.status = .pending with
    | .idle, some j =>
      { s with
        jobs := modify Job.id id (·.claim s.now) s.jobs
        runs := s.runs + 1 }.goto w (.claimed (j.start s.runs !(s.isAnonymized j.caseId)))
    | _, _ => s
  | .refresh w =>
    match s.workers w with
    | .claimed run =>
      match s.jobs.find? (·.id = run.jobId) with
      | some j => s.goto w (.refreshed (run.refresh j))
      | none => s
    | _ => s
  | .check w lawful =>
    match s.workers w with
    | .refreshed run =>
      if s.isAnonymized run.caseId || run.caseId.isSome && !lawful then
        s.goto w (.ending run .failed [])
      else s.goto w (.passed run)
    | _ => s
  | .giveUp w =>
    match s.workers w with
    | .passed run => if run.staged then s else s.goto w (.ending run .failed [])
    | _ => s
  | .open w =>
    match s.workers w with
    | .passed run => s.goto w (.opened run (run.stale s.chunks))
    | _ => s
  | .index w count =>
    match s.workers w with
    | .opened run stale =>
      if count = 0 then s.goto w (.ending run .done stale)
      else { s with chunks := dropped stale s.chunks ++ [run.chunkSet count] }.goto w
        (.ending run .done [])
    | _ => s
  | .fail w =>
    match s.workers w with
    | .opened run _ =>
      s.goto w (.ending run (if run.maxAttempts ≤ run.attempts then .failed else .pending) [])
    | _ => s
  | .finish w =>
    match s.workers w with
    | .ending run status stale =>
      { s with
        jobs := finish run.jobId run.documentId status s.jobs
        chunks := dropped stale s.chunks }.goto w .idle
    | _ => s
  | .crash w => s.goto w .idle
  | .reclaimStale olderThan => { s with jobs := s.jobs.map (·.reclaim (s.now - olderThan)) }
  | .erase e caseIds =>
    match s.erasures e with
    | none => s.setErasure e (some (s.erasure caseIds))
    | some _ => s
  | .commitErase e =>
    match s.erasures e with
    | some erasure =>
      { s with
        anonymized := s.anonymized ++ erasure.caseIds
        jobs := s.jobs.map (Job.discard erasure.jobs)
        chunks := dropped erasure.runs s.chunks }.setErasure e none
    | none => s
  | .abortErase e => s.setErasure e none

end HxNexus
