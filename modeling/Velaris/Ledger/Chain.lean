import Velaris.Base.Run
import Velaris.Py.Value
import Velaris.Py.Runtime
import Velaris.SealedLog.Basic
import Mathlib.Algebra.Ring.Nat
import Mathlib.Data.List.Sort
import Mathlib.Data.List.Nodup

/-!
# The AI decision ledger

`case_service/ledger/chain.py`, with the rows that `records.py` writes.  One chain covers records
and verdicts; a verdict is a row of its own, sealed in whatever window it falls in, and deleted
with its record.

* `ledger`   the format of ledger rows;
* `purgeBefore`   the purge, with the verdicts it takes along;
* `Survives`, `CascadeFolded`   what the ledger owes its readers after a step, and what a purge owes
    the ledger.

Moments are microseconds.  SHA-256 and the canonical JSON text are parameters.
-/

namespace Ledger
open Py Base SealedLog

/-! ## rows -/

/-- the hashed columns of `ai_decision_records` -/
structure RecordFields where
  id : Uuid
  tenantId : Uuid
  agentId : Option Uuid := none
  agentSlug : Option String := none
  agentKind : Option String := none
  modelId : String
  providerClass : String := "local"
  purpose : String
  caseId : Option Uuid := none
  stepId : Option String := none
  inputSha256 : String
  inputDataClasses : List String := []
  outputSha256 : Option String := none
  promptSealed : Option String := none
  outputSealed : Option String := none
  confidence : Option ℚ := none
  latencyMs : Option ℚ := none
  arbiterDecisionId : Option Uuid := none
  recordedAt : Int
  deriving DecidableEq

structure RecordRow extends RecordFields where
  chainSequence : Option Nat := none

/-- the hashed columns of `ai_decision_verdicts` -/
structure VerdictFields where
  id : Uuid
  recordId : Uuid
  tenantId : Uuid
  verdict : String
  diffSha256 : Option String := none
  diffSealed : Option String := none
  reason : String := ""
  decidedBy : Option String := none
  decidedAt : Int
  deriving DecidableEq

structure VerdictRow extends VerdictFields where
  chainSequence : Option Nat := none

inductive Row where
  | record (r : RecordRow)
  | verdict (v : VerdictRow)

namespace Row

def stamp : Row → Int
  | record r => r.recordedAt
  | verdict v => v.decidedAt

def chainSequence : Row → Option Nat
  | record r => r.chainSequence
  | verdict v => v.chainSequence

def setSequence (n : Nat) : Row → Row
  | record r => record { r with chainSequence := some n }
  | verdict v => verdict { v with chainSequence := some n }

def record? : Row → Option RecordRow
  | record r => some r
  | verdict _ => none

def verdict? : Row → Option VerdictRow
  | record _ => none
  | verdict v => some v

end Row

def records (rows : List Row) : List RecordRow := rows.filterMap Row.record?

def verdicts (rows : List Row) : List VerdictRow := rows.filterMap Row.verdict?

section
variable (r : RecordRow) (v : VerdictRow) (rows : List Row)

@[simp] theorem records_nil : records [] = [] := rfl

@[simp] theorem records_record : records (.record r :: rows) = r :: records rows := rfl

@[simp] theorem records_verdict : records (.verdict v :: rows) = records rows := rfl

@[simp] theorem verdicts_nil : verdicts [] = [] := rfl

@[simp] theorem verdicts_record : verdicts (.record r :: rows) = verdicts rows := rfl

@[simp] theorem verdicts_verdict : verdicts (.verdict v :: rows) = v :: verdicts rows := rfl

@[simp] theorem mem_records : r ∈ records rows ↔ .record r ∈ rows := by
  induction rows with
  | nil => simp
  | cons row rows ih => cases row <;> simp [ih]

@[simp] theorem mem_verdicts : v ∈ verdicts rows ↔ .verdict v ∈ rows := by
  induction rows with
  | nil => simp
  | cons row rows ih => cases row <;> simp [ih]

theorem length_records_add_verdicts :
    (records rows).length + (verdicts rows).length = rows.length := by
  induction rows with
  | nil => rfl
  | cons row rows ih => cases row <;> simp <;> omega

end

/-! ## the batch hash -/

structure BatchPayload where
  windowStart : Int
  windowEnd : Int
  records : List RecordFields
  verdicts : List VerdictFields
  deriving DecidableEq

def batchPayload (rows : List Row) (windowStart windowEnd : Int) : BatchPayload where
  windowStart := windowStart
  windowEnd := windowEnd
  records := ((records rows).map (·.toRecordFields)).insertionSort fun a b => a.id ≤ b.id
  verdicts := ((verdicts rows).map (·.toVerdictFields)).insertionSort fun a b => a.id ≤ b.id

variable {γ δ : Type} (H : Hashing BatchPayload γ δ)

def computeBatchHash (prevHash : δ) (rows : List Row) (windowStart windowEnd : Int) : δ :=
  H.sha256 prevHash (H.canonical (batchPayload rows windowStart windowEnd))

/-- `record_count` and `verdict_count` -/
def counts (rows : List Row) : Nat × Nat := ((records rows).length, (verdicts rows).length)

def BATCH_SECONDS : Int := 60

def SETTLE_SECONDS : Int := 5

def MAX_BATCHES_PER_RUN : Nat := 1440

theorem records_setSequence (n : Nat) (rows : List Row) :
    records (rows.map (Row.setSequence n)) =
      (records rows).map fun r => { r with chainSequence := some n } := by
  induction rows with
  | nil => rfl
  | cons r rows ih => cases r <;> simp [Row.setSequence, ih]

theorem verdicts_setSequence (n : Nat) (rows : List Row) :
    verdicts (rows.map (Row.setSequence n)) =
      (verdicts rows).map fun v => { v with chainSequence := some n } := by
  induction rows with
  | nil => rfl
  | cons r rows ih => cases r <;> simp [Row.setSequence, ih]

def ledger : Format Row (Nat × Nat) δ where
  stamp := Row.stamp
  seq := Row.chainSequence
  setSeq := Row.setSequence
  counts := counts
  digest := computeBatchHash H
  genesis := H.genesis
  batchLength := seconds BATCH_SECONDS
  settle := seconds SETTLE_SECONDS
  maxBatches := MAX_BATCHES_PER_RUN
  seq_setSeq := fun n r => by cases r <;> rfl
  stamp_setSeq := fun n r => by cases r <;> rfl
  counts_setSeq := fun n rows => by
    simp [counts, records_setSequence, verdicts_setSequence]
  digest_setSeq := fun n prev rows ws we => by
    simp only [computeBatchHash, batchPayload, records_setSequence, verdicts_setSequence,
      List.map_map]
    rfl
  batchLength_pos := by decide

/-! ## verification -/

abbrev Log (δ : Type) := SealedLog.State Row (Nat × Nat) δ

def report : Verdict (Nat × Nat) δ → Bool × Option String
  | .missing expected found => (false, some ("sequence jumps from " ++ toString (expected - 1) ++
      " to " ++ toString found ++ ": a sealed batch is missing"))
  | .unlinked sequence => (false, some ("batch " ++ toString sequence ++
      " does not link to the one before it"))
  | .short sequence sealedCounts held => (false, some ("batch " ++ toString sequence ++
      " sealed " ++ toString sealedCounts.1 ++ " record(s) and " ++ toString sealedCounts.2 ++
      " verdict(s) and now holds " ++ toString held.1 ++ "/" ++ toString held.2 ++ ". If this " ++
      "was a retention purge, the batch was not tombstoned — which is a bug, not a purge."))
  | .altered sequence => (false, some ("batch " ++ toString sequence ++
      " does not match what was sealed"))
  | .ok [] => (true, none)
  | .ok pruned => (true, some ("verified; " ++ toString pruned.length ++
      " batch(es) were pruned by retention, removing " ++
      toString (pruned.map fun b => b.prunedCount.getD 0).sum ++ " record(s). Their content can " ++
      "no longer be re-derived — the chain still proves nothing was edited."))

theorem report_fst (v : Verdict (Nat × Nat) δ) : (report v).1 = v.isOk := by
  cases v with
  | ok pruned => cases pruned <;> rfl
  | _ => rfl

def verifyChain [DecidableEq δ] (log : Log δ) : Bool × Option String :=
  report (verify (ledger H) log)

/-! ## writing and purging -/

/-- a taken id violates the primary key, and nothing is written -/
def record (now : Int) (row : RecordRow) (log : Log δ) : Log δ :=
  if row.id ∈ (records log.rows).map (·.id) then log
  else
    { log with
      rows := log.rows ++ [.record { row with recordedAt := now, chainSequence := none }] }

def VERDICTS : List String := ["accepted", "edited", "rejected"]

def recordVerdict (now : Int) (row : VerdictRow) (log : Log δ) : Log δ :=
  if row.verdict ∉ VERDICTS then log
  else
    match (records log.rows).find? (·.id = row.recordId) with
    | none => log
    | some r =>
      if row.id ∈ (verdicts log.rows).map (·.id) then log
      else
        { log with
          rows := log.rows ++ [.verdict { row with
            tenantId := r.tenantId
            decidedAt := now
            chainSequence := none }] }

def doomed (before : Int) (rows : List Row) : List RecordRow :=
  (records rows).filter fun r => r.chainSequence ≠ none ∧ r.recordedAt < before

/-- `delete ... where id in ids`, with the verdicts of the deleted records -/
def survives (ids : List Uuid) : Row → Bool
  | .record r => r.id ∉ ids
  | .verdict v => v.recordId ∉ ids

def tombstone (now : Int) (gone : List RecordRow) (b : Batch (Nat × Nat) δ) :
    Batch (Nat × Nat) δ :=
  let lost := gone.filter (·.chainSequence = some b.sequence)
  if lost = [] then b
  else
    { b with
      prunedAt := some now
      prunedCount := some (b.prunedCount.getD 0 + lost.length) }

/-- what is left, and how many records and batches are affected -/
def purgeBefore (before now : Int) (dryRun : Bool) (log : Log δ) : Log δ × (Nat × Nat) :=
  let gone := doomed before log.rows
  let affected := (gone.length, (gone.filterMap (·.chainSequence)).dedup.length)
  if gone = [] ∨ dryRun then (log, affected)
  else
    ({ rows := log.rows.filter (survives (gone.map (·.id)))
       chain := log.chain.map (tombstone now gone) }, affected)

/-! ## histories -/

inductive Op where
  | record (now : Int) (row : RecordRow)
  | recordVerdict (now : Int) (row : VerdictRow)
  | sealOnce (now : Int)
  | purgeBefore (before now : Int) (dryRun : Bool)

def step (log : Log δ) : Op → Log δ
  | .record now row => record now row log
  | .recordVerdict now row => recordVerdict now row log
  | .sealOnce now => (sealOnce (ledger H) now log).1
  | .purgeBefore before now dryRun => (purgeBefore before now dryRun log).1

/-- the ledger verifies after the step, and the step purges no unsealed row -/
def Survives [DecidableEq δ] (log : Log δ) (op : Op) : Prop :=
  (verifyChain H (step H log op)).1 = true ∧
    ∀ before now dryRun, op = .purgeBefore before now dryRun →
      ∀ r ∈ log.rows, r.chainSequence = none → r ∈ (step H log op).rows

/-- every verdict a purge takes along is sealed, in a batch that loses a record to the purge or is
already tombstoned -/
def CascadeFolded (log : Log δ) (op : Op) : Prop :=
  ∀ before now, op = .purgeBefore before now false →
    ∀ r ∈ doomed before log.rows, ∀ v ∈ verdicts log.rows, v.recordId = r.id →
      ∃ k, v.chainSequence = some k ∧
        ((∃ r' ∈ doomed before log.rows, r'.chainSequence = some k) ∨
          ∃ b ∈ log.chain, b.sequence = k ∧ b.prunedAt ≠ none)

end Ledger
