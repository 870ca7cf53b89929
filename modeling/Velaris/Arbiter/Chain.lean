import Velaris.Base.Run
import Velaris.Base.Table
import Velaris.Py.Doc
import Velaris.Py.Runtime
import Velaris.SealedLog.Basic
import Mathlib.Algebra.Ring.Nat
import Mathlib.Data.List.Sort
import Mathlib.Data.List.Induction
import Mathlib.Logic.Function.Basic

/-!
# HxArbiter: the sealed decision log

`case_service/hxarbiter/chain.py`: the decision rows, their batches, `seal_once`, `verify_chain`,
`purge_expired_decisions` and `erase_subject`, as steps of one system in which a decision is stamped
when it is evaluated and becomes visible when its transaction commits.  The sealer and the verifier
are those of `SealedLog`, at the format of decision rows.

* `decisions`   the format of decision rows;
* `purgeNamespace_cases`, `sound_purged`, `sound_eraseSubject`   what retention and erasure do;
* `after_sound`   the log of every history is sound, so it verifies.

Moments are microseconds.  SHA-256 and the canonical JSON text are parameters.
-/

namespace HxArbiter
namespace Chain
open Py Base SealedLog

/-! ## rows -/

/-- the hashed columns of `arbiter_decisions` -/
structure DecisionFields where
  id : Uuid
  tenantId : Uuid
  ns : String
  action : String
  subjectKind : String
  subjectId : String
  effect : String
  mode : String
  enforced : Bool
  defaultApplied : Bool
  matched : Doc
  obligations : Doc
  legacyEffect : Option String
  policySetHash : Option String
  error : Option String
  evaluatedAt : Int
  deriving DecidableEq

structure DecisionRow extends DecisionFields where
  subject : Value := .dict []
  resource : Value := .dict []
  context : Value := .dict []
  chainSequence : Option Nat := none
  deriving DecidableEq

/-! ## the batch hash -/

structure BatchPayload where
  windowStart : Int
  windowEnd : Int
  decisions : List DecisionFields
  deriving DecidableEq

def batchPayload (rows : List DecisionRow) (windowStart windowEnd : Int) : BatchPayload where
  windowStart := windowStart
  windowEnd := windowEnd
  decisions := (rows.map (·.toDecisionFields)).insertionSort fun a b => a.id ≤ b.id

variable {γ δ : Type} (H : Hashing BatchPayload γ δ)

def computeBatchHash (prevHash : δ) (rows : List DecisionRow) (windowStart windowEnd : Int) : δ :=
  H.sha256 prevHash (H.canonical (batchPayload rows windowStart windowEnd))

def BATCH_SECONDS : Int := 60

def SETTLE_SECONDS : Int := 5

def MAX_BATCHES_PER_RUN : Nat := 1440

def setSequence (n : Nat) (r : DecisionRow) : DecisionRow := { r with chainSequence := some n }

theorem map_fields_setSequence (n : Nat) (rows : List DecisionRow) :
    (rows.map (setSequence n)).map (·.toDecisionFields) = rows.map (·.toDecisionFields) := by
  rw [List.map_map]
  rfl

def decisions : Format DecisionRow Nat δ where
  stamp := (·.evaluatedAt)
  seq := (·.chainSequence)
  setSeq := setSequence
  counts := List.length
  digest := computeBatchHash H
  genesis := H.genesis
  batchLength := seconds BATCH_SECONDS
  settle := seconds SETTLE_SECONDS
  maxBatches := MAX_BATCHES_PER_RUN
  seq_setSeq := fun _ _ => rfl
  stamp_setSeq := fun _ _ => rfl
  counts_setSeq := fun n rows => List.length_map (setSequence n)
  digest_setSeq := fun n prev rows ws we => by
    simp only [computeBatchHash, batchPayload, map_fields_setSequence]
  batchLength_pos := by decide

/-! ## verification -/

abbrev Log (δ : Type) := SealedLog.State DecisionRow Nat δ

/-- `(ok, first problem or a pruning note)` -/
def report : Verdict Nat δ → Bool × Option String
  | .missing expected found => (false, some ("sequence jumps from " ++ toString (expected - 1) ++
      " to " ++ toString found ++ ": a sealed batch is missing"))
  | .unlinked sequence => (false, some ("batch " ++ toString sequence ++
      " does not link to the one before it"))
  | .short sequence sealedCount held => (false, some ("batch " ++ toString sequence ++ " sealed " ++
      toString sealedCount ++ " decisions and now holds " ++ toString held ++ ". If this was a " ++
      "retention purge, the batch was not tombstoned — which is a bug, not a purge."))
  | .altered sequence => (false, some ("batch " ++ toString sequence ++
      " does not match what was sealed"))
  | .ok [] => (true, none)
  | .ok pruned => (true, some ("verified; " ++ toString pruned.length ++
      " batch(es) were pruned by retention, removing " ++
      toString (pruned.map fun b => b.prunedCount.getD 0).sum ++ " decision(s). Their content " ++
      "can no longer be re-derived — the chain still proves nothing was edited."))

theorem report_fst (v : Verdict Nat δ) : (report v).1 = v.isOk := by
  cases v with
  | ok pruned => cases pruned <;> rfl
  | _ => rfl

def verifyChain [DecidableEq δ] (log : Log δ) : Bool × Option String :=
  report (verify (decisions H) log)

/-! ## retention and erasure -/

def expired (ns : String) (cutoff : Int) (r : DecisionRow) : Bool :=
  r.ns = ns ∧ r.evaluatedAt < cutoff ∧ r.chainSequence ≠ none

/-- a batch that lost rows; a batch may be pruned more than once, so the count accumulates -/
def tombstone (now : Int) (affected : List Nat) (rows : List DecisionRow) (b : Batch Nat δ) :
    Batch Nat δ :=
  if b.sequence ∈ affected then
    { b with
      prunedAt := some now
      prunedCount := some (b.prunedCount.getD 0 +
        (b.counts - (rows.filter (·.chainSequence = some b.sequence)).length)) }
  else b

/-- one namespace of the purge: its expired rows, at most `limit` of them -/
def purgeNamespace (now : Int) (limit : Nat) (scan : Scan DecisionRow)
    (acc : Log δ × List (String × Nat)) (spec : String × Option Int) :
    Log δ × List (String × Nat) :=
  match spec.2 with
  | none => acc
  | some d =>
    if d ≤ 0 then acc
    else
      let ids := ((scan.order (acc.1.rows.filter (expired spec.1 (now - days d)))).take limit).map
        (·.id)
      if ids = [] then acc
      else
        let affected := (acc.1.rows.filter (·.id ∈ ids)).filterMap (·.chainSequence)
        let rows := acc.1.rows.filter (·.id ∉ ids)
        ({ rows := rows, chain := acc.1.chain.map (tombstone now affected rows) },
          acc.2 ++ [(spec.1, ids.length)])

/-- `specs`: every namespace with its `decision_retention_days` -/
def purgeExpiredDecisions (specs : List (String × Option Int)) (now : Int) (limit : Nat)
    (scan : Scan DecisionRow) (log : Log δ) : Log δ × List (String × Nat) :=
  specs.foldl (purgeNamespace now limit scan) (log, [])

/-- the personal payloads go; what is hashed stays -/
def eraseRow (subjectId : String) (r : DecisionRow) : DecisionRow :=
  if r.subjectId = subjectId then
    { r with
      subject := .dict []
      resource := .dict []
      context := .dict [("erased", .bool true)] }
  else r

def eraseSubject (subjectId : String) (log : Log δ) : Log δ × Nat :=
  ({ log with rows := log.rows.map (eraseRow subjectId) },
    (log.rows.filter (·.subjectId = subjectId)).length)

/-! ## histories -/

/-- the committed log, and the rows of transactions still open -/
structure Db (δ : Type) where
  log : Log δ := {}
  pending : List DecisionRow := []

inductive Op where
  /-- a decision is evaluated and stamped, and its row written in an open transaction -/
  | writeDecision (now : Int) (row : DecisionRow)
  | commit (id : Uuid)
  | rollback (id : Uuid)
  | sealOnce (now : Int)
  | purgeExpiredDecisions (specs : List (String × Option Int)) (now : Int) (limit : Nat)
      (scan : Scan DecisionRow)
  | eraseSubject (subjectId : String)

def writeDecision (now : Int) (row : DecisionRow) (db : Db δ) : Db δ :=
  { db with
    pending := db.pending ++ [{ row with evaluatedAt := now, chainSequence := none }] }

/-- the rows of the transaction become visible; an id already taken violates the primary key -/
def commit (id : Uuid) (db : Db δ) : Db δ :=
  match db.pending.find? (·.id = id) with
  | none => db
  | some row =>
    { log :=
        if row.id ∈ db.log.rows.map (·.id) then db.log
        else { db.log with rows := db.log.rows ++ [row] }
      pending := db.pending.eraseP (·.id = id) }

def step (db : Db δ) : Op → Db δ
  | .writeDecision now row => writeDecision now row db
  | .commit id => commit id db
  | .rollback id => { db with pending := db.pending.eraseP (·.id = id) }
  | .sealOnce now => { db with log := (sealOnce (decisions H) now db.log).1 }
  | .purgeExpiredDecisions specs now limit scan =>
    { db with log := (purgeExpiredDecisions specs now limit scan db.log).1 }
  | .eraseSubject subjectId => { db with log := (eraseSubject subjectId db.log).1 }

def after (ops : List Op) : Db δ := exec (step H) {} ops

/-! ## every history leaves a sound log -/

section
variable {H}

theorem eraseRow_fields (subjectId : String) (r : DecisionRow) :
    (eraseRow subjectId r).toDecisionFields = r.toDecisionFields ∧
      (eraseRow subjectId r).chainSequence = r.chainSequence := by
  unfold eraseRow
  split <;> exact ⟨rfl, rfl⟩

theorem sound_eraseSubject {log : Log δ} (h : Sound (decisions H) log) (subjectId : String) :
    Sound (decisions H) (eraseSubject subjectId log).1 := by
  have hfields : ∀ rows : List DecisionRow, (rows.map (eraseRow subjectId)).map
      (·.toDecisionFields) = rows.map (·.toDecisionFields) := by
    intro rows
    rw [List.map_map]
    exact List.map_congr_left fun r _ => (eraseRow_fields subjectId r).1
  refine h.update (eraseRow subjectId) (fun r => (eraseRow_fields subjectId r).2)
    (fun rows => List.length_map _) ?_
  intro prev rows ws we
  show computeBatchHash H prev _ ws we = computeBatchHash H prev rows ws we
  simp only [computeBatchHash, batchPayload, hfields]

theorem tombstones (now : Int) (affected : List Nat) (rows : List DecisionRow) :
    Tombstones (tombstone (δ := δ) now affected rows) := by
  apply Tombstones.of_marks now
  intro b
  unfold tombstone
  split
  · exact Or.inr ⟨_, rfl⟩
  · exact Or.inl rfl

/-- the log without the rows of some ids, their batches tombstoned -/
def purged (now : Int) (ids : List Uuid) (log : Log δ) : Log δ where
  rows := log.rows.filter (·.id ∉ ids)
  chain := log.chain.map (tombstone now
    ((log.rows.filter (·.id ∈ ids)).filterMap (·.chainSequence))
    (log.rows.filter (·.id ∉ ids)))

theorem purgeNamespace_cases (now : Int) (limit : Nat) (scan : Scan DecisionRow)
    (acc : Log δ × List (String × Nat)) (spec : String × Option Int) :
    (purgeNamespace now limit scan acc spec).1 = acc.1 ∨
      ∃ ids, (purgeNamespace now limit scan acc spec).1 = purged now ids acc.1 := by
  unfold purgeNamespace
  split
  · exact Or.inl rfl
  · dsimp only
    split_ifs
    · exact Or.inl rfl
    · exact Or.inl rfl
    · exact Or.inr ⟨_, rfl⟩

theorem sound_purged {log : Log δ} (h : Sound (decisions H) log) (now : Int) (ids : List Uuid) :
    Sound (decisions H) (purged now ids log) := by
  apply h.purge _ (tombstones now _ _)
  intro r hr hgone b _ hseq
  have hid : r.id ∈ ids := not_not.mp (of_decide_eq_false hgone)
  have haffected : b.sequence ∈ (log.rows.filter (·.id ∈ ids)).filterMap (·.chainSequence) :=
    List.mem_filterMap.mpr ⟨r, List.mem_filter.mpr ⟨hr, decide_eq_true hid⟩, hseq⟩
  unfold tombstone
  rw [if_pos haffected]
  simp

theorem sound_purge {log : Log δ} (h : Sound (decisions H) log)
    (specs : List (String × Option Int)) (now : Int) (limit : Nat) (scan : Scan DecisionRow) :
    Sound (decisions H) (purgeExpiredDecisions specs now limit scan log).1 := by
  show Sound (decisions H) (exec (purgeNamespace now limit scan) (log, []) specs).1
  apply exec_inv' (I := fun acc : Log δ × List (String × Nat) => Sound (decisions H) acc.1)
  · intro acc spec hacc
    rcases purgeNamespace_cases now limit scan acc spec with he | ⟨ids, he⟩
    · rw [he]
      exact hacc
    · rw [he]
      exact sound_purged hacc now ids
  · exact h

/-- a sound log, and no open transaction has a sealed row -/
structure Inv (H : Hashing BatchPayload γ δ) (db : Db δ) : Prop where
  sound : Sound (decisions H) db.log
  pending : ∀ r ∈ db.pending, r.chainSequence = none

theorem step_inv {db : Db δ} (op : Op) (h : Inv H db) : Inv H (step H db op) := by
  cases op with
  | writeDecision now row =>
    refine ⟨h.sound, fun r hr => ?_⟩
    rcases List.mem_append.mp hr with hr | hr
    · exact h.pending r hr
    · rw [List.mem_singleton.mp hr]
  | commit id =>
    show Inv H (commit id db)
    unfold commit
    split
    · exact h
    · rename_i row hrow
      refine ⟨?_, fun r hr => h.pending r (List.mem_of_mem_eraseP hr)⟩
      dsimp only
      split
      · exact h.sound
      · exact h.sound.insert (h.pending row (List.mem_of_find?_eq_some hrow))
  | rollback id => exact ⟨h.sound, fun r hr => h.pending r (List.mem_of_mem_eraseP hr)⟩
  | sealOnce now => exact ⟨h.sound.sealOnce now, h.pending⟩
  | purgeExpiredDecisions specs now limit scan =>
    exact ⟨sound_purge h.sound specs now limit scan, h.pending⟩
  | eraseSubject subjectId => exact ⟨sound_eraseSubject h.sound subjectId, h.pending⟩

theorem after_inv (ops : List Op) : Inv H (after H ops) :=
  exec_inv' (fun _ op => step_inv op) ops ⟨Sound.empty, by simp⟩

/-- **The log verifies after every history.** -/
theorem after_sound (ops : List Op) : Sound (decisions H) (after H ops).log := (after_inv ops).sound

end

end Chain
end HxArbiter
