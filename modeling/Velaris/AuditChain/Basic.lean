import Velaris.Base.Links
import Velaris.Base.Run
import Velaris.Py.Doc
import Velaris.Py.Text
import Mathlib.Data.Int.Range

/-!
# The audit log's hash chain

`case_service/compliance/audit_chain.py`: `seal_new_entries`, `prune_audit_rows` and `verify_chain`
over three tables, with `append_audit_entry` as the writer of the first.  A link of the chain seals
an audit row or a prune record; the migration that brings the table of prune records is applied.

* `sealNewEntries`, `pruneAuditRows`   what the chain grows by;
* `judge`   `_valid_prunes`, for one record;
* `verifyChain`   the walk, with every kind of break.

Moments are microseconds.  SHA-256, the canonical JSON text and `uuid.uuid4` are parameters.
-/

namespace AuditChain
open Py Base

/-! ## tables -/

/-- the hashed columns of `case_audit_log` -/
structure AuditEntry where
  caseId : Uuid
  action : String
  actorId : Option String := none
  actorType : String := "user"
  details : Value := .dict []
  timestamp : Int
  deriving DecidableEq

structure AuditRow extends AuditEntry where
  id : Uuid
  deriving DecidableEq

/-- a row of `case_audit_log_chain_prunes` -/
structure PruneRecord (δ : Type) where
  id : Uuid
  reason : String
  actor : String
  cutoff : Option String
  recordedAt : String
  prunedCount : Int
  ranges : Value
  digest : δ
  deriving DecidableEq

/-- a row of `case_audit_log_chain` -/
structure ChainRow (δ : Type) where
  sequence : Nat
  auditLogId : Uuid
  prevHash : δ
  contentHash : δ

/-- the three tables, the chain by its sequence, and how many ids `uuid.uuid4` has given them -/
structure Db (δ : Type) where
  audit : List AuditRow := []
  chain : List (ChainRow δ) := []
  prunes : List (PruneRecord δ) := []
  uuids : Nat := 0

/-! ## hashes -/

structure RowPayload where
  auditLogId : Uuid
  caseId : Uuid
  action : String
  actorId : Option String
  actorType : String
  details : Doc
  timestamp : Int
  deriving DecidableEq

structure PrunePayload (δ : Type) where
  pruneId : Uuid
  reason : String
  actor : String
  cutoff : Option String
  recordedAt : String
  prunedCount : Int
  ranges : List (Int × Int)
  digest : δ
  deriving DecidableEq

inductive Payload (δ : Type) where
  | row (fields : RowPayload) (prevHash : δ)
  | prune (fields : PrunePayload δ) (prevHash : δ)

structure Digests (γ δ : Type) where
  /-- `GENESIS_HASH` -/
  genesis : δ
  /-- `json.dumps(payload, sort_keys=True)` -/
  canonical : Payload δ → γ
  /-- `hashlib.sha256(text.encode()).hexdigest()` -/
  sha256 : γ → δ
  /-- `"".join(hashes)` -/
  join : List δ → γ

/-- no two documents have one text, and no two texts one hash -/
structure Digests.Injective {γ δ : Type} (H : Digests γ δ) : Prop where
  canonical : Function.Injective H.canonical
  sha256 : Function.Injective H.sha256

def AuditRow.payload (r : AuditRow) : RowPayload where
  auditLogId := r.id
  caseId := r.caseId
  action := r.action
  actorId := r.actorId
  actorType := r.actorType
  details := Value.doc (if r.details.truthy then r.details else .dict [])
  timestamp := r.timestamp

/-- `int(a), int(b)` of one element of `ranges` -/
def readRange (v : Value) : Option (Int × Int) :=
  match v.iter with
  | some [a, b] => a.toInt.bind fun a => b.toInt.map fun b => (a, b)
  | _ => none

/-- the pairs of `ranges`; `none` where `for a, b in ranges` or `int` raises -/
def readRanges (ranges : Value) : Option (List (Int × Int)) :=
  ranges.iter.bind fun vs => vs.mapM readRange

/-- what is hashed of a record, with `rec.ranges or []` read -/
def PruneRecord.payload {δ : Type} (rec : PruneRecord δ) : Option (PrunePayload δ) :=
  (readRanges (if rec.ranges.truthy then rec.ranges else .list [])).map fun ranges =>
    { pruneId := rec.id
      reason := rec.reason
      actor := rec.actor
      cutoff := rec.cutoff
      recordedAt := rec.recordedAt
      prunedCount := rec.prunedCount
      ranges := ranges
      digest := rec.digest }

variable {γ δ : Type} (H : Digests γ δ)

def computeRowHash (row : AuditRow) (prevHash : δ) : δ :=
  H.sha256 (H.canonical (.row row.payload prevHash))

def computePruneHash (rec : PruneRecord δ) (prevHash : δ) : Option δ :=
  rec.payload.map fun p => H.sha256 (H.canonical (.prune p prevHash))

def digest (hashes : List δ) : δ := H.sha256 (H.join hashes)

/-! ## ranges -/

/-- one more sequence: it lengthens the last run, or starts one -/
def extendRanges (out : List (Int × Int)) (s : Int) : List (Int × Int) :=
  match out.getLast? with
  | some (a, b) => if s = b + 1 then out.dropLast ++ [(a, s)] else out ++ [(s, s)]
  | none => [(s, s)]

def toRanges (sequences : List Int) : List (Int × Int) := sequences.foldl extendRanges []

/-- `[s for a, b in ranges for s in range(a, b + 1)]` -/
def expand (ranges : List (Int × Int)) : List Int :=
  ranges.flatMap fun p => Int.range p.1 (p.2 + 1)

def PRUNE_MAX_RANGES : Nat := 500

/-- `ranges[i:i + PRUNE_MAX_RANGES]`, for `i` in `range(0, len(ranges), PRUNE_MAX_RANGES)` -/
def parts (ranges : List (Int × Int)) : List (List (Int × Int)) :=
  (List.range ((ranges.length + (PRUNE_MAX_RANGES - 1)) / PRUNE_MAX_RANGES)).map fun i =>
    (ranges.drop (i * PRUNE_MAX_RANGES)).take PRUNE_MAX_RANGES

def hashAt (rows : List (ChainRow δ)) (s : Int) : Option δ :=
  (rows.find? fun c => (c.sequence : Int) = s).map (·.contentHash)

/-! ## writing -/

/-- `append_audit_entry`; the id is the column's default -/
def appendAuditEntry (uuid4 : Nat → Uuid) (entry : AuditEntry) (s : Db δ) : Db δ :=
  { s with
    audit := s.audit ++ [{ entry with id := uuid4 s.uuids }]
    uuids := s.uuids + 1 }

def unsealedAuditRows (s : Db δ) : List AuditRow :=
  (s.audit.filter fun r => r.id ∉ s.chain.map (·.auditLogId)).insertionSort fun a b =>
    a.timestamp < b.timestamp ∨ a.timestamp = b.timestamp ∧ a.id ≤ b.id

def linkRow (sequence : Nat) (prevHash : δ) (row : AuditRow) : ChainRow δ where
  sequence := sequence
  auditLogId := row.id
  prevHash := prevHash
  contentHash := computeRowHash H row prevHash

/-- the link of a record just built, whose ranges can be read -/
def linkPrune (sequence : Nat) (prevHash : δ) (rec : PruneRecord δ) : ChainRow δ where
  sequence := sequence
  auditLogId := rec.id
  prevHash := prevHash
  contentHash := (computePruneHash H rec prevHash).getD prevHash

/-- the links of some entries, after the last link there is -/
def nextLinks {ε : Type} (link : Nat → δ → ε → ChainRow δ) (chain : List (ChainRow δ))
    (entries : List ε) : List (ChainRow δ) :=
  linkAll ChainRow.contentHash link (lastSequence ChainRow.sequence chain + 1)
    (lastHash ChainRow.contentHash H.genesis chain) entries

/-- `seal_new_entries`: what it leaves, and how many rows it sealed -/
def sealNewEntries (maxRows : Int) (s : Db δ) : Db δ × Nat :=
  let pending := slice maxRows (unsealedAuditRows s)
  ({ s with chain := s.chain ++ nextLinks H (linkRow H) s.chain pending }, pending.length)

/-- what `prune_audit_rows` is called with, and the texts of its moments -/
structure Prune where
  matching : AuditRow → Bool
  reason : String
  actor : String
  cutoff : Option String := none
  now : String

def prunedLinks (call : Prune) (s : Db δ) : List (ChainRow δ) :=
  s.chain.filter fun c => s.audit.any fun r => r.id = c.auditLogId ∧ call.matching r

def newRecord (call : Prune) (hashOf : List (ChainRow δ)) (id : Uuid) (part : List (Int × Int)) :
    PruneRecord δ where
  id := id
  reason := String.ofList (call.reason.toList.take 40)
  actor := String.ofList (call.actor.toList.take 255)
  cutoff := call.cutoff
  recordedAt := call.now
  prunedCount := (expand part).length
  ranges := .list (part.map fun p => .list [.int p.1, .int p.2])
  digest := digest H ((expand part).filterMap (hashAt hashOf))

/-- the records of a prune, one for every part of its ranges -/
def newRecords (uuid4 : Nat → Uuid) (call : Prune) (s : Db δ) : List (PruneRecord δ) :=
  (parts (toRanges ((prunedLinks call s).map fun c => (c.sequence : Int)))).mapIdx fun i part =>
    newRecord H call (prunedLinks call s) (uuid4 (s.uuids + i)) part

/-- `prune_audit_rows`: what it leaves, and how many audit rows it deleted -/
def pruneAuditRows (uuid4 : Nat → Uuid) (call : Prune) (s : Db δ) : Db δ × Nat :=
  let left := s.audit.filter fun r => !call.matching r
  let deleted := s.audit.countP call.matching
  if (prunedLinks call s).isEmpty ∨ deleted = 0 then ({ s with audit := left }, deleted)
  else
    let recs := newRecords H uuid4 call s
    ({ audit := left
       chain := s.chain ++ nextLinks H (linkPrune H) s.chain recs
       prunes := s.prunes ++ recs
       uuids := s.uuids + recs.length }, deleted)

/-! ## verification -/

inductive Judgement where
  | unsealed
  | problem (text : String)
  | covers (seqs : List Int)

variable [DecidableEq δ]

/-- `_valid_prunes`, for one record; `none` where its hash cannot be computed -/
def judge (chain : List (ChainRow δ)) (rec : PruneRecord δ) : Option Judgement :=
  match chain.find? fun c => c.auditLogId = rec.id with
  | none => some .unsealed
  | some link =>
    (computePruneHash H rec link.prevHash).map fun h =>
      if h ≠ link.contentHash then .problem "the record was changed after it was sealed"
      else
        match readRanges rec.ranges with
        | none => .problem "the record's ranges are unreadable"
        | some ranges =>
          let seqs := expand ranges
          if seqs = [] ∨ (seqs.length : Int) ≠ rec.prunedCount ∨
              (∃ s ∈ seqs, (link.sequence : Int) ≤ s) then
            .problem "the record names rows it could not have pruned"
          else if (∃ s ∈ seqs, hashAt chain s = none) ∨
              digest H (seqs.filterMap (hashAt chain)) ≠ rec.digest then
            .problem "the record does not match the rows it names"
          else .covers seqs

abbrev Judged (δ : Type) := List (PruneRecord δ × Judgement)

def validPrunes (s : Db δ) : Option (Judged δ) :=
  s.prunes.mapM fun rec => (judge H s.chain rec).map fun j => (rec, j)

/-- `row.sequence in covered` -/
def covered (judged : Judged δ) (sequence : Nat) : Bool :=
  judged.any fun p =>
    match p.2 with
    | .covers seqs => (sequence : Int) ∈ seqs
    | _ => false

inductive Break (δ : Type) where
  | brokenLink (sequence : Nat) (expectedPrev actualPrev : δ)
  | pruneRecordInvalid (sequence : Nat) (pruneId : Uuid) (problem : String)
  | missingAuditRow (sequence : Nat) (auditLogId : Uuid)
  | contentTampered (sequence : Nat) (auditLogId : Uuid) (stored recomputed : δ)
  deriving DecidableEq

inductive Finding (δ : Type) where
  | intact
  | prune (rec : PruneRecord δ)
  | pruned
  | broken (b : Break δ)
  deriving DecidableEq

def checkLink (audit : List AuditRow) (judged : Judged δ) (expectedPrev : δ) (row : ChainRow δ) :
    Finding δ :=
  if row.prevHash ≠ expectedPrev then
    .broken (.brokenLink row.sequence expectedPrev row.prevHash)
  else
    match audit.find? fun r => r.id = row.auditLogId with
    | some auditRow =>
      if computeRowHash H auditRow row.prevHash ≠ row.contentHash then
        .broken (.contentTampered row.sequence row.auditLogId row.contentHash
          (computeRowHash H auditRow row.prevHash))
      else .intact
    | none =>
      match judged.find? fun p => p.1.id = row.auditLogId with
      | some (rec, .problem text) =>
        .broken (.pruneRecordInvalid row.sequence rec.id text)
      | some (rec, _) => .prune rec
      | none =>
        if covered judged row.sequence then .pruned
        else .broken (.missingAuditRow row.sequence row.auditLogId)

/-- the loop: whatever is found, the next link is expected on this one -/
def walk (audit : List AuditRow) (judged : Judged δ) : δ → List (ChainRow δ) → List (Finding δ)
  | _, [] => []
  | expectedPrev, row :: rows =>
    checkLink H audit judged expectedPrev row :: walk audit judged row.contentHash rows

def Finding.break? : Finding δ → Option (Break δ)
  | .broken b => some b
  | _ => none

def Finding.record? : Finding δ → Option (PruneRecord δ)
  | .prune rec => some rec
  | _ => none

structure Report (δ : Type) where
  verified : Bool
  chainLength : Nat
  breaks : List (Break δ)
  tipSequence : Nat
  tipHash : δ
  pruned : Nat
  prunes : List (PruneRecord δ)

/-- the links that are read: all of them, where no limit is given or it is 0 -/
def limited (limit : Option Nat) (chain : List (ChainRow δ)) : List (ChainRow δ) :=
  match limit with
  | some (n + 1) => chain.take (n + 1)
  | _ => chain

/-- `verify_chain`; `none` where the hash of a prune record cannot be computed -/
def verifyChain (limit : Option Nat) (s : Db δ) : Option (Report δ) :=
  (validPrunes H s).map fun judged =>
    let chain := limited limit s.chain
    let found := walk H s.audit judged H.genesis chain
    { verified := (found.filterMap Finding.break?).length = 0
      chainLength := chain.length
      breaks := found.filterMap Finding.break?
      tipSequence := lastSequence ChainRow.sequence chain
      tipHash := lastHash ChainRow.contentHash H.genesis chain
      pruned := found.count .pruned
      prunes := found.filterMap Finding.record? }

/-! ## histories -/

inductive Op where
  | append (entry : AuditEntry)
  | sealNewEntries (maxRows : Int)
  | pruneAuditRows (call : Prune)

def step (uuid4 : Nat → Uuid) (s : Db δ) : Op → Db δ
  | .append entry => appendAuditEntry uuid4 entry s
  | .sealNewEntries maxRows => (sealNewEntries H maxRows s).1
  | .pruneAuditRows call => (pruneAuditRows H uuid4 call s).1

def after (uuid4 : Nat → Uuid) (ops : List Op) : Db δ := exec (step H uuid4) {} ops

end AuditChain
