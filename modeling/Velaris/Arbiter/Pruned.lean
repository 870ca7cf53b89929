import Velaris.Arbiter.Evidence

/-!
# HxArbiter: the books of retention

A batch counts what it sealed and what retention has taken from it.  The purge adds, for each batch
that loses rows, everything that is missing from it, which is right the first time.

* `Exact`   what was sealed is what was taken and what is left;
* `Kept`   steps that leave the old batches and their rows alone;
* `exact_purged`, `over_purged`   what one namespace of a purge does to a batch;
* `exact_iff`   a history keeps the books exactly if no batch is purged twice.
-/

namespace HxArbiter
namespace Chain

open Py Base SealedLog

variable {γ δ : Type} {H : Hashing BatchPayload γ δ}

/-- how many rows still carry the number of a batch -/
def held (rows : List DecisionRow) (k : Nat) : Nat :=
  (rows.filter (·.chainSequence = some k)).length

def taken (b : Batch Nat δ) : Nat := b.prunedCount.getD 0

structure ExactFor (rows : List DecisionRow) (b : Batch Nat δ) : Prop where
  count : b.counts = taken b + held rows b.sequence
  marked : b.prunedAt ≠ none ↔ 0 < taken b

def Exact (log : Log δ) : Prop := ∀ b ∈ log.chain, ExactFor log.rows b

/-- more was taken from a batch, by its books, than it has lost -/
def Over (log : Log δ) : Prop :=
  ∃ b ∈ log.chain, 0 < taken b ∧ b.counts < taken b + held log.rows b.sequence

theorem not_exact_of_over {log : Log δ} (h : Over log) : ¬Exact log := by
  intro hexact
  obtain ⟨b, hb, -, hover⟩ := h
  have hcount := (hexact b hb).count
  omega

/-! ## steps that take nothing -/

/-- the batches are there with the rows they had, and the new ones are whole -/
structure Kept (s s' : Log δ) : Prop where
  old : ∀ b ∈ s.chain, b ∈ s'.chain ∧ held s'.rows b.sequence = held s.rows b.sequence
  new : ∀ b ∈ s'.chain, b ∈ s.chain ∨
    b.counts = held s'.rows b.sequence ∧ b.prunedAt = none ∧ b.prunedCount = none

theorem Kept.of_rows {s : Log δ} {rows : List DecisionRow}
    (h : ∀ k, held rows k = held s.rows k) : Kept s { s with rows := rows } :=
  ⟨fun _ hb => ⟨hb, h _⟩, fun _ hb => .inl hb⟩

theorem Kept.exact {s s' : Log δ} (h : Kept s s') (hs : Exact s) : Exact s' := by
  intro b hb
  rcases h.new b hb with hb | ⟨hcounts, hat, hcount⟩
  · refine ⟨?_, (hs b hb).marked⟩
    rw [(h.old b hb).2]
    exact (hs b hb).count
  · constructor
    · rw [taken, hcount, Option.getD_none, Nat.zero_add]
      exact hcounts
    · rw [taken, hcount, hat]
      simp

theorem Kept.over {s s' : Log δ} (h : Kept s s') (hs : Over s) : Over s' := by
  obtain ⟨b, hb, htaken, hover⟩ := hs
  obtain ⟨hb', hheld⟩ := h.old b hb
  exact ⟨b, hb', htaken, by rw [hheld]; exact hover⟩

theorem kept_insert {s : Log δ} {r : DecisionRow} (hr : r.chainSequence = none) :
    Kept s { s with rows := s.rows ++ [r] } := by
  refine .of_rows fun k => ?_
  simp [held, hr]

theorem kept_eraseSubject (subjectId : String) (s : Log δ) :
    Kept s (eraseSubject subjectId s).1 := by
  refine .of_rows fun k => ?_
  rw [held, held, List.filter_map, List.length_map]
  refine congrArg List.length (List.filter_congr fun r _ => ?_)
  simp [(eraseRow_fields subjectId r).2]

theorem kept_sealOnce {s : Log δ} (h : Sound (decisions H) s) (now : Int) :
    Kept s (sealOnce (decisions H) now s).1 := by
  have hnext : ∀ t ws, Sound (decisions H) t ∧ Kept s t →
      ws + (decisions H).batchLength ≤ now - (decisions H).settle →
      Sound (decisions H) (Sound.next (decisions H) ws t) ∧ Kept s (Sound.next (decisions H) ws t) := by
    intro t ws ht _
    obtain ⟨hsound, hold, hnew⟩ := ht
    refine ⟨hsound.sealNext ws, ?_⟩
    have hsame : ∀ b ∈ t.chain, held (Sound.next (decisions H) ws t).rows b.sequence =
        held t.rows b.sequence := by
      intro b hb
      have hlt := hsound.tipSequence_lt hb
      exact congrArg List.length (Sound.sealedIn_mark_of_ne (F := decisions H) (by omega) t.rows)
    constructor
    · intro b hb
      obtain ⟨hbt, hheld⟩ := hold b hb
      exact ⟨List.mem_append_left _ hbt, (hsame b hbt).trans hheld⟩
    · intro b hb
      rcases List.mem_append.mp hb with hb | hb
      · rcases hnew b hb with hb' | ⟨hcounts, hrest⟩
        · exact .inl hb'
        · exact .inr ⟨hcounts.trans (hsame b hb).symm, hrest⟩
      · right
        rw [List.mem_singleton.mp hb]
        refine ⟨?_, rfl, rfl⟩
        have hmarked := congrArg List.length (@Sound.sealedIn_mark_self _ _ _ (decisions H)
          (tipSequence t.chain + 1) ws (ws + (decisions H).batchLength) t.rows
          fun r hr => hsound.seq_ne_next hr)
        rw [List.length_map] at hmarked
        exact hmarked.symm
  rcases sealOnce_inv hnext fun _ _ => ⟨h, .of_rows fun _ => rfl⟩ with he | ⟨_, -, hkept⟩
  · rw [he]
    exact .of_rows fun _ => rfl
  · exact hkept

/-! ## a purge -/

def purgedIds (now : Int) (limit : Nat) (scan : Scan DecisionRow) (log : Log δ)
    (spec : String × Option Int) : List Uuid :=
  match spec.2 with
  | none => []
  | some d =>
    if d ≤ 0 then []
    else ((scan.order (log.rows.filter (expired spec.1 (now - days d)))).take limit).map (·.id)

theorem purged_nil (now : Int) (log : Log δ) : purged now [] log = log := by
  have hid : tombstone now [] log.rows = (id : Batch Nat δ → Batch Nat δ) :=
    funext fun b => if_neg (by simp)
  simp [purged, hid]

theorem purgeNamespace_log (now : Int) (limit : Nat) (scan : Scan DecisionRow)
    (acc : Log δ × List (String × Nat)) (spec : String × Option Int) :
    (purgeNamespace now limit scan acc spec).1 =
      purged now (purgedIds now limit scan acc.1 spec) acc.1 := by
  unfold purgeNamespace purgedIds
  cases spec.2 with
  | none => exact (purged_nil now acc.1).symm
  | some d =>
    dsimp only
    by_cases hd : d ≤ 0
    · rw [if_pos hd, if_pos hd]
      exact (purged_nil now acc.1).symm
    · rw [if_neg hd, if_neg hd]
      split
      · rename_i hnil
        rw [hnil]
        exact (purged_nil now acc.1).symm
      · rfl

/-- no batch loses rows that lost some before -/
def FirstLoss (ids : List Uuid) (log : Log δ) : Prop :=
  ∀ r ∈ log.rows, r.id ∈ ids → ∀ b ∈ log.chain, r.chainSequence = some b.sequence →
    b.prunedAt = none

section
variable {now : Int} {ids : List Uuid} {log : Log δ} {b : Batch Nat δ}

def Loses (ids : List Uuid) (log : Log δ) (b : Batch Nat δ) : Prop :=
  b.sequence ∈ (log.rows.filter (·.id ∈ ids)).filterMap (·.chainSequence)

theorem loses_iff : Loses ids log b ↔
    ∃ r ∈ log.rows, r.id ∈ ids ∧ r.chainSequence = some b.sequence := by
  simp [Loses, and_assoc]

theorem held_of_loses (h : Loses ids log b) :
    held (purged now ids log).rows b.sequence < held log.rows b.sequence := by
  obtain ⟨r, hr, hid, hseq⟩ := loses_iff.mp h
  have hsub : (purged now ids log).rows.filter (·.chainSequence = some b.sequence) =
      (log.rows.filter (·.chainSequence = some b.sequence)).filter (·.id ∉ ids) := by
    rw [purged, List.filter_filter, List.filter_filter]
    simp only [Bool.and_comm]
  rw [held, held, hsub]
  refine List.length_filter_lt_length_iff_exists.mpr ⟨r, ?_, by simpa using hid⟩
  exact List.mem_filter.mpr ⟨hr, decide_eq_true hseq⟩

theorem held_of_not_loses (h : ¬Loses ids log b) :
    held (purged now ids log).rows b.sequence = held log.rows b.sequence := by
  rw [held, held, purged, List.filter_filter]
  refine congrArg List.length (List.filter_congr fun r hr => ?_)
  by_cases hseq : r.chainSequence = some b.sequence
  · have hid : r.id ∉ ids := fun hid => h (loses_iff.mpr ⟨r, hr, hid, hseq⟩)
    simp [hseq, hid]
  · simp [hseq]

structure Tombstoned (now : Int) (ids : List Uuid) (log : Log δ) (b b' : Batch Nat δ) : Prop where
  sequence : b'.sequence = b.sequence
  counts : b'.counts = b.counts
  loses : Loses ids log b → b'.prunedAt ≠ none ∧
    taken b' = taken b + (b.counts - held (purged now ids log).rows b.sequence)
  keeps : ¬Loses ids log b → b' = b

theorem tombstoned (now : Int) (ids : List Uuid) (log : Log δ) (b : Batch Nat δ) :
    Tombstoned now ids log b (tombstone now
      ((log.rows.filter (·.id ∈ ids)).filterMap (·.chainSequence))
      (log.rows.filter (·.id ∉ ids)) b) where
  sequence := (tombstones now _ _).sequence b
  counts := (tombstones now _ _).counts b
  loses := by
    intro h
    unfold Loses at h
    rw [tombstone, if_pos h]
    exact ⟨Option.some_ne_none now, rfl⟩
  keeps := fun h => if_neg h

end

theorem exact_purged {log : Log δ} (h : Exact log) (now : Int) {ids : List Uuid}
    (hfirst : FirstLoss ids log) : Exact (purged now ids log) := by
  intro b' hb'
  obtain ⟨b, hb, rfl⟩ := List.mem_map.mp hb'
  have hexact := h b hb
  have hnew := tombstoned now ids log b
  by_cases hloses : Loses ids log b
  · obtain ⟨r, hr, hid, hseq⟩ := loses_iff.mp hloses
    have hnone : taken b = 0 := by
      have hmarked := hexact.marked
      rw [hfirst r hr hid b hb hseq] at hmarked
      simpa using hmarked
    obtain ⟨hat, htaken⟩ := hnew.loses hloses
    have hlt : held (purged now ids log).rows b.sequence < held log.rows b.sequence :=
      held_of_loses hloses
    have hcount := hexact.count
    constructor
    · rw [hnew.counts, hnew.sequence, htaken]
      omega
    · rw [htaken]
      exact ⟨fun _ => by omega, fun _ => hat⟩
  · rw [hnew.keeps hloses]
    refine ⟨?_, hexact.marked⟩
    rw [held_of_not_loses hloses]
    exact hexact.count

theorem over_purged {log : Log δ} (h : Over log) (now : Int) (ids : List Uuid) :
    Over (purged now ids log) := by
  obtain ⟨b, hb, htaken, hover⟩ := h
  have hnew := tombstoned now ids log b
  refine ⟨_, List.mem_map_of_mem hb, ?_⟩
  rw [hnew.counts, hnew.sequence]
  by_cases hloses : Loses ids log b
  · rw [(hnew.loses hloses).2]
    omega
  · rw [hnew.keeps hloses, held_of_not_loses hloses]
    exact ⟨htaken, hover⟩

theorem over_of_second_loss {log : Log δ} (h : Exact log) (now : Int) {ids : List Uuid}
    (hsecond : ¬FirstLoss ids log) : Over (purged now ids log) := by
  rw [FirstLoss] at hsecond
  push Not at hsecond
  obtain ⟨r, hr, hid, b, hb, hseq, hat⟩ := hsecond
  have hloses : Loses ids log b := loses_iff.mpr ⟨r, hr, hid, hseq⟩
  have hnew := tombstoned now ids log b
  have htaken := (h b hb).marked.mp hat
  have hcount := (h b hb).count
  have hlt : held (purged now ids log).rows b.sequence < held log.rows b.sequence :=
    held_of_loses hloses
  refine ⟨_, List.mem_map_of_mem hb, ?_⟩
  rw [hnew.counts, hnew.sequence, (hnew.loses hloses).2]
  omega

/-- the namespaces of a purge, one after another: no batch loses rows that lost some before -/
def FirstLosses (specs : List (String × Option Int)) (now : Int) (limit : Nat)
    (scan : Scan DecisionRow) (log : Log δ) : Prop :=
  Along (purgeNamespace now limit scan)
    (fun acc spec => FirstLoss (purgedIds now limit scan acc.1 spec) acc.1) (log, []) specs

section
variable {specs : List (String × Option Int)} {now : Int} {limit : Nat} {scan : Scan DecisionRow}
  {log : Log δ}

theorem exact_purge (h : Exact log) (hfirst : FirstLosses specs now limit scan log) :
    Exact (purgeExpiredDecisions specs now limit scan log).1 := by
  refine exec_inv (I := fun acc : Log δ × List (String × Nat) => Exact acc.1) ?_ h hfirst
  intro acc spec hacc hfirst
  rw [purgeNamespace_log]
  exact exact_purged hacc now hfirst

theorem over_purge_of_second (h : Exact log) (hsecond : ¬FirstLosses specs now limit scan log) :
    Over (purgeExpiredDecisions specs now limit scan log).1 := by
  refine exec_broken (I := fun acc : Log δ × List (String × Nat) => Exact acc.1)
    (B := fun acc => Over acc.1) ?_ ?_ ?_ h hsecond
  · intro acc spec hacc hfirst
    rw [purgeNamespace_log]
    exact exact_purged hacc now hfirst
  · intro acc spec hacc hsecond
    rw [purgeNamespace_log]
    exact over_of_second_loss hacc now hsecond
  · intro acc spec hacc
    rw [purgeNamespace_log]
    exact over_purged hacc now _

theorem over_purge (h : Over log) : Over (purgeExpiredDecisions specs now limit scan log).1 := by
  show Over (exec (purgeNamespace now limit scan) (log, []) specs).1
  refine exec_inv' (I := fun acc : Log δ × List (String × Nat) => Over acc.1) ?_ specs h
  intro acc spec hacc
  rw [purgeNamespace_log]
  exact over_purged hacc now _

end

/-! ## histories -/

def PurgesOnce (db : Db δ) : Op → Prop
  | .purgeExpiredDecisions specs now limit scan => FirstLosses specs now limit scan db.log
  | _ => True

theorem step_kept {db : Db δ} (h : Inv H db) {op : Op}
    (hop : ∀ specs now limit scan, op ≠ .purgeExpiredDecisions specs now limit scan) :
    Kept db.log (step H db op).log := by
  cases op with
  | writeDecision now row => exact .of_rows fun _ => rfl
  | commit id =>
    show Kept db.log (commit id db).log
    unfold commit
    split
    · exact .of_rows fun _ => rfl
    · rename_i row hrow
      dsimp only
      split
      · exact .of_rows fun _ => rfl
      · exact kept_insert (h.pending row (List.mem_of_find?_eq_some hrow))
  | rollback id => exact .of_rows fun _ => rfl
  | sealOnce now => exact kept_sealOnce h.sound now
  | purgeExpiredDecisions specs now limit scan => exact absurd rfl (hop specs now limit scan)
  | eraseSubject subjectId => exact kept_eraseSubject subjectId db.log

theorem exact_step {H : Hashing BatchPayload γ δ} {db : Db δ} {op : Op} (hinv : Inv H db)
    (h : Exact db.log) (hop : PurgesOnce db op) : Exact (step H db op).log := by
  cases op with
  | purgeExpiredDecisions specs now limit scan => exact exact_purge h hop
  | _ => exact (step_kept hinv (by simp)).exact h

theorem over_step_of_not {H : Hashing BatchPayload γ δ} {db : Db δ} {op : Op} (hinv : Inv H db)
    (h : Exact db.log) (hop : ¬PurgesOnce db op) : Over (step H db op).log := by
  cases op with
  | purgeExpiredDecisions specs now limit scan => exact over_purge_of_second h hop
  | _ => exact absurd trivial hop

theorem over_step {H : Hashing BatchPayload γ δ} {db : Db δ} {op : Op} (hinv : Inv H db)
    (h : Over db.log) : Over (step H db op).log := by
  cases op with
  | purgeExpiredDecisions specs now limit scan => exact over_purge h
  | _ => exact (step_kept hinv (by simp)).over h

/-- **The books of retention are right** exactly in the histories in which no purge takes rows from
a batch from which one has taken rows before. -/
theorem exact_iff (H : Hashing BatchPayload γ δ) (ops : List Op) :
    Exact (after H ops).log ↔ Along (step H) PurgesOnce {} ops := by
  have hstart : Inv H ({} : Db δ) ∧ Exact ({} : Db δ).log :=
    ⟨⟨Sound.empty, by simp⟩, by simp [Exact]⟩
  have hiff : Inv H (after H ops) ∧ Exact (after H ops).log ↔ Along (step H) PurgesOnce {} ops := by
    refine exec_iff_along (I := fun db => Inv H db ∧ Exact db.log)
      (B := fun db => Inv H db ∧ Over db.log) ?_ ?_ ?_ ?_ hstart
    · exact fun db op hdb hop => ⟨step_inv op hdb.1, exact_step hdb.1 hdb.2 hop⟩
    · exact fun db op hdb hop => ⟨step_inv op hdb.1, over_step_of_not hdb.1 hdb.2 hop⟩
    · exact fun db op hdb => ⟨step_inv op hdb.1, over_step hdb.1 hdb.2⟩
    · exact fun db hdb hexact => not_exact_of_over hdb.2 hexact.2
  rw [← hiff]
  exact (and_iff_right (after_inv ops)).symm

/-- retention takes both decisions of a batch, one for each of two namespaces -/
def bothPurged : List Op :=
  twoDecisions ++ [.purgeExpiredDecisions [("a", some 1), ("b", some 1)] (days 2) 5000 asGiven]

theorem not_always_exact : ¬∀ (γ δ : Type) (H : Hashing BatchPayload γ δ) (ops : List Op),
    Exact (after H ops).log := by
  intro h
  have hcount := fun b hb => (h _ _ (transcript _) bothPurged b hb).count
  revert hcount
  decide

end Chain
end HxArbiter
