import Velaris.Ledger.Chain

/-!
# Which histories the AI ledger survives

A purge selects records and tombstones their batches; the verdicts on those records go with them,
whatever batch they were sealed in.

* `Inv`   a sound log whose records have distinct ids;
* `Inv.sequence_of_gone` what a purge that folds its cascade takes;
* `step_inv`   a step that folds its cascade keeps it;
* `survives_iff`   on such a log, exactly those steps leave a ledger that verifies and purge
    no unsealed row;
* `ledger_survives_iff`  the same for histories.
-/

namespace Ledger
open Py Base SealedLog

variable {γ δ : Type} {H : Hashing BatchPayload γ δ}

/-! ## ids -/

def recordIds (rows : List Row) : List Uuid := (records rows).map (·.id)

theorem recordIds_append (rows rows' : List Row) :
    recordIds (rows ++ rows') = recordIds rows ++ recordIds rows' := by
  simp only [recordIds, records, List.filterMap_append, List.map_append]

theorem recordIds_filter_sublist (p : Row → Bool) (rows : List Row) :
    (recordIds (rows.filter p)).Sublist (recordIds rows) :=
  ((List.filter_sublist).filterMap Row.record?).map _

theorem recordIds_mark (n : Nat) (ws we : Int) (rows : List Row) :
    recordIds (rows.map (mark (ledger H) n ws we)) = recordIds rows := by
  induction rows with
  | nil => rfl
  | cons r rows ih =>
    have hr : recordIds [mark (ledger H) n ws we r] = recordIds [r] := by
      unfold mark
      split
      · cases r <;> rfl
      · rfl
    rw [List.map_cons, ← List.singleton_append, recordIds_append, hr, ih, ← recordIds_append,
      List.singleton_append]

theorem recordIds_sealOnce (now : Int) (log : Log δ) :
    recordIds (sealOnce (ledger H) now log).1.rows = recordIds log.rows := by
  rcases @sealOnce_inv Row (Nat × Nat) δ (ledger H)
      (fun s _ => recordIds s.rows = recordIds log.rows) now log
      (fun s ws hs _ => (recordIds_mark _ _ _ s.rows).trans hs) (fun _ _ => rfl) with he | ⟨_, hs⟩
  · rw [he]
  · exact hs

/-! ## the invariant -/

structure Inv (H : Hashing BatchPayload γ δ) (log : Log δ) : Prop where
  sound : Sound (ledger H) log
  ids : (recordIds log.rows).Nodup

theorem Inv.empty : Inv H {} := ⟨Sound.empty, List.nodup_nil⟩

theorem mem_doomed {before : Int} {rows : List Row} {r : RecordRow} :
    r ∈ doomed before rows ↔
      .record r ∈ rows ∧ r.chainSequence ≠ none ∧ r.recordedAt < before := by
  rw [doomed, List.mem_filter, decide_eq_true_iff, mem_records]

theorem Inv.doomed_of_id {log : Log δ} (h : Inv H log) {before : Int} {r : RecordRow}
    (hr : .record r ∈ log.rows) (hid : r.id ∈ (doomed before log.rows).map (·.id)) :
    r ∈ doomed before log.rows := by
  obtain ⟨d, hd, he⟩ := List.mem_map.mp hid
  have hdr : d = r := List.inj_on_of_nodup_map h.ids ((mem_records d _).mpr (mem_doomed.mp hd).1)
    ((mem_records r _).mpr hr) he
  rw [← hdr]
  exact hd

/-! ## one step -/

theorem lost_ne_nil {gone : List RecordRow} {k : Nat} :
    gone.filter (·.chainSequence = some k) ≠ [] ↔ ∃ r ∈ gone, r.chainSequence = some k := by
  simp [List.filter_eq_nil_iff]

theorem tombstones (now : Int) (gone : List RecordRow) :
    Tombstones (tombstone (δ := δ) now gone) := by
  apply Tombstones.of_marks now
  intro b
  unfold tombstone
  dsimp only
  split
  · exact Or.inl rfl
  · exact Or.inr ⟨_, rfl⟩

theorem tombstone_prunedAt {now : Int} {gone : List RecordRow} {b : Batch (Nat × Nat) δ}
    (h : ∃ r ∈ gone, r.chainSequence = some b.sequence) :
    (tombstone now gone b).prunedAt ≠ none := by
  unfold tombstone
  dsimp only
  rw [if_neg (lost_ne_nil.mpr h)]
  simp

def purged (before now : Int) (log : Log δ) : Log δ where
  rows := log.rows.filter (survives ((doomed before log.rows).map (·.id)))
  chain := log.chain.map (tombstone now (doomed before log.rows))

theorem purgeBefore_cases (before now : Int) (dryRun : Bool) (log : Log δ) :
    (purgeBefore before now dryRun log).1 = log ∨
      (dryRun = false ∧ (purgeBefore before now dryRun log).1 = purged before now log) := by
  unfold purgeBefore
  dsimp only
  split
  · exact Or.inl rfl
  · rename_i hgo
    obtain ⟨-, hdry⟩ := not_or.mp hgo
    exact Or.inr ⟨Bool.eq_false_iff.mpr hdry, rfl⟩

theorem purgeBefore_of_doomed {log : Log δ} {before now : Int}
    (hd : doomed before log.rows ≠ []) :
    (purgeBefore before now false log).1 = purged before now log := by
  unfold purgeBefore
  dsimp only
  rw [if_neg (by simp [hd])]
  rfl

/-- what a purge that folds its cascade takes is sealed, in a batch that the purge tombstones or
that is already tombstoned -/
theorem Inv.sequence_of_gone {log : Log δ} (h : Inv H log) {before now : Int}
    (hc : CascadeFolded log (.purgeBefore before now false)) {row : Row} (hrow : row ∈ log.rows)
    (hgone : survives ((doomed before log.rows).map (·.id)) row = false) :
    ∃ k, row.chainSequence = some k ∧
      ((∃ r ∈ doomed before log.rows, r.chainSequence = some k) ∨
        ∃ b ∈ log.chain, b.sequence = k ∧ b.prunedAt ≠ none) := by
  cases row with
  | record r =>
    have hid := not_not.mp (of_decide_eq_false hgone)
    have hr := h.doomed_of_id hrow hid
    obtain ⟨k, hk⟩ := Option.ne_none_iff_exists'.mp (mem_doomed.mp hr).2.1
    exact ⟨k, hk, Or.inl ⟨r, hr, hk⟩⟩
  | verdict v =>
    obtain ⟨r, hr, he⟩ := List.mem_map.mp (not_not.mp (of_decide_eq_false hgone))
    exact hc before now rfl r hr v ((mem_verdicts v _).mpr hrow) he.symm

theorem Inv.purge {log : Log δ} (h : Inv H log) {before now : Int}
    (hc : CascadeFolded log (.purgeBefore before now false)) :
    Sound (ledger H) (purged before now log) := by
  apply h.sound.purge _ (tombstones now _)
  intro row hrow hgone b hb hseq
  obtain ⟨k, hk, hfold⟩ := h.sequence_of_gone hc hrow hgone
  have hkb : k = b.sequence := Option.some.inj (hk.symm.trans hseq)
  subst hkb
  rcases hfold with hrec | ⟨b', hb', hs, hp⟩
  · exact tombstone_prunedAt hrec
  · obtain rfl := h.sound.linked.eq_of_sequence hb' hb hs
    exact fun hn => hp ((tombstones now _).pruned b' hn)

theorem step_inv {log : Log δ} {op : Op} (h : Inv H log) (hc : CascadeFolded log op) :
    Inv H (step H log op) := by
  cases op with
  | record now row =>
    show Inv H (record now row log)
    unfold record
    split
    · exact h
    · rename_i hid
      refine ⟨h.sound.insert rfl, ?_⟩
      rw [recordIds_append]
      exact h.ids.append (List.nodup_singleton _) (List.disjoint_singleton.mpr hid)
  | recordVerdict now row =>
    show Inv H (recordVerdict now row log)
    unfold recordVerdict
    split
    · exact h
    · split
      · exact h
      · split
        · exact h
        · refine ⟨h.sound.insert rfl, ?_⟩
          rw [recordIds_append]
          exact (List.append_nil _).symm ▸ h.ids
  | sealOnce now =>
    refine ⟨h.sound.sealOnce now, ?_⟩
    rw [step, recordIds_sealOnce]
    exact h.ids
  | purgeBefore before now dryRun =>
    show Inv H (purgeBefore before now dryRun log).1
    rcases purgeBefore_cases before now dryRun log with he | ⟨rfl, he⟩
    · rw [he]
      exact h
    · rw [he]
      exact ⟨h.purge hc, h.ids.sublist (recordIds_filter_sublist _ _)⟩

theorem not_matches_of_gone {rows : List Row} {keep : Row → Bool} {b : Batch (Nat × Nat) δ}
    {row : Row} (hm : Matches (ledger H) rows b) (hrow : row ∈ rows)
    (hseq : row.chainSequence = some b.sequence) (hgone : keep row = false) :
    ¬ Matches (ledger H) (rows.filter keep) b := by
  intro hm'
  have hcounts : counts (sealedIn (ledger H) (rows.filter keep) b.sequence) =
      counts (sealedIn (ledger H) rows b.sequence) := hm'.counts.trans hm.counts.symm
  have hlen : (sealedIn (ledger H) (rows.filter keep) b.sequence).length =
      (sealedIn (ledger H) rows b.sequence).length := by
    rw [← length_records_add_verdicts, ← length_records_add_verdicts]
    obtain ⟨hr, hv⟩ := Prod.mk.inj hcounts
    rw [hr, hv]
  have hfilter : sealedIn (ledger H) (rows.filter keep) b.sequence =
      (sealedIn (ledger H) rows b.sequence).filter keep := by
    rw [sealedIn, sealedIn, List.filter_filter, List.filter_filter]
    refine List.filter_congr fun r _ => ?_
    rw [Bool.and_comm]
  have hmem : row ∈ sealedIn (ledger H) rows b.sequence :=
    List.mem_filter.mpr ⟨hrow, decide_eq_true hseq⟩
  have hlt : ((sealedIn (ledger H) rows b.sequence).filter keep).length <
      (sealedIn (ledger H) rows b.sequence).length :=
    List.length_filter_lt_length_iff_exists.mpr ⟨row, hmem, by simp [hgone]⟩
  rw [hfilter] at hlen
  exact absurd hlen (Nat.ne_of_lt hlt)

section
variable [DecidableEq δ] {log : Log δ} {op : Op}

theorem survives_of_cascadeFolded (h : Inv H log) (hc : CascadeFolded log op) :
    Survives H log op := by
  refine ⟨?_, ?_⟩
  · rw [verifyChain, report_fst]
    exact (step_inv h hc).sound.verify_ok
  · rintro before now dryRun rfl row hrow hnone
    show row ∈ (purgeBefore before now dryRun log).1.rows
    rcases purgeBefore_cases before now dryRun log with he | ⟨rfl, he⟩
    · rw [he]
      exact hrow
    · rw [he]
      apply List.mem_filter.mpr
      refine ⟨hrow, ?_⟩
      by_contra hgone
      obtain ⟨k, hk, -⟩ := h.sequence_of_gone hc hrow (Bool.eq_false_iff.mpr hgone)
      rw [hnone] at hk
      cases hk

theorem cascadeFolded_of_survives (h : Inv H log) (hs : Survives H log op) :
    CascadeFolded log op := by
  rintro before now rfl r hr v hv he
  have hvrow := (mem_verdicts v _).mp hv
  have hd : doomed before log.rows ≠ [] := List.ne_nil_of_mem hr
  have hafter : step H log (.purgeBefore before now false) = _ := purgeBefore_of_doomed hd
  have hgone : survives ((doomed before log.rows).map (·.id)) (.verdict v) = false :=
    decide_eq_false (not_not.mpr (List.mem_map.mpr ⟨r, hr, he.symm⟩))
  obtain ⟨hok, hkeep⟩ := hs
  rw [hafter] at hok hkeep
  cases hk : v.chainSequence with
  | none =>
    -- an unsealed verdict is deleted
    have hmem := (List.mem_filter.mp (hkeep before now false rfl _ hvrow hk)).2
    rw [hgone] at hmem
    cases hmem
  | some k =>
    refine ⟨k, rfl, ?_⟩
    by_contra hno
    obtain ⟨hrec, hpruned⟩ := not_or.mp hno
    obtain ⟨b, hb, rfl⟩ := h.sound.known _ hvrow k hk
    have hbp : b.prunedAt = none := by
      by_contra hp
      exact hpruned ⟨b, hb, rfl, hp⟩
    have htomb : tombstone now (doomed before log.rows) b = b := by
      unfold tombstone
      dsimp only
      rw [if_pos (not_not.mp fun hne => hrec (lost_ne_nil.mp hne))]
    rw [verifyChain, report_fst] at hok
    have hm := ((verify_isOk_iff _).mp hok).2 b (List.mem_map.mpr ⟨b, hb, htomb⟩) hbp
    exact not_matches_of_gone (h.sound.content b hb hbp) hvrow hk hgone hm

theorem survives_iff (h : Inv H log) : Survives H log op ↔ CascadeFolded log op :=
  ⟨cascadeFolded_of_survives h, survives_of_cascadeFolded h⟩

end

/-! ## histories -/

/-- **The histories the ledger survives.**  After every step the chain verifies and no purge has
deleted an unsealed row, exactly if every purge folds its cascade into its tombstones. -/
theorem ledger_survives_iff [DecidableEq δ] (H : Hashing BatchPayload γ δ) (ops : List Op) :
    Along (step H) (Survives H) {} ops ↔ Along (step H) CascadeFolded {} ops :=
  Along.iff_of_inv (I := Inv H) (fun _ _ h hc => step_inv h hc) (fun _ _ h => survives_iff h)
    Inv.empty

/-! ## a verdict sealed after its record -/

def sampleRecord : RecordRow where
  id := 1
  tenantId := 1
  modelId := "m"
  purpose := "p"
  inputSha256 := "h"
  recordedAt := 0

def sampleVerdict : VerdictRow where
  id := 1
  recordId := 1
  tenantId := 1
  verdict := "edited"
  decidedAt := 0

/-- the verdict falls in the second window; the purge takes the record of the first -/
def reviewedLater : List Op :=
  [.record 0 sampleRecord, .sealOnce (seconds 65), .recordVerdict (seconds 70) sampleVerdict,
    .sealOnce (seconds 125), .purgeBefore (seconds 1) (seconds 130) false]

/-- the second batch is short of a verdict, and no tombstone says why -/
theorem purge_breaks_chain :
    ¬ ∀ (γ δ : Type) (_ : DecidableEq δ) (H : Hashing BatchPayload γ δ) (ops : List Op),
        (verifyChain H (exec (step H) {} ops)).1 = true ∧ Along (step H) (Survives H) {} ops := by
  intro h
  have h1 := (h _ _ inferInstance (transcript _) reviewedLater).1
  exact absurd h1 (by decide)

end Ledger
