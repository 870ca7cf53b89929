import Velaris.Arbiter.Chain

/-!
# HxArbiter: what the sealed decision log is evidence of

* `verifyChain_detects`   a row sealed in a batch that no purge touched cannot be changed or
    removed under the chain;
* `sealed_of_commits_in_time`   histories in which every decision is sealed;
* `commitsInTime_of_prompt`   transactions that commit within the settle delay are such;
* `late_decision_never_sealed`  what becomes of a decision that commits too late.
-/

namespace HxArbiter
namespace Chain
open Py Base SealedLog

variable {γ δ : Type} {H : Hashing BatchPayload γ δ}

/-! ## alterations -/

theorem mem_batchPayload {rows : List DecisionRow} {ws we : Int} {f : DecisionFields} :
    f ∈ (batchPayload rows ws we).decisions ↔ ∃ r ∈ rows, r.toDecisionFields = f := by
  rw [batchPayload, (List.perm_insertionSort _ _).mem_iff, List.mem_map]

theorem computeBatchHash_fields (hH : H.Injective) {prev : δ} {rows rows' : List DecisionRow}
    {ws we : Int} (h : computeBatchHash H prev rows' ws we = computeBatchHash H prev rows ws we)
    {r : DecisionRow} (hr : r ∈ rows) : ∃ r' ∈ rows', r'.toDecisionFields = r.toDecisionFields := by
  have hp : batchPayload rows' ws we = batchPayload rows ws we :=
    hH.canonical (hH.sha256 prev h)
  have hmem : r.toDecisionFields ∈ (batchPayload rows ws we).decisions :=
    mem_batchPayload.mpr ⟨r, hr, rfl⟩
  rw [← hp] at hmem
  exact mem_batchPayload.mp hmem

/-- the hashed columns of the sealed row `r` no longer occur among the rows of its batch: it was
altered, moved or removed -/
def Lost (r : DecisionRow) (rows : List DecisionRow) : Prop :=
  ∀ r' ∈ rows, r'.chainSequence = r.chainSequence → r'.toDecisionFields ≠ r.toDecisionFields

theorem lost_of_id {r : DecisionRow} {rows : List DecisionRow}
    (h : ∀ r' ∈ rows, r'.id = r.id → r'.toDecisionFields ≠ r.toDecisionFields) : Lost r rows := by
  intro r' hr' _ hfields
  have hid : r'.id = r.id := congrArg DecisionFields.id hfields
  exact h r' hr' hid hfields

/-- **The sealed log is tamper-evident** for every row of a batch that no purge has tombstoned:
whatever is done to the decision rows, once such a row is lost the untouched chain does not
verify. -/
theorem verifyChain_detects [DecidableEq δ] (H : Hashing BatchPayload γ δ) (hH : H.Injective)
    (ops : List Op) (b : Batch Nat δ) (hb : b ∈ (after H ops).log.chain) (hp : b.prunedAt = none)
    (r : DecisionRow) (hr : r ∈ (after H ops).log.rows) (hrb : r.chainSequence = some b.sequence)
    (rows : List DecisionRow) (hlost : Lost r rows) :
    (verifyChain H { (after H ops).log with rows := rows }).1 = false := by
  rw [verifyChain, report_fst, Bool.eq_false_iff]
  intro hok
  have hdigest := (after_sound ops).digest_eq hok hb hp
  have hmem : r ∈ sealedIn (decisions H) (after H ops).log.rows b.sequence :=
    List.mem_filter.mpr ⟨hr, decide_eq_true hrb⟩
  obtain ⟨r', hr', hf⟩ := computeBatchHash_fields hH hdigest hmem
  obtain ⟨hr', hseq⟩ := List.mem_filter.mp hr'
  exact hlost r' hr' ((of_decide_eq_true hseq).trans hrb.symm) hf

/-! ## a purge of one namespace -/

def sample (id : Uuid) (ns : String) : DecisionRow where
  id := id
  tenantId := 1
  ns := ns
  action := ns
  subjectKind := "user"
  subjectId := "s"
  effect := "deny"
  mode := "enforce"
  enforced := true
  defaultApplied := false
  matched := Value.doc (.list [])
  obligations := Value.doc (.list [])
  legacyEffect := none
  policySetHash := none
  error := none
  evaluatedAt := 0

def asGiven : Scan DecisionRow := ⟨id, fun _ => .refl _⟩

def twoDecisions : List Op :=
  [.writeDecision 0 (sample 1 "a"), .commit 1, .writeDecision 1 (sample 2 "b"), .commit 2,
    .sealOnce (seconds 65)]

/-- retention takes the first decision; the second shares its batch -/
def onePurged : List Op :=
  twoDecisions ++ [.purgeExpiredDecisions [("a", some 1), ("b", none)] (days 2) 5000 asGiven]

/-- the surviving decision may be rewritten: its batch is no longer checked -/
theorem survivor_unprotected :
    ¬ ∀ (γ δ : Type) (_ : DecidableEq δ) (H : Hashing BatchPayload γ δ), H.Injective →
        ∀ (ops : List Op) (r : DecisionRow),
        r ∈ (after H ops).log.rows → r.chainSequence ≠ none → ∀ rows, Lost r rows →
        (verifyChain H { (after H ops).log with rows := rows }).1 = false := by
  intro h
  have hr : { sample 2 "b" with evaluatedAt := 1, chainSequence := some 1 } ∈
      (after (transcript _) onePurged).log.rows := by decide
  have h1 := h _ _ inferInstance (transcript _) (transcript_injective _) onePurged _ hr (by decide)
    [{ sample 2 "b" with effect := "allow", evaluatedAt := 1, chainSequence := some 1 }]
    (lost_of_id (by decide))
  exact absurd h1 (by decide)

/-- without the purge, a decision turned from deny to allow is found -/
theorem rewritten_decision_found :
    (verifyChain (transcript _) { (after (transcript _) twoDecisions).log with
      rows := [{ sample 1 "a" with effect := "allow", chainSequence := some 1 },
        { sample 2 "b" with evaluatedAt := 1, chainSequence := some 1 }] }).1 = false := by
  refine verifyChain_detects (transcript _) (transcript_injective _) twoDecisions
    (newBatch (decisions (transcript _)) 1 [] 0 (seconds 60)
      [{ sample 1 "a" with evaluatedAt := 0 }, { sample 2 "b" with evaluatedAt := 1 }])
    (by decide) (by decide) { sample 1 "a" with chainSequence := some 1 } (by decide) (by decide)
    _ ?_
  apply lost_of_id
  decide

/-! ## decisions that commit late -/

/-- a transaction commits while its decision is not older than the newest sealed window -/
def CommitsInTime (db : Db δ) (op : Op) : Prop :=
  ∀ id, op = .commit id → ∀ row ∈ db.pending, row.id = id →
    ∀ e, tipEnd db.log.chain = some e → e ≤ row.evaluatedAt

theorem tipEnd_map_tombstone (now : Int) (affected : List Nat) (rows : List DecisionRow)
    (chain : List (Batch Nat δ)) :
    tipEnd (chain.map (tombstone now affected rows)) = tipEnd chain := by
  unfold tipEnd
  rw [List.getLast?_map, Option.map_map]
  congr 1
  funext b
  exact ((tombstones now affected rows).windows b).2

theorem purgeNamespace_rows (now : Int) (limit : Nat) (scan : Scan DecisionRow)
    (acc : Log δ × List (String × Nat)) (spec : String × Option Int) :
    (purgeNamespace now limit scan acc spec).1.rows ⊆ acc.1.rows ∧
      tipEnd (purgeNamespace now limit scan acc spec).1.chain = tipEnd acc.1.chain := by
  rcases purgeNamespace_cases now limit scan acc spec with he | ⟨ids, he⟩
  · rw [he]
    exact ⟨List.Subset.refl _, rfl⟩
  · rw [he]
    exact ⟨fun r hr => List.mem_of_mem_filter hr, tipEnd_map_tombstone _ _ _ _⟩

theorem purge_rows (specs : List (String × Option Int)) (now : Int) (limit : Nat)
    (scan : Scan DecisionRow) (log : Log δ) :
    (purgeExpiredDecisions specs now limit scan log).1.rows ⊆ log.rows ∧
      tipEnd (purgeExpiredDecisions specs now limit scan log).1.chain = tipEnd log.chain := by
  show (exec (purgeNamespace now limit scan) (log, []) specs).1.rows ⊆ log.rows ∧
    tipEnd (exec (purgeNamespace now limit scan) (log, []) specs).1.chain = tipEnd log.chain
  apply exec_inv' (I := fun acc : Log δ × List (String × Nat) =>
    acc.1.rows ⊆ log.rows ∧ tipEnd acc.1.chain = tipEnd log.chain)
  · intro acc spec hacc
    obtain ⟨hrows, hend⟩ := purgeNamespace_rows now limit scan acc spec
    exact ⟨fun r hr => hacc.1 (hrows hr), hend.trans hacc.2⟩
  · exact ⟨List.Subset.refl _, rfl⟩

theorem step_covered {db : Db δ} (op : Op) (h : Covered (decisions H) db.log)
    (hop : CommitsInTime db op) : Covered (decisions H) (step H db op).log := by
  cases op with
  | writeDecision now row => exact h
  | commit id =>
    show Covered (decisions H) (commit id db).log
    unfold commit
    split
    · exact h
    · rename_i row hrow
      dsimp only
      split
      · exact h
      · have hid : row.id = id := by simpa using List.find?_some hrow
        exact h.insert (hop id rfl row (List.mem_of_find?_eq_some hrow) hid)
  | rollback id => exact h
  | sealOnce now => exact h.sealOnce now
  | purgeExpiredDecisions specs now limit scan =>
    obtain ⟨hrows, hend⟩ := purge_rows specs now limit scan db.log
    exact h.of_subset hend fun r hr => ⟨r, hrows hr, rfl, rfl⟩
  | eraseSubject subjectId =>
    refine h.of_subset rfl fun r hr => ?_
    obtain ⟨r₀, hr₀, rfl⟩ := List.mem_map.mp hr
    obtain ⟨hf, hseq⟩ := eraseRow_fields subjectId r₀
    exact ⟨r₀, hr₀, (congrArg (·.evaluatedAt) hf).symm, hseq.symm⟩

/-- **Every decision is sealed** that lies before the newest sealed window's end, after any run of
the sealer, in the histories whose transactions commit in time. -/
theorem sealed_of_commits_in_time (H : Hashing BatchPayload γ δ) (ops : List Op)
    (hops : Along (step H) CommitsInTime {} ops) (now : Int) (r : DecisionRow)
    (hr : r ∈ (after H (ops ++ [.sealOnce now])).log.rows) (e : Int)
    (he : tipEnd (after H (ops ++ [.sealOnce now])).log.chain = some e) (hlt : r.evaluatedAt < e) :
    r.chainSequence ≠ none := by
  have hcov : Covered (decisions H) (after H ops).log :=
    exec_inv (I := fun db : Db δ => Covered (decisions H) db.log) (P := CommitsInTime)
      (fun _ op h hop => step_covered op h hop) Covered.empty hops
  rw [after, exec_concat] at hr he
  exact hcov.sealOnce now e he r hr hlt

/-- a decision behind the newest sealed window is never sealed, however often the sealer runs -/
theorem late_decision_never_sealed {db : Db δ} {r : DecisionRow} (hr : r ∈ db.log.rows) {e : Int}
    (he : tipEnd db.log.chain = some e) (hlt : r.evaluatedAt < e) (times : List Int) :
    r ∈ (exec (step H) db (times.map Op.sealOnce)).log.rows := by
  induction times generalizing db e with
  | nil => exact hr
  | cons now times ih =>
    obtain ⟨hr', e', he', hlt'⟩ := left_behind (F := decisions H) he hr hlt now
    exact ih hr' he' hlt'

/-- the moments an operation names, in the order of the history -/
def Op.time? : Op → Option Int
  | .writeDecision now _ | .sealOnce now | .purgeExpiredDecisions _ now _ _ => some now
  | .commit _ | .rollback _ | .eraseSubject _ => none

/-- the second of two decisions commits only after the sealer has passed its window -/
def slowCommit : List Op :=
  [.writeDecision 0 (sample 1 "a"), .writeDecision 1 (sample 2 "a"), .commit 1,
    .sealOnce (seconds 65), .commit 2]

/-- a decision committed before the run, and before the newest window's end, stays unsealed -/
theorem slow_commit_unsealed :
    ¬ ∀ (γ δ : Type) (H : Hashing BatchPayload γ δ) (ops : List Op) (now : Int),
        ((ops ++ [Op.sealOnce now]).filterMap Op.time?).Pairwise (· ≤ ·) →
        (sealOnce (decisions H) now (after H ops).log).2 < MAX_BATCHES_PER_RUN →
        ∀ r ∈ (after H (ops ++ [.sealOnce now])).log.rows, ∀ e,
          tipEnd (after H (ops ++ [.sealOnce now])).log.chain = some e → r.evaluatedAt < e →
          r.chainSequence ≠ none := by
  intro h
  have h1 := h _ _ (transcript _) slowCommit (seconds 125) (by decide) (by decide)
    { sample 2 "a" with evaluatedAt := 1 } (by decide) (seconds 120) (by decide) (by decide)
  exact h1 rfl

/-- where both decisions commit before the sealer runs, the first is sealed -/
theorem prompt_commit_sealed :
    ((after (transcript _) (twoDecisions ++ [.sealOnce (seconds 125)])).log.rows.head
      (by decide)).chainSequence ≠ none := by
  have hempty : ∀ (db : Db (List BatchPayload)) op, db.log.chain = [] → CommitsInTime db op := by
    intro db op hdb id _ row _ _ e he
    rw [hdb] at he
    cases he
  have htime : Along (step (transcript _)) CommitsInTime {} twoDecisions :=
    ⟨hempty _ _ rfl, hempty _ _ rfl, hempty _ _ rfl, hempty _ _ rfl, hempty _ _ rfl, trivial⟩
  exact sealed_of_commits_in_time (transcript _) twoDecisions htime (seconds 125) _
    (List.head_mem _) (seconds 120) (by decide) (by decide)

end Chain
end HxArbiter
