import Velaris.AuditChain.Sound
import Velaris.Base.Traverse

/-!
# What `verify_chain` reports

* `verified_iff`   on a linked chain, every link passes its own check;
* `Inv.verified`   the chain of every history verifies, to any limit;
* `Inv.row_of_verified`, `Inv.named_of_verified`   what an altered database that verifies holds;
* `verifyChain_sound_complete`   both, for every history.
-/

set_option linter.unusedSectionVars false

namespace AuditChain
open Py Base

/-! ## judging every record -/

section
variable {γ δ : Type} {H : Digests γ δ} [DecidableEq δ]

theorem validPrunes_mem {s : Db δ} {judged : Judged δ} (h : validPrunes H s = some judged) :
    (∀ p ∈ s.prunes, ∃ j, judge H s.chain p = some j ∧ (p, j) ∈ judged) ∧
      ∀ q ∈ judged, q.1 ∈ s.prunes ∧ judge H s.chain q.1 = some q.2 := by
  have h₂ := forall₂_of_mapM h
  constructor
  · intro p hp
    obtain ⟨q, hq, hpq⟩ := mem_right_of_forall₂ h₂ hp
    obtain ⟨j, hj, rfl⟩ := Option.map_eq_some_iff.mp hpq
    exact ⟨j, hj, hq⟩
  · intro q hq
    obtain ⟨p, hp, hpq⟩ := mem_right_of_forall₂ h₂.flip hq
    obtain ⟨j, hj, rfl⟩ := Option.map_eq_some_iff.mp hpq
    exact ⟨hp, hj⟩

theorem covered_iff {judged : Judged δ} {n : Nat} :
    covered judged n = true ↔ ∃ p seqs, (p, Judgement.covers seqs) ∈ judged ∧ (n : Int) ∈ seqs := by
  unfold covered
  rw [List.any_eq_true]
  constructor
  · intro h
    obtain ⟨⟨p, j⟩, hmem, hj⟩ := h
    cases j with
    | covers seqs => exact ⟨p, seqs, hmem, of_decide_eq_true hj⟩
    | unsealed => cases hj
    | problem text => cases hj
  · intro h
    obtain ⟨p, seqs, hmem, hn⟩ := h
    exact ⟨(p, .covers seqs), hmem, decide_eq_true hn⟩

/-! ## the walk -/

theorem walk_of_linked {audit : List AuditRow} {judged : Judged δ} {k : Nat} {prev : δ}
    {rows : List (ChainRow δ)}
    (h : Linked ChainRow.sequence ChainRow.prevHash ChainRow.contentHash k prev rows) :
    walk H audit judged prev rows = rows.map fun c => checkLink H audit judged c.prevHash c := by
  induction rows generalizing k prev with
  | nil => rfl
  | cons c rows ih =>
    obtain ⟨-, hprev, hrest⟩ := h
    rw [walk, List.map_cons, ih hrest, hprev]

theorem mem_of_mem_limited {limit : Option Nat} {chain : List (ChainRow δ)} {c : ChainRow δ}
    (hc : c ∈ limited limit chain) : c ∈ chain := by
  unfold limited at hc
  split at hc
  · exact List.mem_of_mem_take hc
  · exact hc

theorem linked_limited {k : Nat} {prev : δ} {chain : List (ChainRow δ)} (limit : Option Nat)
    (h : Linked ChainRow.sequence ChainRow.prevHash ChainRow.contentHash k prev chain) :
    Linked ChainRow.sequence ChainRow.prevHash ChainRow.contentHash k prev
      (limited limit chain) := by
  unfold limited
  split
  · rename_i n
    rw [← List.take_append_drop (n + 1) chain] at h
    exact (linked_append.mp h).1
  · exact h

theorem verified_iff {s : Db δ} (limit : Option Nat)
    (h : Linked ChainRow.sequence ChainRow.prevHash ChainRow.contentHash 1 H.genesis s.chain) :
    (verifyChain H limit s).map (·.verified) = some true ↔
      ∃ judged, validPrunes H s = some judged ∧ ∀ c ∈ limited limit s.chain,
        (checkLink H s.audit judged c.prevHash c).break? = none := by
  unfold verifyChain
  rw [Option.map_map, Option.map_eq_some_iff]
  refine exists_congr fun judged => and_congr_right fun _ => ?_
  show decide (((walk H s.audit judged H.genesis (limited limit s.chain)).filterMap
    Finding.break?).length = 0) = true ↔ _
  rw [walk_of_linked (linked_limited limit h), decide_eq_true_iff, List.length_eq_zero_iff,
    List.filterMap_eq_nil_iff]
  simp only [List.forall_mem_map]

/-! ## histories -/

variable {uuid4 : Nat → Uuid} {W : AuditRow → Prop} {s : Db δ}

namespace Inv

theorem judge_of_mem (h : Inv H uuid4 W s) {p : PruneRecord δ} (hp : p ∈ s.prunes) :
    ∃ seqs, judge H s.chain p = some (.covers seqs) := by
  obtain ⟨seqs, link, hlink, hid, hcovers⟩ := h.covers p hp
  exact ⟨seqs, judge_covers_iff.mpr ⟨link, h.link_of_id hlink hid, hcovers⟩⟩

/-- **The chain of every history verifies.** -/
theorem verified (h : Inv H uuid4 W s) (limit : Option Nat) :
    (verifyChain H limit s).map (·.verified) = some true := by
  have hsome : ∀ p ∈ s.prunes, ((judge H s.chain p).map fun j => (p, j)).isSome := by
    intro p hp
    obtain ⟨seqs, hj⟩ := h.judge_of_mem hp
    rw [hj]
    rfl
  obtain ⟨judged, hjudged⟩ := exists_mapM hsome
  obtain ⟨hall, hback⟩ := validPrunes_mem hjudged
  refine (verified_iff limit h.linked).mpr ⟨judged, hjudged, fun c hc => ?_⟩
  have hchain := mem_of_mem_limited hc
  unfold checkLink
  rw [if_neg (not_not.mpr rfl)]
  cases hrow : s.audit.find? fun r => r.id = c.auditLogId with
  | some r =>
    obtain ⟨hr, hid⟩ := (find?_key_iff h.keys).mp hrow
    have hhash : computeRowHash H r c.prevHash = c.contentHash := by
      rcases h.seals c hchain with ⟨r', hr', hseal⟩ | ⟨p, hp, hseal⟩
      · rw [h.row_unique r r' (h.written r hr) hr' (hid.trans hseal.id.symm)]
        exact hseal.hash
      · exact absurd (hid.trans hseal.id.symm) (h.apart r (h.written r hr) p hp)
    simp only [hhash, ne_eq, not_true_eq_false, if_false]
    rfl
  | none =>
    dsimp only
    cases hrec : judged.find? fun q => q.1.id = c.auditLogId with
    | some q =>
      obtain ⟨p, j⟩ := q
      obtain ⟨hp, hj⟩ := hback _ (List.mem_of_find?_eq_some hrec)
      obtain ⟨seqs, hj'⟩ := h.judge_of_mem hp
      obtain rfl : Judgement.covers seqs = j := Option.some.inj (hj'.symm.trans hj)
      rfl
    | none =>
      have hcovered : covered judged c.sequence = true := by
        rcases h.seals c hchain with ⟨r, hr, hseal⟩ | ⟨p, hp, hseal⟩
        · have hgone : r ∉ s.audit := fun hmem =>
            find?_key_eq_none.mp hrow r hmem hseal.id
          obtain ⟨p, hp, seqs, ⟨link, hlink, hid, hcovers⟩, hin⟩ :=
            h.pruned c hchain r hr hseal.id hgone
          obtain ⟨j, hj, hmem⟩ := hall p hp
          have hj' := judge_covers_iff.mpr ⟨link, h.link_of_id hlink hid, hcovers⟩
          obtain rfl : Judgement.covers seqs = j := Option.some.inj (hj'.symm.trans hj)
          exact covered_iff.mpr ⟨p, seqs, hmem, hin⟩
        · -- a link that seals a record finds it
          obtain ⟨j, -, hmem⟩ := hall p hp
          exact absurd hseal.id (find?_key_eq_none.mp hrec _ hmem)
      simp only [hcovered, if_true]
      rfl

/-! ## alterations -/

theorem payload_of_hash (hinj : H.Injective) {p q : Payload δ}
    (he : H.sha256 (H.canonical p) = H.sha256 (H.canonical q)) : p = q :=
  hinj.canonical (hinj.sha256 he)

theorem sealsRow (h : Inv H uuid4 W s) {c : ChainRow δ} (hc : c ∈ s.chain) {r : AuditRow}
    (hr : W r) (hid : r.id = c.auditLogId) : SealsRow H r c := by
  rcases h.seals c hc with ⟨r', hr', hseal⟩ | ⟨p, hp, hseal⟩
  · rw [h.row_unique r r' hr hr' (hid.trans hseal.id.symm)]
    exact hseal
  · exact absurd (hid.trans hseal.id.symm) (h.apart r hr p hp)

theorem row_ne_record (hinj : H.Injective) {r : AuditRow} {p : PruneRecord δ} {c : ChainRow δ}
    (hseal : SealsRow H r c) : computePruneHash H p c.prevHash ≠ some c.contentHash := by
  intro hhash
  obtain ⟨fields, -, he⟩ := Option.map_eq_some_iff.mp hhash
  have hpay := payload_of_hash hinj (he.trans hseal.hash.symm)
  cases hpay

variable {audit' : List AuditRow} {prunes' : List (PruneRecord δ)}

theorem altered_iff (h : Inv H uuid4 W s) :
    (verifyChain H none { s with audit := audit', prunes := prunes' }).map (·.verified) =
        some true ↔
      ∃ judged, validPrunes H { s with audit := audit', prunes := prunes' } = some judged ∧
        ∀ c ∈ s.chain, (checkLink H audit' judged c.prevHash c).break? = none :=
  verified_iff (s := { s with audit := audit', prunes := prunes' }) none h.linked

theorem row_of_verified (hinj : H.Injective) (h : Inv H uuid4 W s)
    (hkeys : (audit'.map (·.id)).Nodup)
    (hok : (verifyChain H none { s with audit := audit', prunes := prunes' }).map (·.verified) =
      some true)
    {c : ChainRow δ} (hc : c ∈ s.chain) {r : AuditRow} (hr : W r) (hid : r.id = c.auditLogId)
    {r' : AuditRow} (hr' : r' ∈ audit') (hid' : r'.id = r.id) : r'.payload = r.payload := by
  obtain ⟨judged, -, hcheck⟩ := h.altered_iff.mp hok
  have hbreak := hcheck c hc
  unfold checkLink at hbreak
  rw [if_neg (not_not.mpr rfl), (find?_key_iff hkeys).mpr ⟨hr', hid'.trans hid⟩] at hbreak
  dsimp only at hbreak
  split at hbreak
  · cases hbreak
  · rename_i hhash
    have hpay := payload_of_hash hinj
      ((not_not.mp hhash).trans (h.sealsRow hc hr hid).hash.symm)
    exact (Payload.row.inj hpay).1

theorem record_of_covers (hinj : H.Injective) (h : Inv H uuid4 W s) {p : PruneRecord δ}
    {link : ChainRow δ} {seqs : List Int} (hlink : link ∈ s.chain)
    (hcovers : Covers H s.chain p link seqs) : ∃ p₀ ∈ s.prunes, p.payload = p₀.payload := by
  rcases h.seals link hlink with ⟨r, hr, hseal⟩ | ⟨p₀, hp₀, hseal⟩
  · exact absurd hcovers.unchanged (row_ne_record hinj hseal)
  · obtain ⟨fields, hfields, he⟩ := Option.map_eq_some_iff.mp hcovers.unchanged
    obtain ⟨fields₀, hfields₀, he₀⟩ := Option.map_eq_some_iff.mp hseal.hash
    have hpay := payload_of_hash hinj (he.trans he₀.symm)
    rw [(Payload.prune.inj hpay).1] at hfields
    exact ⟨p₀, hp₀, hfields.trans hfields₀.symm⟩

theorem named_of_verified (hinj : H.Injective) (h : Inv H uuid4 W s)
    (hok : (verifyChain H none { s with audit := audit', prunes := prunes' }).map (·.verified) =
      some true)
    {c : ChainRow δ} (hc : c ∈ s.chain) {r : AuditRow} (hr : W r) (hid : r.id = c.auditLogId)
    (hgone : ∀ r' ∈ audit', r'.id ≠ r.id) :
    ∃ p ∈ prunes', ∃ p₀ ∈ s.prunes, p.payload = p₀.payload ∧
      (∃ link ∈ s.chain, link.auditLogId = p.id ∧ c.sequence < link.sequence) ∧
      ∃ ranges, readRanges p.ranges = some ranges ∧ (c.sequence : Int) ∈ expand ranges := by
  obtain ⟨judged, hjudged, hcheck⟩ := h.altered_iff.mp hok
  obtain ⟨-, hback⟩ := validPrunes_mem hjudged
  have hrow : (audit'.find? fun r' => r'.id = c.auditLogId) = none :=
    find?_key_eq_none.mpr fun r' hr' => by
      rw [← hid]
      exact hgone r' hr'
  -- a record under the row's own id would have to be what the link sealed
  have hrec : (judged.find? fun q => q.1.id = c.auditLogId) = none ∨
      ∃ q text, (judged.find? fun q => q.1.id = c.auditLogId) = some (q, .problem text) := by
    cases hf : judged.find? fun q => q.1.id = c.auditLogId with
    | none => exact Or.inl rfl
    | some q =>
      obtain ⟨p, j⟩ := q
      obtain ⟨-, hj⟩ := hback _ (List.mem_of_find?_eq_some hf)
      have hpid := List.find?_some hf
      have hfind := h.link_of_id hc (of_decide_eq_true hpid).symm
      cases j with
      | problem text => exact Or.inr ⟨p, text, rfl⟩
      | unsealed =>
        have hnone := judge_unsealed hj
        rw [hfind] at hnone
        cases hnone
      | covers seqs =>
        obtain ⟨link, hlink, hcovers⟩ := judge_covers_iff.mp hj
        obtain rfl : c = link := Option.some.inj (hfind.symm.trans hlink)
        exact absurd hcovers.unchanged (row_ne_record hinj (h.sealsRow hc hr hid))
  have hbreak := hcheck c hc
  unfold checkLink at hbreak
  rw [if_neg (not_not.mpr rfl), hrow] at hbreak
  dsimp only at hbreak
  rcases hrec with hnone | ⟨q, text, hproblem⟩
  · rw [hnone] at hbreak
    dsimp only at hbreak
    split at hbreak
    · rename_i hcovered
      obtain ⟨p, seqs, hmem, hin⟩ := covered_iff.mp hcovered
      obtain ⟨hp, hj⟩ := hback _ hmem
      obtain ⟨link, hlink, hcovers⟩ := judge_covers_iff.mp hj
      have hlinkmem := List.mem_of_find?_eq_some hlink
      have hlinkid := List.find?_some hlink
      obtain ⟨p₀, hp₀, hpay⟩ := h.record_of_covers hinj hlinkmem hcovers
      obtain ⟨ranges, hranges, rfl⟩ := Option.map_eq_some_iff.mp hcovers.named
      have holder := hcovers.older _ hin
      exact ⟨p, hp, p₀, hp₀, hpay,
        ⟨link, hlinkmem, of_decide_eq_true hlinkid, by omega⟩, ranges, hranges, hin⟩
    · cases hbreak
  · rw [hproblem] at hbreak
    cases hbreak

end Inv

/-- **The chain verifies after every history, and after an alteration only where no sealed row is
altered, and none gone that no sealed record names.** -/
theorem verifyChain_sound_complete (H : Digests γ δ) (hinj : H.Injective) (uuid4 : Nat → Uuid)
    (hfresh : Function.Injective uuid4) (ops : List Op) :
    (∀ limit, (verifyChain H limit (after H uuid4 ops)).map (·.verified) = some true) ∧
    ∀ (audit' : List AuditRow) (prunes' : List (PruneRecord δ)), (audit'.map (·.id)).Nodup →
      (verifyChain H none { after H uuid4 ops with audit := audit', prunes := prunes' }).map
        (·.verified) = some true →
      ∀ c ∈ (after H uuid4 ops).chain, ∀ r, Written H uuid4 ops r → r.id = c.auditLogId →
        (∀ r' ∈ audit', r'.id = r.id → r'.payload = r.payload) ∧
        ((∀ r' ∈ audit', r'.id ≠ r.id) →
          ∃ p ∈ prunes', ∃ p₀ ∈ (after H uuid4 ops).prunes, p.payload = p₀.payload ∧
            (∃ link ∈ (after H uuid4 ops).chain,
              link.auditLogId = p.id ∧ c.sequence < link.sequence) ∧
            ∃ ranges, readRanges p.ranges = some ranges ∧
              (c.sequence : Int) ∈ expand ranges) := by
  have h := after_inv (H := H) hfresh ops
  refine ⟨fun limit => h.verified limit, fun audit' prunes' hkeys hok c hc r hr hid => ⟨?_, ?_⟩⟩
  · intro r' hr' hid'
    exact h.row_of_verified hinj hkeys hok hc hr hid hr' hid'
  · exact h.named_of_verified hinj hok hc hr hid

end

/-! ## a history -/

inductive Text where
  | genesis
  | row (fields : RowPayload) (prev : Text)
  | prune (fields : PrunePayload Unit) (digest prev : Text)
  | nothing
  | joined (first rest : Text)
  deriving DecidableEq

def texts : Digests Text Text where
  genesis := .genesis
  canonical
    | .row fields prev => .row fields prev
    | .prune fields prev => .prune { fields with digest := () } fields.digest prev
  sha256 := id
  join hashes := hashes.foldr .joined .nothing

theorem texts_injective : texts.Injective where
  sha256 := Function.injective_id
  canonical := by
    intro p q h
    cases p with
    | row fields prev =>
      cases q with
      | row fields' prev' => rw [(Text.row.inj h).1, (Text.row.inj h).2]
      | prune fields' prev' => cases h
    | prune fields prev =>
      cases q with
      | row fields' prev' => cases h
      | prune fields' prev' =>
        obtain ⟨hfields, hdigest, rfl⟩ := Text.prune.inj h
        have hall := PrunePayload.mk.inj hfields
        cases fields
        cases fields'
        simp_all

def sampleEntry (action : String) : AuditEntry where
  caseId := 1
  action := action
  timestamp := 0

/-- two rows are sealed, and the first is pruned -/
def pruning : List Op :=
  [.append (sampleEntry "case.created"), .append (sampleEntry "case.closed"), .sealNewEntries 10000,
    .pruneAuditRows
      { matching := fun r => r.action = "case.created"
        reason := "retention"
        actor := "system"
        now := "2026-10-11T00:00:00+00:00" }]

/-- the pruned row is the one the record names -/
theorem pruned_row_named :
    (verifyChain texts none (after texts id pruning)).map (·.verified) = some true ∧
    ∃ p ∈ (after texts id pruning).prunes, ∃ p₀ ∈ (after texts id pruning).prunes,
      p.payload = p₀.payload ∧
      (∃ link ∈ (after texts id pruning).chain, link.auditLogId = p.id ∧ 1 < link.sequence) ∧
      ∃ ranges, readRanges p.ranges = some ranges ∧ (1 : Int) ∈ expand ranges := by
  obtain ⟨hverified, haltered⟩ :=
    verifyChain_sound_complete texts texts_injective id Function.injective_id pruning
  have hwritten : Written texts id pruning { sampleEntry "case.created" with id := 0 } :=
    ⟨pruning.take 1, pruning.drop 1, rfl, List.mem_singleton_self _⟩
  refine ⟨hverified none, ?_⟩
  exact (haltered (after texts id pruning).audit (after texts id pruning).prunes (by decide)
    (hverified none) ((after texts id pruning).chain.head (by decide)) (List.head_mem _) _ hwritten
    (by decide)).2 (by decide)

end AuditChain
