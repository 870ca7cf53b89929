import Velaris.AuditChain.Basic
import Mathlib.Data.List.Induction

/-!
# Prune records

* `expand_toRanges`   the runs of some sequences hold those sequences;
* `mem_of_mem_parts`, `exists_part`   the parts of a list of runs hold those runs;
* `payload_newRecord`   a new record can be read;
* `judge_covers_iff`   when a record covers what it names;
* `Covers.append`   a longer chain does not undo it.
-/

namespace AuditChain
open Py Base

/-! ## runs -/

theorem expand_append (rs ts : List (Int × Int)) : expand (rs ++ ts) = expand rs ++ expand ts :=
  List.flatMap_append

theorem expand_singleton (a b : Int) : expand [(a, b)] = Int.range a (b + 1) :=
  List.flatMap_singleton _ _

theorem range_concat {a b : Int} (h : a ≤ b) :
    Int.range a (b + 1) = Int.range a b ++ [b] := by
  unfold Int.range
  have hlen : (b + 1 - a).toNat = (b - a).toNat + 1 := by omega
  have hlast : a + ((b - a).toNat : Int) = b := by omega
  rw [hlen, List.range_succ, List.map_append, List.map_singleton, hlast]

theorem range_self (s : Int) : Int.range s (s + 1) = [s] := by
  have hnil : Int.range s s = [] := by
    unfold Int.range
    rw [Int.sub_self]
    rfl
  rw [range_concat (le_refl s), hnil, List.nil_append]

theorem extendRanges_ordered {out : List (Int × Int)} {s : Int} (h : ∀ p ∈ out, p.1 ≤ p.2) :
    ∀ p ∈ extendRanges out s, p.1 ≤ p.2 := by
  intro p hp
  rcases List.eq_nil_or_concat out with rfl | ⟨init, ⟨a, b⟩, rfl⟩
  · rw [List.mem_singleton.mp hp]
  · rw [List.concat_eq_append] at h hp
    have hab : a ≤ b := h (a, b) (List.mem_append_right _ (List.mem_singleton_self _))
    unfold extendRanges at hp
    rw [List.getLast?_concat] at hp
    dsimp only at hp
    split at hp
    · rename_i hs
      rw [List.dropLast_concat] at hp
      rcases List.mem_append.mp hp with hp | hp
      · exact h p (List.mem_append_left _ hp)
      · rw [List.mem_singleton.mp hp]
        show a ≤ s
        omega
    · rcases List.mem_append.mp hp with hp | hp
      · exact h p hp
      · rw [List.mem_singleton.mp hp]

theorem expand_extendRanges {out : List (Int × Int)} {s : Int} (h : ∀ p ∈ out, p.1 ≤ p.2) :
    expand (extendRanges out s) = expand out ++ [s] := by
  rcases List.eq_nil_or_concat out with rfl | ⟨init, ⟨a, b⟩, rfl⟩
  · show expand [(s, s)] = [s]
    rw [expand_singleton, range_self]
  · rw [List.concat_eq_append] at h ⊢
    have hab : a ≤ b := h (a, b) (List.mem_append_right _ (List.mem_singleton_self _))
    unfold extendRanges
    rw [List.getLast?_concat]
    dsimp only
    split
    · rename_i hs
      rw [List.dropLast_concat, expand_append, expand_append, expand_singleton, expand_singleton,
        range_concat (show a ≤ s by omega), hs, List.append_assoc]
    · rw [expand_append _ [(s, s)], expand_singleton, range_self]

theorem toRanges_concat (xs : List Int) (s : Int) :
    toRanges (xs ++ [s]) = extendRanges (toRanges xs) s := by
  unfold toRanges
  rw [List.foldl_append]
  rfl

theorem toRanges_ordered (xs : List Int) : ∀ p ∈ toRanges xs, p.1 ≤ p.2 := by
  induction xs using List.reverseRecOn with
  | nil => exact fun p hp => absurd hp List.not_mem_nil
  | append_singleton xs s ih =>
    rw [toRanges_concat]
    exact extendRanges_ordered ih

/-- **The runs of some sequences hold those sequences.** -/
theorem expand_toRanges (xs : List Int) : expand (toRanges xs) = xs := by
  induction xs using List.reverseRecOn with
  | nil => rfl
  | append_singleton xs s ih =>
    rw [toRanges_concat, expand_extendRanges (toRanges_ordered xs), ih]

/-! ## parts -/

theorem mem_of_mem_parts {rs part : List (Int × Int)} (h : part ∈ parts rs) :
    ∀ p ∈ part, p ∈ rs := by
  obtain ⟨i, -, rfl⟩ := List.mem_map.mp h
  exact fun p hp => List.mem_of_mem_drop (List.mem_of_mem_take hp)

theorem ne_nil_of_mem_parts {rs part : List (Int × Int)} (h : part ∈ parts rs) : part ≠ [] := by
  obtain ⟨i, hi, rfl⟩ := List.mem_map.mp h
  have hlt := List.mem_range.mp hi
  have hdrop : 0 < (rs.drop (i * PRUNE_MAX_RANGES)).length := by
    rw [List.length_drop]
    unfold PRUNE_MAX_RANGES at hlt ⊢
    omega
  intro hnil
  have hlen := congrArg List.length hnil
  rw [List.length_take] at hlen
  have hmax : 0 < PRUNE_MAX_RANGES := by decide
  rw [List.length_nil] at hlen
  omega

theorem exists_part {rs : List (Int × Int)} {p : Int × Int} (h : p ∈ rs) :
    ∃ part ∈ parts rs, p ∈ part := by
  obtain ⟨j, hj, rfl⟩ := List.getElem_of_mem h
  have hi : j / PRUNE_MAX_RANGES <
      (rs.length + (PRUNE_MAX_RANGES - 1)) / PRUNE_MAX_RANGES := by
    unfold PRUNE_MAX_RANGES
    omega
  refine ⟨_, List.mem_map.mpr ⟨_, List.mem_range.mpr hi, rfl⟩, ?_⟩
  rw [List.mem_take_iff_getElem]
  have hmod : j % PRUNE_MAX_RANGES < PRUNE_MAX_RANGES := Nat.mod_lt _ (by decide)
  have hsplit : j / PRUNE_MAX_RANGES * PRUNE_MAX_RANGES + j % PRUNE_MAX_RANGES = j :=
    Nat.div_add_mod' j PRUNE_MAX_RANGES
  refine ⟨j % PRUNE_MAX_RANGES, ?_, ?_⟩
  · rw [List.length_drop]
    omega
  · rw [List.getElem_drop]
    simp only [hsplit]

/-! ## reading a record -/

theorem readRange_pair (a b : Int) : readRange (.list [.int a, .int b]) = some (a, b) := rfl

theorem readRanges_pairs (part : List (Int × Int)) :
    readRanges (.list (part.map fun p => .list [.int p.1, .int p.2])) = some part := by
  show (part.map fun p => Value.list [.int p.1, .int p.2]).mapM readRange = some part
  induction part with
  | nil => rfl
  | cons p part ih =>
    rw [List.map_cons, List.mapM_cons, ih, readRange_pair]
    rfl

section
variable {γ δ : Type} {H : Digests γ δ}

/-- the columns of a new record, with its ranges as they were given -/
def newPayload (H : Digests γ δ) (call : Prune) (hashOf : List (ChainRow δ)) (id : Uuid)
    (part : List (Int × Int)) : PrunePayload δ where
  pruneId := id
  reason := (newRecord H call hashOf id part).reason
  actor := (newRecord H call hashOf id part).actor
  cutoff := call.cutoff
  recordedAt := call.now
  prunedCount := (expand part).length
  ranges := part
  digest := (newRecord H call hashOf id part).digest

theorem payload_newRecord (call : Prune) (hashOf : List (ChainRow δ)) (id : Uuid)
    (part : List (Int × Int)) :
    (newRecord H call hashOf id part).payload = some (newPayload H call hashOf id part) := by
  have hread : readRanges (if (newRecord H call hashOf id part).ranges.truthy then
      (newRecord H call hashOf id part).ranges else .list []) = some part := by
    split
    · exact readRanges_pairs part
    · rename_i hfalsy
      cases part with
      | nil => rfl
      | cons p part => exact absurd rfl hfalsy
  unfold PruneRecord.payload
  rw [hread]
  rfl

/-! ## what a record covers -/

/-- the record is the one its link seals, and names older links with the digest they have -/
structure Covers (H : Digests γ δ) (chain : List (ChainRow δ)) (rec : PruneRecord δ)
    (link : ChainRow δ) (seqs : List Int) : Prop where
  unchanged : computePruneHash H rec link.prevHash = some link.contentHash
  named : (readRanges rec.ranges).map expand = some seqs
  nonempty : seqs ≠ []
  counted : (seqs.length : Int) = rec.prunedCount
  older : ∀ s ∈ seqs, s < (link.sequence : Int)
  held : ∀ s ∈ seqs, hashAt chain s ≠ none
  digest_eq : digest H (seqs.filterMap (hashAt chain)) = rec.digest

theorem hashAt_append {chain more : List (ChainRow δ)} {s : Int} (h : hashAt chain s ≠ none) :
    hashAt (chain ++ more) s = hashAt chain s := by
  unfold hashAt at h ⊢
  rw [List.find?_append]
  cases hf : chain.find? fun c => (c.sequence : Int) = s with
  | none =>
    rw [hf] at h
    exact absurd rfl h
  | some c => rfl

theorem Covers.append {chain more : List (ChainRow δ)} {rec : PruneRecord δ} {link : ChainRow δ}
    {seqs : List Int} (h : Covers H chain rec link seqs) :
    Covers H (chain ++ more) rec link seqs where
  unchanged := h.unchanged
  named := h.named
  nonempty := h.nonempty
  counted := h.counted
  older := h.older
  held := by
    intro s hs
    rw [hashAt_append (h.held s hs)]
    exact h.held s hs
  digest_eq := by
    have hsame : seqs.filterMap (hashAt (chain ++ more)) = seqs.filterMap (hashAt chain) :=
      List.filterMap_congr fun s hs => hashAt_append (h.held s hs)
    rw [hsame]
    exact h.digest_eq

variable [DecidableEq δ]

theorem judge_covers_iff {chain : List (ChainRow δ)} {rec : PruneRecord δ} {seqs : List Int} :
    judge H chain rec = some (.covers seqs) ↔
      ∃ link, chain.find? (fun c => c.auditLogId = rec.id) = some link ∧
        Covers H chain rec link seqs := by
  unfold judge
  cases hfind : chain.find? fun c => c.auditLogId = rec.id with
  | none => simp
  | some link =>
    simp only [Option.some.injEq, exists_eq_left', Option.map_eq_some_iff]
    constructor
    · intro hx
      obtain ⟨h, hhash, hj⟩ := hx
      split at hj
      · cases hj
      · rename_i heq
        cases hread : readRanges rec.ranges with
        | none => simp [hread] at hj
        | some ranges =>
          simp only [hread] at hj
          split at hj
          · cases hj
          · rename_i hnames
            split at hj
            · cases hj
            · rename_i hmatch
              cases hj
              simp only [not_or, not_exists, not_and, not_not, Int.not_le] at hnames hmatch
              exact ⟨hhash.trans (congrArg some (not_not.mp heq)), by rw [hread]; rfl, hnames.1,
                hnames.2.1, hnames.2.2, hmatch.1, hmatch.2⟩
    · intro h
      obtain ⟨ranges, hread, hseqs⟩ := Option.map_eq_some_iff.mp h.named
      refine ⟨link.contentHash, h.unchanged, ?_⟩
      have hnames : ¬ (seqs = [] ∨ (seqs.length : Int) ≠ rec.prunedCount ∨
          ∃ s ∈ seqs, (link.sequence : Int) ≤ s) := by
        simp only [not_or, not_exists, not_and, not_not, Int.not_le]
        exact ⟨h.nonempty, h.counted, h.older⟩
      have hmatch : ¬ ((∃ s ∈ seqs, hashAt chain s = none) ∨
          digest H (seqs.filterMap (hashAt chain)) ≠ rec.digest) := by
        simp only [not_or, not_exists, not_and, not_not]
        exact ⟨h.held, h.digest_eq⟩
      rw [if_neg (not_not.mpr rfl), hread]
      simp only [hseqs]
      rw [if_neg hnames, if_neg hmatch]

theorem judge_unsealed {chain : List (ChainRow δ)} {rec : PruneRecord δ}
    (h : judge H chain rec = some .unsealed) :
    chain.find? (fun c => c.auditLogId = rec.id) = none := by
  unfold judge at h
  split at h
  · assumption
  · obtain ⟨hash, -, hj⟩ := Option.map_eq_some_iff.mp h
    split at hj
    · cases hj
    · split at hj
      · cases hj
      · dsimp only at hj
        split at hj
        · cases hj
        · split at hj <;> cases hj

end
end AuditChain
