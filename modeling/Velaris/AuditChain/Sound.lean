import Velaris.AuditChain.Records
import Velaris.Base.Table

/-!
# The chain of every history

* `Written`   the audit rows of a history, deleted or not;
* `Inv`   the invariant: every link seals a row that was written or a record that is there,
    every record covers what it names, and every sealed row that is gone is covered;
* `Inv.append`, `Inv.sealNewEntries`, `Inv.pruneAuditRows`   what keeps it;
* `after_inv`   so it holds of every history.
-/

namespace AuditChain
open Py Base

variable {γ δ : Type}

/-- the audit row was in its table at some moment of the history -/
def Written (H : Digests γ δ) (uuid4 : Nat → Uuid) (ops : List Op) (r : AuditRow) : Prop :=
  Visited (step H uuid4) {} ops fun s => r ∈ s.audit

/-- the id was given by one of the calls of `uuid.uuid4` so far -/
def Issued (uuid4 : Nat → Uuid) (s : Db δ) (id : Uuid) : Prop := ∃ n < s.uuids, id = uuid4 n

structure SealsRow (H : Digests γ δ) (r : AuditRow) (c : ChainRow δ) : Prop where
  id : r.id = c.auditLogId
  hash : computeRowHash H r c.prevHash = c.contentHash

structure SealsRecord (H : Digests γ δ) (p : PruneRecord δ) (c : ChainRow δ) : Prop where
  id : p.id = c.auditLogId
  hash : computePruneHash H p c.prevHash = some c.contentHash

def Names (H : Digests γ δ) (chain : List (ChainRow δ)) (p : PruneRecord δ) (seqs : List Int) :
    Prop :=
  ∃ link ∈ chain, link.auditLogId = p.id ∧ Covers H chain p link seqs

/-- `W` are the audit rows written so far -/
structure Inv (H : Digests γ δ) (uuid4 : Nat → Uuid) (W : AuditRow → Prop) (s : Db δ) : Prop where
  linked : Linked ChainRow.sequence ChainRow.prevHash ChainRow.contentHash 1 H.genesis s.chain
  /-- no id is sealed twice -/
  one_link : (s.chain.map (·.auditLogId)).Nodup
  keys : (s.audit.map (·.id)).Nodup
  written : ∀ r ∈ s.audit, W r
  row_issued : ∀ r, W r → Issued uuid4 s r.id
  record_issued : ∀ p ∈ s.prunes, Issued uuid4 s p.id
  row_unique : ∀ r r', W r → W r' → r.id = r'.id → r = r'
  apart : ∀ r, W r → ∀ p ∈ s.prunes, r.id ≠ p.id
  seals : ∀ c ∈ s.chain, (∃ r, W r ∧ SealsRow H r c) ∨ ∃ p ∈ s.prunes, SealsRecord H p c
  covers : ∀ p ∈ s.prunes, ∃ seqs, Names H s.chain p seqs
  pruned : ∀ c ∈ s.chain, ∀ r, W r → r.id = c.auditLogId → r ∉ s.audit →
    ∃ p ∈ s.prunes, ∃ seqs, Names H s.chain p seqs ∧ (c.sequence : Int) ∈ seqs

theorem Names.append {H : Digests γ δ} {chain more : List (ChainRow δ)} {p : PruneRecord δ}
    {seqs : List Int} (h : Names H chain p seqs) : Names H (chain ++ more) p seqs := by
  obtain ⟨link, hlink, hid, hcovers⟩ := h
  exact ⟨link, List.mem_append_left _ hlink, hid, hcovers.append⟩

theorem Issued.mono {uuid4 : Nat → Uuid} {s t : Db δ} {id : Uuid} (h : Issued uuid4 s id)
    (hle : s.uuids ≤ t.uuids) : Issued uuid4 t id := by
  obtain ⟨n, hn, rfl⟩ := h
  exact ⟨n, by omega, rfl⟩

theorem Issued.ne {uuid4 : Nat → Uuid} (hfresh : Function.Injective uuid4) {s : Db δ} {id : Uuid}
    (h : Issued uuid4 s id) {n : Nat} (hn : s.uuids ≤ n) : id ≠ uuid4 n := by
  obtain ⟨m, hm, rfl⟩ := h
  intro he
  have hmn := hfresh he
  omega

section
variable {H : Digests γ δ} {uuid4 : Nat → Uuid} {W : AuditRow → Prop} {s : Db δ}

/-! ## reading the chain -/

namespace Inv

theorem link_of_id (h : Inv H uuid4 W s) {c : ChainRow δ} (hc : c ∈ s.chain) {id : Uuid}
    (hid : c.auditLogId = id) : s.chain.find? (fun b => b.auditLogId = id) = some c :=
  (find?_key_iff h.one_link).mpr ⟨hc, hid⟩

theorem hashAt_of_mem {chain rows : List (ChainRow δ)} {k : Nat} {prev : δ}
    (h : Linked ChainRow.sequence ChainRow.prevHash ChainRow.contentHash k prev chain)
    (hsub : ∀ b ∈ rows, b ∈ chain) {c : ChainRow δ} (hc : c ∈ rows) :
    hashAt rows (c.sequence : Int) = some c.contentHash := by
  unfold hashAt
  rw [find?_eq_of_unique hc (decide_eq_true rfl) fun b hb hbs => ?_]
  · rfl
  · exact h.eq_of_sequence (hsub b hb) (hsub c hc) (Int.ofNat_inj.mp (of_decide_eq_true hbs))

theorem sequence_lt_next (h : Inv H uuid4 W s) {c : ChainRow δ} (hc : c ∈ s.chain) :
    c.sequence < lastSequence ChainRow.sequence s.chain + 1 := by
  rw [h.linked.lastSequence_eq]
  have hs := (h.linked.sequence_bounds hc).2
  omega

theorem linked_nextLinks {ε : Type} {link : Nat → δ → ε → ChainRow δ} (h : Inv H uuid4 W s)
    (hs : ∀ k prev e, (link k prev e).sequence = k)
    (hp : ∀ k prev e, (link k prev e).prevHash = prev) (entries : List ε) :
    Linked ChainRow.sequence ChainRow.prevHash ChainRow.contentHash 1 H.genesis
      (s.chain ++ nextLinks H link s.chain entries) := by
  refine linked_append.mpr ⟨h.linked, ?_⟩
  rw [Nat.add_comm 1, ← h.linked.lastSequence_eq]
  exact linkAll_linked hs hp _ _ entries

theorem one_link_nextLinks {ε : Type} {link : Nat → δ → ε → ChainRow δ} (h : Inv H uuid4 W s)
    (key : ε → Uuid) (hkey : ∀ k prev e, (link k prev e).auditLogId = key e)
    {entries : List ε} (hnodup : (entries.map key).Nodup)
    (hnew : ∀ e ∈ entries, ∀ c ∈ s.chain, c.auditLogId ≠ key e) :
    ((s.chain ++ nextLinks H link s.chain entries).map (·.auditLogId)).Nodup := by
  have hmap : (nextLinks H link s.chain entries).map (·.auditLogId) = entries.map key :=
    map_linkAll _ _ hkey _ _ entries
  rw [List.map_append, hmap]
  refine List.nodup_append.mpr ⟨h.one_link, hnodup, ?_⟩
  intro a ha b hb hab
  obtain ⟨c, hc, rfl⟩ := List.mem_map.mp ha
  obtain ⟨e, he, rfl⟩ := List.mem_map.mp hb
  exact hnew e he c hc hab

theorem link_issued (h : Inv H uuid4 W s) {c : ChainRow δ} (hc : c ∈ s.chain) :
    Issued uuid4 s c.auditLogId := by
  rcases h.seals c hc with ⟨r, hr, hseal⟩ | ⟨p, hp, hseal⟩
  · rw [← hseal.id]
    exact h.row_issued r hr
  · rw [← hseal.id]
    exact h.record_issued p hp

/-! ## appending -/

theorem empty : Inv H uuid4 (fun _ => False) ({} : Db δ) where
  linked := trivial
  one_link := List.nodup_nil
  keys := List.nodup_nil
  written := by simp
  row_issued := by simp
  record_issued := by simp
  row_unique := by simp
  apart := by simp
  seals := by simp
  covers := by simp
  pruned := by simp

theorem append (hfresh : Function.Injective uuid4) (h : Inv H uuid4 W s) (entry : AuditEntry) :
    Inv H uuid4 (fun r => W r ∨ r ∈ (appendAuditEntry uuid4 entry s).audit)
      (appendAuditEntry uuid4 entry s) := by
  have hnew : ∀ r, (W r ∨ r ∈ (appendAuditEntry uuid4 entry s).audit) →
      W r ∨ r = { entry with id := uuid4 s.uuids } := by
    intro r hx
    rcases hx with hr | hr
    · exact Or.inl hr
    · rcases List.mem_append.mp hr with hr | hr
      · exact Or.inl (h.written r hr)
      · exact Or.inr (List.mem_singleton.mp hr)
  have hne : ∀ id, Issued uuid4 s id → id ≠ uuid4 s.uuids := fun id hid =>
    hid.ne hfresh (le_refl _)
  have hmono : ∀ id, Issued uuid4 s id → Issued uuid4 (appendAuditEntry uuid4 entry s) id :=
    fun id hid => hid.mono (Nat.le_succ _)
  refine ⟨h.linked, h.one_link, ?_, fun r hr => Or.inr hr, ?_, ?_, ?_, ?_, ?_, h.covers, ?_⟩
  · show ((s.audit ++ [_]).map _).Nodup
    rw [List.map_append]
    refine List.nodup_append.mpr ⟨h.keys, List.nodup_singleton _, ?_⟩
    intro a ha b hb hab
    obtain ⟨r, hr, rfl⟩ := List.mem_map.mp ha
    rw [List.map_singleton, List.mem_singleton] at hb
    exact hne _ (h.row_issued r (h.written r hr)) (hab.trans hb)
  · intro r hr
    rcases hnew r hr with hr | rfl
    · exact hmono _ (h.row_issued r hr)
    · exact ⟨s.uuids, Nat.lt_succ_self _, rfl⟩
  · exact fun p hp => hmono _ (h.record_issued p hp)
  · intro r r' hr hr' he
    rcases hnew r hr with hr | rfl <;> rcases hnew r' hr' with hr' | rfl
    · exact h.row_unique r r' hr hr' he
    · exact absurd he (hne _ (h.row_issued r hr))
    · exact absurd he.symm (hne _ (h.row_issued r' hr'))
    · rfl
  · intro r hr p hp
    rcases hnew r hr with hr | rfl
    · exact h.apart r hr p hp
    · exact (hne _ (h.record_issued p hp)).symm
  · intro c hc
    rcases h.seals c hc with ⟨r, hr, hseal⟩ | hrec
    · exact Or.inl ⟨r, Or.inl hr, hseal⟩
    · exact Or.inr hrec
  · intro c hc r hr hid hgone
    rcases hnew r hr with hr | rfl
    · exact h.pruned c hc r hr hid fun hmem => hgone (List.mem_append_left _ hmem)
    · exact absurd hid.symm (hne _ (h.link_issued hc))

/-! ## sealing -/

theorem mem_pending {n : Int} {r : AuditRow} (hr : r ∈ slice n (unsealedAuditRows s)) :
    r ∈ s.audit ∧ r.id ∉ s.chain.map (·.auditLogId) := by
  have h1 := (List.perm_insertionSort _ _).mem_iff.mp (List.mem_of_mem_take hr)
  obtain ⟨haudit, hunsealed⟩ := List.mem_filter.mp h1
  exact ⟨haudit, of_decide_eq_true hunsealed⟩

theorem pending_nodup (h : Inv H uuid4 W s) (n : Int) :
    ((slice n (unsealedAuditRows s)).map (·.id)).Nodup := by
  have hfilter := h.keys.sublist ((List.filter_sublist (l := s.audit)
    (p := fun r => r.id ∉ s.chain.map (·.auditLogId))).map (·.id))
  have hsorted : ((unsealedAuditRows s).map (·.id)).Nodup :=
    ((List.perm_insertionSort _ _).map _).nodup_iff.mpr hfilter
  exact hsorted.sublist ((List.take_sublist _ _).map _)

theorem sealNewEntries (h : Inv H uuid4 W s) (n : Int) :
    Inv H uuid4 W (sealNewEntries H n s).1 := by
  have hlink : ∀ c ∈ nextLinks H (linkRow H) s.chain (slice n (unsealedAuditRows s)),
      ∃ r ∈ s.audit, SealsRow H r c := by
    intro c hc
    obtain ⟨r, hr, k, prev, -, rfl⟩ := mem_linkAll hc
    exact ⟨r, (mem_pending hr).1, rfl, rfl⟩
  refine ⟨h.linked_nextLinks (fun _ _ _ => rfl) (fun _ _ _ => rfl) _, ?_, h.keys, h.written,
    h.row_issued, h.record_issued, h.row_unique, h.apart, ?_, ?_, ?_⟩
  · refine h.one_link_nextLinks (·.id) (fun _ _ _ => rfl) (h.pending_nodup n) ?_
    intro r hr c hc hid
    exact (mem_pending hr).2 (List.mem_map.mpr ⟨c, hc, hid⟩)
  · intro c hc
    rcases List.mem_append.mp hc with hc | hc
    · exact h.seals c hc
    · obtain ⟨r, hr, hseal⟩ := hlink c hc
      exact Or.inl ⟨r, h.written r hr, hseal⟩
  · intro p hp
    obtain ⟨seqs, hnames⟩ := h.covers p hp
    exact ⟨seqs, hnames.append⟩
  · intro c hc r hr hid hgone
    rcases List.mem_append.mp hc with hc | hc
    · obtain ⟨p, hp, seqs, hnames, hmem⟩ := h.pruned c hc r hr hid hgone
      exact ⟨p, hp, seqs, hnames.append, hmem⟩
    · -- a row that is sealed now is still there
      obtain ⟨r', hr', hseal⟩ := hlink c hc
      have heq := h.row_unique r r' hr (h.written r' hr') (hid.trans hseal.id.symm)
      rw [heq] at hgone
      exact absurd hr' hgone

/-! ## pruning -/

theorem mem_prunedLinks {call : Prune} {c : ChainRow δ} :
    c ∈ prunedLinks call s ↔
      c ∈ s.chain ∧ ∃ r ∈ s.audit, r.id = c.auditLogId ∧ call.matching r = true := by
  simp [prunedLinks]

theorem mem_newRecords {call : Prune} {p : PruneRecord δ} (hp : p ∈ newRecords H uuid4 call s) :
    ∃ i, ∃ part ∈ parts (toRanges ((prunedLinks call s).map fun c => (c.sequence : Int))),
      i < (newRecords H uuid4 call s).length ∧
        p = newRecord H call (prunedLinks call s) (uuid4 (s.uuids + i)) part := by
  obtain ⟨i, hi, rfl⟩ := List.mem_mapIdx.mp hp
  exact ⟨i, _, List.getElem_mem hi, by rw [newRecords, List.length_mapIdx]; exact hi, rfl⟩

theorem exists_newRecord {call : Prune} {part : List (Int × Int)}
    (hpart : part ∈ parts (toRanges ((prunedLinks call s).map fun c => (c.sequence : Int)))) :
    ∃ i, newRecord H call (prunedLinks call s) (uuid4 (s.uuids + i)) part ∈
      newRecords H uuid4 call s := by
  obtain ⟨i, hi, rfl⟩ := List.getElem_of_mem hpart
  exact ⟨i, List.mem_mapIdx.mpr ⟨i, hi, rfl⟩⟩

theorem newRecords_ids (call : Prune) :
    (newRecords H uuid4 call s).map (·.id) =
      (List.range (newRecords H uuid4 call s).length).map fun i => uuid4 (s.uuids + i) := by
  refine List.ext_getElem (by simp) fun i h1 h2 => ?_
  simp [newRecords, newRecord]

theorem sealsRecord_linkPrune (call : Prune) (i : Nat) (part : List (Int × Int)) (k : Nat)
    (prev : δ) :
    SealsRecord H (newRecord H call (prunedLinks call s) (uuid4 i) part)
      (linkPrune H k prev (newRecord H call (prunedLinks call s) (uuid4 i) part)) where
  id := rfl
  hash := by
    show computePruneHash H _ prev = some ((computePruneHash H _ prev).getD prev)
    unfold computePruneHash
    rw [payload_newRecord]
    rfl

theorem mem_expand_part {call : Prune} {part : List (Int × Int)}
    (hpart : part ∈ parts (toRanges ((prunedLinks call s).map fun c => (c.sequence : Int))))
    {n : Int} (hn : n ∈ expand part) : ∃ c ∈ prunedLinks call s, (c.sequence : Int) = n := by
  obtain ⟨p, hp, hnp⟩ := List.mem_flatMap.mp hn
  have hmem : n ∈ expand (toRanges ((prunedLinks call s).map fun c => (c.sequence : Int))) :=
    List.mem_flatMap.mpr ⟨p, mem_of_mem_parts hpart p hp, hnp⟩
  rw [expand_toRanges] at hmem
  exact List.mem_map.mp hmem

theorem exists_part_of_pruned {call : Prune} {c : ChainRow δ} (hc : c ∈ prunedLinks call s) :
    ∃ part ∈ parts (toRanges ((prunedLinks call s).map fun c => (c.sequence : Int))),
      (c.sequence : Int) ∈ expand part := by
  have hmem : (c.sequence : Int) ∈
      expand (toRanges ((prunedLinks call s).map fun c => (c.sequence : Int))) := by
    rw [expand_toRanges]
    exact List.mem_map.mpr ⟨c, hc, rfl⟩
  obtain ⟨p, hp, hcp⟩ := List.mem_flatMap.mp hmem
  obtain ⟨part, hpart, hin⟩ := exists_part hp
  exact ⟨part, hpart, List.mem_flatMap.mpr ⟨p, hin, hcp⟩⟩

theorem expand_part_ne_nil {call : Prune} {part : List (Int × Int)}
    (hpart : part ∈ parts (toRanges ((prunedLinks call s).map fun c => (c.sequence : Int)))) :
    expand part ≠ [] := by
  obtain ⟨p, hp⟩ := List.exists_mem_of_ne_nil _ (ne_nil_of_mem_parts hpart)
  have hle := toRanges_ordered _ p (mem_of_mem_parts hpart p hp)
  have hmem : p.1 ∈ expand part :=
    List.mem_flatMap.mpr ⟨p, hp, Int.mem_range_iff.mpr ⟨le_rfl, by omega⟩⟩
  exact List.ne_nil_of_mem hmem

abbrev prunedChain (H : Digests γ δ) (uuid4 : Nat → Uuid) (call : Prune) (s : Db δ) :
    List (ChainRow δ) :=
  s.chain ++ nextLinks H (linkPrune H) s.chain (newRecords H uuid4 call s)

/-- **A new record covers what it names.** -/
theorem names_newRecord (h : Inv H uuid4 W s) {call : Prune} {part : List (Int × Int)} {i : Nat}
    (hpart : part ∈ parts (toRanges ((prunedLinks call s).map fun c => (c.sequence : Int))))
    (hmem : newRecord H call (prunedLinks call s) (uuid4 (s.uuids + i)) part ∈
      newRecords H uuid4 call s) :
    Names H (prunedChain H uuid4 call s)
      (newRecord H call (prunedLinks call s) (uuid4 (s.uuids + i)) part) (expand part) := by
  obtain ⟨n, prev, hle, hlink⟩ := exists_mem_linkAll hmem
  have hhash : ∀ m ∈ expand part, ∃ c ∈ s.chain, (c.sequence : Int) = m ∧
      hashAt (prunedLinks call s) m = some c.contentHash ∧
      hashAt (prunedChain H uuid4 call s) m = some c.contentHash := by
    intro m hm
    obtain ⟨c, hc, rfl⟩ := mem_expand_part hpart hm
    have hold : hashAt s.chain (c.sequence : Int) = some c.contentHash :=
      hashAt_of_mem h.linked (fun b hb => hb) (mem_prunedLinks.mp hc).1
    refine ⟨c, (mem_prunedLinks.mp hc).1, rfl, ?_, ?_⟩
    · exact hashAt_of_mem h.linked (fun b hb => (mem_prunedLinks.mp hb).1) hc
    · rw [prunedChain, hashAt_append (by rw [hold]; simp), hold]
  refine ⟨_, List.mem_append_right _ hlink, rfl, (sealsRecord_linkPrune call _ part n prev).hash,
    ?_, expand_part_ne_nil hpart, rfl, ?_, ?_, ?_⟩
  · show (readRanges (.list (part.map fun p => .list [.int p.1, .int p.2]))).map expand = _
    rw [readRanges_pairs]
    rfl
  · intro m hm
    obtain ⟨c, hc, rfl, -⟩ := hhash m hm
    have hlt := h.sequence_lt_next hc
    show (c.sequence : Int) < (n : Int)
    omega
  · intro m hm
    obtain ⟨c, -, -, -, hat⟩ := hhash m hm
    rw [hat]
    simp
  · have hsame : (expand part).filterMap (hashAt (prunedChain H uuid4 call s)) =
        (expand part).filterMap (hashAt (prunedLinks call s)) :=
      List.filterMap_congr fun m hm => by
        obtain ⟨c, -, -, hrows, hat⟩ := hhash m hm
        rw [hrows, hat]
    rw [hsame]
    rfl

theorem dropUnsealed (h : Inv H uuid4 W s) {call : Prune}
    (hnone : ∀ c ∈ s.chain, ∀ r ∈ s.audit, r.id = c.auditLogId → call.matching r = false) :
    Inv H uuid4 W { s with audit := s.audit.filter fun r => !call.matching r } where
  linked := h.linked
  one_link := h.one_link
  keys := h.keys.sublist (List.filter_sublist.map _)
  written := fun r hr => h.written r (List.mem_of_mem_filter hr)
  row_issued := h.row_issued
  record_issued := h.record_issued
  row_unique := h.row_unique
  apart := h.apart
  seals := h.seals
  covers := h.covers
  pruned := by
    intro c hc r hr hid hgone
    refine h.pruned c hc r hr hid fun hmem => hgone ?_
    rw [List.mem_filter, hnone c hc r hmem hid]
    exact ⟨hmem, rfl⟩

theorem dropSealed (hfresh : Function.Injective uuid4) (h : Inv H uuid4 W s) (call : Prune) :
    Inv H uuid4 W
      { audit := s.audit.filter fun r => !call.matching r
        chain := prunedChain H uuid4 call s
        prunes := s.prunes ++ newRecords H uuid4 call s
        uuids := s.uuids + (newRecords H uuid4 call s).length } := by
  have hnew : ∀ p ∈ newRecords H uuid4 call s, ∃ n, s.uuids ≤ n ∧
      n < s.uuids + (newRecords H uuid4 call s).length ∧ p.id = uuid4 n := by
    intro p hp
    obtain ⟨i, part, -, hi, rfl⟩ := mem_newRecords hp
    exact ⟨s.uuids + i, by omega, by omega, rfl⟩
  refine ⟨h.linked_nextLinks (fun _ _ _ => rfl) (fun _ _ _ => rfl) _, ?_,
    h.keys.sublist (List.filter_sublist.map _), fun r hr => h.written r (List.mem_of_mem_filter hr),
    fun r hr => (h.row_issued r hr).mono (Nat.le_add_right _ _), ?_, h.row_unique, ?_, ?_, ?_, ?_⟩
  · refine h.one_link_nextLinks (·.id) (fun _ _ _ => rfl) ?_ ?_
    · rw [newRecords_ids]
      refine List.nodup_range.map fun i j hij => ?_
      have hadd := hfresh hij
      omega
    · intro p hp c hc
      obtain ⟨n, hn, -, hid⟩ := hnew p hp
      rw [hid]
      exact (h.link_issued hc).ne hfresh hn
  · intro p hp
    rcases List.mem_append.mp hp with hp | hp
    · exact (h.record_issued p hp).mono (Nat.le_add_right _ _)
    · obtain ⟨n, -, hn, hid⟩ := hnew p hp
      exact ⟨n, hn, hid⟩
  · intro r hr p hp
    rcases List.mem_append.mp hp with hp | hp
    · exact h.apart r hr p hp
    · obtain ⟨n, hn, -, hid⟩ := hnew p hp
      rw [hid]
      exact (h.row_issued r hr).ne hfresh hn
  · intro c hc
    rcases List.mem_append.mp hc with hc | hc
    · rcases h.seals c hc with hrow | ⟨p, hp, hseal⟩
      · exact Or.inl hrow
      · exact Or.inr ⟨p, List.mem_append_left _ hp, hseal⟩
    · obtain ⟨p, hp, k, prev, -, rfl⟩ := mem_linkAll hc
      refine Or.inr ⟨p, List.mem_append_right _ hp, ?_⟩
      obtain ⟨i, part, -, -, rfl⟩ := mem_newRecords hp
      exact sealsRecord_linkPrune call _ part k prev
  · intro p hp
    rcases List.mem_append.mp hp with hp | hp
    · obtain ⟨seqs, hnames⟩ := h.covers p hp
      exact ⟨seqs, hnames.append⟩
    · obtain ⟨i, part, hpart, -, rfl⟩ := mem_newRecords hp
      exact ⟨_, h.names_newRecord hpart hp⟩
  · intro c hc r hr hid hgone
    rcases List.mem_append.mp hc with hc | hc
    · by_cases hmem : r ∈ s.audit
      · -- the row goes now: one of the new records names its link
        have hmatch : call.matching r = true := by
          by_contra hno
          refine hgone (List.mem_filter.mpr ⟨hmem, ?_⟩)
          rw [Bool.not_eq_true] at hno
          rw [hno]
          rfl
        obtain ⟨part, hpart, hin⟩ :=
          exists_part_of_pruned (mem_prunedLinks.mpr ⟨hc, r, hmem, hid, hmatch⟩)
        obtain ⟨i, hrec⟩ := exists_newRecord hpart
        exact ⟨_, List.mem_append_right _ hrec, _, h.names_newRecord hpart hrec, hin⟩
      · obtain ⟨p, hp, seqs, hnames, hin⟩ := h.pruned c hc r hr hid hmem
        exact ⟨p, List.mem_append_left _ hp, seqs, hnames.append, hin⟩
    · -- a new link seals a record, not a row
      obtain ⟨p, hp, k, prev, -, rfl⟩ := mem_linkAll hc
      obtain ⟨n, hn, -, hp'⟩ := hnew p hp
      exact absurd (hid.trans hp') ((h.row_issued r hr).ne hfresh hn)

theorem pruneAuditRows (hfresh : Function.Injective uuid4) (h : Inv H uuid4 W s) (call : Prune) :
    Inv H uuid4 W (pruneAuditRows H uuid4 call s).1 := by
  unfold AuditChain.pruneAuditRows
  dsimp only
  split
  · rename_i hnone
    refine h.dropUnsealed fun c hc r hr hid => ?_
    by_contra hmatch
    rw [Bool.not_eq_false] at hmatch
    rcases hnone with hempty | hzero
    · have hin := mem_prunedLinks.mpr ⟨hc, r, hr, hid, hmatch⟩
      rw [List.isEmpty_iff.mp hempty] at hin
      cases hin
    · rw [List.countP_eq_zero] at hzero
      exact hzero r hr hmatch
  · exact h.dropSealed hfresh call

end Inv

/-! ## histories -/

theorem written_concat {ops : List Op} {op : Op} {r : AuditRow} :
    Written H uuid4 (ops ++ [op]) r ↔
      Written H uuid4 ops r ∨ r ∈ (after H uuid4 (ops ++ [op])).audit := visited_concat

theorem step_audit {ops : List Op} {op : Op} (hop : ∀ entry, op ≠ .append entry)
    (h : ∀ r ∈ (after H uuid4 ops).audit, Written H uuid4 ops r) :
    Written H uuid4 (ops ++ [op]) = Written H uuid4 ops := by
  funext r
  refine propext ⟨fun hr => ?_, fun hr => written_concat.mpr (Or.inl hr)⟩
  rcases written_concat.mp hr with hr | hr
  · exact hr
  · rw [after, exec_concat] at hr
    cases op with
    | append entry => exact absurd rfl (hop entry)
    | sealNewEntries n => exact h r hr
    | pruneAuditRows call =>
      refine h r ?_
      unfold step AuditChain.pruneAuditRows at hr
      dsimp only at hr
      split at hr <;> exact List.mem_of_mem_filter hr

/-- **The invariant holds of every history.** -/
theorem after_inv (hfresh : Function.Injective uuid4) (ops : List Op) :
    Inv H uuid4 (Written H uuid4 ops) (after H uuid4 ops) := by
  induction ops using List.reverseRecOn with
  | nil =>
    have hnone : Written H uuid4 [] = fun _ => False := by
      funext r
      exact propext ⟨fun hr => absurd (visited_nil.mp hr) List.not_mem_nil, False.elim⟩
    rw [hnone]
    exact Inv.empty
  | append_singleton ops op ih =>
    have hafter : after H uuid4 (ops ++ [op]) = step H uuid4 (after H uuid4 ops) op :=
      exec_concat _ _ _ _
    cases op with
    | append entry =>
      have hW : Written H uuid4 (ops ++ [.append entry]) = fun r => Written H uuid4 ops r ∨
          r ∈ (appendAuditEntry uuid4 entry (after H uuid4 ops)).audit := by
        funext r
        rw [written_concat, hafter]
        rfl
      rw [hW, hafter]
      exact ih.append hfresh entry
    | sealNewEntries n =>
      rw [step_audit (fun _ => by simp) ih.written, hafter]
      exact ih.sealNewEntries n
    | pruneAuditRows call =>
      rw [step_audit (fun _ => by simp) ih.written, hafter]
      exact ih.pruneAuditRows hfresh call

end
end AuditChain
