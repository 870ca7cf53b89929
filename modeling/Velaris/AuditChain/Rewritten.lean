import Velaris.AuditChain.Verify
import Velaris.TenantTransfer.Scrub

/-!
# The chain and the operations that rewrite audit rows

`tenant_transfer.accept` and `gdpr.anonymize_user_data` replace the people that
`case_audit_log` names, whether a row is sealed or not.

* `acceptTransfer`, `anonymizeUserData`   what they do to the table;
* `Untouched`   no sealed row is rewritten;
* `Inv.rewritten`   the chain stands a rewriting that leaves alone what is
    hashed of every sealed row;
* `untampered_iff`   it verifies throughout a run exactly where every step
    leaves the sealed rows alone.
-/

namespace AuditChain
open Py Base
open TenantTransfer (pseudonym anonId scrubDetails scrubDetails_truthy)

/-! ## the operations -/

/-- an accepted row of `case_tenant_transfers`, with what `accept` is called with and reads -/
structure Transfer where
  id : Uuid
  caseId : Uuid
  sourceTenantId : Uuid
  sourceName : String
  approvedBy : Option String := none
  reason : String := ""
  actor : String
  /-- what moved, was closed, severed and rehomed -/
  manifest : Value := .dict []
  now : Int

section
variable (hexdigest : String → String)

/-- a row of the case, with `PERSON_COLUMNS` and `PERSON_JSON_COLUMNS` replaced -/
def Transfer.scrub (t : Transfer) (r : AuditRow) : AuditRow :=
  if r.caseId = t.caseId then
    { r with
      actorId := pseudonym hexdigest t.sourceTenantId r.actorId
      details := scrubDetails r.details }
  else r

/-- the row of `case_audit_log` that `accept` adds -/
def Transfer.entry (t : Transfer) : AuditEntry where
  caseId := t.caseId
  action := "tenant_transferred"
  actorId := pseudonym hexdigest t.sourceTenantId t.approvedBy
  details := .dict
    [("transfer_id", .str (uuidText t.id)), ("reason", .str t.reason),
      ("from_tenant", .str t.sourceName), ("accepted_by", .str t.actor), ("manifest", t.manifest)]
  timestamp := t.now

def anonymizeRow (userId : String) (r : AuditRow) : AuditRow :=
  if r.actorId = some userId then { r with actorId := some (anonId hexdigest userId) } else r

end

def rewriteRows {δ : Type} (f : AuditRow → AuditRow) (s : Db δ) : Db δ :=
  { s with audit := s.audit.map f }

section
variable {γ δ : Type} (H : Digests γ δ) (hexdigest : String → String) (uuid4 : Nat → Uuid)

/-- `accept`; it raises before writing anything where `blockers` finds a reason -/
def acceptTransfer (t : Transfer) (why : List String) (s : Db δ) : Db δ :=
  if why = [] then
    appendAuditEntry uuid4 (t.entry hexdigest) (rewriteRows (t.scrub hexdigest) s)
  else s

/-- `anonymize_user_data`; it raises where the user is recorded on `held` cases under a hold -/
def anonymizeUserData (userId : String) (held : Nat) (s : Db δ) : Db δ :=
  if held = 0 then rewriteRows (anonymizeRow hexdigest userId) s else s

inductive PlatformOp where
  | chain (op : Op)
  | accept (t : Transfer) (why : List String)
  | anonymizeUserData (userId : String) (held : Nat)

def platformStep (s : Db δ) : PlatformOp → Db δ
  | .chain op => step H uuid4 s op
  | .accept t why => acceptTransfer hexdigest uuid4 t why s
  | .anonymizeUserData userId held => anonymizeUserData hexdigest userId held s

def Sealed (s : Db δ) (r : AuditRow) : Prop := ∃ c ∈ s.chain, r.id = c.auditLogId

/-- no sealed row names a person that the operation replaces -/
def Untouched (s : Db δ) : PlatformOp → Prop
  | .chain _ => True
  | .accept t why => why = [] → ∀ r ∈ s.audit, Sealed s r → r.caseId = t.caseId →
      pseudonym hexdigest t.sourceTenantId r.actorId = r.actorId ∧
        (scrubDetails r.details).doc = r.details.doc
  | .anonymizeUserData userId held => held = 0 → ∀ r ∈ s.audit, Sealed s r →
      r.actorId = some userId → anonId hexdigest userId = userId

end

/-! ## rows -/

/-- the rewriting leaves alone what is hashed of every sealed row -/
def Keeps {δ : Type} (f : AuditRow → AuditRow) (s : Db δ) : Prop :=
  ∀ r ∈ s.audit, Sealed s r → (f r).payload = r.payload

section
variable {hexdigest : String → String} {t : Transfer} {r : AuditRow}

@[simp] theorem scrub_id : (t.scrub hexdigest r).id = r.id := by
  unfold Transfer.scrub
  split <;> rfl

@[simp] theorem anonymizeRow_id {userId : String} : (anonymizeRow hexdigest userId r).id = r.id := by
  unfold anonymizeRow
  split <;> rfl

theorem hashed_scrubDetails_iff (details : Value) :
    (if (scrubDetails details).truthy then scrubDetails details else .dict []).doc =
        (if details.truthy then details else Value.dict []).doc ↔
      (scrubDetails details).doc = details.doc := by
  rw [scrubDetails_truthy]
  cases htruthy : details.truthy with
  | true => rfl
  | false =>
    have hsame : scrubDetails details = details := by
      cases details with
      | dict items =>
        cases items with
        | nil => rfl
        | cons item items => cases htruthy
      | none | bool b | int n | float q | str text | list vs => rfl
    rw [hsame]
    exact iff_of_true rfl rfl

theorem payload_scrub_iff (hcase : r.caseId = t.caseId) :
    (t.scrub hexdigest r).payload = r.payload ↔
      pseudonym hexdigest t.sourceTenantId r.actorId = r.actorId ∧
        (scrubDetails r.details).doc = r.details.doc := by
  unfold Transfer.scrub
  rw [if_pos hcase, ← hashed_scrubDetails_iff]
  constructor
  · intro h
    have hfields := RowPayload.mk.inj h
    exact ⟨hfields.2.2.2.1, hfields.2.2.2.2.2.1⟩
  · intro h
    obtain ⟨hactor, hdetails⟩ := h
    unfold AuditRow.payload
    rw [RowPayload.mk.injEq]
    exact ⟨rfl, rfl, rfl, hactor, rfl, hdetails, rfl⟩

theorem scrub_of_ne (hcase : r.caseId ≠ t.caseId) : t.scrub hexdigest r = r := if_neg hcase

theorem payload_anonymizeRow_iff {userId : String} (hactor : r.actorId = some userId) :
    (anonymizeRow hexdigest userId r).payload = r.payload ↔ anonId hexdigest userId = userId := by
  unfold anonymizeRow
  rw [if_pos hactor]
  constructor
  · intro h
    exact Option.some.inj ((RowPayload.mk.inj h).2.2.2.1.trans hactor)
  · intro h
    rw [h, ← hactor]

theorem anonymizeRow_of_ne {userId : String} (hactor : r.actorId ≠ some userId) :
    anonymizeRow hexdigest userId r = r := if_neg hactor

variable {δ : Type} {s : Db δ}

theorem keeps_scrub_iff :
    Keeps (t.scrub hexdigest) s ↔ ∀ r ∈ s.audit, Sealed s r → r.caseId = t.caseId →
      pseudonym hexdigest t.sourceTenantId r.actorId = r.actorId ∧
        (scrubDetails r.details).doc = r.details.doc := by
  refine forall_congr' fun r => forall_congr' fun _ => forall_congr' fun _ => ?_
  by_cases hcase : r.caseId = t.caseId
  · rw [payload_scrub_iff hcase]
    exact ⟨fun h _ => h, fun h => h hcase⟩
  · rw [scrub_of_ne hcase]
    exact iff_of_true rfl fun h => absurd h hcase

theorem keeps_anonymizeRow_iff {userId : String} :
    Keeps (anonymizeRow hexdigest userId) s ↔ ∀ r ∈ s.audit, Sealed s r →
      r.actorId = some userId → anonId hexdigest userId = userId := by
  refine forall_congr' fun r => forall_congr' fun _ => forall_congr' fun _ => ?_
  by_cases hactor : r.actorId = some userId
  · rw [payload_anonymizeRow_iff hactor]
    exact ⟨fun h _ => h, fun h => h hactor⟩
  · rw [anonymizeRow_of_ne hactor]
    exact iff_of_true rfl fun h => absurd h hactor

end

/-! ## the chain after a rewriting -/

section
variable {γ δ : Type} {H : Digests γ δ} {uuid4 : Nat → Uuid} {W : AuditRow → Prop} {s : Db δ}

theorem computeRowHash_congr {r r' : AuditRow} (h : r'.payload = r.payload) (prev : δ) :
    computeRowHash H r' prev = computeRowHash H r prev := by
  unfold computeRowHash
  rw [h]

theorem Inv.rewritten_keys (h : Inv H uuid4 W s) {f : AuditRow → AuditRow}
    (hid : ∀ r, (f r).id = r.id) : ((s.audit.map f).map (·.id)).Nodup := by
  have hsame : AuditRow.id ∘ f = AuditRow.id := funext hid
  rw [List.map_map, hsame]
  exact h.keys

theorem Inv.appended_keys (hfresh : Function.Injective uuid4) (h : Inv H uuid4 W s)
    {f : AuditRow → AuditRow} (hid : ∀ r, (f r).id = r.id) {r : AuditRow}
    (hr : r.id = uuid4 s.uuids) : ((s.audit.map f ++ [r]).map (·.id)).Nodup := by
  rw [List.map_append]
  apply List.nodup_append.mpr
  refine ⟨h.rewritten_keys hid, List.nodup_singleton _, ?_⟩
  intro a ha b hb hab
  obtain ⟨r', hr', rfl⟩ := List.mem_map.mp ha
  obtain ⟨r₀, hr₀, rfl⟩ := List.mem_map.mp hr'
  rw [List.map_singleton, List.mem_singleton] at hb
  rw [hid, hb, hr] at hab
  exact (h.row_issued r₀ (h.written r₀ hr₀)).ne hfresh (le_refl _) hab

theorem Inv.rewritten (h : Inv H uuid4 W s) {f : AuditRow → AuditRow} (hid : ∀ r, (f r).id = r.id)
    (hkeeps : Keeps f s) :
    Inv H uuid4 (fun r' => ∃ r, W r ∧ (r ∈ s.audit ∧ r' = f r ∨ r ∉ s.audit ∧ r' = r))
      (rewriteRows f s) where
  linked := h.linked
  one_link := h.one_link
  keys := h.rewritten_keys hid
  written := by
    intro r' hr'
    obtain ⟨r, hr, rfl⟩ := List.mem_map.mp hr'
    exact ⟨r, h.written r hr, Or.inl ⟨hr, rfl⟩⟩
  row_issued := by
    intro r' hw
    obtain ⟨r, hr, ⟨-, rfl⟩ | ⟨-, rfl⟩⟩ := hw
    · rw [hid]
      exact h.row_issued r hr
    · exact h.row_issued _ hr
  record_issued := h.record_issued
  row_unique := by
    intro r₁ r₂ hw₁ hw₂ he
    obtain ⟨a, ha, ha'⟩ := hw₁
    obtain ⟨b, hb, hb'⟩ := hw₂
    have hab : a = b := by
      apply h.row_unique a b ha hb
      obtain ⟨-, rfl⟩ | ⟨-, rfl⟩ := ha' <;> obtain ⟨-, rfl⟩ | ⟨-, rfl⟩ := hb' <;>
        simpa only [hid] using he
    obtain rfl := hab
    obtain ⟨hmem, rfl⟩ | ⟨hgone, rfl⟩ := ha' <;> obtain ⟨hmem', rfl⟩ | ⟨hgone', rfl⟩ := hb'
    · rfl
    · exact absurd hmem hgone'
    · exact absurd hmem' hgone
    · rfl
  apart := by
    intro r' hw p hp
    obtain ⟨r, hr, ⟨-, rfl⟩ | ⟨-, rfl⟩⟩ := hw
    · rw [hid]
      exact h.apart r hr p hp
    · exact h.apart _ hr p hp
  seals := by
    intro c hc
    rcases h.seals c hc with ⟨r, hr, hseal⟩ | hrec
    · by_cases hmem : r ∈ s.audit
      · refine Or.inl ⟨f r, ⟨r, hr, Or.inl ⟨hmem, rfl⟩⟩, (hid r).trans hseal.id, ?_⟩
        rw [computeRowHash_congr (hkeeps r hmem ⟨c, hc, hseal.id⟩)]
        exact hseal.hash
      · exact Or.inl ⟨r, ⟨r, hr, Or.inr ⟨hmem, rfl⟩⟩, hseal⟩
    · exact Or.inr hrec
  covers := h.covers
  pruned := by
    intro c hc r' hw hid' hgone
    obtain ⟨r, hr, ⟨hmem, rfl⟩ | ⟨hmem, rfl⟩⟩ := hw
    · exact absurd (List.mem_map_of_mem hmem) hgone
    · exact h.pruned c hc _ hr hid' hmem

/-- the invariant, for the rows that some run has written -/
def Sound (H : Digests γ δ) (uuid4 : Nat → Uuid) (s : Db δ) : Prop := ∃ W, Inv H uuid4 W s

variable {hexdigest : String → String}

theorem chainStep_sound (hfresh : Function.Injective uuid4) (h : Sound H uuid4 s) (op : Op) :
    Sound H uuid4 (step H uuid4 s op) := by
  obtain ⟨W, hinv⟩ := h
  cases op with
  | append entry => exact ⟨_, hinv.append hfresh entry⟩
  | sealNewEntries n => exact ⟨W, hinv.sealNewEntries n⟩
  | pruneAuditRows call => exact ⟨W, hinv.pruneAuditRows hfresh call⟩

theorem platformStep_sound (hfresh : Function.Injective uuid4) (h : Sound H uuid4 s)
    (a : PlatformOp) (hok : Untouched hexdigest s a) :
    Sound H uuid4 (platformStep H hexdigest uuid4 s a) := by
  cases a with
  | chain op => exact chainStep_sound hfresh h op
  | accept t why =>
    show Sound H uuid4 (acceptTransfer hexdigest uuid4 t why s)
    unfold acceptTransfer
    split
    · rename_i hwhy
      obtain ⟨W, hinv⟩ := h
      exact ⟨_, (hinv.rewritten (fun _ => scrub_id) (keeps_scrub_iff.mpr (hok hwhy))).append
        hfresh _⟩
    · exact h
  | anonymizeUserData userId held =>
    show Sound H uuid4 (anonymizeUserData hexdigest userId held s)
    unfold anonymizeUserData
    split
    · rename_i hheld
      obtain ⟨W, hinv⟩ := h
      exact ⟨_, hinv.rewritten (fun _ => anonymizeRow_id) (keeps_anonymizeRow_iff.mpr (hok hheld))⟩
    · exact h

variable [DecidableEq δ]

def Verified (H : Digests γ δ) (s : Db δ) : Prop :=
  ∀ limit, (verifyChain H limit s).map (·.verified) = some true

theorem Sound.verified (h : Sound H uuid4 s) : Verified H s := by
  obtain ⟨W, hinv⟩ := h
  exact hinv.verified

theorem Inv.keeps_of_verified (hinj : H.Injective) (h : Inv H uuid4 W s) {f : AuditRow → AuditRow}
    (hid : ∀ r, (f r).id = r.id) (more : List AuditRow)
    (hkeys : ((s.audit.map f ++ more).map (·.id)).Nodup)
    (hok : (verifyChain H none { s with audit := s.audit.map f ++ more }).map (·.verified) =
      some true) : Keeps f s := by
  intro r hr hsealed
  obtain ⟨c, hc, hrc⟩ := hsealed
  apply h.row_of_verified hinj hkeys hok hc (h.written r hr) hrc _ (hid r)
  exact List.mem_append_left _ (List.mem_map_of_mem hr)

theorem verified_step_iff (hinj : H.Injective) (hfresh : Function.Injective uuid4)
    (h : Sound H uuid4 s) (a : PlatformOp) :
    Verified H (platformStep H hexdigest uuid4 s a) ↔ Untouched hexdigest s a := by
  constructor
  · intro hok
    obtain ⟨W, hinv⟩ := h
    have hnone := hok none
    cases a with
    | chain op => trivial
    | accept t why =>
      intro hwhy
      have hstep : platformStep H hexdigest uuid4 s (.accept t why) =
          appendAuditEntry uuid4 (t.entry hexdigest) (rewriteRows (t.scrub hexdigest) s) :=
        if_pos hwhy
      rw [hstep] at hnone
      apply keeps_scrub_iff.mp
      exact hinv.keeps_of_verified hinj (fun _ => scrub_id) _
        (hinv.appended_keys hfresh (fun _ => scrub_id) rfl) hnone
    | anonymizeUserData userId held =>
      intro hheld
      have hstep : platformStep H hexdigest uuid4 s (.anonymizeUserData userId held) =
          rewriteRows (anonymizeRow hexdigest userId) s := if_pos hheld
      rw [hstep] at hnone
      apply keeps_anonymizeRow_iff.mp
      apply hinv.keeps_of_verified hinj (fun _ => anonymizeRow_id) []
      · rw [List.append_nil]
        exact hinv.rewritten_keys fun _ => anonymizeRow_id
      · rw [List.append_nil]
        exact hnone
  · intro hok
    exact (platformStep_sound hfresh h a hok).verified

/-- **The chain verifies in every state of a run exactly where no step rewrites a sealed row.** -/
theorem untampered_iff (hinj : H.Injective) (hfresh : Function.Injective uuid4)
    (ops : List PlatformOp) :
    Along (platformStep H hexdigest uuid4)
        (fun s a => Verified H (platformStep H hexdigest uuid4 s a)) ({} : Db δ) ops ↔
      Along (platformStep H hexdigest uuid4) (Untouched hexdigest) ({} : Db δ) ops := by
  apply Along.iff_of_inv (I := Sound H uuid4)
  · intro s a hs hok
    exact platformStep_sound hfresh hs a hok
  · intro s a hs
    exact verified_step_iff hinj hfresh hs a
  · exact ⟨_, Inv.empty⟩

end

/-- a row that is sealed, and one that names its actor and is not, on a case that moves -/
theorem untampered_unnamed :
    let hexdigest := fun _ =>
      "8f60d9be47cd58d11941a07af963d77be2f885b2ff95f41df3eebc89a0e610ba"
    Along (platformStep texts hexdigest id)
      (fun s a => Verified texts (platformStep texts hexdigest id s a)) ({} : Db Text)
      [.chain (.append (sampleEntry "case.created")), .chain (.sealNewEntries 10000),
        .chain (.append { sampleEntry "case.closed" with actorId := some "alice" }),
        .accept
          { id := 3, caseId := 1, sourceTenantId := 7, sourceName := "Acme", actor := "bob"
            now := 0 } []] := by
  intro hexdigest
  apply (untampered_iff texts_injective Function.injective_id _).mpr
  refine ⟨trivial, trivial, trivial, fun _ r hr hsealed _ => ?_, trivial⟩
  obtain ⟨c, hc, hid⟩ := hsealed
  have hlink : c.auditLogId = 0 := by
    rw [List.mem_singleton.mp hc]
    rfl
  rcases List.mem_cons.mp hr with rfl | hr
  · exact ⟨rfl, rfl⟩
  · obtain rfl := List.mem_singleton.mp hr
    rw [hlink] at hid
    cases hid

/-- the actor of a sealed row is anonymized, and the row is reported as tampered -/
theorem anonymized_reported_tampered :
    let hexdigest := fun _ =>
      "2bd806c97f0e00af1a1fc3328fa763a9269723c8db8fac4f93af71db186d6e90"
    ¬ Along (platformStep texts hexdigest id)
      (fun s a => Verified texts (platformStep texts hexdigest id s a)) ({} : Db Text)
      [.chain (.append { sampleEntry "case.created" with actorId := some "alice" }),
        .chain (.sealNewEntries 10000), .anonymizeUserData "alice" 0] := by
  intro hexdigest h
  have hverified := h.2.2.1 none
  revert hverified
  decide +kernel

end AuditChain
