import Velaris.HxConsent.Ledger
import Mathlib.Data.List.DropRight
import Mathlib.Data.List.Sort

/-!
# What the law reads off the ledger

* `latest`, `Lawful`   the last decision under a basis, and whether some basis is granted;
* `Meets`   what is to hold of the answers about one subject, purpose and tenant;
* `Undisturbed`   no withdrawal stands after a decision under another basis;
* `RecordOk`   what every row of a ledger is;
* `hasConsent_eq`   the answer is that of the last decision, under whatever basis;
* `lawful_iff`   when the law is satisfied;
* `meets_iff`   the answers are the law's exactly then.
-/

namespace HxConsent

open Py Base

variable {E : Env} {Q : Query} {ledger : List ConsentRecord} {subjectRef purpose tenantId : String}

/-! ## the promise -/

def decisionsFor (E : Env) (Q : Query) (ledger : List ConsentRecord)
    (subjectRef purpose tenantId : String) : List ConsentRecord :=
  (decisions E Q ledger subjectRef (some tenantId)).filter fun r => r.purpose = purpose

def latest (E : Env) (Q : Query) (ledger : List ConsentRecord)
    (subjectRef purpose tenantId basis : String) : Option ConsentRecord :=
  ((decisionsFor E Q ledger subjectRef purpose tenantId).filter fun r => r.basis = basis).getLast?

def Lawful (E : Env) (Q : Query) (ledger : List ConsentRecord)
    (subjectRef purpose tenantId : String) : Prop :=
  ∃ basis ∈ BASES, ∃ r, latest E Q ledger subjectRef purpose tenantId basis = some r ∧
    r.action = GRANTED

/-- The answer is the law's; an anonymized case is refused, and the case of a submitter is answered
as the submitter is in the tenant of the case. -/
structure Meets (E : Env) (Q : Query) (ledger : List ConsentRecord)
    (subjectRef purpose tenantId : String) : Prop where
  consent : hasConsent E Q ledger subjectRef purpose (some tenantId) = true ↔
    Lawful E Q ledger subjectRef purpose tenantId
  anonymized : ∀ c, isAnonymized c = true → (allowsCase E Q ledger c purpose none).1 = false
  submitter : ∀ c email tenant, isAnonymized c = false → c.portalSubmitterEmail = some email →
    stripped email ≠ "" → c.tenantId = some tenant →
      (allowsCase E Q ledger c purpose none).1 =
        hasConsent E Q ledger email purpose (some (uuidText tenant))

/-- where the last decision is a withdrawal, every other one is about consent as well -/
def Undisturbed (E : Env) (Q : Query) (ledger : List ConsentRecord)
    (subjectRef purpose tenantId : String) : Prop :=
  ∀ last ∈ (decisionsFor E Q ledger subjectRef purpose tenantId).getLast?,
    last.action = WITHDRAWN →
      ∀ r ∈ decisionsFor E Q ledger subjectRef purpose tenantId, r.basis = CONSENT

/-! ## the rows of a ledger -/

structure RecordOk (r : ConsentRecord) : Prop where
  purpose : r.purpose ∈ PURPOSES
  basis : r.basis ∈ BASES
  action : r.action = GRANTED ∨ r.action = WITHDRAWN
  withdrawn : r.action = WITHDRAWN → r.basis = CONSENT

theorem recordOk_record {q : Request} {r : ConsentRecord} (h : record E q = .ok r) :
    RecordOk r := by
  rw [record] at h
  split at h
  · cases h
  split at h
  · cases h
  rename_i hpurpose
  split at h
  · cases h
  rename_i hbasis
  split at h
  · cases h
  rename_i haction
  split at h
  · cases h
  rename_i hwithdrawn
  cases h
  rw [not_not] at hpurpose hbasis
  refine ⟨hpurpose, hbasis, ?_, ?_⟩
  · by_contra hne
    rw [not_or] at hne
    exact haction hne
  · intro haction'
    by_contra hne
    exact hwithdrawn ⟨haction', fun hmem => hne (List.mem_singleton.mp hmem)⟩

theorem recordOk_append (hledger : ∀ r ∈ ledger, RecordOk r) (q : Request) :
    ∀ r ∈ append E ledger q, RecordOk r := by
  rw [append]
  split
  · rename_i row hrow
    intro r hr
    rcases List.mem_append.mp hr with hr | hr
    · exact hledger r hr
    · rw [List.mem_singleton.mp hr]
      exact recordOk_record hrow
  · exact hledger

theorem recordOk_ledgerOf (E : Env) (history : List Request) :
    ∀ r ∈ ledgerOf E history, RecordOk r := by
  induction history using List.reverseRecOn with
  | nil =>
    intro r hr
    cases hr
  | append_singleton history q ih =>
    rw [ledgerOf, List.foldl_concat]
    exact recordOk_append ih q

theorem recordOk_decisionsFor (hledger : ∀ r ∈ ledger, RecordOk r) :
    ∀ r ∈ decisionsFor E Q ledger subjectRef purpose tenantId, RecordOk r := by
  intro r hr
  have hin := (Q.perm _).mem_iff.mp (List.mem_filter.mp hr).1
  exact hledger r (List.mem_filter.mp hin).1

/-! ## the answer -/

theorem hasConsent_eq (hpurpose : purpose ∈ PURPOSES) :
    hasConsent E Q ledger subjectRef purpose (some tenantId) =
      (decisionsFor E Q ledger subjectRef purpose tenantId).getLast?.any (·.action = GRANTED) := by
  rw [hasConsent, if_neg (not_not_intro hpurpose), currentState,
    foldl_update_apply ConsentRecord.purpose ConsentRecord.entry, Option.any_map]
  rfl

theorem latest_of_last {r : ConsentRecord}
    (hlast : (decisionsFor E Q ledger subjectRef purpose tenantId).getLast? = some r) :
    latest E Q ledger subjectRef purpose tenantId r.basis = some r := by
  obtain ⟨rows, hrows⟩ := List.getLast?_eq_some_iff.mp hlast
  rw [latest, hrows, List.filter_append, List.filter_singleton]
  simp

theorem lawful_of_granted {r : ConsentRecord} (hr : RecordOk r)
    (hlast : (decisionsFor E Q ledger subjectRef purpose tenantId).getLast? = some r)
    (hgranted : r.action = GRANTED) : Lawful E Q ledger subjectRef purpose tenantId :=
  ⟨r.basis, hr.basis, r, latest_of_last hlast, hgranted⟩

theorem lawful_of_other (hledger : ∀ r ∈ ledger, RecordOk r) {r : ConsentRecord}
    (hmem : r ∈ decisionsFor E Q ledger subjectRef purpose tenantId) (hbasis : r.basis ≠ CONSENT) :
    Lawful E Q ledger subjectRef purpose tenantId := by
  have hok : ∀ x ∈ decisionsFor E Q ledger subjectRef purpose tenantId, RecordOk x :=
    recordOk_decisionsFor hledger
  have hin : r ∈ (decisionsFor E Q ledger subjectRef purpose tenantId).filter
      fun x => x.basis = r.basis := List.mem_filter.mpr ⟨hmem, decide_eq_true rfl⟩
  obtain ⟨x, hx⟩ : ∃ x, latest E Q ledger subjectRef purpose tenantId r.basis = some x := by
    exact ⟨_, List.getLast?_eq_some_getLast (List.ne_nil_of_mem hin)⟩
  obtain ⟨hxmem, hxbasis⟩ := List.mem_filter.mp (List.mem_of_getLast? hx)
  have hxok := hok x hxmem
  refine ⟨r.basis, (hok r hmem).basis, x, hx, ?_⟩
  rcases hxok.action with hgranted | hwithdrawn
  · exact hgranted
  · rw [← of_decide_eq_true hxbasis] at hbasis
    exact absurd (hxok.withdrawn hwithdrawn) hbasis

theorem lawful_iff_of_withdrawn (hledger : ∀ r ∈ ledger, RecordOk r) {r : ConsentRecord}
    (hlast : (decisionsFor E Q ledger subjectRef purpose tenantId).getLast? = some r)
    (hwithdrawn : r.action = WITHDRAWN) : Lawful E Q ledger subjectRef purpose tenantId ↔
      ∃ x ∈ decisionsFor E Q ledger subjectRef purpose tenantId, x.basis ≠ CONSENT := by
  have hbasis : r.basis = CONSENT :=
    (recordOk_decisionsFor hledger r (List.mem_of_getLast? hlast)).withdrawn hwithdrawn
  constructor
  · intro hlawful
    obtain ⟨basis, -, x, hx, hgranted⟩ := hlawful
    obtain ⟨hxmem, hxbasis⟩ := List.mem_filter.mp (List.mem_of_getLast? hx)
    refine ⟨x, hxmem, ?_⟩
    intro hconsent
    have hsame : basis = r.basis := by rw [← of_decide_eq_true hxbasis, hconsent, hbasis]
    rw [hsame, latest_of_last hlast] at hx
    rw [← Option.some.inj hx, hwithdrawn] at hgranted
    exact absurd hgranted (by decide)
  · intro hx
    obtain ⟨x, hxmem, hxbasis⟩ := hx
    exact lawful_of_other hledger hxmem hxbasis

theorem not_lawful_of_none
    (hnone : (decisionsFor E Q ledger subjectRef purpose tenantId).getLast? = none) :
    ¬ Lawful E Q ledger subjectRef purpose tenantId := by
  intro hlawful
  obtain ⟨basis, -, x, hx, -⟩ := hlawful
  rw [latest, List.getLast?_eq_none_iff.mp hnone] at hx
  cases hx

theorem decisionsFor_unknown (hledger : ∀ r ∈ ledger, RecordOk r) (hpurpose : purpose ∉ PURPOSES) :
    decisionsFor E Q ledger subjectRef purpose tenantId = [] := by
  rw [List.eq_nil_iff_forall_not_mem]
  intro r hr
  have hok := (recordOk_decisionsFor hledger r hr).purpose
  rw [of_decide_eq_true (List.mem_filter.mp hr).2] at hok
  exact hpurpose hok

theorem undisturbed_iff {last : ConsentRecord}
    (hlast : (decisionsFor E Q ledger subjectRef purpose tenantId).getLast? = some last) :
    Undisturbed E Q ledger subjectRef purpose tenantId ↔ (last.action = WITHDRAWN →
      ∀ r ∈ decisionsFor E Q ledger subjectRef purpose tenantId, r.basis = CONSENT) := by
  rw [Undisturbed, hlast]
  simp

theorem undisturbed_of_none
    (hnone : (decisionsFor E Q ledger subjectRef purpose tenantId).getLast? = none) :
    Undisturbed E Q ledger subjectRef purpose tenantId := by
  intro last hlast
  rw [hnone] at hlast
  cases hlast

theorem consent_iff (hledger : ∀ r ∈ ledger, RecordOk r) :
    (hasConsent E Q ledger subjectRef purpose (some tenantId) = true ↔
      Lawful E Q ledger subjectRef purpose tenantId) ↔
        Undisturbed E Q ledger subjectRef purpose tenantId := by
  by_cases hpurpose : purpose ∈ PURPOSES
  · rw [hasConsent_eq hpurpose]
    cases hlast : (decisionsFor E Q ledger subjectRef purpose tenantId).getLast? with
    | none => exact iff_of_true (by simp [not_lawful_of_none hlast]) (undisturbed_of_none hlast)
    | some r =>
      have hok := recordOk_decisionsFor hledger r (List.mem_of_getLast? hlast)
      rw [undisturbed_iff hlast, Option.any_some, decide_eq_true_eq]
      rcases hok.action with hgranted | hwithdrawn
      · have hne : r.action ≠ WITHDRAWN := by
          rw [hgranted]
          decide
        have hlawful := lawful_of_granted hok hlast hgranted
        exact iff_of_true (iff_of_true hgranted hlawful) fun haction => absurd haction hne
      · have hne : r.action ≠ GRANTED := by
          rw [hwithdrawn]
          decide
        rw [lawful_iff_of_withdrawn hledger hlast hwithdrawn]
        constructor
        · intro hsame _ x hx
          by_contra hbasis
          exact hne (hsame.mpr ⟨x, hx, hbasis⟩)
        · intro hall
          refine iff_of_false hne ?_
          intro hx
          obtain ⟨x, hx, hbasis⟩ := hx
          exact hbasis (hall hwithdrawn x hx)
  · -- nothing is recorded for it
    have hnone : (decisionsFor E Q ledger subjectRef purpose tenantId).getLast? = none := by
      rw [decisionsFor_unknown hledger hpurpose]
      rfl
    have hanswer : hasConsent E Q ledger subjectRef purpose (some tenantId) = false :=
      if_pos hpurpose
    refine iff_of_true ?_ (undisturbed_of_none hnone)
    exact iff_of_false (Bool.eq_false_iff.mp hanswer) (not_lawful_of_none hnone)

/-! ## cases -/

theorem strip_strip (s : List Char) : strip (strip s) = strip s := by
  have hinner : strip s = rstrip isSpace (s.dropWhile isSpace) := rfl
  rw [hinner, strip_rstrip, strip, List.dropWhile_idempotent]

theorem stripped_stripped (s : String) : stripped (stripped s) = stripped s := by
  rw [stripped, stripped, String.toList_ofList, strip_strip]

theorem normalise_stripped (s : String) : normalise E (stripped s) = normalise E s := by
  rw [normalise, stripped_stripped]
  rfl

theorem hasConsent_stripped (email : String) (tenantId : Option String) :
    hasConsent E Q ledger (stripped email) purpose tenantId =
      hasConsent E Q ledger email purpose tenantId := by
  rw [hasConsent, currentState, decisions, normalise_stripped]
  rfl

theorem allowsSubject_eq {email : String} (hemail : stripped email ≠ "")
    (tenantId : Option String) : (allowsSubject E Q ledger (some email) purpose tenantId).1 =
      hasConsent E Q ledger email purpose tenantId := by
  rw [allowsSubject, Option.getD_some, if_neg hemail, hasConsent_stripped]
  cases hasConsent E Q ledger email purpose tenantId <;> rfl

theorem allowsCase_anonymized {c : Retention.Case} (h : isAnonymized c = true) :
    (allowsCase E Q ledger c purpose none).1 = false := by
  rw [allowsCase, if_pos h]

theorem allowsCase_submitter {c : Retention.Case} {email : String} {tenant : Uuid}
    (hc : isAnonymized c = false) (hsubmitter : c.portalSubmitterEmail = some email)
    (hemail : stripped email ≠ "") (htenant : c.tenantId = some tenant) :
    (allowsCase E Q ledger c purpose none).1 =
      hasConsent E Q ledger email purpose (some (uuidText tenant)) := by
  rw [allowsCase, if_neg (Bool.eq_false_iff.mp hc), hsubmitter, allowsSubject_eq hemail]
  show hasConsent E Q ledger email purpose (c.tenantId.map uuidText) = _
  rw [htenant]
  rfl

/-- The ledger of any history is answered as the law has it exactly if no withdrawal of consent
comes after a decision under another basis. -/
theorem meets_iff (E : Env) (Q : Query) (history : List Request)
    (subjectRef purpose tenantId : String) :
    Meets E Q (ledgerOf E history) subjectRef purpose tenantId ↔
      Undisturbed E Q (ledgerOf E history) subjectRef purpose tenantId := by
  have hiff : (hasConsent E Q (ledgerOf E history) subjectRef purpose (some tenantId) = true ↔
      Lawful E Q (ledgerOf E history) subjectRef purpose tenantId) ↔
        Undisturbed E Q (ledgerOf E history) subjectRef purpose tenantId :=
    consent_iff (recordOk_ledgerOf E history)
  constructor
  · intro h
    exact hiff.mp h.consent
  · intro h
    refine ⟨hiff.mpr h, fun c hc => allowsCase_anonymized hc, ?_⟩
    intro c email tenant hc hsubmitter hemail htenant
    exact allowsCase_submitter hc hsubmitter hemail htenant

/-! ## a contract, and a withdrawal -/

def Query.stable : Query where
  order := fun rows => rows.insertionSort fun a b => a.recordedAt ≤ b.recordedAt
  perm := fun rows => List.perm_insertionSort _ rows
  sorted := fun rows => List.pairwise_insertionSort _ rows

def Env.plain : Env where
  runtime := Runtime.silent
  lower := id

def contractThenWithdrawal : List Request :=
  [{ subjectRef := "ana ", purpose := "marketing", basis := "contract", tenantId := some "a"
     recordedAt := 1 },
    { subjectRef := "ana", purpose := "marketing", action := WITHDRAWN, tenantId := some "a"
      recordedAt := 2 }]

theorem not_always_meets : ¬ ∀ E Q history subjectRef purpose tenantId,
    Meets E Q (ledgerOf E history) subjectRef purpose tenantId := by
  intro h
  have hconsent :=
    (h Env.plain Query.stable contractThenWithdrawal "ana" "marketing" "a").consent
  have hanswer : hasConsent Env.plain Query.stable (ledgerOf Env.plain contractThenWithdrawal)
      "ana" "marketing" (some "a") = false := by decide +kernel
  have hlawful : (latest Env.plain Query.stable (ledgerOf Env.plain contractThenWithdrawal)
      "ana" "marketing" "a" "contract").map (·.action) = some GRANTED := by decide +kernel
  obtain ⟨r, hr, hgranted⟩ := Option.map_eq_some_iff.mp hlawful
  have hanswer' := hconsent.mpr ⟨"contract", by decide, r, hr, hgranted⟩
  rw [hanswer] at hanswer'
  exact Bool.noConfusion hanswer'

end HxConsent
