import Velaris.Base.Latest
import Velaris.Py.Identifiers
import Velaris.Retention.Store

/-!
# The consent ledger

`case_service/compliance/consent.py`.  Decisions are appended and never changed; what is lawful now
is read off the last of them.

* `ConsentRecord`, `Request`   a row of the ledger, and the arguments of `record`;
* `record`, `ledgerOf`   one decision, which may be refused, and a history of them;
* `Query`   the order in which the database answers;
* `currentState`, `hasConsent`   the last decision for each purpose;
* `allowsSubject`, `allowsCase`, `allowsCasePurpose`   the gates.
-/

namespace HxConsent

open Py

def GRANTED : String := "granted"
def WITHDRAWN : String := "withdrawn"

def CONSENT : String := "consent"

def PURPOSES : List String :=
  ["ai_processing", "biometric", "case_processing", "data_sharing", "marketing", "recording",
    "voice_processing"]

def BASES : List String :=
  [CONSENT, "contract", "legal_obligation", "legitimate_interest", "public_task", "vital_interests"]

def WITHDRAWABLE_BASES : List String := [CONSENT]

structure ConsentRecord where
  subjectRef : String
  subjectType : String
  purpose : String
  action : String
  basis : String
  source : String
  tenantId : Option String
  recordedAt : Int

/-- the arguments of `record`, and the time of the row -/
structure Request where
  subjectRef : String
  purpose : String
  action : String := GRANTED
  basis : String := CONSENT
  subjectType : String := "email"
  source : String := "api"
  tenantId : Option String := none
  recordedAt : Int

/-- what the ledger takes from the standard library; `lower` is `str.lower` -/
structure Env where
  runtime : Runtime
  lower : String → String

variable (E : Env)

def stripped (s : String) : String := String.ofList (strip s.toList)

/-- `_normalise_subject` -/
def normalise (subjectRef : String) : String := E.lower (stripped subjectRef)

/-! ## recording -/

def record (q : Request) : Except String ConsentRecord :=
  let subject := normalise E q.subjectRef
  if subject = "" then .error "subject_ref is required"
  else if q.purpose ∉ PURPOSES then
    .error (E.runtime.repr (.str q.purpose) ++
      " is not a known purpose. A typo here would make every " ++
      "later check return 'no consent' indistinguishably from a real " ++
      "refusal. Known: " ++ ", ".intercalate PURPOSES)
  else if q.basis ∉ BASES then
    .error (E.runtime.repr (.str q.basis) ++ " is not a lawful basis. Known: " ++
      ", ".intercalate BASES)
  else if q.action ≠ GRANTED ∧ q.action ≠ WITHDRAWN then
    .error ("action must be " ++ GRANTED ++ " or " ++ WITHDRAWN)
  else if q.action = WITHDRAWN ∧ q.basis ∉ WITHDRAWABLE_BASES then
    .error ("a " ++ E.runtime.repr (.str q.basis) ++
      " basis cannot be withdrawn by the subject — only " ++
      ", ".intercalate WITHDRAWABLE_BASES ++ " can. Recording this would " ++
      "claim processing stopped when it lawfully continues.")
  else
    .ok
      { subjectRef := subject, subjectType := q.subjectType, purpose := q.purpose
        action := q.action, basis := q.basis, source := q.source, tenantId := q.tenantId
        recordedAt := q.recordedAt }

def append (ledger : List ConsentRecord) (q : Request) : List ConsentRecord :=
  match record E q with
  | .ok row => ledger ++ [row]
  | .error _ => ledger

def ledgerOf (history : List Request) : List ConsentRecord := history.foldl (append E) []

/-! ## what is lawful now -/

/-- `ORDER BY recorded_at`: rows of one time stand in an order that the database chooses -/
structure Query where
  order : List ConsentRecord → List ConsentRecord
  perm : ∀ rows, (order rows).Perm rows
  sorted : ∀ rows, (order rows).Pairwise fun a b => a.recordedAt ≤ b.recordedAt

variable (Q : Query) (ledger : List ConsentRecord)

/-- the rows of a subject, from the first to the last; an empty tenant is not asked for -/
def decisions (subjectRef : String) (tenantId : Option String) : List ConsentRecord :=
  Q.order (ledger.filter fun r => r.subjectRef = normalise E subjectRef &&
    (tenantId.all (· = "") || r.tenantId = tenantId))

/-- an entry of `current_state` -/
structure Entry where
  purpose : String
  granted : Bool
  basis : String
  source : String
  recordedAt : Int

def ConsentRecord.entry (r : ConsentRecord) : Entry where
  purpose := r.purpose
  granted := r.action = GRANTED
  basis := r.basis
  source := r.source
  recordedAt := r.recordedAt

def currentState (subjectRef : String) (tenantId : Option String) : String → Option Entry :=
  (decisions E Q ledger subjectRef tenantId).foldl
    (fun state r => Function.update state r.purpose (some r.entry)) fun _ => none

def hasConsent (subjectRef purpose : String) (tenantId : Option String) : Bool :=
  if purpose ∉ PURPOSES then false
  else (currentState E Q ledger subjectRef tenantId purpose).any (·.granted)

/-! ## the gates -/

def NO_SUBJECT : String := "no_subject"
def ANONYMIZED : String := "anonymized"

def allowsSubject (subjectRef : Option String) (purpose : String) (tenantId : Option String) :
    Bool × String :=
  let subject := stripped (subjectRef.getD "")
  if subject = "" then (true, NO_SUBJECT)
  else if hasConsent E Q ledger subject purpose tenantId then (true, "granted")
  else (false, "no_lawful_basis")

def isAnonymized (c : Retention.Case) : Bool := c.marked Retention.anonMarker

/-- `_tenant_key` of the tenant that is named, or of the case's own -/
def tenantKey (tenantId : Option String) (c : Retention.Case) : Option String :=
  if tenantId.all (· = "") then c.tenantId.map uuidText else tenantId

def allowsCase (c : Retention.Case) (purpose : String) (tenantId : Option String) :
    Bool × String :=
  if isAnonymized c then (false, ANONYMIZED)
  else allowsSubject E Q ledger c.portalSubmitterEmail purpose (tenantKey tenantId c)

def allowsCasePurpose (cases : List Retention.Case) (caseId : Uuid) (purpose : String)
    (tenantId : Option String) : Bool × String :=
  match cases.find? (·.id = caseId) with
  | none => (false, "unknown_case")
  | some c => allowsCase E Q ledger c purpose tenantId

end HxConsent
