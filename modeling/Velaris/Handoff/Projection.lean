import Mathlib.Data.List.Basic
import Velaris.Py.Runtime
import Velaris.Py.Text
import Mathlib.Data.List.Sort
import Mathlib.Data.String.Basic

/-!
# The view of a case that leaves the platform

`case_service/compliance/pii_detect.py`: `classify_field` for a field without a declared input
type.  A rule is a list of alternatives; an alternative is its words, with `[-_ ]?` between them.

`case_service/handoff/projection.py`: the ceilings, `classify` and `project`.  A field is shown if
neither classifier puts it above the ceiling.
-/

namespace Handoff
namespace PiiDetect

inductive Category where
  | email
  | phone
  | name
  | address
  | nationalId
  | financial
  | health
  | biometric
  | dateOfBirth
  | ipAddress
  deriving DecidableEq

def Category.text : Category → String
  | email => "email"
  | phone => "phone"
  | name => "name"
  | address => "address"
  | nationalId => "national_id"
  | financial => "financial"
  | health => "health"
  | biometric => "biometric"
  | dateOfBirth => "date_of_birth"
  | ipAddress => "ip_address"

def SPECIAL_CATEGORY : List Category := [.health, .biometric]

/-! ## the patterns -/

/-- the letter that a pattern under `re.I` takes a character for -/
def fold (c : Char) : Char :=
  if c.toNat = 0x130 ∨ c.toNat = 0x131 then 'i'
  else if c.toNat = 0x17f then 's'
  else if c.toNat = 0x212a then 'k'
  else if 65 ≤ c.toNat ∧ c.toNat ≤ 90 then Char.ofNat (c.toNat + 32)
  else c

/-- `[a-z0-9]` -/
def isAlnum (c : Char) : Bool :=
  let n := (fold c).toNat
  (97 ≤ n && n ≤ 122) || (48 ≤ n && n ≤ 57)

def matchWord : List Char → List Char → Option (List Char)
  | [], s => some s
  | _ :: _, [] => none
  | w :: ws, c :: cs => if fold c = w then matchWord ws cs else none

/-- the text after `[-_ ]?` -/
def skipSeparator : List Char → List Char
  | [] => []
  | c :: cs => if c = '-' ∨ c = '_' ∨ c = ' ' then cs else c :: cs

def matchWords : List String → List Char → Option (List Char)
  | [], s => some s
  | [w], s => matchWord w.toList s
  | w :: ws, s => (matchWord w.toList s).bind fun rest => matchWords ws (skipSeparator rest)

/-- `(?![a-z0-9])` -/
def ends : List Char → Bool
  | [] => true
  | c :: _ => !isAlnum c

/-- `_rule(body).search(text)`; `inWord` says that the character before is in `[a-z0-9]` -/
def search (rule : List (List String)) : Bool → List Char → Bool
  | inWord, [] => !inWord && rule.any fun ws => (matchWords ws []).any ends
  | inWord, c :: cs =>
    (!inWord && rule.any fun ws => (matchWords ws (c :: cs)).any ends) ||
      search rule (isAlnum c) cs

def RULES : List (Category × List (List String)) :=
  [(.email, [["e", "mail"]]),
   (.dateOfBirth, [["dob"], ["date", "of", "birth"], ["birth", "date"], ["birthday"]]),
   (.nationalId, [["ssn"], ["social", "security"], ["national", "id"], ["passport"], ["nino"],
     ["tax", "id"], ["aadhaar"]]),
   (.biometric, [["biometric"], ["fingerprint"], ["face", "scan"], ["iris"], ["voice", "print"]]),
   (.health, [["health"], ["medical"], ["diagnosis"], ["nhs"], ["patient"], ["disability"],
     ["prescription"]]),
   (.financial, [["iban"], ["bic"], ["swift"], ["card", "number"], ["account", "number"],
     ["sort", "code"], ["salary"], ["income"]]),
   (.ipAddress, [["ip", "address"], ["ipaddr"], ["client", "ip"]]),
   (.phone, [["phone"], ["mobile"], ["telephone"], ["msisdn"], ["contact", "number"]]),
   (.address, [["address"], ["postcode"], ["post", "code"], ["zip"], ["city"], ["street"]]),
   (.name, [["first", "name"], ["last", "name"], ["surname"], ["full", "name"], ["given", "name"],
     ["forename"]])]

def WEAK_NAME : List (List String) := [["name"]]

/-- `classify_field(field_key, label, "")`: the first rule that finds something -/
def classifyField (fieldKey label : String) : Option Category :=
  let haystack := (fieldKey ++ " " ++ label).toList
  match RULES.find? fun r => search r.2 false haystack with
  | some r => some r.1
  | none => if search WEAK_NAME false haystack then some .name else none

end PiiDetect
end Handoff

namespace Handoff
open Py

/-! ## ceilings -/

inductive Ceiling where
  | none
  | internal
  | personal

def Ceiling.rank : Ceiling → Nat
  | none => 0
  | internal => 1
  | personal => 2

def Ceiling.text : Ceiling → String
  | none => "none"
  | internal => "internal"
  | personal => "personal"

/-! ## classification -/

structure PiiFinding where
  fieldPath : String
  category : String
  specialCategory : Bool

/-- a category and whether it is special, by the name of a field -/
abbrev Confirmed := List (String × (String × Bool))

/-- `path.rsplit(".", 1)[-1].strip()` -/
def lastSegment (path : String) : String :=
  String.ofList (strip ((path.toList.reverse.takeWhile (· ≠ '.')).reverse))

/-- one finding more; the stricter classification stands when a name appears twice -/
def confirm (out : Confirmed) (f : PiiFinding) : Confirmed :=
  let name := lastSegment f.fieldPath
  if name = "" then out
  else
    match out.lookup name with
    | none => out ++ [(name, (f.category, f.specialCategory))]
    | some prior =>
      if f.specialCategory && !prior.2 then
        out.map fun p => if p.1 = name then (name, (f.category, true)) else p
      else out

/-- `_confirmed_classes`; `none` where the findings cannot be read -/
def confirmedClasses (rows : Option (List PiiFinding)) : Confirmed :=
  match rows with
  | none => []
  | some rows => rows.foldl confirm []

/-- the category of a field, and whether it is special: the stricter of two classifiers -/
def classify (name : String) (confirmed : Confirmed) : Option String × Bool :=
  let found := PiiDetect.classifyField name name
  let category := found.map PiiDetect.Category.text
  let special := found.any fun c => c ∈ PiiDetect.SPECIAL_CATEGORY
  match confirmed.lookup name with
  | none => (category, special)
  | some hit => (category.or (some hit.1), special || hit.2)

/-! ## projection -/

structure Case where
  id : Uuid
  tenantId : Uuid
  caseTypeId : Uuid
  status : String := "new"
  priority : String := "medium"
  currentStageId : Option String := none
  createdAt : Option Int := none
  data : Value := .dict []
  deriving DecidableEq

structure CaseView where
  caseId : String
  caseTypeId : String
  status : String
  priority : String
  currentStageId : Option String
  createdAt : Option String
  fields : Dict

structure Withheld where
  field : String
  why : String

structure Projected where
  case : CaseView
  ceiling : Ceiling
  disclosed : List String
  withheld : List Withheld

def whyWithheld (ceiling : Ceiling) (confirmed : Confirmed) (name : String) : Option String :=
  let (category, special) := classify name confirmed
  let personal := category.getD "" ≠ ""
  if special then some ("special category (" ++ category.getD "None" ++ ")")
  else if ceiling.rank < (if personal then Ceiling.personal else Ceiling.internal).rank then
    some ((if personal then category.getD "" else "personal") ++ " data is above the '" ++
      ceiling.text ++ "' ceiling")
  else if ceiling.rank = 0 then some "this work order carries no data ceiling"
  else none

def STRUCTURAL : List String := ["__meta__"]

def project (R : Runtime) (case : Case) (ceiling : Ceiling) (rows : Option (List PiiFinding)) :
    Projected :=
  let confirmed := confirmedClasses rows
  let data := (case.data.dict?.getD []).filter fun p => p.1 ∉ STRUCTURAL
  let shown := data.filter fun p => whyWithheld ceiling confirmed p.1 = none
  let withheld := data.filterMap fun p =>
    (whyWithheld ceiling confirmed p.1).map fun why => { field := p.1, why := why : Withheld }
  { case :=
      { caseId := uuidText case.id
        caseTypeId := uuidText case.caseTypeId
        status := case.status
        priority := case.priority
        currentStageId := case.currentStageId
        createdAt := case.createdAt.map R.isoformat
        fields := shown }
    ceiling := ceiling
    disclosed := (shown.map (·.1)).insertionSort (· ≤ ·)
    withheld := withheld.insertionSort fun v w => v.field ≤ w.field }

end Handoff
