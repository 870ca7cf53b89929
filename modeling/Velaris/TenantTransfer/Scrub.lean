import Velaris.Py.Text

/-!
# Replacing people

`case_service/case_actions/tenant_transfer.py`: what an accepted transfer writes in the place of a
person of the source tenant; and `anon_id` of `gdpr.anonymize_user_data`.

* `pseudonym`   the stand-in of an actor, one for a tenant and an actor;
* `anonId`   the stand-in of a user, one for all tenants;
* `personish`   `_PERSONISH.search`, of a key in lower case;
* `scrubDetails`   `_scrub_details`: the items of a dictionary, and of none below it.

`hashlib.sha256(text.encode()).hexdigest()` is a parameter.
-/

namespace TenantTransfer
open Py

variable (hexdigest : String → String)

def shortHash (text : String) : String := String.ofList ((hexdigest text).toList.take 12)

def pseudonym (sourceTenantId : Uuid) : Option String → Option String
  | none => none
  | some actor =>
    if actor = "" then none
    else some ("actor:" ++ shortHash hexdigest (uuidText sourceTenantId ++ ":" ++ actor))

def anonId (userId : String) : String := "anon-" ++ shortHash hexdigest userId

/-! ## keys -/

/-- the words of `_PERSONISH` -/
def personWords : List String :=
  ["by", "user", "users", "actor", "email", "name", "assignee", "owner", "claimed", "reviewer",
    "approver", "agent", "operator", "username", "submitter"]

/-- `($|_|s$)`; a text also ends before its last newline -/
def endsWord : List Char → Bool
  | [] | ['\n'] | ['s'] | ['s', '\n'] => true
  | c :: _ => c = '_'

def startsWord (text : List Char) : Bool :=
  personWords.any fun w => w.toList.isPrefixOf text && endsWord (text.drop w.length)

/-- a word of a person stands at the start of the text, or after an underscore -/
def personish (text : List Char) : Bool :=
  startsWord text || text.tails.any fun rest =>
    match rest with
    | '_' :: rest => startsWord rest
    | _ => false

def isPersonKey (key : String) : Bool := personish (key.toList.map Char.toLower)

/-! ## details -/

def redacted : Value := .str "[redacted]"

def scrubItem (item : String × Value) : String × Value :=
  (item.1, if isPersonKey item.1 then redacted else item.2)

def scrubDetails : Value → Value
  | .dict items => .dict (items.map scrubItem)
  | details => details

theorem scrubItem_of_not {item : String × Value} (h : isPersonKey item.1 = false) :
    scrubItem item = item := by
  unfold scrubItem
  rw [h]
  rfl

theorem scrubDetails_truthy (details : Value) :
    (scrubDetails details).truthy = details.truthy := by
  cases details with
  | dict items => cases items <;> rfl
  | none | bool b | int n | float q | str s | list vs => rfl

example : ["actor", "claimed_by", "usernames", "caseName", "Resolved_By"].map isPersonKey =
    [true, true, true, false, true] := by decide

end TenantTransfer
