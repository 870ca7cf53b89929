import Velaris.Py.Blank
import Velaris.Py.Text

/-!
# Legal holds

`case_service/legal_hold/service.py`: the rows of `legal_holds`, and what places, releases and asks
for them.

* `held`   the question every destructive operation asks;
* `place`, `release`  a case is frozen for a matter, and freed.

Where the table is missing, nothing is held.
-/

namespace LegalHold
open Py

structure Hold where
  id : Uuid
  tenantId : Option Uuid
  caseId : Uuid
  matterRef : String
  reason : String
  status : String := "active"
  /-- the case while the hold is active; unique -/
  activeKey : Option String
  placedBy : String
  placedAt : Int
  releasedBy : Option String := none
  releasedAt : Option Int := none
  releaseReason : Option String := none

inductive HoldError where
  | refused (message code : String) (statusCode : Nat)
  /-- the database refuses the statement -/
  | raised

/-- `held_among`, of one case -/
def held (table : Option (List Hold)) (caseId : Uuid) : Bool :=
  table.any fun holds => holds.any fun h => h.status = "active" && h.caseId = caseId

/-! ## placing and releasing -/

def codeState : String := "VEL-LEGALHOLD-STATE-409"
def codeInvalid : String := "VEL-LEGALHOLD-INVALID-400"

def matterMax : Nat := 120
def reasonMin : Nat := 10
def reasonMax : Nat := 4000

def alreadyHeld : HoldError :=
  .refused "This case is already under a legal hold. Release that hold before placing another."
    codeState 409

/-- `" ".join(text.split())` -/
def normaliseMatter (matterRef : String) : String := String.ofList (collapse matterRef.toList)

def clean (matterRef reason : String) : Except HoldError (String × String) :=
  let matter := normaliseMatter matterRef
  let why := String.ofList (strip reason.toList)
  if matter = "" || matter.length > matterMax then
    .error (.refused "Name the matter (1–120 characters)." codeInvalid 400)
  else if why.length < reasonMin || why.length > reasonMax then
    .error (.refused ("Give a reason of 10–4000 characters. It is the record of why the case was " ++
      "frozen, or freed.") codeInvalid 400)
  else .ok (matter, why)

structure Placing where
  id : Uuid
  caseId : Uuid
  caseTenantId : Option Uuid
  tenantId : Option Uuid
  matterRef : String
  reason : String
  actor : String
  now : Int

def Placing.row (p : Placing) (matter why : String) : Hold where
  id := p.id
  tenantId := p.caseTenantId.or p.tenantId
  caseId := p.caseId
  matterRef := matter
  reason := why
  activeKey := some (uuidText p.caseId)
  placedBy := p.actor
  placedAt := p.now

/-- the keys of the table are checked as the row is flushed -/
def insert (holds : List Hold) (row : Hold) : Except HoldError (List Hold) :=
  if holds.any fun h => h.id = row.id || (h.activeKey.isSome && h.activeKey = row.activeKey) then
    .error alreadyHeld
  else .ok (holds ++ [row])

def place (holds : List Hold) (p : Placing) : Except HoldError (List Hold) := do
  let (matter, why) ← clean p.matterRef p.reason
  if held (some holds) p.caseId then .error alreadyHeld
  else insert holds (p.row matter why)

structure Releasing where
  holdId : Uuid
  reason : String
  actor : String
  now : Int

def Hold.releasedRow (h : Hold) (r : Releasing) (why : String) : Hold :=
  { h with
    status := "released"
    activeKey := none
    releasedBy := some r.actor
    releasedAt := some r.now
    releaseReason := some why }

def release (holds : List Hold) (r : Releasing) : Except HoldError (List Hold) :=
  match holds.find? fun h => h.id = r.holdId with
  | none => .error (.refused "Legal hold not found." "VEL-LEGALHOLD-NOTFOUND-404" 404)
  | some h => do
    let (_, why) ← clean h.matterRef r.reason
    if h.status ≠ "active" then
      .error (.refused "This hold has already been released." codeState 409)
    else
      .ok (holds.map fun h' => if h'.id = h.id then h'.releasedRow r why else h')

end LegalHold
