import Velaris.Py.Value
import Velaris.Base.Table
import Velaris.Base.Redirect

/-!
# Merging customer profiles

`case_service/engage/identity.py`.

* `Profile`, `Identifier`, `Link`, `Merge`   the rows that a merge touches;
* `merge`, `unmerge`   a merge, and its undoing;
* `followMerges`   the profile that one leads to;
* `step`   merges and undoings one after another.
-/

namespace Engage

open Py Base

inductive Status where
  | active
  | merged
  | anonymized
  deriving DecidableEq

structure Profile where
  id : Uuid
  status : Status := .active
  mergedIntoId : Option Uuid := none

structure Identifier where
  id : Uuid
  customerId : Uuid
  isPrimary : Bool := false
  deriving DecidableEq

structure Link where
  id : Uuid
  customerId : Uuid
  objectKind : String
  objectId : Uuid

/-- `UNIQUE (customer_id, object_kind, object_id)` -/
def Link.key (l : Link) : Uuid × String × Uuid := (l.customerId, l.objectKind, l.objectId)

structure Merge where
  id : Uuid
  winnerId : Uuid
  loserId : Uuid
  /-- `moved["identifiers"]` -/
  identifiers : List Uuid
  /-- `moved["links"]` -/
  links : List Uuid
  reason : String
  mergedBy : String
  /-- `undone_at` is set -/
  undone : Bool := false
  undoneBy : Option String := none

structure Db where
  profiles : List Profile
  identifiers : List Identifier
  links : List Link
  merges : List Merge

namespace Db

variable (db : Db)

def profile? (id : Uuid) : Option Profile := db.profiles.find? fun p => p.id = id

def merge? (id : Uuid) : Option Merge := db.merges.find? fun m => m.id = id

/-! ## following -/

/-- `merged_into_id`, where that profile is there -/
def redirect (id : Uuid) : Option Uuid :=
  (db.profile? id).bind fun p => p.mergedIntoId.filter fun t => (db.profile? t).isSome

def DEPTH : Nat := 8

def followMerges (customerId : Uuid) : Except String Profile :=
  match db.profile? customerId with
  | none => .error "no such profile"
  | some p => .ok ((db.profile? (chase db.redirect DEPTH [] p.id)).getD p)

end Db

/-! ## merging -/

def refusal (winnerId loserId : Uuid) (reason : String) (db : Db) : Option String :=
  if winnerId = loserId then some "a profile cannot be merged into itself"
  else if (strip reason.toList).length < 5 then
    some "a merge needs a reason somebody can read later"
  else
    match db.profile? winnerId, db.profile? loserId with
    | some _, some loser =>
      if loser.status = .merged then some "that profile has already been merged" else none
    | _, _ => some "both profiles must exist"

def Profile.mergeInto (winnerId : Uuid) (p : Profile) : Profile :=
  { p with status := .merged, mergedIntoId := some winnerId }

def Profile.restore (p : Profile) : Profile := { p with status := .active, mergedIntoId := none }

def Merge.undo (actor : String) (m : Merge) : Merge :=
  { m with undone := true, undoneBy := some actor }

def Identifier.handOver (winnerId loserId : Uuid) (i : Identifier) : Identifier :=
  if i.customerId = loserId then { i with customerId := winnerId, isPrimary := false } else i

def Link.handOver (winnerId loserId : Uuid) (l : Link) : Link :=
  if l.customerId = loserId then { l with customerId := winnerId } else l

/-- `merge`; the record takes the id that `uuid4` gives, and the constraints of the tables hold -/
def merge (id winnerId loserId : Uuid) (reason mergedBy : String) (db : Db) : Except String Db :=
  match refusal winnerId loserId reason db with
  | some why => .error why
  | none =>
    let record : Merge :=
      { id := id, winnerId := winnerId, loserId := loserId
        identifiers := (db.identifiers.filter fun i => i.customerId = loserId).map Identifier.id
        links := (db.links.filter fun l => l.customerId = loserId).map Link.id
        reason := reason, mergedBy := mergedBy }
    let links := db.links.map (Link.handOver winnerId loserId)
    if (links.map Link.key).Nodup ∧ id ∉ db.merges.map Merge.id then
      .ok
        { profiles := Base.modify Profile.id loserId (Profile.mergeInto winnerId) db.profiles
          identifiers := db.identifiers.map (Identifier.handOver winnerId loserId)
          links := links
          merges := db.merges ++ [record] }
    else .error "IntegrityError"

/-- `unmerge`, of the record that the route gets by its id -/
def unmerge (id : Uuid) (actor : String) (db : Db) : Except String Db :=
  match db.merge? id with
  | none => .error "no such merge"
  | some record =>
    if record.undone then .error "that merge has already been undone"
    else
      let links := db.links.map fun l =>
        if l.id ∈ record.links then { l with customerId := record.loserId } else l
      if (links.map Link.key).Nodup then
        .ok
          { profiles := Base.modify Profile.id record.loserId Profile.restore db.profiles
            identifiers := db.identifiers.map fun i =>
              if i.id ∈ record.identifiers then { i with customerId := record.loserId } else i
            links := links
            merges := Base.modify Merge.id id (Merge.undo actor) db.merges }
      else .error "IntegrityError"

inductive Action where
  | merge (id winnerId loserId : Uuid) (reason mergedBy : String)
  | unmerge (id : Uuid) (actor : String)

def Db.after (db : Db) : Except String Db → Db
  | .ok db' => db'
  | .error _ => db

def step (db : Db) : Action → Db
  | .merge id winnerId loserId reason mergedBy =>
    db.after (Engage.merge id winnerId loserId reason mergedBy db)
  | .unmerge id actor => db.after (Engage.unmerge id actor db)

end Engage
