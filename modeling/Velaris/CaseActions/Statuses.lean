import Velaris.Py.Runtime
import Velaris.Py.Text
import Mathlib.Data.List.Sort

/-!
# The statuses of a case

`case_actions/statuses.py`: a status is a row an operator writes, and the platform's, the tenant's
and the case type's rows merge.  `case_actions/stages.py`: the status that entering a stage sets, the
actions it offers, and the status that the first finished step sets where the stage says nothing.

* `resolveSet`   the set in force in a scope, the most specific row of a name first;
* `validateTransition`   what may be written, and why not;
* `isTerminal`, `isWorkable`   whether a status ends a case, and whether work goes on in it;
* `onEnterStatus`, `allowedActions`, `actionOffered`;
* `stageDef`   the stage of a case type;
* `enterStatus?`   what `apply_on_enter_status` writes, if anything;
* `autoInProgress?`   what `apply_auto_in_progress` writes, if anything.

The table is `none` where it cannot be read.
-/

namespace CaseActions
open Py

/-! ## rows -/

/-- a row of `case_statuses` -/
structure CaseStatus where
  scopeKey : String
  name : String
  category : String := "open"
  isTerminal : Bool := false
  allowedFrom : List String := []
  enabled : Bool := true

structure Status where
  name : String
  category : String
  isTerminal : Bool
  allowedFrom : List String
  enabled : Bool

/-- nothing in `allowed_from` means from anywhere -/
def Status.reachableFrom (s : Status) (current : String) : Bool :=
  s.allowedFrom.isEmpty || current ∈ s.allowedFrom

structure StatusError where
  message : String
  code : String

def scopeKey (tenantId caseTypeId : Option Uuid) : String :=
  tenantId.elim "platform" uuidText ++ ":" ++ caseTypeId.elim "any" uuidText

def toStatus (row : CaseStatus) : Status where
  name := row.name
  category := if row.category = "" then "open" else row.category
  isTerminal := row.isTerminal
  allowedFrom := row.allowedFrom.filter (· ≠ "")
  enabled := row.enabled

/-! ## the set in force -/

abbrev StatusSet := List Status

def StatusSet.get (set : StatusSet) (name : String) : Option Status := set.find? (·.name = name)

/-- `out[s.name] = s` -/
def StatusSet.put : StatusSet → Status → StatusSet
  | [], s => [s]
  | t :: set, s => if t.name = s.name then s :: set else t :: StatusSet.put set s

def fallbackSet : StatusSet :=
  [("new", "open", false), ("open", "open", false), ("resolved", "terminal", true),
    ("closed", "terminal", true), ("reopened", "open", false), ("cancelled", "terminal", true),
    ("pending_external", "waiting", false), ("pending_subcase", "waiting", false)].map
    fun (name, category, isTerminal) => ⟨name, category, isTerminal, [], true⟩

def scopeKeys (tenantId caseTypeId : Option Uuid) : List String :=
  scopeKey none none ::
    (if tenantId.isSome then [scopeKey tenantId none] else []) ++
    (if caseTypeId.isSome then [scopeKey tenantId caseTypeId] else [])

def resolveSet (table : Option (List CaseStatus)) (tenantId caseTypeId : Option Uuid) : StatusSet :=
  match table with
  | none => fallbackSet
  | some rows =>
    let layers := (scopeKeys tenantId caseTypeId).flatMap fun key => rows.filter (·.scopeKey = key)
    if layers.isEmpty then fallbackSet
    else layers.foldl (fun out row => StatusSet.put out (toStatus row)) []

variable (table : Option (List CaseStatus))

def isTerminal (status : String) (tenantId caseTypeId : Option Uuid) : Bool :=
  status ≠ "" && ((resolveSet table tenantId caseTypeId).get status).any (·.isTerminal)

def isWaiting (status : String) (tenantId caseTypeId : Option Uuid) : Bool :=
  ((resolveSet table tenantId caseTypeId).get status).any (·.category = "waiting")

/-- `is_workable_for_case`: a status nobody defined is that of an open case -/
def isWorkable (status : String) (tenantId caseTypeId : Option Uuid) : Bool :=
  match (resolveSet table tenantId caseTypeId).get status with
  | none => true
  | some found => !found.isTerminal && found.category ≠ "waiting"

/-! ## transitions -/

def StatusSet.known (set : StatusSet) : String :=
  String.intercalate ", " (((set.filter (·.enabled)).map (·.name)).insertionSort (· ≤ ·))

def validateTransition (current target : String) (tenantId caseTypeId : Option Uuid) :
    Except StatusError Status :=
  let statuses := resolveSet table tenantId caseTypeId
  match statuses.get target with
  | none =>
    .error ⟨"'" ++ target ++ "' is not a status on this platform. Known: " ++ statuses.known ++ ".",
      "VEL-CASE-STATUS-UNKNOWN-400"⟩
  | some found =>
    if !found.enabled then
      .error ⟨"Status '" ++ target ++ "' is disabled and cannot be set on a case. " ++
        "Cases already holding it are unaffected.", "VEL-CASE-STATUS-DISABLED-409"⟩
    else if !found.reachableFrom current then
      .error ⟨"A case cannot go from '" ++ current ++ "' to '" ++ target ++ "'. '" ++ target ++
        "' is reachable from: " ++ String.intercalate ", " found.allowedFrom ++ ".",
        "VEL-CASE-STATUS-TRANSITION-409"⟩
    else .ok found

end CaseActions

namespace CaseActions
open Py

variable (R : Runtime)

/-- `data.get(key, default)` -/
def getOr (data : Dict) (key : String) (default : Value) : Value := (data.lookup key).getD default

/-- `str(v).strip()` -/
def stripped (v : Value) : String := String.ofList (strip (R.str v).toList)

/-- a stage without items is `None` -/
def onEnterStatus (stage : Dict) : Option String :=
  match Dict.get stage "on_enter_status" with
  | .none => none
  | raw => if stripped R raw = "" then none else some (stripped R raw)

/-- `none` where the stage restricts nothing; what is no list allows nothing -/
def allowedActions (stage : Dict) : Option (List String) :=
  match Dict.get stage "actions_allowed" with
  | .none => none
  | .list xs => some ((xs.map (stripped R)).filter (· ≠ ""))
  | _ => some []

def actionOffered (stage : Dict) (actionName : String) : Bool :=
  (allowedActions R stage).all fun allowed => actionName ∈ allowed

/-- `for x in v or []`; `none` where it raises -/
def Value.iterOrEmpty (v : Value) : Option (List Value) := if v.truthy then v.iter else some []

/-- `stage_def`, of a case type's definition: a stage without items where there is none such, and
`none` where it raises -/
def stageDef (definition : Dict) (stageId : String) : Option Dict :=
  if stageId = "" then some []
  else
    (Value.iterOrEmpty (getOr definition "stages" (.list []))).map fun stages =>
      ((stages.filterMap Value.dict?).find? fun s => R.str (Dict.get s "id") = stageId).getD []

variable (table : Option (List CaseStatus))

def enterStatus? (stage : Dict) (status : String) (tenantId caseTypeId : Option Uuid) :
    Option String := do
  let target ← onEnterStatus R stage
  if status = target then none
  else
    match validateTransition table status target tenantId caseTypeId with
    | .error _ => none
    | .ok _ => some target

def AUTO_PROGRESS_FROM : List String := ["new", "open", "reopened"]
def AUTO_PROGRESS_TO : String := "in_progress"

def autoInProgress? (stage : Dict) (status : String) (tenantId caseTypeId : Option Uuid) :
    Option String :=
  if (onEnterStatus R stage).isSome then none
  else if status ∉ AUTO_PROGRESS_FROM then none
  else
    match validateTransition table status AUTO_PROGRESS_TO tenantId caseTypeId with
    | .error _ => none
    | .ok _ => some AUTO_PROGRESS_TO

end CaseActions
