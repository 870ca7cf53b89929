import Velaris.Dmn.Evaluate

/-!
# The import (`case_service/core/dmn.py`)

* `Xml`   an element, its tag with the namespace in braces as the parser gives it;
* `parseTable`   one `<decision>` with its table as a rule;
* `parseDmn`   every decision table of a file.
-/

namespace Dmn
open Py

structure Xml where
  tag : String
  attrs : List (String × String) := []
  text : String := ""
  children : List Xml := []

/-! ## XML helpers -/

/-- `_local`: the tag without its namespace -/
def localName (tag : String) : String :=
  String.ofList (tag.toList.reverse.takeWhile (· ≠ '}')).reverse

/-- `el.get(key)` -/
def Xml.get (el : Xml) (key : String) : Option String := el.attrs.lookup key

def childrenOf (el : Xml) (name : String) : List Xml :=
  el.children.filter fun c => localName c.tag = name

def childOf (el : Xml) (name : String) : Option Xml := (childrenOf el name).head?

/-- the text of an element, or of the `<text>` in it -/
def rawText (el : Xml) : List Char := ((childOf el "text").getD el).text.toList

def cellText (el : Xml) : List Char := collapse (rawText el)

def textOf (el : Xml) (name : String) : List Char :=
  match childOf el name with
  | none => []
  | some wrapper => cellText wrapper

/-- `a or b` -/
def orText (a : Option String) (b : String) : String :=
  match a with
  | none => b
  | some s => if s = "" then b else s

def quote (s : String) : String := "'" ++ s ++ "'"

/-! ## `_priority_ranking` -/

def hitPolicyError (message : String) : Raised := .dmnError "VEL-RULE-DMN-HITPOLICY-422" message

variable (L : Library)

/-- the output values in their order, as the keys of the ranking -/
def priorityRanking (outputs : List Xml) : Except Raised (List String) :=
  match outputs with
  | [output_el] => do
    let ordered ← (splitTopLevel (textOf output_el "outputValues")).mapM fun p =>
      (literal L p).map L.str
    if ordered = [] then
      throw (hitPolicyError ("hitPolicy PRIORITY needs <outputValues> on the output to say " ++
        "which result outranks which. Without it the policy has no meaning, and guessing an " ++
        "order would silently change the decision."))
    return ordered
  | _ =>
    .error (hitPolicyError ("hitPolicy PRIORITY ranks rows by one output's declared value order, " ++
      "and this table has " ++ toString outputs.length ++ " outputs. Rank it on a single output, " ++
      "or model it as FIRST with the rows in the order you want them tried."))

def rankingFor (hit_policy : String) (outputs : List Xml) : Except Raised (List String) :=
  if hit_policy = "PRIORITY" then priorityRanking L outputs else .ok []

/-- the number of a value: the first listed has the highest, and a value listed twice its last -/
def rank (ordered : List String) (value : String) : Option Int :=
  (ordered.zipIdx.reverse.find? (·.1 = value)).map fun p => (ordered.length : Int) - p.2

/-! ## `_parse_table` -/

def SUPPORTED_HIT_POLICIES : List String := ["UNIQUE", "FIRST", "ANY", "PRIORITY"]

def UNSUPPORTED_HIT_POLICIES : List (String × String) :=
  [("COLLECT", "COLLECT returns every matching row (optionally aggregated); this engine returns " ++
      "one row's outcomes and the rule shape has nowhere to hold a list."),
    ("RULE ORDER", "RULE ORDER returns every matching row in order; this engine returns one."),
    ("OUTPUT ORDER", "OUTPUT ORDER returns every matching row ranked by output; this engine " ++
      "returns one.")]

def hitPolicyOf (name : String) (table : Xml) : Except Raised String := do
  let hit_policy := L.upper (String.ofList (strip (orText (table.get "hitPolicy") "UNIQUE").toList))
  match UNSUPPORTED_HIT_POLICIES.lookup hit_policy with
  | some reason => throw (hitPolicyError (quote name ++ ": " ++ reason))
  | none =>
    if hit_policy ∉ SUPPORTED_HIT_POLICIES then
      throw (hitPolicyError (quote name ++ ": unknown hitPolicy " ++ quote hit_policy ++
        ". Known: " ++ ", ".intercalate SUPPORTED_HIT_POLICIES ++ "."))
    if orText (table.get "aggregation") "" ≠ "" then
      throw (hitPolicyError (quote name ++ ": aggregation=" ++
        quote (orText (table.get "aggregation") "") ++
        " aggregates several matching rows, which this engine does not do."))
    return hit_policy

/-- `[A-Za-z_][\w.]*` -/
def isFieldPath : List Char → Bool
  | [] => false
  | c :: cs => (c.isAlpha || c = '_') && cs.all fun d => L.word d || d = '.'

def inputColumn (name : String) (index : Nat) (el : Xml) : Except Raised Column := do
  let expression := textOf el "inputExpression"
  if expression = [] then
    throw (exprError (quote name ++ ": input " ++ toString (index + 1) ++
      " has no <inputExpression>, so there is no field for its column to test."))
  if !isFieldPath L expression then
    throw (exprError (quote name ++ ": input expression " ++ quote (String.ofList expression) ++
      " is FEEL, not a field path. This platform resolves a dotted path against the case " ++
      "context; computing a value first is a rule of its own."))
  return {
    id := orText (el.get "id") ("in" ++ toString (index + 1))
    label := some (orText (el.get "label") (String.ofList expression))
    field_path := some (String.ofList expression)
    is_condition := true
    type_ref := (childOf el "inputExpression").bind (·.get "typeRef") }

def outputColumn (name : String) (decision : Xml) (index : Nat) (el : Xml) :
    Except Raised Column := do
  let decisionName := String.ofList (strip (orText (decision.get "name") "").toList)
  let target := orText (el.get "name") (orText (some decisionName) (orText (el.get "id") ""))
  if target = "" then
    throw (exprError (quote name ++ ": output " ++ toString (index + 1) ++
      " has no name to write to."))
  return {
    id := orText (el.get "id") ("out" ++ toString (index + 1))
    label := some (orText (el.get "label") target)
    field_path := some target
    is_condition := false
    type_ref := el.get "typeRef" }

/-- one cell of a row; what is parsed as `None` is not stored -/
def storeCondition (conditions : Dict) (p : Xml × Column) : Except Raised Dict := do
  let parsed ← parseUnaryTest L (cellText p.1)
  return if parsed = .none then conditions else Dict.set p.2.id parsed conditions

def parseConditions (cells : List (Xml × Column)) : Except Raised Dict :=
  cells.foldlM (storeCondition L) []

def parseOutcomes (cells : List (Xml × Column)) : Except Raised Dict :=
  cells.foldlM (fun outcomes p =>
    if cellText p.1 = [] ∨ cellText p.1 = ['-'] then return outcomes
    else do return Dict.set p.2.id (← literal L (cellText p.1)) outcomes) []

def rowPriority (name hit_policy : String) (outputs : List Column) (ranking : List String)
    (row_index : Nat) (outcomes : Dict) : Except Raised Int :=
  if hit_policy = "PRIORITY" then
    let value := Dict.get outcomes ((outputs.head?.map (·.id)).getD "")
    match rank ranking (L.str value) with
    | some n => .ok n
    | none =>
      .error (hitPolicyError (quote name ++ ": row " ++ toString (row_index + 1) ++ " outputs " ++
        quote (L.str value) ++ ", which is not in the output's declared value order, so its rank " ++
        "is undefined."))
  else .ok 0

def parseRow (name hit_policy : String) (inputs outputs : List Column) (ranking : List String)
    (row_index : Nat) (rule_el : Xml) : Except Raised Row := do
  let input_cells := childrenOf rule_el "inputEntry"
  let output_cells := childrenOf rule_el "outputEntry"
  if input_cells.length ≠ inputs.length ∨ output_cells.length ≠ outputs.length then
    throw (exprError (quote name ++ ": row " ++ toString (row_index + 1) ++ " has " ++
      toString input_cells.length ++ " input and " ++ toString output_cells.length ++
      " output cells, but the table declares " ++ toString inputs.length ++ " and " ++
      toString outputs.length ++ ". A row read against the wrong column is a wrong decision, " ++
      "so this is refused rather than aligned by position."))
  let conditions ← parseConditions L (input_cells.zip inputs)
  let outcomes ← parseOutcomes L (output_cells.zip outputs)
  let priority ← rowPriority L name hit_policy outputs ranking row_index outcomes
  let description := orText (rule_el.get "label") (String.ofList (textOf rule_el "description"))
  return {
    conditions, outcomes, priority
    description := if description = "" then none else some description }

structure ImportedDecision where
  name : String
  rule_type : String := "decision_table"
  definition_json : Definition
  notes : List String := []
  deriving DecidableEq

def parseTable (decision table : Xml) : Except Raised ImportedDecision := do
  let name := String.ofList (strip
    (orText (decision.get "name") (orText (decision.get "id") "Imported decision")).toList)
  let hit_policy ← hitPolicyOf L name table
  let inputs ← (childrenOf table "input").zipIdx.mapM fun p => inputColumn L name p.2 p.1
  let outputs ← (childrenOf table "output").zipIdx.mapM fun p => outputColumn name decision p.2 p.1
  if outputs = [] then
    throw (exprError (quote name ++ ": a decision table with no output decides nothing."))
  let ranking ← rankingFor L hit_policy (childrenOf table "output")
  let rows ← (childrenOf table "rule").zipIdx.mapM fun p =>
    parseRow L name hit_policy inputs outputs ranking p.2 p.1
  return {
    name
    definition_json := {
      table_columns := inputs ++ outputs
      table_rows := rows
      hit_policy := some hit_policy }
    notes :=
      if rows = [] then ["The table has no rules, so it decides nothing until rows are added."]
      else [] }

/-! ## `parse_dmn` -/

mutual

/-- `root.iter()`, which starts with the root itself -/
def Xml.iter : Xml → List Xml
  | ⟨tag, attrs, text, children⟩ => ⟨tag, attrs, text, children⟩ :: iterAll children

def Xml.iterAll : List Xml → List Xml
  | [] => []
  | el :: els => el.iter ++ iterAll els

end

def MAX_DMN_BYTES : Nat := 10 * 1024 * 1024

def xmlError (message : String) : Raised := .dmnError "VEL-RULE-DMN-XML-400" message

/-- the decisions that hold a table; one without is another DMN feature -/
def tablesOf (root : Xml) : List (Xml × Xml) :=
  (root.iter.filter fun el => localName el.tag = "decision").filterMap fun decision =>
    (childOf decision "decisionTable").map fun table => (decision, table)

/-- `fromstring` is the XML parser; where it fails it gives the name of its exception -/
def parseDmn (fromstring : String → Except String Xml) (xml : String) :
    Except Raised (List ImportedDecision) := do
  if MAX_DMN_BYTES < xml.utf8ByteSize then
    throw (xmlError ("DMN file exceeds " ++ toString (MAX_DMN_BYTES / (1024 * 1024)) ++ " MB."))
  match fromstring xml with
  | .error exc => throw (xmlError ("Not parseable as XML (" ++ exc ++ ")."))
  | .ok root =>
    let results ← (tablesOf root).mapM fun p => parseTable L p.1 p.2
    if results = [] then
      throw (.dmnError "VEL-RULE-DMN-EMPTY-422" ("The file parsed, but holds no <decisionTable>. " ++
        "A DRD of literal expressions or business knowledge models is a different DMN feature; " ++
        "only decision tables are read here."))
    return results

end Dmn
