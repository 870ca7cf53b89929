import Velaris.SafeExpression.Bounds

/-!
# Scripts of safe expressions

`hxfusion/script_guard.py`: a script is a list of assignments, each of an expression that conforms.

* `compileScript`, `runScript`   the check of a script, and its run;
* `expand`   an augmented assignment written out: `x op= e` as `x = x op e`;
* `Agrees`   every augmented assignment that a script comes to does what its expansion does;
* `Grammar`, `Meets`   what such an assignment must be for that, and what its operands must be.

Written out, an assignment goes through the classifier with its operator and is bounded by the
walker; as it stands it applies the operator as it is.
-/

namespace SafeExpression.Script
open Base

variable {F : Type}

/-! ## compiling -/

inductive StmtNode (F : Type) where
  | assign (targets : List (Expr F)) (value : Expr F)
  | augAssign (target : Expr F) (op : Operator) (value : Expr F)
  | other (kind : String)

structure Stmt (F : Type) where
  lineno : Nat
  node : StmtNode F

structure Step (F : Type) where
  name : String
  value : Expr F
  op : Option Operator

inductive Failure where
  | scriptRejected (message : String)
  /-- what evaluating an expression or applying an operator raises -/
  | err (e : Err)
  /-- an operator that `_BINOP_FN` does not have -/
  | keyError

def MAX_STATEMENTS : Nat := 50

def targetName : Expr F → Except String String
  | .name id _ =>
    if id.toList.head? = some '_' then .error ("name '" ++ id ++ "' may not start with '_'")
    else .ok id
  | _ => .error "only plain names may be assigned (no attributes, subscripts or unpacking)"

def stepOf : StmtNode F → Except String (Step F)
  | .assign [target] value => (targetName target).map fun name => ⟨name, value, none⟩
  | .assign _ _ => .error "chained assignment is not allowed"
  | .augAssign target op value => (targetName target).map fun name => ⟨name, value, some op⟩
  | .other kind => .error ("'" ++ kind ++ "' is not allowed — only 'name = expression' lines")

/-- the expression as `ast.unparse` writes it is parsed to the same tree -/
def checkValue (step : Step F) : Except String (Step F) :=
  let (classification, reason) := classifyTree step.value
  if classification = .conforming then .ok step
  else .error (if reason = "" then "expression outside the safe grammar" else reason)

def compileStmt (s : Stmt F) : Except Failure (Step F) :=
  match (stepOf s.node).bind checkValue with
  | .ok step => .ok step
  | .error message => .error (.scriptRejected ("line " ++ toString s.lineno ++ ": " ++ message))

/-- `parsed` is `ast.parse`, with the line and the message of a syntax error -/
def compileScript (parsed : Except (Nat × String) (List (Stmt F))) :
    Except Failure (List (Step F)) :=
  match parsed with
  | .error (lineno, message) =>
    .error (.scriptRejected ("syntax error on line " ++ toString lineno ++ ": " ++ message))
  | .ok body =>
    if MAX_STATEMENTS < body.length then
      .error (.scriptRejected ("too many statements (" ++ toString body.length ++ " > " ++
        toString MAX_STATEMENTS ++ ")"))
    else body.mapM compileStmt

/-! ## running -/

abbrev Names (F : Type) := List (String × Val F)

/-- `names[name] = value` -/
def setName (name : String) (value : Val F) (names : Names F) : Names F :=
  if (names.lookup name).isSome then
    names.map fun item => if item.1 = name then (name, value) else item
  else names ++ [(name, value)]

variable (B : Builtins F)

/-- `_BINOP_FN[type(op)](left, right)` -/
def applyOp (op : Operator) (left right : Val F) : Except Failure (Val F) :=
  if op ∈ BINOP_FN then (binop B op left right).mapError .err else .error .keyError

/-- the value that a step assigns, once its expression is evaluated -/
def assigned (names : Names F) (step : Step F) (result : Val F) : Except Failure (Val F) :=
  match step.op with
  | none => .ok result
  | some op =>
    match names.lookup step.name with
    | none => .error (.scriptRejected ("'" ++ step.name ++ "' is used before it is assigned"))
    | some left => applyOp B op left result

def runStep (names : Names F) (step : Step F) : Except Failure (Names F) :=
  match (evalNode B names step.value).result with
  | .error e => .error (.err e)
  | .ok result => (assigned B names step result).map fun value => setName step.name value names

def runScript (parsed : Except (Nat × String) (List (Stmt F))) (context : Names F) :
    Except Failure (Names F) := do
  let steps ← compileScript parsed
  let names ← steps.foldlM (runStep B) context
  return names.filter fun item => (context.lookup item.1).isNone

def runStmt (names : Names F) (s : Stmt F) : Except Failure (Names F) := do
  runStep B names (← compileStmt s)

/-! ## writing out -/

def expandNode : StmtNode F → StmtNode F
  | .augAssign (.name id ctx) op value =>
    .assign [.name id ctx] (.binOp (.name id "Load") op value)
  | node => node

def expand (s : Stmt F) : Stmt F := { s with node := expandNode s.node }

def Undefined : Failure → Prop
  | .scriptRejected message => ∃ x, message = "'" ++ x ++ "' is used before it is assigned"
  | .err (.expression message) => ∃ x, message = "unknown name '" ++ x ++ "'"
  | _ => False

/-- the same outcome; that a name has no value is said in two ways -/
def Same {α : Type} (o o' : Except Failure α) : Prop :=
  o = o' ∨ ∃ f f', o = .error f ∧ o' = .error f' ∧ Undefined f ∧ Undefined f'

def Comes (body : List (Stmt F)) (context : Names F) (s : Stmt F) (names : Names F) : Prop :=
  ∃ before after, body = before ++ s :: after ∧ before.foldlM (runStmt B) context = .ok names

structure Agrees (body : List (Stmt F)) (context : Names F) : Prop where
  statement : ∀ s names, Comes B body context s names →
    Same (runStmt B names s) (runStmt B names (expand s))
  script : Same (runScript B (.ok body) context) (runScript B (.ok (body.map expand)) context)
  known : runScript B (.ok body) context ≠ .error .keyError

/-- the operator is known, and with it and the name the expression is within the classifier's
limits -/
structure Plain (op : Operator) (value : Expr F) : Prop where
  known : op ∈ BINOP_FN
  nodes : value.levels.flatten.length + 5 ≤ MAX_NODES
  depth : value.levels.length + 1 ≤ MAX_DEPTH

/-- the operands are within the walker's bounds, and so is what comes of them; where the name has no
value, nothing else goes wrong before that is seen -/
structure Operands (names : Names F) (name : String) (op : Operator) (value : Expr F) : Prop where
  bounded : ∀ left right, names.lookup name = some left →
    (evalNode B names value).result = .ok right →
      checkBinopBounds op left right = .ok () ∧ ∀ v, binop B op left right = .ok v → v.Within
  undefined : names.lookup name = none →
    ∀ e, (evalNode B names value).result = .error e → Undefined (.err e)

def Grammar (s : Stmt F) : Prop :=
  match s.node with
  | .augAssign _ op value => Plain op value
  | _ => True

def Meets (names : Names F) (s : Stmt F) : Prop :=
  match s.node with
  | .augAssign (.name id _) op value => Operands B names id op value
  | _ => True

/-! ## classifying -/

def Node.Fine : Node → Prop
  | .attribute => False
  | .name id => isDunder id = false
  | .call strict => strict = true
  | .other kind => kind ∈ STRICT_NODES

theorem not_rejected {kind : String} (h : kind ∈ STRICT_NODES) : kind ∉ REJECTED_NODES := by
  revert h kind
  decide

theorem classifyNodes_conforming_iff {strict : Bool} {nodes : List Node} :
    (classifyNodes strict nodes).1 = .conforming ↔ strict = true ∧ ∀ n ∈ nodes, Node.Fine n := by
  induction nodes generalizing strict with
  | nil =>
    cases strict
    · exact iff_of_false (fun h => by cases h) fun h => by cases h.1
    · exact iff_of_true rfl ⟨rfl, by simp⟩
  | cons n nodes ih =>
    rw [List.forall_mem_cons]
    rcases n with _ | id | ok | kind
    · exact iff_of_false (fun h => by cases h) fun h => h.2.1
    · rw [classifyNodes]
      split
      · rename_i hdunder
        refine iff_of_false (fun h => by cases h) fun h => ?_
        have hfine : isDunder id = false := h.2.1
        rw [hdunder] at hfine
        cases hfine
      · rename_i hdunder
        rw [ih]
        refine and_congr_right fun _ => (and_iff_right ?_).symm
        show isDunder id = false
        simpa using hdunder
    · rw [classifyNodes, ih, Bool.and_eq_true, and_assoc]
      exact Iff.rfl
    · rw [classifyNodes]
      split
      · rename_i hrejected
        refine iff_of_false (fun h => by cases h) fun h => ?_
        exact not_rejected h.2.1 hrejected
      · rw [ih, Bool.and_eq_true, decide_eq_true_eq, and_assoc]
        exact Iff.rfl

theorem mem_beside {n : Node} {xs ys : List (List Node)} :
    n ∈ (beside xs ys).flatten ↔ n ∈ xs.flatten ∨ n ∈ ys.flatten := by
  induction xs generalizing ys with
  | nil => simp [beside]
  | cons x xs ih =>
    cases ys with
    | nil => simp [beside]
    | cons y ys =>
      rw [beside, List.flatten_cons, List.flatten_cons, List.flatten_cons, List.mem_append,
        List.mem_append, List.mem_append, List.mem_append, ih]
      tauto

theorem length_flatten_beside (xs ys : List (List Node)) :
    (beside xs ys).flatten.length = xs.flatten.length + ys.flatten.length := by
  induction xs generalizing ys with
  | nil => simp [beside]
  | cons x xs ih =>
    cases ys with
    | nil => simp [beside]
    | cons y ys =>
      rw [beside, List.flatten_cons, List.flatten_cons, List.flatten_cons, List.length_append,
        List.length_append, List.length_append, List.length_append, ih]
      omega

theorem length_beside (xs ys : List (List Node)) :
    (beside xs ys).length = max xs.length ys.length := by
  induction xs generalizing ys with
  | nil => simp [beside]
  | cons x xs ih =>
    cases ys with
    | nil => simp [beside]
    | cons y ys =>
      rw [beside, List.length_cons, List.length_cons, List.length_cons, ih]
      omega

theorem classifyTree_conforming_iff {tree : Expr F} : (classifyTree tree).1 = .conforming ↔
    tree.levels.flatten.length + 1 ≤ MAX_NODES ∧ tree.levels.length ≤ MAX_DEPTH ∧
      ∀ n ∈ tree.levels.flatten, Node.Fine n := by
  have hnodes : (([.other "Expression"] :: tree.levels).flatten).length =
      tree.levels.flatten.length + 1 := by simp [Nat.add_comm]
  have hdepth : ([Node.other "Expression"] :: tree.levels).length - 1 = tree.levels.length := rfl
  unfold classifyTree
  simp only [hnodes, hdepth]
  split
  · exact iff_of_false (fun h => by cases h) fun h => by omega
  · split
    · exact iff_of_false (fun h => by cases h) fun h => by omega
    · rw [classifyNodes_conforming_iff, List.flatten_cons, List.singleton_append,
        List.forall_mem_cons]
      have hroot : Node.Fine (.other "Expression") :=
        show "Expression" ∈ STRICT_NODES by decide
      constructor
      · intro h
        exact ⟨by omega, by omega, h.2.2⟩
      · intro h
        exact ⟨rfl, hroot, h.2.2⟩

theorem isDunder_false {id : String} (h : id.toList.head? ≠ some '_') : isDunder id = false := by
  unfold isDunder
  rcases hchars : id.toList with _ | ⟨c, cs⟩
  · show (decide (4 < id.length) && false && _) = false
    rw [Bool.and_false, Bool.false_and]
  · rw [hchars] at h
    have hc : ('_' == c) = false := by
      simp only [beq_eq_false_iff_ne]
      rintro rfl
      exact h rfl
    show (decide (4 < id.length) && (['_', '_'].isPrefixOf (c :: cs)) && _) = false
    rw [List.isPrefixOf, hc, Bool.false_and, Bool.and_false, Bool.false_and]

theorem fine_operator_iff {op : Operator} : Node.Fine (.other op.name) ↔ op ∈ BINOP_FN := by
  show op.name ∈ STRICT_NODES ↔ op ∈ BINOP_FN
  cases op <;> decide

/-- an expression that conforms, applied to a name, conforms where the operator is known and there
is room -/
theorem conforming_binOp_iff {id : String} {op : Operator} {value : Expr F}
    (hid : id.toList.head? ≠ some '_') (hvalue : (classifyTree value).1 = .conforming) :
    (classifyTree (.binOp (.name id "Load") op value)).1 = .conforming ↔ Plain op value := by
  rw [classifyTree_conforming_iff] at hvalue ⊢
  have hlevels : (Expr.binOp (.name id "Load") op value).levels =
      [.other "BinOp"] :: beside [[.name id, .other op.name], [.other "Load"]] value.levels := by
    rw [Expr.levels, Expr.levels]
    rfl
  have hnodes : (Expr.binOp (.name id "Load") op value).levels.flatten.length =
      value.levels.flatten.length + 4 := by
    rw [hlevels, List.flatten_cons, List.length_append, length_flatten_beside]
    simp
    omega
  have hdepth : (Expr.binOp (.name id "Load") op value).levels.length =
      max 2 value.levels.length + 1 := by
    rw [hlevels, List.length_cons, length_beside]
    rfl
  have hfine : (∀ n ∈ (Expr.binOp (.name id "Load") op value).levels.flatten, Node.Fine n) ↔
      op ∈ BINOP_FN := by
    rw [hlevels, List.flatten_cons]
    simp only [List.mem_append, mem_beside, or_imp, forall_and]
    have hroot : Node.Fine (.other "BinOp") := show "BinOp" ∈ STRICT_NODES by decide
    have hload : Node.Fine (.other "Load") := show "Load" ∈ STRICT_NODES by decide
    have hname : Node.Fine (.name id) := isDunder_false hid
    constructor
    · intro h
      exact fine_operator_iff.mp (h.2.1 (.other op.name) (by simp))
    · intro hop
      have hop' := fine_operator_iff.mpr hop
      refine ⟨by simpa using hroot, ?_, hvalue.2.2⟩
      intro n hn
      simp only [List.flatten_cons, List.flatten_nil, List.mem_append, List.mem_cons,
        List.not_mem_nil, or_false] at hn
      rcases hn with (rfl | rfl) | rfl
      · exact hname
      · exact hop'
      · exact hload
  rw [hnodes, hdepth, hfine]
  constructor
  · intro h
    exact ⟨h.2.2, h.1, by omega⟩
  · intro h
    have htwo : 2 + 1 ≤ MAX_DEPTH := by decide
    have hroom := h.depth
    exact ⟨h.nodes, by omega, h.known⟩

/-! ## one statement -/

variable {B} {names context : Names F} {s : Stmt F}

theorem Same.refl {α : Type} (o : Except Failure α) : Same o o := Or.inl rfl

theorem same_ok_iff {α : Type} {a : α} {o' : Except Failure α} : Same (.ok a) o' ↔ o' = .ok a := by
  constructor
  · intro h
    rcases h with h | ⟨f, f', h, -⟩
    · exact h.symm
    · cases h
  · intro h
    exact Or.inl h.symm

/-- what comes after two outcomes that are the same is the same -/
theorem Same.bind {α β : Type} {o o' : Except Failure α} {g g' : α → Except Failure β}
    (h : Same o o') (hg : ∀ a, o = .ok a → Same (g a) (g' a)) : Same (o >>= g) (o' >>= g') := by
  rcases h with rfl | ⟨f, f', rfl, rfl, hf, hf'⟩
  · cases o with
    | ok a => exact hg a rfl
    | error f => exact Or.inl rfl
  · exact Or.inr ⟨f, f', rfl, rfl, hf, hf'⟩

theorem undefined_name (x : String) :
    Undefined (.err (.expression ("unknown name '" ++ x ++ "'"))) := ⟨x, rfl⟩

theorem undefined_used (x : String) :
    Undefined (.scriptRejected ("'" ++ x ++ "' is used before it is assigned")) := ⟨x, rfl⟩

theorem rejected_ne {lineno : Nat} {message x : String} :
    "line " ++ toString lineno ++ ": " ++ message ≠
      "'" ++ x ++ "' is used before it is assigned" := by
  intro h
  have hhead := congrArg (fun s : String => s.toList.head?) h
  simp [String.toList_append] at hhead

theorem checkValue_ok_iff {step step' : Step F} :
    checkValue step = .ok step' ↔ (classifyTree step.value).1 = .conforming ∧ step' = step := by
  unfold checkValue
  rcases classifyTree step.value with ⟨classification, reason⟩
  show (if classification = .conforming then _ else _) = _ ↔ classification = .conforming ∧ _
  split
  · rename_i h
    constructor
    · intro hok
      cases hok
      exact ⟨h, rfl⟩
    · rintro ⟨-, rfl⟩
      rfl
  · rename_i h
    exact iff_of_false (fun hok => by cases hok) fun hok => h hok.1

theorem compileStmt_ok_iff {step : Step F} : compileStmt s = .ok step ↔
    stepOf s.node = .ok step ∧ (classifyTree step.value).1 = .conforming := by
  have hbind : (stepOf s.node).bind checkValue = .ok step ↔
      stepOf s.node = .ok step ∧ (classifyTree step.value).1 = .conforming := by
    cases hstep : stepOf s.node with
    | error message => exact iff_of_false (fun h => by cases h) fun h => by cases h.1
    | ok step₀ =>
      show checkValue step₀ = .ok step ↔ _
      rw [checkValue_ok_iff]
      constructor
      · rintro ⟨h, rfl⟩
        exact ⟨rfl, h⟩
      · rintro ⟨h, hconforming⟩
        cases h
        exact ⟨hconforming, rfl⟩
  rw [← hbind]
  unfold compileStmt
  split
  · rename_i step₀ h
    rw [h]
    constructor
    · intro hok
      cases hok
      rfl
    · intro hok
      cases hok
      rfl
  · rename_i message h
    rw [h]
    exact iff_of_false (fun h => by cases h) fun h => by cases h

theorem compileStmt_error {f : Failure} (h : compileStmt s = .error f) :
    ∃ message, f = .scriptRejected ("line " ++ toString s.lineno ++ ": " ++ message) := by
  unfold compileStmt at h
  split at h
  · cases h
  · cases h
    exact ⟨_, rfl⟩

theorem targetName_name {id ctx name : String} (h : targetName (F := F) (.name id ctx) = .ok name) :
    name = id ∧ id.toList.head? ≠ some '_' := by
  by_cases hhead : id.toList.head? = some '_'
  · rw [targetName, if_pos hhead] at h
    cases h
  · rw [targetName, if_neg hhead] at h
    cases h
    exact ⟨rfl, hhead⟩

/-! ## what operators raise -/

/-- it fails with an exception of its own, and refuses nothing -/
def Raises {α : Type} (x : Except Err α) : Prop := ∀ e, x = .error e → e = .raised

structure Foreign (B : Builtins F) : Prop where
  arith : ∀ op m n, Raises (B.arith op m n)
  convert : ∀ c flags precision v, Raises (B.convert c flags precision v)
  convertBytes : ∀ c flags precision v, Raises (B.convertBytes c flags precision v)

theorem Raises.ok {α : Type} (a : α) : Raises (.ok a) := fun e h => by cases h

theorem Raises.raised {α : Type} : Raises (.error .raised : Except Err α) := fun e h => by
  cases h
  rfl

theorem Raises.bind {α β : Type} {x : Except Err α} {f : α → Except Err β} (hx : Raises x)
    (hf : ∀ a, Raises (f a)) : Raises (x >>= f) := by
  intro e h
  cases x with
  | ok a => exact hf a e h
  | error e' =>
    cases h
    exact hx e rfl

theorem Raises.map {α β : Type} {x : Except Err α} (hx : Raises x) (f : α → β) :
    Raises (x.map f) := by
  intro e h
  cases x with
  | ok a => cases h
  | error e' =>
    cases h
    exact hx e rfl

theorem scan_raises : ∀ (mode : Mode) (cs : List Char), Raises (scan mode cs)
  | .text, [] => .ok []
  | .key _ _, [] => .raised
  | .spec _ _, [] => .raised
  | .text, _ :: cs => (scan_raises _ cs).map _
  | .key _ _, _ :: cs => (scan_raises _ cs).map _
  | .spec _ _, _ :: cs => (scan_raises _ cs).map _

theorem take_raises (limit : Nat) (args : List (Val F)) (amount : Option Amount) :
    Raises (Amount.take limit args amount) := by
  unfold Amount.take
  split
  · exact .ok _
  · split
    · exact .ok _
    · exact .raised
  · split
    · exact .raised
    · split
      · split
        · exact .ok _
        · exact .raised
      · exact .raised

theorem keyed_raises (mapping : Option (Val F)) (args : List (Val F)) (key : Option String) :
    Raises (keyed mapping args key) := by
  unfold keyed
  split
  · exact .ok _
  · split
    · split
      · exact .ok _
      · exact .raised
    · exact .raised

section
variable {convert : Char → List Char → Option Nat → Val F → Except Err (List Char × List Char)}

theorem format_raises (hconvert : ∀ c flags precision v, Raises (convert c flags precision v))
    (mapping : Option (Val F)) (args : List (Val F)) (d : Directive) :
    Raises (d.format convert mapping args) := by
  unfold Directive.format
  refine (keyed_raises mapping args d.key).bind fun args => ?_
  refine (take_raises MAX_WIDTH args d.width).bind fun width => ?_
  refine (take_raises MAX_PRECISION width.2 d.precision).bind fun precision => ?_
  dsimp only
  split
  · exact .ok _
  · split
    · exact .raised
    · exact (hconvert _ _ _ _).bind fun _ => .ok _

theorem render_raises (hconvert : ∀ c flags precision v, Raises (convert c flags precision v))
    (mapping : Option (Val F)) (args : List (Val F)) (pieces : List Piece) :
    Raises (render convert mapping args pieces) := by
  induction pieces generalizing args with
  | nil =>
    rw [render]
    split
    · exact .ok _
    · exact .raised
  | cons piece pieces ih =>
    cases piece with
    | literal c => exact (ih args).map _
    | directive d =>
      rw [render]
      exact (format_raises hconvert mapping args d).bind fun r => (ih r.2).map _

theorem formatted_raises (hconvert : ∀ c flags precision v, Raises (convert c flags precision v))
    (mapping : Option (Val F)) (format : List Char) (args : Val F) :
    Raises (formatted convert mapping format args) := by
  unfold formatted
  refine (scan_raises .text format).bind fun pieces => ?_
  split
  · exact render_raises hconvert mapping _ pieces
  · exact render_raises hconvert mapping _ pieces

end

theorem intop_raises (hB : Foreign B) (op : Operator) (m n : Int) : Raises (intop B op m n) := by
  unfold intop
  split
  · exact .ok _
  · exact .ok _
  · exact .ok _
  · split
    · exact .raised
    · exact (hB.arith _ _ _).map _
  · split
    · exact .raised
    · exact .ok _
  · split
    · exact .raised
    · exact .ok _
  · split
    · exact .ok _
    · split
      · exact .raised
      · exact (hB.arith _ _ _).map _
  · exact .raised

theorem seqop_raises (hB : Foreign B) (op : Operator) (l r : Val F) : Raises (seqop B op l r) := by
  unfold seqop
  split
  · exact .ok _
  · exact .ok _
  · exact .ok _
  · exact .ok _
  · split
    · exact .ok _
    · exact .ok _
    · exact .raised
  · exact (formatted_raises hB.convert _ _ _).map _
  · exact (formatted_raises hB.convertBytes _ _ _).map _
  · exact .raised

theorem binop_raises (hB : Foreign B) (op : Operator) (l r : Val F) : Raises (binop B op l r) := by
  unfold binop
  split
  · exact intop_raises hB op _ _
  · exact (hB.arith _ _ _).map _
  · exact seqop_raises hB op l r

/-! ## what the walker refuses -/

theorem undefined_head {e : Err} (h : Undefined (.err e)) :
    ∃ message, e = .expression message ∧ message.toList.head? = some 'u' := by
  cases e with
  | raised => exact h.elim
  | expression message =>
    obtain ⟨x, rfl⟩ := h
    exact ⟨_, rfl, by simp [String.toList_append]⟩

theorem check_refuses {op : Operator} {l r : Val F} {e : Err}
    (h : checkBinopBounds op l r = .error e) : e ≠ .raised ∧ ¬ Undefined (.err e) := by
  have hmessage : ∃ message : String, e = .expression message ∧
      message.toList.head? ≠ some 'u' := by
    unfold checkBinopBounds at h
    split at h
    · split at h
      · cases h
        exact ⟨_, rfl, by simp [String.toList_append]⟩
      · split at h
        · cases h
          exact ⟨_, rfl, by decide⟩
        · cases h
    · split at h
      · cases h
        exact ⟨_, rfl, by decide⟩
      · split at h
        · cases h
          exact ⟨_, rfl, by decide⟩
        · cases h
    · cases h
  obtain ⟨message, rfl, hhead⟩ := hmessage
  refine ⟨fun he => (by cases he), fun hundefined => ?_⟩
  obtain ⟨message', he, hhead'⟩ := undefined_head hundefined
  cases he
  exact hhead hhead'

theorem check_ok_iff {v : Val F} : checkValueBounds v = .ok v ↔ v.Within := by
  constructor
  · exact within_of_check
  · intro h
    rw [checkValueBounds, if_neg (not_lt.mpr h.1), if_neg (not_lt.mpr h.2)]

theorem checked_eq {v w : Val F} (h : checkValueBounds v = .ok w) : w = v := by
  unfold checkValueBounds at h
  split at h
  · cases h
  · split at h
    · cases h
    · exact (Except.ok.inj h).symm

theorem result_bind {α β : Type} (m : Walk F α) (f : α → Walk F β) :
    (m >>= f).result = m.result >>= fun a => (f a).result := by
  cases h : m.result with
  | ok a =>
    rw [Logged.bind_of_ok h]
    rfl
  | error e =>
    rw [Logged.bind_of_error h]
    rfl

theorem eval_binOp {id ctx : String} {op : Operator} {value : Expr F} (hop : op ∈ BINOP_FN) :
    (evalNode B names (.binOp (.name id ctx) op value)).result =
      (evalNode B names (.name id ctx)).result >>= fun left =>
        (evalNode B names value).result >>= fun right =>
          checkBinopBounds op left right >>= fun _ =>
            binop B op left right >>= checkValueBounds := by
  conv_lhs => rw [evalNode, if_pos hop, result_bind]
  refine congrArg _ (funext fun left => ?_)
  rw [result_bind]
  refine congrArg _ (funext fun right => ?_)
  rw [result_bind]
  refine congrArg _ (funext fun _ => ?_)
  rw [result_bind, result_bind]
  rfl

theorem eval_name_some {id ctx : String} {left : Val F} (h : names.lookup id = some left) :
    (evalNode B names (.name id ctx)).result = .ok left := by
  rw [evalNode, h]
  rfl

theorem eval_name_none {id ctx : String} (h : names.lookup id = none) :
    (evalNode B names (.name id ctx)).result =
      .error (.expression ("unknown name '" ++ id ++ "'")) := by
  rw [evalNode, h]
  rfl

theorem run_plain (id : String) (value : Expr F) :
    runStep B names ⟨id, value, none⟩ =
      ((evalNode B names value).result.mapError .err).map fun v => setName id v names := by
  unfold runStep
  cases (evalNode B names value).result <;> rfl

theorem run_augmented (id : String) (op : Operator) (value : Expr F) {left right : Val F}
    (hop : op ∈ BINOP_FN) (hleft : names.lookup id = some left)
    (hright : (evalNode B names value).result = .ok right) :
    runStep B names ⟨id, value, some op⟩ =
      ((binop B op left right).mapError .err).map fun v => setName id v names := by
  unfold runStep
  simp only [hright, assigned, hleft, applyOp, if_pos hop]

theorem same_operands_iff (hB : Foreign B) (op : Operator) (left right : Val F)
    (set : Val F → Names F) :
    Same (((binop B op left right).mapError .err).map set)
        (((checkBinopBounds op left right >>= fun _ => binop B op left right >>= checkValueBounds
          ).mapError .err).map set) ↔
      checkBinopBounds op left right = .ok () ∧ ∀ v, binop B op left right = .ok v → v.Within := by
  cases hcheck : checkBinopBounds op left right with
  | error e =>
    obtain ⟨hraised, hundefined⟩ := check_refuses hcheck
    refine iff_of_false (fun h => ?_) fun h => by cases h.1
    cases hbin : binop B op left right with
    | ok v =>
      rw [hbin] at h
      cases same_ok_iff.mp h
    | error e' =>
      rw [hbin] at h
      obtain rfl := binop_raises hB op left right e' hbin
      rcases h with h | ⟨f, f', -, hf', -, hundefined'⟩
      · cases h
        exact hraised rfl
      · cases hf'
        exact hundefined hundefined'
  | ok u =>
    cases hbin : binop B op left right with
    | error e => exact iff_of_true (Or.inl rfl) ⟨rfl, fun v hv => by cases hv⟩
    | ok v =>
      show Same (.ok (set v)) (((checkValueBounds v).mapError .err).map set) ↔ _
      rw [same_ok_iff]
      constructor
      · intro h
        refine ⟨rfl, fun w hw => ?_⟩
        cases hw
        cases hv : checkValueBounds v with
        | ok w =>
          obtain rfl := checked_eq hv
          exact check_ok_iff.mp hv
        | error e =>
          rw [hv] at h
          cases h
      · intro h
        rw [check_ok_iff.mpr (h.2 v rfl)]
        rfl

theorem same_step_iff (hB : Foreign B) {id : String} {op : Operator} {value : Expr F}
    (hop : op ∈ BINOP_FN) :
    Same (runStep B names ⟨id, value, some op⟩)
        (runStep B names ⟨id, .binOp (.name id "Load") op value, none⟩) ↔
      Operands B names id op value := by
  rw [run_plain, eval_binOp hop]
  cases hleft : names.lookup id with
  | none =>
    rw [eval_name_none hleft]
    have hnot : ∀ left right, names.lookup id = some left →
        (evalNode B names value).result = .ok right →
          checkBinopBounds op left right = .ok () ∧
            ∀ v, binop B op left right = .ok v → v.Within := by
      intro left right h
      rw [hleft] at h
      cases h
    unfold runStep
    cases hright : (evalNode B names value).result with
    | ok right =>
      refine iff_of_true (Or.inr ⟨_, _, ?_, rfl, undefined_used id, undefined_name id⟩) ⟨hnot, ?_⟩
      · simp only [assigned, hleft]
        rfl
      · intro _ e he
        rw [hright] at he
        cases he
    | error e =>
      constructor
      · intro h
        refine ⟨hnot, fun _ e' he => ?_⟩
        rw [hright] at he
        cases he
        rcases h with h | ⟨f, f', hf, -, hundefined, -⟩
        · cases h
          exact undefined_name id
        · cases hf
          exact hundefined
      · intro h
        exact Or.inr ⟨_, _, rfl, rfl, h.undefined hleft e hright, undefined_name id⟩
  | some left =>
    rw [eval_name_some hleft]
    have hnot : names.lookup id = none →
        ∀ e, (evalNode B names value).result = .error e → Undefined (.err e) := by
      intro h
      rw [hleft] at h
      cases h
    cases hright : (evalNode B names value).result with
    | error e =>
      refine iff_of_true (Or.inl ?_) ⟨fun l r _ hr => ?_, hnot⟩
      · unfold runStep
        rw [hright]
        rfl
      · rw [hright] at hr
        cases hr
    | ok right =>
      rw [run_augmented id op value hop hleft hright]
      refine (same_operands_iff hB op left right _).trans ?_
      constructor
      · intro h
        refine ⟨fun l r hl hr => ?_, hnot⟩
        obtain rfl := Option.some.inj (hleft.symm.trans hl)
        obtain rfl := Except.ok.inj (hright.symm.trans hr)
        exact h
      · intro h
        exact h.bounded left right hleft hright

theorem accepted_cases {step : Step F} (h : compileStmt s = .ok step) :
    (∃ id ctx op value, s.node = .augAssign (.name id ctx) op value ∧ step = ⟨id, value, some op⟩ ∧
        id.toList.head? ≠ some '_' ∧ (classifyTree value).1 = .conforming) ∨
      expand s = s ∧ step.op = none ∧ Grammar s ∧ ∀ B names, Meets B names s := by
  obtain ⟨hstep, hconforming⟩ := compileStmt_ok_iff.mp h
  obtain ⟨lineno, node⟩ := s
  cases node with
  | other kind => cases hstep
  | assign targets value =>
    refine Or.inr ⟨rfl, ?_, trivial, fun _ _ => trivial⟩
    cases targets with
    | nil => cases hstep
    | cons target rest =>
      cases rest with
      | cons _ _ => cases hstep
      | nil =>
        obtain ⟨name, -, rfl⟩ := exists_of_map_ok hstep
        rfl
  | augAssign target op value =>
    obtain ⟨name, hname, rfl⟩ := exists_of_map_ok hstep
    cases target with
    | name id ctx =>
      obtain ⟨rfl, hhead⟩ := targetName_name hname
      exact Or.inl ⟨name, ctx, op, value, rfl, rfl, hhead, hconforming⟩
    | constant _ | binOp _ _ _ | unaryOp _ _ | boolOp _ _ | compare _ _ _ | ifExp _ _ _
    | call _ _ _ | attr _ _ | other _ _ => cases hname

theorem runStmt_eq {step : Step F} (h : compileStmt s = .ok step) :
    runStmt B names s = runStep B names step := by
  unfold runStmt
  rw [h]
  rfl

/-- what goes wrong in a run, once the script is accepted -/
def Running : Failure → Prop
  | .scriptRejected message => ∃ x, message = "'" ++ x ++ "' is used before it is assigned"
  | _ => True

theorem assigned_error {step : Step F} {result : Val F} {f : Failure}
    (h : assigned B names step result = .error f) :
    Running f ∧ (f = .keyError → ∃ op, step.op = some op ∧ op ∉ BINOP_FN) := by
  unfold assigned at h
  split at h
  · cases h
  · rename_i op hop
    split at h
    · cases h
      exact ⟨⟨_, rfl⟩, fun hkey => by cases hkey⟩
    · rename_i left hleft
      unfold applyOp at h
      split at h
      · cases hbin : binop B op left result with
        | ok v =>
          rw [hbin] at h
          cases h
        | error e =>
          rw [hbin] at h
          cases h
          exact ⟨trivial, fun hkey => by cases hkey⟩
      · rename_i hunknown
        cases h
        exact ⟨trivial, fun _ => ⟨op, hop, hunknown⟩⟩

theorem runStep_error {step : Step F} {f : Failure} (h : runStep B names step = .error f) :
    Running f ∧ (f = .keyError → ∃ op, step.op = some op ∧ op ∉ BINOP_FN) := by
  unfold runStep at h
  split at h
  · cases h
    exact ⟨trivial, fun hkey => by cases hkey⟩
  · rename_i result hresult
    cases hassigned : assigned B names step result with
    | ok v =>
      rw [hassigned] at h
      cases h
    | error f' =>
      rw [hassigned] at h
      cases h
      exact assigned_error hassigned

theorem not_same_line {α : Type} {o : Except Failure α} (ho : ∀ f, o = .error f → Running f)
    (lineno : Nat) (message : String) :
    ¬ Same o (.error (.scriptRejected ("line " ++ toString lineno ++ ": " ++ message))) := by
  intro h
  rcases h with h | ⟨f, f', -, hf', -, hundefined⟩
  · obtain ⟨x, hx⟩ := ho _ h
    exact rejected_ne hx
  · cases hf'
    obtain ⟨x, hx⟩ := hundefined
    exact rejected_ne hx

theorem compile_expand_iff {id ctx : String} {op : Operator} {value : Expr F}
    (hnode : s.node = .augAssign (.name id ctx) op value) (hhead : id.toList.head? ≠ some '_')
    (hconforming : (classifyTree value).1 = .conforming) {step : Step F} :
    compileStmt (expand s) = .ok step ↔
      step = ⟨id, .binOp (.name id "Load") op value, none⟩ ∧ Plain op value := by
  have hstep : stepOf (expand s).node = .ok ⟨id, .binOp (.name id "Load") op value, none⟩ := by
    show stepOf (expandNode s.node) = _
    rw [hnode]
    show (targetName (.name id ctx)).map _ = _
    rw [targetName, if_neg hhead]
    rfl
  rw [compileStmt_ok_iff, hstep, ← conforming_binOp_iff hhead hconforming]
  constructor
  · rintro ⟨h, hc⟩
    cases h
    exact ⟨rfl, hc⟩
  · rintro ⟨rfl, hc⟩
    exact ⟨rfl, hc⟩

theorem same_stmt_iff (hB : Foreign B) {step : Step F} (h : compileStmt s = .ok step) :
    Same (runStmt B names s) (runStmt B names (expand s)) ↔ Grammar s ∧ Meets B names s := by
  rcases accepted_cases h with ⟨id, ctx, op, value, hnode, rfl, hhead, hconforming⟩ |
    ⟨hexpand, -, hgrammar, hmeets⟩
  · have hgrammar : Grammar s ↔ Plain op value := by
      unfold Grammar
      rw [hnode]
    have hmeets : Meets B names s ↔ Operands B names id op value := by
      unfold Meets
      rw [hnode]
    rw [hgrammar, hmeets, runStmt_eq h]
    cases hc : compileStmt (expand s) with
    | ok step =>
      obtain ⟨rfl, hplain⟩ := (compile_expand_iff hnode hhead hconforming).mp hc
      rw [runStmt_eq hc, same_step_iff hB hplain.known]
      exact (and_iff_right hplain).symm
    | error f =>
      have hrun : runStmt B names (expand s) = .error f := by
        unfold runStmt
        rw [hc]
        rfl
      rw [hrun]
      obtain ⟨message, rfl⟩ := compileStmt_error hc
      refine iff_of_false (not_same_line (fun f hf => (runStep_error hf).1) _ _) fun hx => ?_
      rw [(compile_expand_iff hnode hhead hconforming).mpr ⟨rfl, hx.1⟩] at hc
      cases hc
  · rw [hexpand]
    exact iff_of_true (Same.refl _) ⟨hgrammar, hmeets B names⟩

/-! ## scripts -/

variable {body : List (Stmt F)} {steps : List (Step F)}

theorem run_eq (h : body.mapM compileStmt = .ok steps) :
    steps.foldlM (runStep B) names = body.foldlM (runStmt B) names := by
  induction body generalizing steps names with
  | nil =>
    cases h
    rfl
  | cons s body ih =>
    rw [List.mapM_cons] at h
    obtain ⟨step, hstep, h⟩ := exists_of_bind_ok h
    obtain ⟨rest, hrest, h⟩ := exists_of_bind_ok h
    cases h
    rw [List.foldlM_cons, List.foldlM_cons, runStmt_eq hstep]
    exact congrArg _ (funext fun names' => ih hrest)

theorem compileScript_ok_iff : compileScript (.ok body) = .ok steps ↔
    body.length ≤ MAX_STATEMENTS ∧ body.mapM compileStmt = .ok steps := by
  show (if MAX_STATEMENTS < body.length then _ else body.mapM compileStmt) = _ ↔ _
  split
  · exact iff_of_false (fun h => by cases h) fun h => by omega
  · rename_i hlength
    exact (and_iff_right (not_lt.mp hlength)).symm

theorem runScript_eq (h : compileScript (.ok body) = .ok steps) :
    runScript B (.ok body) context = (body.foldlM (runStmt B) context).map fun names =>
      names.filter fun item => (context.lookup item.1).isNone := by
  unfold runScript
  rw [h, ← run_eq (compileScript_ok_iff.mp h).2]
  show (steps.foldlM (runStep B) context >>= _) = _
  cases steps.foldlM (runStep B) context <;> rfl

theorem accepted_of_mem (h : compileScript (.ok body) = .ok steps) (hs : s ∈ body) :
    ∃ step, compileStmt s = .ok step := by
  have hall := forall₂_of_mapM_ok (compileScript_ok_iff.mp h).2
  obtain ⟨step, -, hstep⟩ := mem_right_of_forall₂ hall hs
  exact ⟨step, hstep⟩

theorem exists_of_error {f : Failure} (h : body.foldlM (runStmt B) names = .error f) :
    ∃ s names', s ∈ body ∧ Comes B body names s names' ∧ runStmt B names' s = .error f := by
  induction body generalizing names with
  | nil => cases h
  | cons s body ih =>
    rw [List.foldlM_cons] at h
    cases hs : runStmt B names s with
    | error f' =>
      rw [hs] at h
      cases h
      exact ⟨s, names, List.mem_cons_self, ⟨[], body, rfl, rfl⟩, hs⟩
    | ok names₁ =>
      rw [hs] at h
      obtain ⟨s', names', hmem, ⟨before, after, rfl, hbefore⟩, herror⟩ := ih h
      refine ⟨s', names', List.mem_cons_of_mem _ hmem, ⟨s :: before, after, rfl, ?_⟩, herror⟩
      rw [List.foldlM_cons, hs]
      exact hbefore

theorem same_run (hB : Foreign B) (haccepted : ∀ s ∈ body, ∃ step, compileStmt s = .ok step)
    (hgrammar : ∀ s ∈ body, Grammar s)
    (hmeets : ∀ s names', Comes B body names s names' → Meets B names' s) :
    Same (body.foldlM (runStmt B) names) ((body.map expand).foldlM (runStmt B) names) := by
  induction body generalizing names with
  | nil => exact Same.refl _
  | cons s body ih =>
    rw [List.map_cons, List.foldlM_cons, List.foldlM_cons]
    obtain ⟨step, hstep⟩ := haccepted s List.mem_cons_self
    refine Same.bind ((same_stmt_iff hB hstep).mpr
      ⟨hgrammar s List.mem_cons_self, hmeets s names ⟨[], body, rfl, rfl⟩⟩) fun names₁ hnames₁ => ?_
    refine ih (fun s hs => haccepted s (List.mem_cons_of_mem _ hs))
      (fun s hs => hgrammar s (List.mem_cons_of_mem _ hs)) fun s' names' hcomes => ?_
    obtain ⟨before, after, rfl, hbefore⟩ := hcomes
    refine hmeets s' names' ⟨s :: before, after, rfl, ?_⟩
    rw [List.foldlM_cons, hnames₁]
    exact hbefore

theorem Same.map {α β : Type} {o o' : Except Failure α} (h : Same o o') (g : α → β) :
    Same (o.map g) (o'.map g) := by
  rcases h with rfl | ⟨f, f', rfl, rfl, hf, hf'⟩
  · exact Same.refl _
  · exact Or.inr ⟨f, f', rfl, rfl, hf, hf'⟩

theorem compile_expanded (hbody : compileScript (.ok body) = .ok steps)
    (hgrammar : ∀ s ∈ body, Grammar s) :
    ∃ steps', compileScript (.ok (body.map expand)) = .ok steps' := by
  have hall : ∀ s ∈ body.map expand, ∃ step, compileStmt s = .ok step := by
    intro s' hs'
    obtain ⟨s, hs, rfl⟩ := List.mem_map.mp hs'
    obtain ⟨step, hstep⟩ := accepted_of_mem hbody hs
    rcases accepted_cases hstep with ⟨id, ctx, op, value, hnode, rfl, hhead, hconforming⟩ |
      ⟨hexpand, -⟩
    · have hplain : Plain op value := by
        have hs := hgrammar s hs
        unfold Grammar at hs
        rw [hnode] at hs
        exact hs
      exact ⟨_, (compile_expand_iff hnode hhead hconforming).mpr ⟨rfl, hplain⟩⟩
    · exact ⟨step, hexpand.symm ▸ hstep⟩
  obtain ⟨steps', hsteps'⟩ := exists_mapM_ok hall
  refine ⟨steps', compileScript_ok_iff.mpr ⟨?_, hsteps'⟩⟩
  rw [List.length_map]
  exact (compileScript_ok_iff.mp hbody).1

theorem grammar_of_expanded {s : Stmt F} {step step' : Step F} (hstep : compileStmt s = .ok step)
    (hstep' : compileStmt (expand s) = .ok step') : Grammar s := by
  rcases accepted_cases hstep with ⟨id, ctx, op, value, hnode, rfl, hhead, hconforming⟩ |
    ⟨-, -, hgrammar, -⟩
  · unfold Grammar
    rw [hnode]
    exact ((compile_expand_iff hnode hhead hconforming).mp hstep').2
  · exact hgrammar

theorem grammar_of_same (hbody : compileScript (.ok body) = .ok steps)
    (h : Same (runScript B (.ok body) context) (runScript B (.ok (body.map expand)) context)) :
    ∀ s ∈ body, Grammar s := by
  intro s hs
  obtain ⟨step, hstep⟩ := accepted_of_mem hbody hs
  cases hc : (body.map expand).mapM compileStmt with
  | ok steps' =>
    have hall := forall₂_of_mapM_ok hc
    obtain ⟨step', -, hstep'⟩ := mem_right_of_forall₂ hall (List.mem_map_of_mem hs)
    exact grammar_of_expanded hstep hstep'
  | error f =>
    obtain ⟨before, s', after, -, -, hs'⟩ := mapM_error_iff.mp hc
    have hlength : ¬ MAX_STATEMENTS < (body.map expand).length := by
      rw [List.length_map]
      exact not_lt.mpr (compileScript_ok_iff.mp hbody).1
    have hexpanded : runScript B (.ok (body.map expand)) context = .error f := by
      unfold runScript compileScript
      simp only [if_neg hlength, hc]
      rfl
    obtain ⟨message, rfl⟩ := compileStmt_error hs'
    rw [hexpanded, runScript_eq hbody] at h
    refine absurd h (not_same_line (fun f hf => ?_) _ _)
    cases hrun : body.foldlM (runStmt B) context with
    | ok names =>
      rw [hrun] at hf
      cases hf
    | error f' =>
      rw [hrun] at hf
      cases hf
      obtain ⟨s₁, names₁, hmem, -, herror⟩ := exists_of_error hrun
      obtain ⟨step₁, hstep₁⟩ := accepted_of_mem hbody hmem
      rw [runStmt_eq hstep₁] at herror
      exact (runStep_error herror).1

theorem known_of_grammar (hbody : compileScript (.ok body) = .ok steps)
    (hgrammar : ∀ s ∈ body, Grammar s) : runScript B (.ok body) context ≠ .error .keyError := by
  intro h
  rw [runScript_eq hbody] at h
  cases hrun : body.foldlM (runStmt B) context with
  | ok names =>
    rw [hrun] at h
    cases h
  | error f =>
    rw [hrun] at h
    cases h
    obtain ⟨s, names, hmem, -, herror⟩ := exists_of_error hrun
    obtain ⟨step, hstep⟩ := accepted_of_mem hbody hmem
    rw [runStmt_eq hstep] at herror
    obtain ⟨op, hop, hunknown⟩ := (runStep_error herror).2 rfl
    rcases accepted_cases hstep with ⟨id, ctx, op', value, hnode, rfl, -⟩ | ⟨-, hnone, -⟩
    · have hs := hgrammar s hmem
      unfold Grammar at hs
      rw [hnode] at hs
      cases hop
      exact hunknown hs.known
    · rw [hnone] at hop
      cases hop

/-- an accepted script does what its expansion does, wherever it comes to an augmented assignment
and as a whole, exactly where every operator is known and leaves room, and where the operands and
the result of every one that is reached are within the walker's bounds -/
theorem augmented_agrees_iff (B : Builtins F) (hB : Foreign B) (body : List (Stmt F))
    (context : Names F) (hbody : ∃ steps, compileScript (.ok body) = .ok steps) :
    Agrees B body context ↔ (∀ s ∈ body, Grammar s) ∧
      ∀ s names, Comes B body context s names → Meets B names s := by
  obtain ⟨steps, hbody⟩ := hbody
  constructor
  · intro h
    refine ⟨grammar_of_same hbody h.script, fun s names hcomes => ?_⟩
    obtain ⟨before, after, hsplit, -⟩ := id hcomes
    have hmem : s ∈ body := by rw [hsplit]; simp
    obtain ⟨step, hstep⟩ := accepted_of_mem hbody hmem
    exact ((same_stmt_iff hB hstep).mp (h.statement s names hcomes)).2
  · rintro ⟨hgrammar, hmeets⟩
    refine ⟨fun s names hcomes => ?_, ?_, known_of_grammar hbody hgrammar⟩
    · obtain ⟨before, after, hsplit, -⟩ := id hcomes
      have hmem : s ∈ body := by rw [hsplit]; simp
      obtain ⟨step, hstep⟩ := accepted_of_mem hbody hmem
      exact (same_stmt_iff hB hstep).mpr ⟨hgrammar s hmem, hmeets s names hcomes⟩
    · obtain ⟨steps', hbody'⟩ := compile_expanded hbody hgrammar
      rw [runScript_eq hbody, runScript_eq hbody']
      exact (same_run hB (fun s hs => accepted_of_mem hbody hs) hgrammar hmeets).map _

/-! ### scripts of ints -/

theorem foreign_onInts : Foreign onInts where
  arith _ _ _ := .raised
  convert c flags precision v := by
    unfold onInts
    dsimp only
    split
    · exact .ok _
    · exact .ok _
    · exact .raised
  convertBytes _ _ _ _ := .raised

def augment (op : Operator) (n : Int) : Stmt Empty :=
  ⟨1, .augAssign (.name "x" "Store") op (.constant (.int n))⟩

/-- `x += 5` -/
theorem added_agrees : Agrees onInts [augment .add 5] [("x", .int 1)] ↔
    (∀ s ∈ [augment .add 5], Grammar s) ∧
      ∀ s names, Comes onInts [augment .add 5] [("x", .int 1)] s names → Meets onInts names s :=
  augmented_agrees_iff onInts foreign_onInts _ _ ⟨_, rfl⟩

/-- `x |= 1` is no refusal, and `x **= 20000` is none either -/
theorem augmented_unchecked :
    (∃ steps, compileScript (.ok [augment .bitOr 1]) = .ok steps) ∧
      ¬ Agrees onInts [augment .bitOr 1] [("x", .int 1)] ∧
      (∃ steps, compileScript (.ok [augment .pow 20000]) = .ok steps) ∧
      ¬ Agrees onInts [augment .pow 20000] [("x", .int 2)] := by
  refine ⟨⟨_, rfl⟩, fun h => h.known rfl, ⟨_, rfl⟩, fun h => ?_⟩
  have hsame := h.statement (augment .pow 20000) [("x", .int 2)] ⟨[], [], rfl, rfl⟩
  have haugmented : (runStmt onInts [("x", .int 2)] (augment .pow 20000)).isOk = true := by
    decide +kernel
  have hexpanded : (runStmt onInts [("x", .int 2)] (expand (augment .pow 20000))).isOk = false := by
    decide +kernel
  rcases hsame with hsame | ⟨f, f', hf, -⟩
  · rw [hsame, hexpanded] at haugmented
    cases haugmented
  · rw [hf] at haugmented
    cases haugmented

end SafeExpression.Script
