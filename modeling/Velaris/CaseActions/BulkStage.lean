import Velaris.Base.Joined
import Mathlib.Data.List.Dedup
import Velaris.Base.Run
import Velaris.Base.Traverse
import Velaris.CaseActions.Statuses
import Velaris.Py.Identifiers

/-!
# Moving many cases into a stage

`case_actions/bulk_stage.py`, and the two routes of `api/routers/cases.py` over it.  A preview
reports which cases would move and mints a token for them; an execution has to bring the token
back, and looks at every case again before it moves it.

* `payload`, `mint`, `verify`   the token;
* `evaluate`   whether the caller may move the case into the stage, at the moment;
* `preview`, `execute`   the two routes;
* `payload_inj`   what two equal payloads have in common;
* `World`, `Act`, `step`   requests, and whatever else happens to the tables;
* `moves_only_previewed`   what an execution moves.

Moments are microseconds.
-/

namespace CaseActions.BulkStage
open Py Base

/-- a `uuid.UUID` -/
abbrev Id := Fin (2 ^ 128)

def idText (i : Id) : String := uuidText i.val

/-! ## tables -/

/-- the caller of a session: `user_id` is the text of the account's id -/
structure User where
  id : Id
  claims : Dict := []

def User.userId (u : User) : String := idText u.id

structure Columns where
  status : String
  isDeleted : Bool := false
  others : Dict := []

structure Case where
  id : Id
  caseTypeId : Id
  currentStageId : Option String
  columns : Columns

structure CaseType where
  definition : Dict
  name : String

/-- the cases and the case types, and the rest of the tables -/
structure Db (ρ : Type) where
  cases : List Case
  caseTypes : Id → Option CaseType
  rest : ρ

def Db.setStage {ρ : Type} (db : Db ρ) (caseId : Id) (target : String) : Db ρ :=
  { db with
    cases := db.cases.map fun c => if c.id = caseId then { c with currentStageId := target } else c }

/-- what entering a stage leaves of the other columns and of the other tables -/
structure Entered (ρ : Type) where
  columns : Case → Columns
  rest : ρ

def Db.entered {ρ : Type} (db : Db ρ) (e : Entered ρ) : Db ρ :=
  { db with cases := db.cases.map fun c => { c with columns := e.columns c }, rest := e.rest }

def Db.stageOf {ρ : Type} (db : Db ρ) (caseId : Id) : Option (Option String) :=
  (db.cases.find? fun c => c.id = caseId).map Case.currentStageId

/-- the checks that the routes share with others, each on the tables as they are -/
structure Platform (ρ : Type) extends Runtime where
  /-- the signature of a payload under the key of this purpose, as text -/
  mac : String → String
  /-- the caller holds `case.actions.bulk_stage` -/
  privileged : Db ρ → User → Bool
  /-- `case_visible_to` -/
  visible : Db ρ → User → Case → Bool
  /-- the refusal of `require_case(.., "case.update", ..)`: status, code and detail -/
  requireUpdate : Db ρ → User → Id → Option (Nat × Option String × String)
  /-- an open risk hold -/
  advanceBlocked : Db ρ → Id → Bool
  policyAllows : Db ρ → User → Case → String → Bool
  /-- what entering the stage fires; an error takes the move of this case back -/
  enter : Db ρ → User → Case → Dict → Option String → Except String (Entered ρ)

inductive Failure where
  | refused (status : Nat) (code detail : String)
  /-- an exception that no handler names -/
  | raised

/-! ## the token -/

def TOKEN_VERSION : String := "v1"

def CONFIRM_TTL_SECONDS : Int := 10 * 60

/-- `",".join(sorted({str(c) for c in case_ids}))` -/
def joinedIds (caseIds : List Id) : String :=
  ",".intercalate ((caseIds.map idText).dedup.insertionSort (· ≤ ·))

/-- what `_digest` signs -/
def payload (userId target : String) (caseIds : List Id) (expiresAt : Int) : String :=
  "\n".intercalate [TOKEN_VERSION, userId, target, toString expiresAt, joinedIds caseIds]

variable {ρ : Type} (P : Platform ρ)

def mint (userId target : String) (caseIds : List Id) (now : Int) : String × Int :=
  let expiresAt := now / 1000000 + CONFIRM_TTL_SECONDS
  (TOKEN_VERSION ++ "." ++ toString expiresAt ++ "." ++
    P.mac (payload userId target caseIds expiresAt), expiresAt)

def otherDigits : List (Nat × Nat) :=
  [(0xb2, 0xb3), (0xb9, 0xb9), (0x1369, 0x1371), (0x19da, 0x19da), (0x2070, 0x2070),
    (0x2074, 0x2079), (0x2080, 0x2089), (0x2460, 0x2468), (0x2474, 0x247c), (0x2488, 0x2490),
    (0x24ea, 0x24ea), (0x24f5, 0x24fd), (0x24ff, 0x24ff), (0x2776, 0x277e), (0x2780, 0x2788),
    (0x278a, 0x2792), (0x10a40, 0x10a43), (0x10e60, 0x10e68), (0x11052, 0x1105a),
    (0x1f100, 0x1f10a)]

/-- `s.isdigit()` -/
def isdigit (s : String) : Bool :=
  s ≠ "" && s.toList.all fun c =>
    (decimal? c).isSome || otherDigits.any fun r => r.1 ≤ c.toNat && c.toNat ≤ r.2

def confirmFailure (why : String) : Failure :=
  .refused 409 "VEL-CASE-BULK-STAGE-CONFIRM-409" why

def readToken (token : Option String) : Except Failure (Int × String) :=
  if token.getD "" = "" then
    .error (confirmFailure "No confirmation. Preview the move first and confirm it.")
  else
    let malformed := confirmFailure "The confirmation is malformed. Preview the move again."
    match ((token.getD "").toList.splitOn '.').map String.ofList with
    | [version, expires, signature] =>
      if version ≠ TOKEN_VERSION ∨ isdigit expires = false then .error malformed
      else
        match intText 10 expires with
        | none => .error .raised
        | some expiresAt => .ok (expiresAt, signature)
    | _ => .error malformed

/-- `verify`, and the 409 that the route makes of its reason -/
def verify (token : Option String) (userId target : String) (caseIds : List Id) (now : Int) :
    Except Failure Unit :=
  (readToken token).bind fun t =>
    if seconds t.1 < now then
      .error (confirmFailure "The confirmation has expired. Preview the move again.")
    else if P.mac (payload userId target caseIds t.1) = t.2 then .ok ()
    else
      .error (confirmFailure ("The confirmation does not match this request — a different target " ++
        "stage, a different set of cases, or a different operator. Preview the move again."))

/-! ## one case -/

/-- `sealed_reason(case)` -/
def sealedReason (c : Case) : Option String :=
  if c.columns.isDeleted then
    some "This case is deleted. Restore it first if it needs to change."
  else if c.columns.status = "archived" then
    some ("This case is archived. Nothing further may be done to it; reopen it first if it needs " ++
      "to change.")
  else none

/-- `_stage_move_gate` -/
def gate (db : Db ρ) (user : User) (caseId : Id) (target : String) (consultPolicy : Bool) :
    Except Failure Case :=
  match db.cases.find? fun c => c.id = caseId with
  | none => .error (.refused 404 "VEL-CASE-NOTFOUND-404" "Case not found")
  | some c =>
    if c.columns.isDeleted || !P.visible db user c then
      .error (.refused 404 "VEL-CASE-NOTFOUND-404" "Case not found")
    else
      match P.requireUpdate db user caseId with
      | some (status, code, detail) =>
        .error (.refused status (code.getD (if status = 404 then "VEL-CASE-NOTFOUND-404"
          else "VEL-CASE-ACTION-DENIED-403")) detail)
      | none =>
        match sealedReason c with
        | some why => .error (.refused 409 "VEL-CASE-ACTION-SEALED-409" why)
        | none =>
          if P.advanceBlocked db caseId then
            .error (.refused 409 "VEL-CASE-STAGE-HELD-409" ("Stage advance is held by an open " ++
              "HxSentinel risk verification. Clear the hold on the case's risk panel first."))
          else if consultPolicy && !P.policyAllows db user c target then
            .error (.refused 403 "VEL-ARB-STAGE-DENIED-403" ("VEL-ARB-STAGE-DENIED-403: policy " ++
              "refuses this stage transition for this case."))
          else .ok c

structure Evaluated where
  row : Case
  definition : Dict
  stage : Dict
  unchanged : Bool

/-- `_bulk_stage_evaluate` -/
def evaluate (db : Db ρ) (user : User) (caseId : Id) (target : String) (consultPolicy : Bool) :
    Except Failure Evaluated :=
  (gate P db user caseId target consultPolicy).bind fun c =>
    let definition := ((db.caseTypes c.caseTypeId).map CaseType.definition).getD []
    match Value.iterOrEmpty (getOr definition "stages" (.list [])) with
    | none => .error .raised
    | some stages =>
      match (stages.filterMap Value.dict?).find? fun s => P.str (Dict.get s "id") = target with
      | none => .error (.refused 409 "VEL-CASE-BULK-STAGE-UNKNOWN-409"
          ("'" ++ target ++ "' is not a stage of this case's case type."))
      | some stage => .ok ⟨c, definition, stage, c.currentStageId.getD "" = target⟩

def movable : Except Failure Evaluated → Bool
  | .ok e => !e.unchanged
  | .error _ => false

/-! ## the request -/

structure BulkStageRequest where
  caseIds : List Id
  targetStageId : String
  confirmationToken : Option String := none
  reason : Option String := none

def BULK_CEILING : Nat := 500

/-- `_bulk_stage_prepare` -/
def prepare (db : Db ρ) (user : User) (body : BulkStageRequest) : Except Failure (List Id) :=
  let caseIds := body.caseIds.eraseDups
  if BULK_CEILING < caseIds.length then
    .error (.refused 400 "VEL-CASE-BULK-CEILING-400" ("This request names " ++
      toString caseIds.length ++ " cases; the ceiling is " ++ toString BULK_CEILING ++
      ". Narrow it or split it — acting on the first " ++ toString BULK_CEILING ++
      " and reporting success is the worse answer."))
  else if caseIds = [] then .error (.refused 400 "VEL-CASE-BULK-EMPTY-400" "No cases named.")
  else if !P.privileged db user then
    .error (.refused 403 "VEL-CASE-BULK-STAGE-DENIED-403"
      "Moving cases through a stage in bulk needs case.actions.bulk_stage.")
  else .ok caseIds

/-! ## the preview -/

inductive Report where
  | refused (caseId code error : String)
  | evaluated (caseId : String) (fromStage : Option String) (unchanged : Bool)

/-- what entering the stage fires, for the cases of one type -/
structure Effect where
  caseTypeId : Id
  caseTypeName : Option String
  stageName : Value
  cases : Nat
  startsSla : Value
  onEnterStatus : Option String

structure PreviewAnswer where
  targetStageId : String
  requested : Nat
  wouldMove : Nat
  unchanged : Nat
  refused : Nat
  effects : List Effect
  results : List Report
  eligibleCaseIds : List Id
  confirmationToken : Option String
  confirmExpiresAt : Option Int

def report (caseId : Id) : Except Failure Evaluated → Report
  | .ok e => .evaluated (idText caseId) e.row.currentStageId e.unchanged
  | .error (.refused _ code detail) => .refused (idText caseId) code detail
  | .error .raised => .refused (idText caseId) "" ""

def startsSla (e : Evaluated) : Value :=
  let slaId := Dict.get e.stage "sla_policy_id"
  if slaId.truthy then
    let policies := (Value.iterOrEmpty (getOr e.definition "sla_policies" (.list []))).getD []
    let sla := (policies.filterMap Value.dict?).find? fun p => (Dict.get p "id").eq slaId
    (Dict.get (sla.getD []) "name").or slaId
  else .none

def addEffect (db : Db ρ) (target : String) (effects : List Effect) (e : Evaluated) :
    List Effect :=
  if effects.any fun f => f.caseTypeId = e.row.caseTypeId then
    effects.map fun f =>
      if f.caseTypeId = e.row.caseTypeId then { f with cases := f.cases + 1 } else f
  else
    effects ++
      [{ caseTypeId := e.row.caseTypeId
         caseTypeName := (db.caseTypes e.row.caseTypeId).map CaseType.name
         stageName := (Dict.get e.stage "name").or (.str target)
         cases := 1
         startsSla := startsSla e
         onEnterStatus := onEnterStatus P.toRuntime e.stage }]

def eligible (db : Db ρ) (user : User) (target : String) (caseIds : List Id) : List Id :=
  caseIds.filter fun c => movable (evaluate P db user c target false)

def wentWrong : Except Failure Evaluated → Bool
  | .error .raised => true
  | _ => false

/-- `POST /cases/bulk/stage/preview` -/
def preview (db : Db ρ) (user : User) (body : BulkStageRequest) (now : Int) :
    Except Failure PreviewAnswer :=
  (prepare P db user body).bind fun caseIds =>
    let target := body.targetStageId
    let seen := caseIds.map fun c => (c, evaluate P db user c target false)
    if seen.any fun r => wentWrong r.2 then .error .raised
    else
      let ids := eligible P db user target caseIds
      let moving := (seen.filter fun r => movable r.2).filterMap fun r => r.2.toOption
      let token := if ids = [] then none else some (mint P user.userId target ids now)
      .ok
        { targetStageId := target
          requested := caseIds.length
          wouldMove := ids.length
          unchanged := (seen.filterMap fun r => r.2.toOption).countP Evaluated.unchanged
          refused := seen.countP fun r => r.2.toOption.isNone
          effects := moving.foldl (addEffect P db target) []
          results := seen.map fun r => report r.1 r.2
          eligibleCaseIds := ids
          confirmationToken := token.map Prod.fst
          confirmExpiresAt := token.map Prod.snd }

/-! ## the execution -/

inductive Outcome where
  | refused (caseId code error : String)
  | unchanged (caseId : String)
  | failed (caseId error : String)
  | moved (caseId : String) (fromStage : Option String) (toStage : String)

structure Moved (ρ : Type) where
  caseId : Id
  db : Db ρ

/-- the loop: the tables it leaves, what it reports, and what it moved -/
def moveEach (user : User) (target : String) (reason : Option String) :
    Db ρ → List Id → Except Failure (Db ρ × List Outcome × List (Moved ρ))
  | db, [] => .ok (db, [], [])
  | db, c :: caseIds =>
    match evaluate P db user c target true with
    | .error .raised => .error .raised
    | .error (.refused _ code detail) =>
      (moveEach user target reason db caseIds).map fun r =>
        (r.1, .refused (idText c) code detail :: r.2.1, r.2.2)
    | .ok e =>
      if e.unchanged then
        (moveEach user target reason db caseIds).map fun r =>
          (r.1, .unchanged (idText c) :: r.2.1, r.2.2)
      else
        match P.enter (db.setStage c target) user e.row e.stage reason with
        | .error text =>
          (moveEach user target reason db caseIds).map fun r =>
            (r.1, .failed (idText c) text :: r.2.1, r.2.2)
        | .ok entered =>
          (moveEach user target reason ((db.setStage c target).entered entered) caseIds).map
            fun r =>
              (r.1, .moved (idText c) e.row.currentStageId target :: r.2.1, ⟨c, db⟩ :: r.2.2)

structure Executed (ρ : Type) where
  db : Db ρ
  requested : Nat
  results : List Outcome
  moved : List (Moved ρ)

/-- `POST /cases/bulk/stage` -/
def execute (db : Db ρ) (user : User) (body : BulkStageRequest) (now : Int) :
    Except Failure (Executed ρ) :=
  (prepare P db user body).bind fun caseIds =>
    (verify P body.confirmationToken user.userId body.targetStageId caseIds now).bind fun _ =>
      (moveEach P user body.targetStageId body.reason db caseIds).map fun r =>
        ⟨r.1, caseIds.length, r.2.1, r.2.2⟩

/-! ## requests over time -/

/-- a preview that was answered with a token, and the tables it looked at -/
structure Preview (ρ : Type) where
  db : Db ρ
  user : User
  target : String
  eligible : List Id
  madeAt : Int
  expiresAt : Int

structure World (ρ : Type) where
  db : Db ρ
  previews : List (Preview ρ) := []

inductive Act (ρ : Type) where
  | preview (user : User) (body : BulkStageRequest) (now : Int)
  | execute (user : User) (body : BulkStageRequest) (now : Int)
  /-- the rest of the platform, which may change every table -/
  | work (db : Db ρ)

def step (w : World ρ) (a : Act ρ) : World ρ :=
  match a with
  | .preview user body now =>
    match preview P w.db user body now with
    | .error _ => w
    | .ok answer =>
      match answer.confirmExpiresAt with
      | none => w
      | some expiresAt =>
        let made : Preview ρ :=
          ⟨w.db, user, body.targetStageId, answer.eligibleCaseIds, now, expiresAt⟩
        { w with previews := made :: w.previews }
  | .execute user body now =>
    match execute P w.db user body now with
    | .error _ => w
    | .ok done => { w with db := done.db }
  | .work db => { w with db := db }

/-- nobody has a signature of a payload that no preview has signed -/
def Unforged (w : World ρ) (a : Act ρ) : Prop :=
  match a with
  | .execute user body _ =>
    ∀ t ∈ (readToken body.confirmationToken).toOption,
      P.mac (payload user.userId body.targetStageId body.caseIds.eraseDups t.1) = t.2 →
        ∃ p ∈ w.previews, payload p.user.userId p.target p.eligible p.expiresAt =
          payload user.userId body.targetStageId body.caseIds.eraseDups t.1
  | _ => True

instance (w : World ρ) : ∀ a, Decidable (Unforged P w a)
  | .execute _ _ _ => inferInstanceAs (Decidable (∀ t ∈ (readToken _).toOption, _ → _))
  | .preview _ _ _ | .work _ => isTrue trivial

/-- a preview that is not expired confirms the request, and had reported the case -/
def Previewed (w : World ρ) (user : User) (body : BulkStageRequest) (now : Int) (caseId : Id) :
    Prop :=
  ∃ p ∈ w.previews, p.user.id = user.id ∧ p.target = body.targetStageId ∧
    (∀ c, c ∈ p.eligible ↔ c ∈ body.caseIds) ∧
    p.expiresAt = p.madeAt / 1000000 + CONFIRM_TTL_SECONDS ∧ now ≤ seconds p.expiresAt ∧
    caseId ∈ p.eligible ∧ movable (evaluate P p.db p.user caseId p.target false) = true

/-- an execution moves a case only where a preview has reported it, and where it would still move
when it is looked at again; the stages of the other cases stay what they are -/
def MovesPreviewed (w : World ρ) (a : Act ρ) : Prop :=
  match a with
  | .execute user body now =>
    ∀ done ∈ (execute P w.db user body now).toOption,
      (∀ m ∈ done.moved, Previewed P w user body now m.caseId ∧
        movable (evaluate P m.db user m.caseId body.targetStageId true) = true) ∧
      ∀ c, (step P w a).db.stageOf c ≠ w.db.stageOf c → c ∈ done.moved.map Moved.caseId
  | _ => True

variable {P}

/-! ## the payload stands for one request -/

theorem idText_inj {i j : Id} (h : idText i = idText j) : i = j :=
  Fin.ext (uuidText_inj i.isLt j.isLt h)

theorem newline_not_mem_idText (i : Id) : '\n' ∉ (idText i).toList := by
  intro h
  exact absurd (mem_uuidText h) (by decide)

theorem comma_not_mem_idText (i : Id) : ',' ∉ (idText i).toList := by
  intro h
  exact absurd (mem_uuidText h) (by decide)

theorem mem_idTexts {caseIds : List Id} {t : String} :
    t ∈ (caseIds.map idText).dedup.insertionSort (· ≤ ·) ↔ ∃ c ∈ caseIds, idText c = t := by
  rw [List.mem_insertionSort, List.mem_dedup, List.mem_map]

theorem toList_joinedIds (caseIds : List Id) : (joinedIds caseIds).toList =
    [','].intercalate (((caseIds.map idText).dedup.insertionSort (· ≤ ·)).map String.toList) := by
  rw [joinedIds, String.toList_intercalate]
  rfl

theorem newline_not_mem_joinedIds (caseIds : List Id) : '\n' ∉ (joinedIds caseIds).toList := by
  intro h
  rw [toList_joinedIds] at h
  rcases mem_intercalate h with h | ⟨cs, hcs, h⟩
  · cases h
  · obtain ⟨t, ht, rfl⟩ := List.mem_map.mp hcs
    obtain ⟨c, -, rfl⟩ := mem_idTexts.mp ht
    exact newline_not_mem_idText c h

theorem idTexts_ne_nil {caseIds : List Id} (h : caseIds ≠ []) :
    (caseIds.map idText).dedup.insertionSort (· ≤ ·) ≠ [] := by
  obtain ⟨c, hc⟩ := List.exists_mem_of_ne_nil caseIds h
  exact List.ne_nil_of_mem (mem_idTexts.mpr ⟨c, hc, rfl⟩)

theorem joinedIds_inj {xs ys : List Id} (hx : xs ≠ []) (hy : ys ≠ [])
    (h : joinedIds xs = joinedIds ys) (c : Id) : c ∈ xs ↔ c ∈ ys := by
  have hcomma : ∀ zs : List Id, ∀ cs ∈ ((zs.map idText).dedup.insertionSort (· ≤ ·)).map
      String.toList, ',' ∉ cs := by
    intro zs cs hcs
    obtain ⟨t, ht, rfl⟩ := List.mem_map.mp hcs
    obtain ⟨c, -, rfl⟩ := mem_idTexts.mp ht
    exact comma_not_mem_idText c
  have htexts := congrArg String.toList h
  rw [toList_joinedIds, toList_joinedIds] at htexts
  have hlists := intercalate_inj (hcomma xs) (hcomma ys)
    (fun hnil => idTexts_ne_nil hx (List.map_eq_nil_iff.mp hnil))
    (fun hnil => idTexts_ne_nil hy (List.map_eq_nil_iff.mp hnil)) htexts
  have hsame := List.map_injective_iff.mpr (fun _ _ => String.toList_inj.mp) hlists
  have hmem : ∀ zs : List Id, c ∈ zs ↔
      idText c ∈ (zs.map idText).dedup.insertionSort (· ≤ ·) := by
    intro zs
    rw [mem_idTexts]
    constructor
    · intro hc
      exact ⟨c, hc, rfl⟩
    · intro hx
      obtain ⟨d, hd, htext⟩ := hx
      rwa [← idText_inj htext]
  rw [hmem xs, hmem ys, hsame]

theorem toList_payload (userId target : String) (caseIds : List Id) (expiresAt : Int) :
    (payload userId target caseIds expiresAt).toList = TOKEN_VERSION.toList ++ '\n' ::
      (userId.toList ++ '\n' :: ((target.toList ++ '\n' :: (toString expiresAt).toList) ++
        '\n' :: (joinedIds caseIds).toList)) := by
  rw [payload, String.toList_intercalate]
  simp [List.intercalate]

/-- two requests with the same payload are of one user, for one stage, one set of cases and one
moment -/
theorem payload_inj {u v : Id} {s t : String} {xs ys : List Id} {d e : Int} (hx : xs ≠ [])
    (hy : ys ≠ []) (h : payload (idText u) s xs d = payload (idText v) t ys e) :
    u = v ∧ s = t ∧ (∀ c, c ∈ xs ↔ c ∈ ys) ∧ d = e := by
  have hdigits : ∀ n : Int, '\n' ∉ (toString n).toList := by
    intro n hn
    rcases mem_toString hn with hd | hd
    · cases hd
    · cases hd
  have htexts := congrArg String.toList h
  rw [toList_payload, toList_payload] at htexts
  have hafter := (List.cons.inj (List.append_cancel_left htexts)).2
  obtain ⟨hu, hrest⟩ := eq_of_append_sep (newline_not_mem_idText u) (newline_not_mem_idText v) hafter
  obtain ⟨hfront, hids⟩ := eq_of_append_sep_last (newline_not_mem_joinedIds xs)
    (newline_not_mem_joinedIds ys) hrest
  obtain ⟨hs, hd⟩ := eq_of_append_sep_last (hdigits d) (hdigits e) hfront
  exact ⟨idText_inj (String.toList_inj.mp hu), String.toList_inj.mp hs,
    joinedIds_inj hx hy (String.toList_inj.mp hids), toString_inj (String.toList_inj.mp hd)⟩

/-! ## what the loop moves -/

theorem moveEach_moved {user : User} {target : String} {reason : Option String}
    {caseIds : List Id} {db : Db ρ} {r : Db ρ × List Outcome × List (Moved ρ)}
    (h : moveEach P user target reason db caseIds = .ok r) :
    ∀ m ∈ r.2.2, m.caseId ∈ caseIds ∧
      movable (evaluate P m.db user m.caseId target true) = true := by
  induction caseIds generalizing db r with
  | nil =>
    cases h
    exact fun m hm => absurd hm List.not_mem_nil
  | cons c caseIds ih =>
    have hlater : ∀ {db' : Db ρ} {r' : Db ρ × List Outcome × List (Moved ρ)},
        moveEach P user target reason db' caseIds = .ok r' → ∀ m ∈ r'.2.2,
          m.caseId ∈ c :: caseIds ∧ movable (evaluate P m.db user m.caseId target true) = true := by
      intro db' r' hr' m hm
      have hboth := ih hr' m hm
      exact ⟨List.mem_cons_of_mem c hboth.1, hboth.2⟩
    rw [moveEach] at h
    split at h
    · cases h
    · obtain ⟨r', hr', rfl⟩ := exists_of_map_ok h
      intro m hm
      exact hlater hr' m hm
    next e he =>
      split at h
      · obtain ⟨r', hr', rfl⟩ := exists_of_map_ok h
        intro m hm
        exact hlater hr' m hm
      next hchanged =>
        split at h
        · obtain ⟨r', hr', rfl⟩ := exists_of_map_ok h
          intro m hm
          exact hlater hr' m hm
        next entered _ =>
          obtain ⟨r', hr', rfl⟩ := exists_of_map_ok h
          intro m hm
          rcases List.mem_cons.mp hm with rfl | hm
          · refine ⟨List.mem_cons_self, ?_⟩
            show movable (evaluate P db user c target true) = true
            rw [he, movable, eq_false_of_ne_true hchanged]
            rfl
          · exact hlater hr' m hm

theorem stageOf_map {db db' : Db ρ} {f : Case → Case} (hcases : db'.cases = db.cases.map f)
    (hid : ∀ c, (f c).id = c.id) {caseId : Id}
    (hstage : ∀ c, c.id = caseId → (f c).currentStageId = c.currentStageId) :
    db'.stageOf caseId = db.stageOf caseId := by
  unfold Db.stageOf
  rw [hcases, List.find?_map, Option.map_map]
  have hsame : ((fun c : Case => decide (c.id = caseId)) ∘ f) =
      fun c => decide (c.id = caseId) := by
    funext c
    show decide ((f c).id = caseId) = _
    rw [hid]
  rw [hsame]
  cases hf : db.cases.find? fun c => decide (c.id = caseId) with
  | none => rfl
  | some c =>
    have hkey := List.find?_some hf
    exact congrArg some (hstage c (of_decide_eq_true hkey))

theorem stageOf_entered (db : Db ρ) (e : Entered ρ) (caseId : Id) :
    (db.entered e).stageOf caseId = db.stageOf caseId :=
  stageOf_map (f := fun c => { c with columns := e.columns c }) rfl (fun _ => rfl) fun _ _ => rfl

theorem stageOf_setStage_of_ne {db : Db ρ} {c caseId : Id} (target : String) (hne : caseId ≠ c) :
    (db.setStage c target).stageOf caseId = db.stageOf caseId := by
  apply stageOf_map rfl
  · intro d
    split <;> rfl
  · rintro d rfl
    rw [if_neg hne]

theorem moveEach_stage {user : User} {target : String} {reason : Option String}
    {caseIds : List Id} {db : Db ρ} {r : Db ρ × List Outcome × List (Moved ρ)}
    (h : moveEach P user target reason db caseIds = .ok r) {caseId : Id}
    (hid : caseId ∉ r.2.2.map Moved.caseId) : r.1.stageOf caseId = db.stageOf caseId := by
  induction caseIds generalizing db r with
  | nil =>
    cases h
    rfl
  | cons c caseIds ih =>
    rw [moveEach] at h
    split at h
    · cases h
    · obtain ⟨r', hr', rfl⟩ := exists_of_map_ok h
      have hsame := ih hr' hid
      exact hsame
    · split at h
      · obtain ⟨r', hr', rfl⟩ := exists_of_map_ok h
        have hsame := ih hr' hid
        exact hsame
      · split at h
        · obtain ⟨r', hr', rfl⟩ := exists_of_map_ok h
          have hsame := ih hr' hid
          exact hsame
        · obtain ⟨r', hr', rfl⟩ := exists_of_map_ok h
          obtain ⟨hne, hlater⟩ := not_or.mp fun hor => hid (List.mem_cons.mpr hor)
          show r'.1.stageOf caseId = _
          rw [ih hr' hlater, stageOf_entered, stageOf_setStage_of_ne target hne]

/-! ## the two routes -/

theorem prepare_ok {db : Db ρ} {user : User} {body : BulkStageRequest} {caseIds : List Id}
    (h : prepare P db user body = .ok caseIds) :
    caseIds = body.caseIds.eraseDups ∧ caseIds ≠ [] := by
  unfold prepare at h
  simp only at h
  split at h
  · cases h
  · split at h
    · cases h
    next hne =>
      split at h
      · cases h
      · cases h
        exact ⟨rfl, hne⟩

theorem verify_ok {token : Option String} {userId target : String} {caseIds : List Id} {now : Int}
    (h : verify P token userId target caseIds now = .ok ()) :
    ∃ t, readToken token = .ok t ∧ now ≤ seconds t.1 ∧
      P.mac (payload userId target caseIds t.1) = t.2 := by
  obtain ⟨t, ht, hrest⟩ := exists_of_bind_ok h
  split at hrest
  · cases hrest
  next hcurrent =>
    split at hrest
    next hmac => exact ⟨t, ht, by omega, hmac⟩
    next => cases hrest

theorem preview_ok {db : Db ρ} {user : User} {body : BulkStageRequest} {now : Int}
    {answer : PreviewAnswer} (h : preview P db user body now = .ok answer) :
    answer.eligibleCaseIds = eligible P db user body.targetStageId body.caseIds.eraseDups ∧
      ∀ e, answer.confirmExpiresAt = some e →
        answer.eligibleCaseIds ≠ [] ∧ e = now / 1000000 + CONFIRM_TTL_SECONDS := by
  obtain ⟨caseIds, hprepare, hrest⟩ := exists_of_bind_ok h
  obtain ⟨rfl, -⟩ := prepare_ok hprepare
  simp only at hrest
  split at hrest
  · cases hrest
  · cases hrest
    refine ⟨rfl, ?_⟩
    intro e he
    simp only at he
    split at he
    · cases he
    next hne =>
      cases he
      exact ⟨hne, rfl⟩

/-! ## runs -/

def Reported (p : Preview ρ) : Prop :=
  p.eligible ≠ [] ∧ p.expiresAt = p.madeAt / 1000000 + CONFIRM_TTL_SECONDS ∧
    ∀ c ∈ p.eligible, movable (evaluate P p.db p.user c p.target false) = true

theorem reported_step (w : World ρ) (a : Act ρ) (h : ∀ p ∈ w.previews, Reported (P := P) p) :
    ∀ p ∈ (step P w a).previews, Reported (P := P) p := by
  cases a with
  | work db => exact h
  | execute user body now =>
    unfold step
    split
    next heq => cases heq
    next heq =>
      cases heq
      split
      · exact h
      · exact h
    next heq => cases heq
  | preview user body now =>
    cases hp : preview P w.db user body now with
    | error e => simpa only [step, hp] using h
    | ok answer =>
      cases he : answer.confirmExpiresAt with
      | none => simpa only [step, hp, he] using h
      | some e =>
        obtain ⟨heligible, hexpires⟩ := preview_ok hp
        obtain ⟨hne, rfl⟩ := hexpires e he
        simp only [step, hp, he]
        intro p hmem
        rcases List.mem_cons.mp hmem with rfl | hmem
        · refine ⟨hne, rfl, ?_⟩
          intro c hc
          rw [heligible] at hc
          exact (List.mem_filter.mp hc).2
        · exact h p hmem

theorem movesPreviewed_of_unforged (w : World ρ) (a : Act ρ)
    (h : ∀ p ∈ w.previews, Reported (P := P) p) (hunforged : Unforged P w a) :
    MovesPreviewed P w a := by
  cases a with
  | work db => trivial
  | preview user body now => trivial
  | execute user body now =>
    intro done hdone
    cases hx : execute P w.db user body now with
    | error e =>
      rw [hx] at hdone
      cases hdone
    | ok d =>
      rw [hx] at hdone
      obtain rfl : d = done := Option.some.inj hdone
      have hdb : (step P w (.execute user body now)).db = d.db := by simp only [step, hx]
      obtain ⟨caseIds, hprepare, hrest⟩ := exists_of_bind_ok hx
      obtain ⟨rfl, hne⟩ := prepare_ok hprepare
      obtain ⟨u, hverify, hmap⟩ := exists_of_bind_ok hrest
      obtain ⟨r, hr, rfl⟩ := exists_of_map_ok hmap
      obtain ⟨t, ht, hcurrent, hmac⟩ := verify_ok hverify
      obtain ⟨p, hp, hpayload⟩ := hunforged t (by rw [ht]; rfl) hmac
      obtain ⟨hsome, hexpires, hreported⟩ := h p hp
      obtain ⟨huser, htarget, hcases, hexpiry⟩ := payload_inj hsome hne hpayload
      rw [← hexpiry] at hcurrent
      constructor
      · intro m hm
        obtain ⟨hmem, hmovable⟩ := moveEach_moved hr m hm
        have heligible : m.caseId ∈ p.eligible := (hcases m.caseId).mpr hmem
        refine ⟨⟨p, hp, huser, htarget, ?_, hexpires, hcurrent, heligible,
          hreported _ heligible⟩, hmovable⟩
        intro c
        rw [hcases c, List.mem_eraseDups]
      · intro c hc
        by_contra hnot
        apply hc
        rw [hdb]
        exact moveEach_stage hr hnot

/-- Whatever the platform's other checks are and whatever happens to the tables in between: as long
as nobody forges a signature, every execution moves only cases that an unexpired preview of the
same user, for the same stage and the same cases, has reported, and that would still move. -/
theorem moves_only_previewed (db : Db ρ) (acts : List (Act ρ))
    (hunforged : Along (step P) (Unforged P) { db := db } acts) :
    Along (step P) (MovesPreviewed P) { db := db } acts := by
  apply hunforged.mono (I := fun w => ∀ p ∈ w.previews, Reported (P := P) p)
  · intro w a h _
    exact reported_step w a h
  · intro w a h
    exact movesPreviewed_of_unforged w a h
  · exact fun p hp => absurd hp List.not_mem_nil

/-! ## one case is moved -/

/-- a platform that refuses nothing, and signs with the payload itself -/
def permissive : Platform Unit where
  toRuntime := Runtime.silent
  mac := id
  privileged := fun _ _ => true
  visible := fun _ _ _ => true
  requireUpdate := fun _ _ _ => none
  advanceBlocked := fun _ _ => false
  policyAllows := fun _ _ _ _ => true
  enter := fun _ _ _ _ _ => .ok ⟨Case.columns, ()⟩

def claims : Db Unit where
  cases := [{ id := 7, caseTypeId := 1, currentStageId := "intake", columns := { status := "open" } }]
  caseTypes := fun _ => some
    ⟨[("stages", .list [.dict [("id", .str "intake")], .dict [("id", .str "review")]])], "Claim"⟩
  rest := ()

def intoReview : BulkStageRequest where
  caseIds := [7]
  targetStageId := "review"

/-- the request, with the token that its preview gave at the moment 0 -/
def confirmed : BulkStageRequest :=
  { intoReview with
    confirmationToken := (preview permissive claims { id := 3 } intoReview 0).toOption.bind
      PreviewAnswer.confirmationToken }

def previewedThenMoved : List (Act Unit) :=
  [.preview { id := 3 } intoReview 0, .execute { id := 3 } confirmed 1000000]

theorem previewed_case_moved :
    (exec (step permissive) { db := claims } previewedThenMoved).db.stageOf 7 =
        some (some "review") ∧
      Along (step permissive) (MovesPreviewed permissive) { db := claims } previewedThenMoved :=
  ⟨by decide +kernel, moves_only_previewed claims previewedThenMoved (by decide +kernel)⟩

end CaseActions.BulkStage
