import Velaris.Base.Traverse
import Velaris.Py.Runtime

/-!
# Bot definitions

The rows of `bot_definitions` and what the registry's routes do to one of them.

* `BotFields`   what an edit may change (`EDITABLE_FIELDS`);
* `validateDefinition`   the checks that hold before a bot may run;
* `approve`   draft or disabled to active;
* `createBot`, `updateBot`, `approveBot`, `disableBot`   the routes.
-/

namespace Bots

open Py Base

structure BotError where
  message : String
  status : Nat := 400

inductive Status where
  | draft
  | active
  | disabled
  deriving DecidableEq

def Status.text : Status → String
  | .draft => "draft"
  | .active => "active"
  | .disabled => "disabled"

/-- the columns of `EDITABLE_FIELDS` -/
structure BotFields where
  name : String
  description : String := ""
  image : String
  digest : String
  declaredCommand : List String := []
  declaredEnv : Dict := []
  credentialRefs : List String := []
  inputSchema : Dict := []
  outputSchema : Dict := []
  grantedDomains : List String := []
  timeoutSeconds : Int := 300
  maxConcurrency : Int := 1
  resourceProfile : String := "light"
  fanoutInputKey : Option String := none
  fanoutMax : Int := 25
  deriving DecidableEq

structure BotDefinition extends BotFields where
  tenantId : String
  status : Status := .draft
  createdBy : String
  lastEditedBy : Option String := none
  approvedBy : Option String := none
  approvedAt : Option Int := none

/-- the request body of create and update, with the bounds of its fields -/
structure BotIn extends BotFields where
  tenantId : String := "default"
  timeout_bounds : 1 ≤ timeoutSeconds ∧ timeoutSeconds ≤ 3600 := by decide
  concurrency_bounds : 1 ≤ maxConcurrency ∧ maxConcurrency ≤ 32 := by decide
  fanout_bounds : 1 ≤ fanoutMax ∧ fanoutMax ≤ 500 := by decide

structure User where
  username : String

structure Platform where
  /-- `str.lower` -/
  lower : String → String
  /-- `may_reach_tenant` -/
  mayReach : User → String → Bool
  /-- `caller_tenant_or_refuse`; `none` is its `PermissionError` -/
  callerTenant : User → String → Option String

/-! ## the checks -/

/-- the names in `RESOURCE_PROFILES` -/
def RESOURCE_PROFILES : List String := ["light", "browser"]

def stripped (s : String) : String := String.ofList (strip s.toList)

def wildcard (domain : String) : Bool := domain = "*" || domain = "*.*" || domain.startsWith "*"

def assertEgressSafe (bot : BotFields) : Except BotError Unit :=
  if bot.credentialRefs = [] then .ok ()
  else if (bot.grantedDomains.map stripped).any wildcard then
    .error {
      message := "A bot holding credentials cannot be granted wildcard egress: with " ++
        "a live password and permission to reach anywhere, it is an " ++
        "exfiltration tool. Name the hosts it needs." }
  else .ok ()

def validateDefinition (bot : BotFields) : Except BotError Unit :=
  if !bot.digest.startsWith "sha256:" then
    .error {
      message := "A bot image must be pinned by digest (sha256:…). A tag can be " ++
        "repointed at different content after review, which would make the " ++
        "approval meaningless." }
  else if bot.resourceProfile ∉ RESOURCE_PROFILES then
    .error {
      message := "resource_profile must be one of: " ++ ", ".intercalate RESOURCE_PROFILES }
  else if bot.timeoutSeconds ≤ 0 ∨ 3600 < bot.timeoutSeconds then
    .error { message := "timeout_seconds must be between 1 and 3600." }
  else assertEgressSafe bot

/-! ## approval -/

section
variable (P : Platform)

def folded (name : String) : String := P.lower (stripped name)

def approvedByOther (whose : String) : BotError where
  message := s!"A bot must be approved by somebody other than {whose}. " ++
    "Approval is the review, and reviewing your own container image " ++
    "is not one. If you are the reviewer, ask the author to make " ++
    "the change rather than making it yourself — the same " ++
    "discipline as code review."
  status := 409

def approve (bot : BotDefinition) (approver : String) (now : Int) :
    Except BotError BotDefinition :=
  if bot.status = .active then .error { message := "This bot is already active.", status := 409 }
  else if folded P bot.createdBy = folded P approver then .error (approvedByOther "its author")
  else if folded P (bot.lastEditedBy.getD "") = folded P approver then
    .error (approvedByOther "the person who last changed it")
  else do
    validateDefinition bot.toBotFields
    return { bot with status := .active, approvedBy := some approver, approvedAt := some now }

/-! ## the routes -/

def notFound : BotError := { message := "Bot not found.", status := 404 }

/-- the row of a route, and `_mine_or_404` -/
def mineOr404 (user : User) (row : Option BotDefinition) : Except BotError BotDefinition :=
  match row with
  | none => .error notFound
  | some bot => if P.mayReach user bot.tenantId then .ok bot else .error notFound

/-- an empty fan-out key is no fan-out -/
def BotFields.incoming (body : BotFields) : BotFields :=
  { body with
    fanoutInputKey := if body.fanoutInputKey = some "" then none else body.fanoutInputKey }

def createBot (user : User) (body : BotIn) : Except BotError BotDefinition :=
  match P.callerTenant user body.tenantId with
  | none =>
    .error { message := "This may only be written into your own tenant.", status := 403 }
  | some tenant => do
    validateDefinition body.incoming
    return { toBotFields := body.incoming, tenantId := tenant, createdBy := user.username }

/-- two dictionaries that Python's `==` tells apart -/
def differ (a b : Dict) : Bool := !Value.eq (.dict a) (.dict b)

def changed (row new : BotFields) : List String :=
  [("name", decide (row.name ≠ new.name)),
    ("description", decide (row.description ≠ new.description)),
    ("image", decide (row.image ≠ new.image)), ("digest", decide (row.digest ≠ new.digest)),
    ("declared_command", decide (row.declaredCommand ≠ new.declaredCommand)),
    ("declared_env", differ row.declaredEnv new.declaredEnv),
    ("credential_refs", decide (row.credentialRefs ≠ new.credentialRefs)),
    ("input_schema", differ row.inputSchema new.inputSchema),
    ("output_schema", differ row.outputSchema new.outputSchema),
    ("granted_domains", decide (row.grantedDomains ≠ new.grantedDomains)),
    ("timeout_seconds", decide (row.timeoutSeconds ≠ new.timeoutSeconds)),
    ("max_concurrency", decide (row.maxConcurrency ≠ new.maxConcurrency)),
    ("resource_profile", decide (row.resourceProfile ≠ new.resourceProfile)),
    ("fanout_input_key", decide (row.fanoutInputKey ≠ new.fanoutInputKey)),
    ("fanout_max", decide (row.fanoutMax ≠ new.fanoutMax))].filterMap
      fun f => if f.2 then some f.1 else none

/-- the changed fields are set; a dictionary that is equal stays as it is written in the row -/
def BotFields.assign (row new : BotFields) : BotFields :=
  { new with
    declaredEnv := if differ row.declaredEnv new.declaredEnv then new.declaredEnv
      else row.declaredEnv
    inputSchema := if differ row.inputSchema new.inputSchema then new.inputSchema
      else row.inputSchema
    outputSchema := if differ row.outputSchema new.outputSchema then new.outputSchema
      else row.outputSchema }

def BotDefinition.edited (bot : BotDefinition) (user : User) (fields : BotFields) :
    BotDefinition :=
  { bot with
    toBotFields := fields
    lastEditedBy := some user.username
    status := .draft
    approvedBy := none
    approvedAt := none }

/-- the row after the edit, and whether the edit changed it -/
def updateBot (user : User) (body : BotIn) (row : Option BotDefinition) :
    Except BotError (BotDefinition × Bool) := do
  let bot ← mineOr404 P user row
  if changed bot.toBotFields body.incoming = [] then return (bot, false)
  else
    validateDefinition (bot.toBotFields.assign body.incoming)
    return (bot.edited user (bot.toBotFields.assign body.incoming), true)

def approveBot (user : User) (now : Int) (row : Option BotDefinition) :
    Except BotError BotDefinition := do
  let bot ← mineOr404 P user row
  approve P bot user.username now

def disableBot (user : User) (row : Option BotDefinition) : Except BotError BotDefinition := do
  let bot ← mineOr404 P user row
  return { bot with status := .disabled }

end

/-! ## what each answer says of the row -/

section
variable {P : Platform} {user : User} {row : Option BotDefinition}

theorem mineOr404_ok {bot : BotDefinition} (h : mineOr404 P user row = .ok bot) :
    row = some bot := by
  cases row with
  | none => cases h
  | some b =>
    rw [mineOr404] at h
    split at h
    · exact congrArg some (Except.ok.inj h)
    · cases h

theorem createBot_ok {body : BotIn} {bot : BotDefinition} (h : createBot P user body = .ok bot) :
    bot.status = .draft ∧ bot.createdBy = user.username ∧ bot.lastEditedBy = none := by
  rw [createBot] at h
  split at h
  · cases h
  · obtain ⟨_, -, hbot⟩ := exists_of_bind_ok h
    obtain rfl := Except.ok.inj hbot
    exact ⟨rfl, rfl, rfl⟩

theorem updateBot_ok {body : BotIn} {bot : BotDefinition} {edited : Bool}
    (h : updateBot P user body row = .ok (bot, edited)) :
    ∃ old, row = some old ∧
      (edited = false ∧ bot = old ∨ edited = true ∧ ∃ fields, bot = old.edited user fields) := by
  obtain ⟨old, hold, h⟩ := exists_of_bind_ok h
  refine ⟨old, mineOr404_ok hold, ?_⟩
  split at h
  · obtain ⟨rfl, rfl⟩ := Prod.mk.inj (Except.ok.inj h)
    exact Or.inl ⟨rfl, rfl⟩
  · obtain ⟨_, -, h⟩ := exists_of_bind_ok h
    obtain ⟨rfl, rfl⟩ := Prod.mk.inj (Except.ok.inj h)
    exact Or.inr ⟨rfl, _, rfl⟩

theorem approve_ok {bot new : BotDefinition} {approver : String} {now : Int}
    (h : approve P bot approver now = .ok new) :
    approver ≠ bot.createdBy ∧ (∀ name ∈ bot.lastEditedBy, approver ≠ name) ∧
      new =
        { bot with status := .active, approvedBy := some approver, approvedAt := some now } := by
  rw [approve] at h
  split at h
  · cases h
  split at h
  · cases h
  rename_i hcreator
  split at h
  · cases h
  rename_i hlast
  obtain ⟨_, -, h⟩ := exists_of_bind_ok h
  refine ⟨?_, ?_, (Except.ok.inj h).symm⟩
  · rintro rfl
    exact hcreator rfl
  · intro name hname heq
    rw [hname, heq] at hlast
    exact hlast rfl

theorem approveBot_ok {now : Int} {bot : BotDefinition} (h : approveBot P user now row = .ok bot) :
    ∃ old, row = some old ∧ approve P old user.username now = .ok bot := by
  obtain ⟨old, hold, h⟩ := exists_of_bind_ok h
  exact ⟨old, mineOr404_ok hold, h⟩

theorem disableBot_ok {bot : BotDefinition} (h : disableBot P user row = .ok bot) :
    ∃ old, row = some old ∧ bot = { old with status := .disabled } := by
  obtain ⟨old, hold, h⟩ := exists_of_bind_ok h
  exact ⟨old, mineOr404_ok hold, (Except.ok.inj h).symm⟩

end

end Bots
