import Velaris.HxDeploy.Rows
import Mathlib.Data.List.Sort

/-!
# Applying a bundle

`apply_bundle` of `case_service/hxdeploy/packager.py`, with one definition for each kind of resource
in the order in which it imports them.

* `dataModels` .. `schedules`   the handlers;
* `each`   the loop over the entries of a section;
* `Part`, `runParts`   the sections one after another;
* `applyBundle`   the whole import.
-/

namespace HxDeploy

open Py Base

variable (env : Env)

def text (s : String) : Value := .str s

def dict : Value := .dict []

/-! ## without references -/

def dataModels : Section where
  kind := .dataModel
  reach := .inherited
  key := items ["name", "version"]
  update := items ["definition_json"]
  create := items ["name", "version", "definition_json"]
  tenant := env.T.newOwner
  records := true

def calendarColumns : List (String × Src) :=
  items ["timezone", "work_days", "work_start_hour", "work_end_hour", "holidays"] ++
    [("description", .get "description" (text ""))]

def businessCalendars : Section where
  kind := .calendar
  reach := .inherited
  key := items ["name"]
  update := calendarColumns
  create := items ["name"] ++ calendarColumns
  tenant := env.T.newOwner

def roleColumns : List (String × Src) :=
  [("description", .get "description" (text "")), ("privileges", .item "privileges")]

def accessRoles : Section where
  kind := .role
  reach := .own
  key := items ["name"]
  update := roleColumns
  create := items ["name"] ++ roleColumns
  tenant := some env.T.token

def portals : Section where
  kind := .portal
  reach := .own
  key := items ["name"]
  update := items ["portal_type", "modules", "homepage", "theme"]
  create := items ["name", "portal_type", "modules", "homepage", "theme"] ++
    [("is_active", .get "is_active" (.bool true))]
  tenant := some env.T.token
  records := true

def emailTemplates : Section where
  kind := .emailTemplate
  reach := .anyone
  key := items ["name"]
  update := items ["subject", "body_text"] ++
    [("body_html", .get "body_html" .none), ("description", .get "description" (text "")),
      ("engine", .get "engine" (text "jinja2")), ("scope", .get "scope" (text "global"))]
  create := items ["name"] ++ [("description", .get "description" (text ""))] ++
    items ["subject", "body_text"] ++
    [("body_html", .get "body_html" .none), ("engine", .get "engine" (text "jinja2")),
      ("scope", .get "scope" (text "global")), ("is_active", .get "is_active" (.bool true))]
  tenant := some env.T.token

def emailAccounts : Section where
  kind := .emailAccount
  reach := .anyone
  key := items ["address"]
  update := items ["name", "smtp_host", "smtp_port"] ++
    [("smtp_username", .get "smtp_username" .none), ("smtp_use_tls", .item "smtp_use_tls"),
      ("imap_host", .get "imap_host" .none), ("imap_port", .get "imap_port" (.int 993)),
      ("imap_username", .get "imap_username" .none),
      ("imap_use_ssl", .get "imap_use_ssl" (.bool true)),
      ("imap_folder", .get "imap_folder" (text "INBOX")),
      ("poll_interval_seconds", .get "poll_interval_seconds" (.int 15)),
      ("smtp_password", .fill "smtp_password"), ("imap_password", .fill "imap_password")]
  create := items ["name", "address", "smtp_host"] ++
    [("smtp_port", .get "smtp_port" (.int 587)), ("smtp_username", .get "smtp_username" .none),
      ("smtp_password", .const .none), ("smtp_use_tls", .get "smtp_use_tls" (.bool true)),
      ("imap_host", .get "imap_host" .none), ("imap_port", .get "imap_port" (.int 993)),
      ("imap_username", .get "imap_username" .none), ("imap_password", .const .none),
      ("imap_use_ssl", .get "imap_use_ssl" (.bool true)),
      ("imap_folder", .get "imap_folder" (text "INBOX")),
      ("poll_interval_seconds", .get "poll_interval_seconds" (.int 15)),
      ("is_active", .get "is_active" (.bool true)),
      ("is_default_outbound", .get "is_default_outbound" (.bool false))]
  tenant := some env.T.token

def connectors : Section where
  kind := .connector
  reach := .own
  key := items ["name"]
  update :=
    [("connector_type", .item "connector_type"), ("description", .get "description" .none),
      ("config_schema", .get "config_schema" dict), ("config", .get "config" dict),
      ("enabled", .get "enabled" (.bool true)), ("credentials", .fill "credentials")]
  create := items ["name", "connector_type"] ++
    [("description", .get "description" .none), ("config_schema", .get "config_schema" dict),
      ("config", .get "config" dict), ("credentials", .const dict),
      ("enabled", .get "enabled" (.bool true))]
  tenant := some env.T.token
  records := true

def processDefinitions : Section where
  kind := .process
  reach := .anyone
  key := items ["name", "version"]
  update :=
    [("bpmn_xml", .item "bpmn_xml"), ("description", .get "description" .none),
      ("status", .get "status" (text "active"))]
  create := items ["name", "version"] ++
    [("description", .get "description" .none), ("bpmn_xml", .item "bpmn_xml"),
      ("case_type_id", .get "case_type_id" .none), ("status", .get "status" (text "active"))]
  tenant := some env.T.token

def processDefinition (e : Dict) : Step Unit :=
  match env.unsafeScripts ((e.get "bpmn_xml").or (text "")) with
  | some findings => .fail (.refused ("unsafe script refused: " ++ findings))
  | none => upsert env (processDefinitions env) e

def ruleDefinitions : Section where
  kind := .rule
  reach := .inherited
  key := items ["name", "version"]
  update :=
    [("definition_json", .item "definition_json"), ("enabled", .get "enabled" (.bool true)),
      ("priority", .get "priority" (.int 0))]
  create := items ["name", "version", "rule_type"] ++
    [("scope", .get "scope" (text "global")), ("scope_target_id", .get "scope_target_id" .none),
      ("definition_json", .item "definition_json"), ("enabled", .get "enabled" (.bool true)),
      ("priority", .get "priority" (.int 0))]
  tenant := env.T.newOwner

/-! ## with references -/

/-- `X_id_map.get(e.get(key) or "")` -/
def reference (k : Kind) (e : Dict) (key : String) : Step (Option Guid) :=
  mapped k ((e.get key).or (text ""))

def guid : Option Guid → Value
  | some id => .str id
  | none => .none

def known (column : String) : Option Guid → List (String × Src)
  | some id => [(column, .const (.str id))]
  | none => []

def formDefinitions (dataModel : Option Guid) : Section where
  kind := .form
  reach := .inherited
  key := items ["name", "version"]
  update := items ["definition_json"] ++ known "data_model_id" dataModel
  create := items ["name", "version"] ++ [("data_model_id", .const (guid dataModel))] ++
    items ["definition_json"]
  tenant := env.T.newOwner

def formDefinition (e : Dict) : Step Unit := do
  let row ← locate env (formDefinitions env none) e
  let dataModel ← reference .dataModel e "data_model_id"
  store env (formDefinitions env dataModel) e row

def escalationTrees (caseType : Option Guid) : Section where
  kind := .escalation
  reach := .anyone
  key := items ["name"]
  update :=
    [("description", .get "description" (text "")), ("scope", .get "scope" (text "global")),
      ("case_type_id", .const (guid caseType)), ("tree_json", .item "tree_json"),
      ("is_active", .get "is_active" (.bool true))]
  create := items ["name"] ++
    [("description", .get "description" (text "")), ("scope", .get "scope" (text "global")),
      ("case_type_id", .const (guid caseType)), ("tree_json", .item "tree_json"),
      ("is_active", .get "is_active" (.bool true))]
  tenant := some env.T.token

def escalationTree (e : Dict) : Step Unit := do
  let caseType ← reference .caseType e "case_type_id"
  upsert env (escalationTrees env caseType) e

/-- the secret that is here stays; the table names no tenant -/
def webhookSubscriptions (caseType : Option Guid) : Section where
  kind := .webhook
  reach := .anyone
  key := items ["name", "url"]
  update :=
    [("events", .item "events"), ("case_type_id", .const (guid caseType)),
      ("is_active", .get "is_active" (.bool true)), ("headers", .get "headers" dict),
      ("retry_count", .get "retry_count" (.int 3)),
      ("timeout_seconds", .get "timeout_seconds" (.int 10)), ("secret", .fill "secret")]
  create := items ["name", "url"] ++
    [("secret", .const .none), ("events", .item "events"),
      ("case_type_id", .const (guid caseType)), ("is_active", .get "is_active" (.bool true)),
      ("headers", .get "headers" dict), ("retry_count", .get "retry_count" (.int 3)),
      ("timeout_seconds", .get "timeout_seconds" (.int 10))]
  tenant := none

def webhookSubscription (e : Dict) : Step Unit := do
  let caseType ← reference .caseType e "case_type_id"
  upsert env (webhookSubscriptions caseType) e

def outboundConnectorRules (caseType connector : Option Guid) : Section where
  kind := .outboundRule
  reach := .own
  key := items ["name"]
  update :=
    [("trigger_event", .item "trigger_event"), ("case_type_id", .const (guid caseType)),
      ("condition_expr", .get "condition_expr" .none)] ++ known "connector_id" connector ++
    [("input_mapping", .get "input_mapping" dict), ("enabled", .get "enabled" (.bool true))]
  create := items ["name", "trigger_event"] ++
    [("case_type_id", .const (guid caseType)), ("condition_expr", .get "condition_expr" .none),
      ("connector_id", .const (guid connector)), ("input_mapping", .get "input_mapping" dict),
      ("enabled", .get "enabled" (.bool true))]
  tenant := some env.T.token

def outboundConnectorRule (e : Dict) : Step Unit := do
  let caseType ← reference .caseType e "case_type_id"
  let connector ← reference .connector e "connector_id"
  upsert env (outboundConnectorRules env caseType connector) e

def receiverColumns : List (String × Src) :=
  [("case_id_field", .get "case_id_field" .none),
    ("match_case_field", .get "match_case_field" .none),
    ("match_payload_field", .get "match_payload_field" .none),
    ("field_updates", .get "field_updates" dict),
    ("advance_stage", .get "advance_stage" (.bool false)),
    ("enabled", .get "enabled" (.bool true))]

def webhookReceiverRules (connector : Option Guid) : Section where
  kind := .receiverRule
  reach := .own
  key := items ["name"]
  update := known "connector_id" connector ++ receiverColumns
  create := [("connector_id", .const (guid connector))] ++ items ["name"] ++ receiverColumns
  tenant := some env.T.token

def webhookReceiverRule (e : Dict) : Step Unit := do
  let connector ← reference .connector e "connector_id"
  upsert env (webhookReceiverRules env connector) e

def groupColumns (portal : Guid) : List (String × Src) :=
  [("portal_id", .const (.str portal)), ("role_ids", .get "role_ids" (.list [])),
    ("allowed_case_type_ids", .get "allowed_case_type_ids" (.list [text "*"])),
    ("allowed_queue_ids", .get "allowed_queue_ids" (.list [text "*"])),
    ("is_default", .get "is_default" (.bool false)),
    ("is_active", .get "is_active" (.bool true))]

def accessGroups (portal : Guid) : Section where
  kind := .group
  reach := .own
  key := items ["name"]
  update := [("description", .get "description" (text ""))] ++ groupColumns portal
  create := items ["name"] ++ [("description", .get "description" (text ""))] ++
    groupColumns portal
  tenant := some env.T.token

def accessGroup (e : Dict) : Step Unit := do
  let portal ← reference .portal e "portal_id"
  match portal with
  | none => .fail (.refused "portal_id not found in bundle/target")
  | some portal => upsert env (accessGroups env portal) e

/-! ## case types -/

def currentCaseType : List Row → Option Row
  | [] => none
  | [row] => some row
  | row :: other :: rows =>
    ((row :: other :: rows).find? fun r => r.id = env.resolveRollout row.id).or (some row)

def replaced (version : Value) (sameName : List Row) : Option Row :=
  (sameName.find? fun r => r.cols.get "version" = version).or (currentCaseType env sameName)

def byCreation (rows : List Row) : List Row :=
  rows.insertionSort fun a b => b.createdAt ≤ a.createdAt

/-- copies into the fork, each with its new id -/
def copyRows (k : Kind) (owner : Dict → Dict) : List Row → Step (List (Guid × Guid))
  | [] => pure []
  | row :: rows => do
    let id ← newId env
    insertRow k { row with id := id, cols := owner row.cols }
    let copied ← copyRows k owner rows
    pure ((row.id, id) :: copied)

def inStages (copied : List (Guid × Guid)) (r : Row) : Bool :=
  copied.any fun p => r.cols.get "stage_id" = .str p.1

def intoStage (copied : List (Guid × Guid)) (cols : Dict) : Dict :=
  match copied.find? fun p => cols.get "stage_id" = .str p.1 with
  | some p => cols.set "stage_id" (.str p.2)
  | none => cols

/-- `ownership.fork` -/
def forkCaseType (default : Row) (owner : Guid) : Step Row := do
  let forks ← rowsWhere .caseType fun r => r.tenant = some owner ∧ r.forkedFrom = some default.id
  match newest forks with
  | some row => pure row
  | none =>
    let ident := default.cols.filter fun c => c.1 = "name" ∨ c.1 = "version"
    let clash ← rowsWhere .caseType fun r => r.tenant = some owner ∧ r.fits ident
    if clash ≠ [] then
      .fail (.refused ("Your tenant already has its own '" ++
        env.runtime.str (default.cols.get "name") ++ "' v" ++
        env.runtime.str (default.cols.get "version") ++
        "; edit that one, or give your copy of the default a new version."))
    else
      let id ← newId env
      let row : Row :=
        { id := id, tenant := some owner, forkedFrom := some default.id, createdAt := env.now,
          cols := default.cols.set "is_deleted" (.bool false) }
      insertRow .caseType row
      .alter (flush env)
      let ofDefault := fun r : Row => r.cols.get "case_type_id" = .str default.id
      let stages ← rowsWhere .stage ofDefault
      let copied ← copyRows env .stage (Dict.set "case_type_id" (.str id)) stages
      .alter (flush env)
      let steps ← rowsWhere .step fun r => ofDefault r ∧ inStages copied r
      let _ ← copyRows env .step (fun cols => intoStage copied (cols.set "case_type_id" (.str id)))
        steps
      .alter (flush env)
      pure row

def caseTypeColumns : List (String × Src) :=
  [("version", .item "version"), ("description", .get "description" (text "")),
    ("icon", .get "icon" .none), ("color", .get "color" .none), ("tags", .get "tags" (.list [])),
    ("default_priority", .get "default_priority" (text "medium")),
    ("portal_enabled", .get "portal_enabled" (.bool false)),
    ("definition_json", .item "definition_json")]

/-- over the row that is there, or into a new one with an id of its own -/
def caseTypes : Section where
  kind := .caseType
  reach := .inherited
  key := items ["name"]
  update := caseTypeColumns
  create := items ["name"] ++ caseTypeColumns ++ [("is_deleted", .const (.bool false))]
  tenant := env.T.newOwner
  claims := false
  records := true

/-- a candidate of a staged rollout is a row beside the others -/
def candidates : Section :=
  { caseTypes env with tenant := env.T.ownerId, claims := true }

def note (message : String) : Step Unit :=
  .alter fun s => { s with errors := s.errors ++ [message] }

def sameName (name version : Value) (staged : Bool) : Step (List Row) := do
  let rows ← rowsWhere .caseType fun r =>
    r.cols.get "name" = name ∧ r.cols.get "is_deleted" = .bool false ∧
      (r.tenant = none ∨ r.tenant = env.T.ownerId)
  let rows := byCreation rows
  if env.T.isPlatform ∨ staged then pure rows
  else
    let own := rows.filter fun r => r.tenant.isSome
    match own, replaced env version rows, env.T.ownerId with
    | [], some base, some owner => do
      let row ← forkCaseType env base owner
      pure [row]
    | _, _, _ => pure own

def caseType (e : Dict) : Step Unit := do
  let name ← .lift (Src.take e .none (.item "name"))
  let staged := env.alongside.any fun n => name = .str n
  let version ← .lift (Src.take e .none (.item "version"))
  let rows ← sameName env name version staged
  if staged ∧ rows ≠ [] then
    if rows.any fun r => r.cols.get "version" = version then
      .fail (.refused ("version " ++ env.runtime.str version ++ " is already installed here; " ++
        "a staged rollout needs a new version number"))
    else
      let id ← create env (candidates env) e
      .alter fun s =>
        { s with
          installedAlongside := s.installedAlongside.set (env.runtime.str name) (.str id) }
  else
    let row := replaced env version rows
    match row with
    | some row =>
      if env.rolloutOpen name then
        note ("case_type " ++ env.runtime.str name ++ ": a staged rollout is open for it here; " ++
          "promote or roll it back before replacing it")
        recordId (caseTypes env) e row.id
      else overwrite (caseTypes env) e row
    | none => store env (caseTypes env) e none

/-! ## stages and steps -/

def stageColumns : List (String × Src) :=
  [("name", .item "name"), ("stage_type", .item "stage_type"), ("order", .get "order" (.int 0)),
    ("sla_policy_id", .get "sla_policy_id" .none), ("definition_json", .item "definition_json")]

def stages (caseType : Guid) : Section where
  kind := .stage
  reach := .anyone
  key := [("case_type_id", .const (.str caseType)), ("stage_id", .item "stage_id")]
  update := stageColumns
  create := [("case_type_id", .const (.str caseType)), ("stage_id", .item "stage_id")] ++
    stageColumns
  tenant := none
  claims := false
  records := true

def stage (e : Dict) : Step Unit := do
  let source ← .lift (Src.take e .none (.item "case_type_id"))
  let caseType ← mapped .caseType source
  match caseType with
  | none => countSkipped
  | some caseType => upsert env (stages caseType) e

def stepColumns : List (String × Src) :=
  items ["name", "step_type", "bpmn_element_id", "definition_json"]

def steps (caseType stage : Guid) : Section where
  kind := .step
  reach := .anyone
  key := [("case_type_id", .const (.str caseType)), ("step_id", .item "step_id")]
  update := stepColumns
  create := [("case_type_id", .const (.str caseType)), ("stage_id", .const (.str stage)),
    ("step_id", .item "step_id")] ++ stepColumns
  tenant := none
  claims := false

def step (e : Dict) : Step Unit := do
  let source ← .lift (Src.take e .none (.item "case_type_id"))
  let caseType ← mapped .caseType source
  let sourceStage ← .lift (Src.take e .none (.item "stage_id"))
  let stage ← mapped .stage sourceStage
  match caseType, stage with
  | some caseType, some stage => upsert env (steps caseType stage) e
  | _, _ => countSkipped

/-! ## bots and schedules -/

def BOT_FIELDS : List String :=
  ["name", "description", "image", "digest", "declared_command", "declared_env",
    "credential_refs", "input_schema", "output_schema", "granted_domains", "timeout_seconds",
    "max_concurrency", "resource_profile", "fanout_input_key", "fanout_max"]

def SCHEDULE_FIELDS : List String :=
  ["name", "description", "cron", "timezone", "action_kind", "action_config"]

/-- `{f: b[f] for f in fields if f in b}` -/
def given (fields : List String) (e : Dict) : Dict :=
  fields.filterMap fun f => (e.lookup f).map fun v => (f, v)

def changed (incoming cols : Dict) : Dict := incoming.filter fun c => !(cols.get c.1).eq c.2

/-- nothing that is imported runs before it is approved here -/
def asDraft : Dict :=
  [("status", text "draft"), ("approved_by", .none), ("approved_at", .none)]

def needs (kind : String) (id : Guid) (name : Value) (detail : String) : Step Unit :=
  .alter fun s =>
    { s with
      needsConfiguration := s.needsConfiguration ++
        [.dict [("type", text kind), ("id", .str id), ("name", name),
          ("missing", .list [text "approval"]), ("detail", text detail)]] }

def ownByName (k : Kind) (name : Value) : Step (Option Row) := do
  let rows ← rowsWhere k fun r => r.cols.get "name" = name ∧ r.tenant = some env.T.token
  .lift (oneOrNone rows)

def refuse : Option String → Step Unit
  | some message => .fail (.refused message)
  | none => pure ()

def botDefinition (e : Dict) : Step Unit := do
  refuse (env.registryRefuses (env.runtime.str ((e.get "image").or (text ""))))
  let row ← ownByName env .bot (e.get "name")
  refuse (env.invalidBot (given BOT_FIELDS e))
  let source := text (env.runtime.str (e.get "id"))
  match row with
  | some row =>
    let news := changed (given BOT_FIELDS e) row.cols
    if news = [] then
      record .bot source row.id
      countSkipped
    else
      writeRow .bot row.id fun cols =>
        cols.update (news ++ asDraft ++ [("last_edited_by", text env.importedBy)])
      record .bot source row.id
      countImported
      if row.cols.get "status" = text "active" then
        needs "bot_definition" row.id (e.get "name")
          ("changed by import (" ++ ", ".intercalate (news.map Prod.fst) ++
            ") — returned to draft")
      else pure ()
  | none =>
    let id ← claimId env .bot (e.get "id")
    insertRow .bot
      { id := id, tenant := some env.T.token, createdAt := env.now,
        cols := ("created_by", text env.importedBy) :: ("last_edited_by", text env.importedBy) ::
          asDraft ++ given BOT_FIELDS e }
    record .bot source id
    countImported
    needs "bot_definition" id (e.get "name")
      "imported as draft — approve it here before it can run"

/-- a reference in the configuration of an action, where its id is known -/
def remap (k : Kind) (key : String) (cfg : Dict) : Step Dict :=
  if (cfg.get key).truthy then
    .read fun s =>
      match (s.ids k).get (text (env.runtime.str (cfg.get key))) with
      | some id => cfg.set key (.str id)
      | none => cfg
  else pure cfg

def actionConfig (e : Dict) : Except Err Dict :=
  match (e.get "action_config").or dict with
  | .dict cfg => .ok cfg
  | _ => .error (.refused "cannot convert dictionary update sequence")

def schedule (e : Dict) : Step Unit := do
  let cfg ← .lift (actionConfig e)
  let cfg ← remap env .bot "bot_id" cfg
  let cfg ← remap env .connector "connector_id" cfg
  let cfg ← remap env .caseType "case_type_id" cfg
  let incoming := Dict.set "action_config" (.dict cfg) (given SCHEDULE_FIELDS e)
  let invalid ← .read fun s : State => env.invalidSchedule s.db incoming
  refuse invalid
  let row ← ownByName env .schedule (e.get "name")
  let edited := asDraft ++ [("last_edited_by", text env.importedBy), ("next_run_at", .none)]
  let written := "imported as draft — it fires nothing until approved here"
  match row with
  | some row =>
    let news := changed incoming row.cols
    if news = [] then countSkipped
    else
      writeRow .schedule row.id fun cols => cols.update (news ++ edited)
      countImported
      needs "schedule" row.id (e.get "name") written
  | none =>
    let id ← claimId env .schedule (e.get "id")
    insertRow .schedule
      { id := id, tenant := some env.T.token, createdAt := env.now,
        cols := ("created_by", text env.importedBy) :: edited ++ incoming }
    countImported
    needs "schedule" id (e.get "name") written

/-! ## the import -/

/-- the error of an item, under the name that the entry gives -/
def report (label name : String) (e : Dict) (err : Err) (s : State) : State :=
  { s with
    errors := s.errors ++ [label ++ " " ++ env.runtime.str (e.get name) ++ ": " ++ err.text] }

def each (label name : String) (item : Dict → Step Unit) (es : List Dict) (s : State) : State :=
  es.foldl (fun s e => flush env ((item e).attempt (report env label name e) s)) s

/-- one section of the bundle: its kind, how its errors are labelled, and its handler -/
structure Part where
  kind : Kind
  label : String
  name : String := "name"
  item : Dict → Step Unit

def throughCaseTypes : List Part :=
  [{ kind := .dataModel, label := "data_model", item := upsert env (dataModels env) },
    { kind := .calendar, label := "business_calendar", item := upsert env (businessCalendars env) },
    { kind := .role, label := "access_role", item := upsert env (accessRoles env) },
    { kind := .portal, label := "portal", item := upsert env (portals env) },
    { kind := .emailTemplate, label := "email_template", item := upsert env (emailTemplates env) },
    { kind := .emailAccount, label := "email_account", name := "address",
      item := upsert env (emailAccounts env) },
    { kind := .connector, label := "connector", item := upsert env (connectors env) },
    { kind := .process, label := "process_def", item := processDefinition env },
    { kind := .form, label := "form", item := formDefinition env },
    { kind := .rule, label := "rule", item := upsert env (ruleDefinitions env) },
    { kind := .caseType, label := "case_type", item := caseType env }]

def afterCaseTypes : List Part :=
  [{ kind := .stage, label := "stage", item := stage env },
    { kind := .step, label := "step", item := step env },
    { kind := .escalation, label := "escalation_tree", item := escalationTree env },
    { kind := .webhook, label := "webhook", item := webhookSubscription env },
    { kind := .outboundRule, label := "outbound_connector_rule",
      item := outboundConnectorRule env },
    { kind := .receiverRule, label := "webhook_receiver_rule", item := webhookReceiverRule env },
    { kind := .group, label := "access_group", item := accessGroup env },
    { kind := .bot, label := "bot", item := botDefinition env },
    { kind := .schedule, label := "schedule", item := schedule env }]

abbrev Entries := Kind → List Dict

def runPart (es : Entries) (s : State) (part : Part) : State :=
  each env part.label part.name part.item (es part.kind) s

def runParts (parts : List Part) (es : Entries) (s : State) : State :=
  parts.foldl (runPart env es) s

def Kind.sectionKey : Kind → String
  | dataModel => "data_models"
  | calendar => "business_calendars"
  | role => "access_roles"
  | portal => "portals"
  | emailTemplate => "email_templates"
  | emailAccount => "email_accounts"
  | connector => "connectors"
  | process => "process_definitions"
  | form => "form_definitions"
  | rule => "rule_definitions"
  | caseType => "case_types"
  | stage => "stages"
  | step => "steps"
  | escalation => "escalation_trees"
  | webhook => "webhook_subscriptions"
  | outboundRule => "outbound_connector_rules"
  | receiverRule => "webhook_receiver_rules"
  | group => "access_groups"
  | bot => "bot_definitions"
  | schedule => "schedules"

/-- `bundle.get(key, [])`, as a loop goes through it; an entry that is no object ends the import -/
def entries (bundle : Dict) (key : String) : Option (List Dict) :=
  (((bundle.lookup key).getD (.list [])).iter).bind fun es => es.mapM Value.dict?

def SUPPORTED_BUNDLE_SCHEMA_VERSIONS : List String := ["1", "2", "3"]

structure Result where
  db : Db
  imported : Nat
  skipped : Nat
  errors : List String
  needsConfiguration : List Value
  installedAlongside : Dict

def Kind.all : List Kind :=
  [.dataModel, .calendar, .role, .portal, .emailTemplate, .emailAccount, .connector, .process,
    .form, .rule, .caseType, .stage, .step, .escalation, .webhook, .outboundRule, .receiverRule,
    .group, .bot, .schedule]

def readable (bundle : Dict) : Bool := Kind.all.all fun k => (entries bundle k.sectionKey).isSome

def entriesOf (bundle : Dict) : Entries := fun k => (entries bundle k.sectionKey).getD []

/-- `none` where the import ends with an exception, and the transaction is undone -/
def applyBundle (bundle : Dict) (db : Db) : Option Result :=
  let declared := env.runtime.str ((bundle.lookup "bundle_schema_version").getD (text "1"))
  if declared ∉ SUPPORTED_BUNDLE_SCHEMA_VERSIONS ∨ readable bundle = false then none
  else
    match ((bundle.lookup "needs_configuration").getD (.list [])).iter with
    | none => none
    | some needs =>
      let es := entriesOf bundle
      let s := runParts env (throughCaseTypes env ++ afterCaseTypes env) es
        { db := db, needsConfiguration := needs }
      if s.undone then none
      else
        some
          { db := s.db
            imported := s.imported
            skipped := s.skipped
            errors := s.errors.take 20
            needsConfiguration := s.needsConfiguration
            installedAlongside := s.installedAlongside }

end HxDeploy
