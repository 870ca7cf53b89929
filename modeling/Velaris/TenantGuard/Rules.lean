import Mathlib.Data.List.Basic

/-!
# The tables of the tenant guard

* `Owned`   a row whose owner is its own `tenant_id`, or its parent's;
* `RULES`   path parameters, by the template of the route;
* `FIELD_RULES`   keys of the query and of the top level of a JSON body;
* `FIELD_EXEMPT`   routes that answer for a key themselves;
* `rulesFor`   the parameters of a route that are checked;
* `lookup_rulesFor`  of the rules that cover a parameter the first decides.
-/

namespace TenantGuard

/-- the tables of the rules; each has a `GUID` primary key -/
inductive Table where
  | caseType | hxWorkBoard | syncDestination | accessGroup | caseInstance | accessRole
  | workQueue | caseTypeVariable | auditStreamTarget | ssoProvider | channelEndpoint
  | complianceReport | webhookReceiverRule | outboundConnectorRule | escalationTree
  | processDefinition | processInstance | sovereigntyRule | tenantRegionAssignment
  | connectorRegistry | hxWorkStory | hxWorkSprint | hxWorkStoryRelation | hxWorkCardRelation
  | identityGroupMapping | intakeEvent | marketplaceWorkspace | marketplaceUpdate | portal
  | securityIncident | securityRule | syncRun | syncFieldMapping | syncRedactionRule | testRun
  | customerInteraction | customerProfile | customerInteractionJoin | customerBackfillProposal
  | contentRollout | legalHold | artifactBranch | componentCommit | appPackage | gdprRequest
  | formDefinition | ruleDefinition | dataModel | businessCalendar | webhookSubscription
  | caseAssignment | channelConversation | environmentRegistry | caseSession
  deriving DecidableEq

inductive Owned where
  | own (model : Table)
  /-- follow this foreign key to the parent and ask the parent instead -/
  | via (model : Table) (fk : String) (parent : Owned)
  deriving DecidableEq

def CASE_TYPE : Owned := .own .caseType
def BOARD : Owned := .own .hxWorkBoard
def DEST : Owned := .own .syncDestination
def ACCESS_GROUP : Owned := .own .accessGroup
def CASE : Owned := .own .caseInstance

inductive Spec where
  /-- `TENANT`: the id is a tenant, by its uuid or its slug -/
  | tenant
  /-- `USER`: the id is a user -/
  | user
  | owned (owned : Owned)
  deriving DecidableEq

/-- the regular expressions of `RULES` -/
inductive Pattern where
  /-- one of the texts at the start, and `butNot` not behind it -/
  | starts (texts : List String) (butNot : Option String)
  /-- `.` -/
  | anything

def Pattern.search (template : String) : Pattern → Bool
  | .starts texts butNot =>
    texts.any fun text => text.toList.isPrefixOf template.toList &&
      !(butNot.any fun u => u.toList.isPrefixOf (template.toList.drop text.length))
  | .anything => template.toList.any (· ≠ '\n')

structure Rule where
  pattern : Pattern
  param : String
  spec : Spec

def RULES : List Rule := [
  ⟨.starts ["/api/v1/tenants/"] none, "tenant_id", .tenant⟩,
  ⟨.starts ["/api/v1/tenants/"] none, "slug", .tenant⟩,
  ⟨.starts ["/api/v1/portal-admin/tenants/"] none, "slug", .tenant⟩,
  ⟨.starts ["/api/v1/access-groups/"] none, "group_id", .owned ACCESS_GROUP⟩,
  ⟨.starts ["/api/v1/marketplace/access-rules/"] none, "access_group_id", .owned ACCESS_GROUP⟩,
  ⟨.starts ["/api/v1/access-roles/"] none, "role_id", .owned (.own .accessRole)⟩,
  ⟨.starts ["/api/v1/queues/", "/api/v1/admin/queues/"] none, "queue_id",
    .owned (.own .workQueue)⟩,
  ⟨.starts ["/api/v1/variables/case-types/"] none, "variable_id",
    .owned (.via .caseTypeVariable "case_type_id" CASE_TYPE)⟩,
  ⟨.starts ["/api/v1/audit-stream/"] none, "target_id", .owned (.own .auditStreamTarget)⟩,
  ⟨.starts ["/api/v1/auth/"] none, "provider_id", .owned (.own .ssoProvider)⟩,
  ⟨.starts ["/api/v1/channels/endpoints/"] none, "endpoint_id", .owned (.own .channelEndpoint)⟩,
  ⟨.starts ["/api/v1/compliance/reports/"] none, "report_id", .owned (.own .complianceReport)⟩,
  ⟨.starts ["/api/v1/devconn/connectors/inbound/"] none, "rule_id",
    .owned (.own .webhookReceiverRule)⟩,
  ⟨.starts ["/api/v1/devconn/connectors/outbound/"] none, "rule_id",
    .owned (.own .outboundConnectorRule)⟩,
  ⟨.starts ["/api/v1/escalation-trees/"] none, "tree_id", .owned (.own .escalationTree)⟩,
  ⟨.starts ["/api/v1/fusion/definitions/"] none, "defn_id", .owned (.own .processDefinition)⟩,
  ⟨.starts ["/api/v1/fusion/instances/"] none, "instance_id", .owned (.own .processInstance)⟩,
  ⟨.starts ["/api/v1/global/sovereignty-rules/"] none, "rule_id", .owned (.own .sovereigntyRule)⟩,
  ⟨.starts ["/api/v1/global/tenant-assignments/"] none, "assignment_id",
    .owned (.own .tenantRegionAssignment)⟩,
  ⟨.starts ["/api/v1/hxbridge/"] none, "connector_id", .owned (.own .connectorRegistry)⟩,
  ⟨.starts ["/api/v1/hxwork/"] none, "board_id", .owned BOARD⟩,
  ⟨.starts ["/api/v1/hxwork/"] none, "story_id", .owned (.via .hxWorkStory "board_id" BOARD)⟩,
  ⟨.starts ["/api/v1/hxwork/"] none, "sprint_id", .owned (.own .hxWorkSprint)⟩,
  ⟨.starts ["/api/v1/hxwork/story-relations/"] none, "relation_id",
    .owned (.via .hxWorkStoryRelation "board_id" BOARD)⟩,
  ⟨.starts ["/api/v1/hxwork/relations/"] none, "relation_id",
    .owned (.via .hxWorkCardRelation "board_id" BOARD)⟩,
  ⟨.starts ["/api/v1/identity/provisioning/group-mappings/"] none, "mapping_id",
    .owned (.own .identityGroupMapping)⟩,
  ⟨.starts ["/api/v1/intake/events/"] none, "event_id",
    .owned (.via .intakeEvent "case_type_id" CASE_TYPE)⟩,
  ⟨.starts ["/api/v1/marketplace/workspaces/"] none, "workspace_id",
    .owned (.own .marketplaceWorkspace)⟩,
  ⟨.starts ["/api/v1/marketplace/updates/"] none, "update_id", .owned (.own .marketplaceUpdate)⟩,
  ⟨.starts ["/api/v1/portals/"] none, "portal_id", .owned (.own .portal)⟩,
  ⟨.starts ["/api/v1/shield/incidents/"] none, "incident_id", .owned (.own .securityIncident)⟩,
  ⟨.starts ["/api/v1/shield/rules/"] none, "rule_id", .owned (.own .securityRule)⟩,
  ⟨.starts ["/api/v1/sync/"] none, "dest_id", .owned DEST⟩,
  ⟨.starts ["/api/v1/sync/runs/"] none, "run_id", .owned (.via .syncRun "destination_id" DEST)⟩,
  ⟨.starts ["/api/v1/sync/field-mappings/"] none, "mapping_id",
    .owned (.via .syncFieldMapping "destination_id" DEST)⟩,
  ⟨.starts ["/api/v1/sync/redaction-rules/"] none, "rule_id",
    .owned (.via .syncRedactionRule "destination_id" DEST)⟩,
  ⟨.starts ["/api/v1/testsuite/runs/"] none, "run_id", .owned (.own .testRun)⟩,
  ⟨.starts ["/api/v1/engage/"] none, "interaction_id", .owned (.own .customerInteraction)⟩,
  ⟨.starts ["/api/v1/engage/"] none, "customer_id", .owned (.own .customerProfile)⟩,
  ⟨.starts ["/api/v1/engage/join-links/"] none, "join_id",
    .owned (.own .customerInteractionJoin)⟩,
  ⟨.starts ["/api/v1/engage/backfill/"] none, "proposal_id",
    .owned (.own .customerBackfillProposal)⟩,
  ⟨.starts ["/api/v1/rollouts/"] none, "rollout_id", .owned (.own .contentRollout)⟩,
  ⟨.starts ["/api/v1/legal-holds/"] none, "hold_id", .owned (.own .legalHold)⟩,
  ⟨.starts ["/api/v1/branches/"] none, "branch_id", .owned (.own .artifactBranch)⟩,
  ⟨.starts ["/api/v1/commits/"] none, "commit_id", .owned (.own .componentCommit)⟩,
  ⟨.starts ["/api/v1/apps/packages/"] none, "package_id", .owned (.own .appPackage)⟩,
  ⟨.starts ["/api/v1/apps/packages/"] none, "other_id", .owned (.own .appPackage)⟩,
  ⟨.starts ["/api/v1/enterprise/gdpr/requests/"] none, "request_id", .owned (.own .gdprRequest)⟩,
  ⟨.starts ["/api/v1/forms/"] none, "form_id", .owned (.own .formDefinition)⟩,
  ⟨.starts ["/api/v1/rules/"] none, "rule_id", .owned (.own .ruleDefinition)⟩,
  ⟨.starts ["/api/v1/data-models/"] none, "model_id", .owned (.own .dataModel)⟩,
  ⟨.starts ["/api/v1/admin/calendars/"] none, "calendar_id", .owned (.own .businessCalendar)⟩,
  ⟨.starts ["/api/v1/webhooks/"] (some "\x7bconnector_id\x7d/receive"), "webhook_id",
    .owned (.via .webhookSubscription "case_type_id" CASE_TYPE)⟩,
  ⟨.anything, "user_id", .user⟩,
  ⟨.anything, "case_type_id", .owned CASE_TYPE⟩,
  ⟨.anything, "assignment_id", .owned (.via .caseAssignment "case_id" CASE)⟩]

def FIELD_RULES : List (String × Spec) := [
  ("tenant_id", .tenant), ("tenant", .tenant), ("case_type_id", .owned CASE_TYPE),
  ("case_type_ids", .owned CASE_TYPE), ("allowed_case_type_ids", .owned CASE_TYPE),
  ("case_id", .owned CASE), ("case_ids", .owned CASE), ("parent_case_id", .owned CASE),
  ("connector_id", .owned (.own .connectorRegistry)), ("access_group_id", .owned ACCESS_GROUP),
  ("access_group_ids", .owned ACCESS_GROUP), ("portal_id", .owned (.own .portal)),
  ("allowed_queue_ids", .owned (.own .workQueue)), ("queue_id", .owned (.own .workQueue)),
  ("user_id", .user), ("manager_user_id", .user), ("delegate_user_id", .user),
  ("assign_to_user_id", .user), ("attendee_user_ids", .user), ("board_id", .owned BOARD),
  ("sprint_id", .owned (.own .hxWorkSprint)),
  ("conversation_id", .owned (.own .channelConversation)),
  ("interaction_id", .owned (.own .customerInteraction)),
  ("env_id", .owned (.own .environmentRegistry)),
  ("to_env_id", .owned (.own .environmentRegistry)),
  ("from_env_id", .owned (.own .environmentRegistry)), ("destination_id", .owned DEST),
  ("definition_id", .owned (.own .processDefinition)),
  ("session_id", .owned (.own .caseSession)), ("target_case_id", .owned CASE),
  ("to_customer_id", .owned (.own .customerProfile)),
  ("winner_id", .owned (.own .customerProfile)), ("loser_id", .owned (.own .customerProfile))]

def FIELD_EXEMPT : List (String × String) := [
  ("/api/v1/email/accounts", "tenant_id"),
  ("/api/v1/email/accounts/\x7baccount_id\x7d", "tenant_id"),
  ("/api/v1/email/templates", "tenant_id"),
  ("/api/v1/email/templates/\x7btpl_id\x7d", "tenant_id"),
  ("/api/v1/cases/bulk", "case_ids"),
  ("/api/v1/cases/bulk/stage", "case_ids"),
  ("/api/v1/cases/bulk/stage/preview", "case_ids")]

/-- `"{" + param in template` -/
def names (template param : String) : Bool :=
  template.toList.tails.any (('{' :: param.toList).isPrefixOf)

/-- one round of `rules_for` -/
def addRule (template : String) (out : List (String × Spec)) (rule : Rule) :
    List (String × Spec) :=
  if (out.lookup rule.param).isNone && names template rule.param && rule.pattern.search template
  then out ++ [(rule.param, rule.spec)]
  else out

def rulesFor (template : String) : List (String × Spec) := RULES.foldl (addRule template) []

def Rule.covers (template param : String) (rule : Rule) : Bool :=
  decide (rule.param = param) && names template param && rule.pattern.search template

def exempt (template key : String) : Bool := (template, key) ∈ FIELD_EXEMPT

def Owned.links : Owned → Nat
  | .own _ => 0
  | .via _ _ parent => parent.links + 1

def Spec.links : Spec → Nat
  | .owned o => o.links
  | .tenant | .user => 0

theorem links_rules : ∀ rule ∈ RULES, rule.spec.links ≤ 1 := by decide

theorem links_fields : ∀ rule ∈ FIELD_RULES, rule.2.links ≤ 1 := by decide

theorem lookup_addRule (template param : String) (out : List (String × Spec)) (rule : Rule) :
    (addRule template out rule).lookup param =
      (out.lookup param).or (if rule.covers template param then some rule.spec else none) := by
  rw [addRule]
  by_cases hp : rule.param = param
  · subst hp
    cases hout : out.lookup rule.param with
    | some spec => simp [hout]
    | none =>
      split
      · rename_i h
        have hcovers : rule.covers template rule.param = true := by simpa [Rule.covers] using h
        rw [List.lookup_append, hout, if_pos hcovers]
        simp
      · rename_i h
        have hcovers : ¬rule.covers template rule.param = true := by simpa [Rule.covers] using h
        rw [hout, if_neg hcovers]
        rfl
  · have hcovers : ¬rule.covers template param = true := by simp [Rule.covers, hp]
    have hne : (param == rule.param) = false := beq_false_of_ne (Ne.symm hp)
    rw [if_neg hcovers, Option.or_none]
    split
    · rw [List.lookup_append]
      simp [List.lookup_cons, hne]
    · rfl

theorem lookup_rulesFor (template param : String) :
    (rulesFor template).lookup param = (RULES.find? (·.covers template param)).map (·.spec) := by
  have hfold : ∀ (rules : List Rule) (out : List (String × Spec)),
      (rules.foldl (addRule template) out).lookup param =
        (out.lookup param).or ((rules.find? (·.covers template param)).map (·.spec)) := by
    intro rules
    induction rules with
    | nil => intro out; simp
    | cons rule rules ih =>
      intro out
      rw [List.foldl_cons, ih, lookup_addRule, Option.or_assoc, List.find?_cons]
      cases rule.covers template param <;> simp
  simpa [rulesFor] using hfold RULES []

end TenantGuard
