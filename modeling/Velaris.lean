import Velaris.Base.Run
import Velaris.Combining.DenyOverrides
import Velaris.Arbiter.Pep
import Velaris.Arbiter.Store
import Velaris.Arbiter.Evidence
import Velaris.Ledger.Survival
import Velaris.AuditChain.Rewritten
import Velaris.Field.Dispatched
import Velaris.Crdt.Merge
import Velaris.Scheduler.Claim
import Velaris.Sla.Usable
import Velaris.Bpmn.Loaded
import Velaris.Bpmn.UserTasks
import Velaris.Bpmn.Joins
import Velaris.Field.Protocol
import Velaris.Dmn.Preserved
import Velaris.CaseEvents.Verified
import Velaris.Payments.Reconciled
import Velaris.HxGuard.Membership
import Velaris.HxGuard.CurrentUser
import Velaris.HxGuard.Coherent
import Velaris.CaseActions.Advance
import Velaris.CaseEvents.Waiting
import Velaris.Sla.Follows
import Velaris.Assignments.Followed
import Velaris.Retention.Overruled
import Velaris.LegalHold.Frozen
import Velaris.TenantTransfer.Identity
import Velaris.Handoff.Disclosed
import Velaris.Rollouts.Service
import Velaris.Rollouts.Requested
import Velaris.Rollouts.Current
import Velaris.Branches.Router
import Velaris.Branches.Faithful
import Velaris.Bpmn.Messages
import Velaris.Field.Shred
import Velaris.CaseActions.BulkStage
import Velaris.Negotiate.Composed
import Velaris.HxFusion.Executed
import Velaris.HxFusion.Resume
import Velaris.Bots.Approved
import Velaris.Bots.Leased
import Velaris.HxFusion.OneRun
import Velaris.TenantGuard.Rules
import Velaris.TenantGuard.Guard
import Velaris.TenantGuard.Passed
import Velaris.Handoff.Live
import Velaris.Outbox.Delivered
import Velaris.HxVault.Committed
import Velaris.HxDeploy.Imported
import Velaris.CaseVars.Masked
import Velaris.Engage.Restored
import Velaris.HxNexus.Erased
import Velaris.HxConsent.Lawful
import Velaris.Proofs.Verified
import Velaris.HxSync.Watermark
import Velaris.HxMcp.Once
import Velaris.Marketplace.Envelope
import Velaris.Arbiter.Impossible
import Velaris.Arbiter.Overlap
import Velaris.Arbiter.Compiled
import Velaris.Arbiter.Pruned
import Velaris.Field.Lockout
import Velaris.Field.Merged
import Velaris.Bpmn.DeadPaths
import Velaris.Sla.BusinessCalendar
import Velaris.Arbiter.Seeds
import Velaris.Sla.Timers
import Velaris.Dmn.Answered
import Velaris.Retention.Runs
import Velaris.Rollouts.Sticky
import Velaris.Negotiate.Satisfied
import Velaris.CaseEvents.Raced
import Velaris.HxGuard.Frozen
import Velaris.SafeExpression.Operators
import Velaris.SafeExpression.Bounds
import Velaris.Scheduler.Fields
import Velaris.CaseEvents.Escalate
import Velaris.CaseEvents.Priority
import Velaris.Sla.Urgency
import Velaris.SafeExpression.Script
import Velaris.HxEvolve.Gates
import Velaris.HxEvolve.Reorder
