import RevenueOS.Py.Text
import RevenueOS.Py.Json
import RevenueOS.Py.Numerals
import RevenueOS.Py.Doubles
import RevenueOS.Py.Canonical
import RevenueOS.Py.JsonReader
import RevenueOS.Lib.Except
import RevenueOS.Lib.Assoc
import RevenueOS.Lib.Slots
import RevenueOS.Lib.Digraph
import RevenueOS.Lib.Traversal
import RevenueOS.Lib.TtlStore
import RevenueOS.Lib.Trace
import RevenueOS.Lib.Journal
import RevenueOS.Lib.Table
import RevenueOS.Lib.Pointers
import RevenueOS.Lib.Base64
import RevenueOS.Lib.OrderBy
import RevenueOS.Lib.Calendar
import RevenueOS.Lib.Rotation
import RevenueOS.Lib.RowLocks
import RevenueOS.Lib.Zones
import RevenueOS.Lib.OpenTime
import RevenueOS.Lib.Grouping
import RevenueOS.Database.Partitions
import RevenueOS.Tenants.Entitlements
import RevenueOS.Workflows.Catalog
import RevenueOS.Workflows.Dsl
import RevenueOS.Workflows.DslFacts
import RevenueOS.Workflows.Condition
import RevenueOS.Workflows.Executor
import RevenueOS.Workflows.Gating
import RevenueOS.Workflows.Enabled
import RevenueOS.Workflows.Approvals
import RevenueOS.Workflows.Control
import RevenueOS.Workflows.Triggers
import RevenueOS.Workflows.Actions
import RevenueOS.Workflows.Tasks
import RevenueOS.Workflows.Wakeups
import RevenueOS.Workflows.Suspension
import RevenueOS.Workflows.Validity
import RevenueOS.Workflows.CrashFree
import RevenueOS.Workflows.Agreement
import RevenueOS.Workflows.Tags
import RevenueOS.Workflows.Updates
import RevenueOS.Workflows.Worklist
import RevenueOS.Workflows.Graph
import RevenueOS.Workflows.Orphans
import RevenueOS.Workflows.ActionKeys
import RevenueOS.Workflows.Coverage
import RevenueOS.Workflows.ContentHash
import RevenueOS.Messaging.Event
import RevenueOS.Messaging.Outbox
import RevenueOS.Messaging.Relay
import RevenueOS.Messaging.Webhooks
import RevenueOS.Messaging.WebhookCalls
import RevenueOS.Messaging.WebhookSweep
import RevenueOS.Shared.Pagination
import RevenueOS.Shared.Timeutil
import RevenueOS.Crm.Handlers
import RevenueOS.Crm.AccountNames
import RevenueOS.Leads.Lifecycle
import RevenueOS.Leads.Importing
import RevenueOS.Leads.Importer
import RevenueOS.Leads.ImportRuns
import RevenueOS.Leads.Operations
import RevenueOS.Leads.StatusRuns
import RevenueOS.Leads.Transactions
import RevenueOS.Leads.Merging
import RevenueOS.Leads.Formulas
import RevenueOS.Leads.ImportPlans
import RevenueOS.Shared.Spreadsheet
import RevenueOS.Leads.Assignment
import RevenueOS.Leads.RoundRobin
import RevenueOS.Leads.Qualification
import RevenueOS.Leads.FirstResponse
import RevenueOS.Leads.Duplicates
import RevenueOS.Leads.Forms
import RevenueOS.Leads.Baseline
import RevenueOS.Leads.Versions
import RevenueOS.Leads.BulkPayload
import RevenueOS.Leads.BulkRuns
import RevenueOS.Payments.StateMachine
import RevenueOS.Payments.Sanitizing
import RevenueOS.Payments.Inbound
import RevenueOS.Payments.History
import RevenueOS.Payments.Accept
import RevenueOS.Payments.Order
import RevenueOS.Payments.Identifier
import RevenueOS.Payments.Refunds
import RevenueOS.Payments.Publication
import RevenueOS.Auth.Sessions
import RevenueOS.Auth.Rotation
import RevenueOS.Auth.Revocation
import RevenueOS.Auth.AccessTokens
import RevenueOS.Auth.Lockout
import RevenueOS.Auth.Guesses
import RevenueOS.Auth.Facts
import RevenueOS.Auth.RecoveryCodes
import RevenueOS.Auth.Verification
import RevenueOS.Auth.SessionCap
import RevenueOS.Auth.Encryption
import RevenueOS.Communications.Messages
import RevenueOS.Communications.Receipts
import RevenueOS.Communications.Sending
import RevenueOS.Communications.Withdrawal
import RevenueOS.Communications.Ingest
import RevenueOS.Communications.Inbox
import RevenueOS.Communications.ConsentPolicy
import RevenueOS.Leads.Origins
import RevenueOS.Crm.Deals
import RevenueOS.Crm.Appointments
import RevenueOS.Crm.SlotLocks
import RevenueOS.Crm.PublicBooking
import RevenueOS.Crm.Listing
import RevenueOS.Crm.SlaPolicy
import RevenueOS.Crm.SlotGeneration
import RevenueOS.Integrations.Circuit
import RevenueOS.Documents.Scanning
import RevenueOS.Analytics.Rollups
import RevenueOS.Analytics.StageChart
import RevenueOS.Analytics.LeadRollups
import RevenueOS.Ai.Guards
import RevenueOS.Ai.Gateway
import RevenueOS.Ai.PromptRegistry
import RevenueOS.Ai.PromptGovernance
import RevenueOS.Caching.RateLimit
import RevenueOS.Integrations.Consecutive
import RevenueOS.Logging.Redaction
import RevenueOS.Communications.PhoneKeys
import RevenueOS.Analytics.DailySeries
import RevenueOS.Lib.RegexMatches
import RevenueOS.Lib.RegexSplit
import RevenueOS.Ai.GuardPatterns
import RevenueOS.Ai.OutputRedaction
import RevenueOS.Ai.InputCuts
import RevenueOS.Ai.OutputSchema
import RevenueOS.Lib.WriteSet
import RevenueOS.Database.RowSecurity
import RevenueOS.Database.TenantRuns
import RevenueOS.Database.AppendOnly
import RevenueOS.Auth.Permissions
import RevenueOS.Auth.Invitations
import RevenueOS.Leads.FormSchemas
import RevenueOS.Leads.FormBuilder
import RevenueOS.Tenants.Onboarding
