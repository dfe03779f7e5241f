import RevenueOS.Workflows.Triggers

/-!
# RevenueOS.Messaging.Event — domain events and their outbox rows

`DomainEvent` (`domain/base.py`), the catalogs of `domain/events/catalog.py` and the `EventOutbox` row that
carries an event.  Times are integers; the texts that `isoformat` gives are part of the event.
-/

namespace RevenueOS.Messaging

open RevenueOS.Py RevenueOS.Workflows

/-! ## Catalogs -/

/-- `PUBLIC_EVENT_TYPES`. -/
def publicEventTypes : List String :=
  ["conversation.assigned", "conversation.resolved", "message.queued", "activity.logged", "note.added",
    "note.updated", "contact.created", "contact.updated", "contact.deleted", "contact.merged", "account.created",
    "account.updated", "account.deleted", "lead.created", "lead.updated", "lead.converted", "lead.assigned",
    "opportunity.created", "opportunity.updated", "opportunity.stage_changed", "opportunity.won",
    "opportunity.lost", "task.created", "task.updated", "task.completed", "appointment.booked",
    "appointment.cancelled", "appointment.rescheduled", "appointment.completed", "payment.succeeded",
    "payment.failed", "payment.refunded", "conversation.created", "conversation.message_received",
    "conversation.closed", "document.uploaded", "document.created", "document.updated", "document.deleted",
    "document.signed", "document.shared", "workflow.execution_started", "workflow.execution_completed",
    "workflow.execution_failed", "approval.requested", "approval.approved", "approval.rejected",
    "system.quota_warning", "system.integration_disconnected"]

/-- `INTERNAL_EVENT_TYPES`: never sent to an outbound webhook. -/
def internalEventTypes : List String :=
  ["lead.qualified", "lead.disqualified", "lead.first_response_recorded", "conversation.handoff",
    "consent.granted", "consent.revoked", "file.upload_requested", "file.upload_completed",
    "file.scan_completed", "file.deleted", "analytics.export_requested", "analytics.event_emitted",
    "integration.configured", "integration.updated", "support.access_granted", "support.access_revoked",
    "bulk.operation.completed", "prompt.synced", "prompt.evaluated", "prompt.promoted", "prompt.rolled_back",
    "tenant.onboarding.updated", "tenant.onboarding.completed"]

/-- `ALL_EVENT_TYPES`. -/
def allEventTypes : List String := publicEventTypes ++ internalEventTypes

/-- `is_public`. -/
def isPublic (eventType : String) : Bool := publicEventTypes.contains eventType

/-! ## Events -/

/-- `None` as the JSON value a column of texts holds. -/
def optionText : Option String → Json
  | some s => .str s
  | none => .null

structure DomainEvent where
  eventType : String
  tenantId : Uuid
  resourceType : String
  resourceId : Uuid
  payload : Dict
  actorId : Option Uuid
  actorType : String
  correlationId : Option String
  eventId : Uuid
  occurredAt : ℤ
  timestamp : String
  schemaVersion : String

/-- `to_outbox_payload`. -/
def DomainEvent.toOutboxPayload (event : DomainEvent) : Dict :=
  [("event_id", .str event.eventId.text), ("event_type", .str event.eventType),
    ("tenant_id", .str event.tenantId.text), ("timestamp", .str event.timestamp),
    ("version", .str event.schemaVersion),
    ("resource", .obj [("type", .str event.resourceType), ("id", .str event.resourceId.text)]),
    ("actor", .obj [("id", optionText (event.actorId.map Uuid.text)), ("type", .str event.actorType)]),
    ("correlation_id", optionText event.correlationId), ("data", .obj event.payload)]

/-- A row of `audit.event_outbox`. -/
structure EventOutbox where
  id : Uuid
  occurredAt : ℤ
  eventId : Uuid
  eventType : String
  tenantId : Uuid
  resourceType : String
  resourceId : Uuid
  payload : Dict
  correlationId : Option String
  attempts : ℕ
  processedAt : Option ℤ
  lastError : Option String
  availableAt : Option ℤ

/-- `_add_outbox`: the row a new event is stored as, under the id drawn for it. -/
def outboxRow (id : Uuid) (event : DomainEvent) : EventOutbox where
  id := id
  occurredAt := event.occurredAt
  eventId := event.eventId
  eventType := event.eventType
  tenantId := event.tenantId
  resourceType := event.resourceType
  resourceId := event.resourceId
  payload := event.toOutboxPayload
  correlationId := event.correlationId
  attempts := 0
  processedAt := none
  lastError := none
  availableAt := none

end RevenueOS.Messaging
