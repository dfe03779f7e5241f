import RevenueOS.Payments.StateMachine
import RevenueOS.Messaging.Event
import RevenueOS.Lib.Table

/-!
# RevenueOS.Payments.Inbound — Razorpay webhooks

`parse_webhook` and `EVENT_STATUS` (`infrastructure/integrations/razorpay.py`), `accept_verified_razorpay_event`
and its helpers (`application/payments/inbound.py`), and their composition in `razorpay_webhook`
(`api/v1/webhooks.py`) for a body whose signature has been verified.

The call reads the event row without a lock (`lookUp`), resolves the payment (`resolvePayment`), and does the
rest under the locks of the payment and of the event (`parkEvent`, `settleEvent`), up to its commit.
`acceptVerifiedRazorpayEvent` is the three in a row.  A select `FOR UPDATE` does not refresh a row that the session
has loaded already: the call goes on with the event and the payment as its first reads found them, and its flush
writes the columns it has changed.  The rows of `provider_webhook_events` are those of this provider, keyed by
their external id, which is unique.

Left out: row-level security, the audit record, logging, and what the database refuses to store (a text beyond
its column's width, a payment id another payment has), where the call raises and its transaction is undone.
-/

namespace RevenueOS.Payments

open RevenueOS.Py RevenueOS.Lib RevenueOS.Workflows RevenueOS.Messaging

/-! ## Parsing -/

/-- `EVENT_STATUS`. -/
def eventStatus : List (String × String) :=
  [("payment.authorized", "attempted"), ("payment.captured", "captured"), ("payment.failed", "failed"),
    ("refund.created", "refunded"), ("refund.processed", "refunded"), ("order.paid", "captured")]

/-- `EVENT_STATUS.get(event)`: a list or an object is unhashable. -/
def statusOf : Json → Except PyError Json
  | .str s => .ok (optionText (eventStatus.lookup s))
  | .arr _ => .error .typeError
  | .obj _ => .error .typeError
  | _ => .ok .null

/-- `word in event`. -/
def named (word : String) (event : Json) : Except PyError Bool :=
  match Json.pyIn (.str word) event with
  | some b => .ok b
  | none => .error .typeError

/-- `wrapper.get(kind, {}).get("entity")`. -/
def wrapped (wrapper : Dict) (kind : String) : Except PyError Json := do
  let inner ← (wrapper.getD kind (.obj [])).asDict
  return Dict.get inner "entity"

/-- The first entity present: the payment, the refund, the order. -/
def entityOf (wrapper : Dict) : Except PyError Json := do
  let payment ← wrapped wrapper "payment"
  if payment.truthy then return payment
  let refund ← wrapped wrapper "refund"
  if refund.truthy then return refund
  return (← wrapped wrapper "order").or (.obj [])

/-- `str(payload.get("id") or entity.get("id") or "")`. -/
def externalEventId (payload : Dict) (entity : Json) : Except PyError String := do
  if (payload.get "id").truthy then return (payload.get "id").text
  let entity ← entity.asDict
  return ((Dict.get entity "id").or (.str "")).text

/-- `entity.get("order_id") or (entity.get("id") if "order" in event else None)`. -/
def externalOrderId (fields : Dict) (event : Json) : Except PyError Json := do
  if (fields.get "order_id").truthy then return fields.get "order_id"
  if ← named "order" event then return fields.get "id"
  return .null

/-- `parse_webhook`. -/
def parseWebhook (body : Json) : Except PyError Dict := do
  let payload ← body.asDict
  let event := Dict.getD payload "event" (.str "")
  let wrapper ← (Dict.getD payload "payload" (.obj [])).asDict
  let entity ← entityOf wrapper
  let eventId ← externalEventId payload entity
  let status ← statusOf event
  let isPayment ← named "payment" event
  let fields ← entity.asDict
  let paymentId := if isPayment then Dict.get fields "id" else Dict.get fields "payment_id"
  let orderId ← externalOrderId fields event
  return [("event", event), ("external_event_id", .str eventId), ("status", status),
    ("external_payment_id", paymentId), ("external_order_id", orderId),
    ("amount_minor", Dict.get fields "amount"), ("currency", Dict.get fields "currency"),
    ("method", Dict.getD fields "method" (.str "unknown")), ("created_at", Dict.get payload "created_at"),
    ("entity", sanitizeProviderPayload entity)]

/-! ## Tables -/

/-- `PROVIDER`. -/
def provider : String := "razorpay"

/-- `PAYMENT_METHODS`. -/
def paymentMethods : List String := ["upi", "card", "netbanking", "wallet", "emi", "upi_intent", "unknown"]

structure Payment where
  id : Uuid
  tenantId : Uuid
  provider : String
  externalOrderId : Option String
  externalPaymentId : Option String
  amountMinor : ℤ
  currency : String
  status : PaymentStatus
  method : String
  providerPayload : Json
  reconciliationStatus : String
  reconciledAt : Option ℤ
  capturedAt : Option ℤ

/-- The payments, under their primary key. -/
abbrev PaymentTable := Table Payment.id

/-- A row of `provider_webhook_events`. -/
structure WebhookEvent where
  tenantId : Option Uuid
  eventType : String
  payload : Json
  processedAt : Option ℤ
  attempts : ℕ
  lastError : Option String

def WebhookEvent.processed (event : WebhookEvent) : Bool := event.processedAt.isSome

/-- The flush of an event row that was loaded as `read`. -/
def WebhookEvent.flush (read new current : WebhookEvent) : WebhookEvent where
  tenantId := flushed read.tenantId new.tenantId current.tenantId
  eventType := current.eventType
  payload := if new.payload.pyEq read.payload then current.payload else new.payload
  processedAt := flushed read.processedAt new.processedAt current.processedAt
  attempts := flushed read.attempts new.attempts current.attempts
  lastError := flushed read.lastError new.lastError current.lastError

/-- The flush of a payment that was loaded as `read`: the columns an event can change. -/
def Payment.flush (read new current : Payment) : Payment :=
  { current with
    status := flushed read.status new.status current.status
    externalPaymentId := flushed read.externalPaymentId new.externalPaymentId current.externalPaymentId
    method := flushed read.method new.method current.method
    providerPayload := if new.providerPayload.pyEq read.providerPayload then current.providerPayload
      else new.providerPayload
    reconciliationStatus := flushed read.reconciliationStatus new.reconciliationStatus current.reconciliationStatus
    reconciledAt := flushed read.reconciledAt new.reconciledAt current.reconciledAt
    capturedAt := flushed read.capturedAt new.capturedAt current.capturedAt }

structure PaymentTransition where
  tenantId : Uuid
  paymentId : Uuid
  sequence : ℕ
  fromStatus : PaymentStatus
  toStatus : PaymentStatus
  source : String
  providerEventId : String
  correlationId : Option String

structure Database where
  payments : PaymentTable
  events : String → Option WebhookEvent
  transitions : List PaymentTransition
  outbox : List EventOutbox

namespace Database

def payment? (db : Database) (id : Uuid) : Option Payment := db.payments.find? id

def setEvent (db : Database) (eventId : String) (event : WebhookEvent) : Database :=
  { db with events := Function.update db.events eventId (some event) }

/-- The flush of the row of an event, which the call has just inserted if it was not there. -/
def saveEvent (db : Database) (eventId : String) (read new : WebhookEvent) : Database :=
  db.setEvent eventId (read.flush new ((db.events eventId).getD read))

/-- The flush of a payment. -/
def savePayment (db : Database) (read new : Payment) : PaymentTable :=
  match db.payment? read.id with
  | some current => db.payments.set (read.flush new current)
  | none => db.payments

/-- The history of a payment, in the order it was written. -/
def history (db : Database) (id : Uuid) : List PaymentTransition := db.transitions.filter (·.paymentId = id)

end Database

/-! ## The call -/

inductive ReceiptState where
  | rejected | duplicate | pendingMapping | duplicateConflict | pendingReconciliation | ignored | applied
deriving DecidableEq, Repr

structure RazorpayReceipt where
  accepted : Bool
  eventId : String
  duplicate : Bool
  processed : Bool
  state : ReceiptState
  paymentId : Option String
  detail : Option String

/-- The arguments of a call, with what it draws from the clock and from `uuid7`. -/
structure Call where
  parsed : Dict
  correlationId : Option String
  now : ℤ
  timestamp : String
  outboxId : Uuid
  domainEventId : Uuid

namespace Call

/-- `str(parsed.get(key) or "").strip()`. -/
def field (parsed : Dict) (key : String) : String := strip ((parsed.get key).or (.str "")).text

def eventId (c : Call) : String := field c.parsed "external_event_id"

def eventType (c : Call) : String := field c.parsed "event"

/-- The row `_insert_event` stores. -/
def newEvent (c : Call) (tenantId : Option Uuid) : WebhookEvent where
  tenantId := tenantId
  eventType := c.eventType
  payload := sanitizeProviderPayload (.obj c.parsed)
  processedAt := none
  attempts := 0
  lastError := none

end Call

/-- `_duplicate_receipt`. -/
def duplicateReceipt (eventId : String) (event : WebhookEvent) : RazorpayReceipt :=
  ⟨true, eventId, true, event.processed, .duplicate, none, none⟩

/-- The call up to its first read: an answer, or the unprocessed row, if there is one. -/
def lookUp (db : Database) (c : Call) : RazorpayReceipt ⊕ Option WebhookEvent :=
  if c.eventId = "" ∨ c.eventType = "" then
    .inl ⟨false, c.eventId, false, false, .rejected, none,
      some "a provider event id and event type are required"⟩
  else
    match db.events c.eventId with
    | some event => if event.processed then .inl (duplicateReceipt c.eventId event) else .inr (some event)
    | none => .inr none

/-- The predicates of `_resolve_payment`. -/
def Payment.carries (p : Payment) (paymentId orderId : String) : Bool :=
  p.provider == Payments.provider &&
    ((paymentId != "" && p.externalPaymentId == some paymentId) ||
      (orderId != "" && p.externalOrderId == some orderId))

/-- The rows `_resolve_payment` selects. -/
def matchingPayments (db : Database) (paymentId orderId : String) : List Payment :=
  db.payments.rows.filter (·.carries paymentId orderId)

/-- `_resolve_payment`: the payment, or the mapping error. -/
def resolvePayment (db : Database) (parsed : Dict) : Except String Payment :=
  let paymentId := Call.field parsed "external_payment_id"
  let orderId := Call.field parsed "external_order_id"
  if paymentId = "" ∧ orderId = "" then .error "provider event has no payment or order identifier"
  else
    match matchingPayments db paymentId orderId with
    | [] => .error "payment mapping not found"
    | [payment] => .ok payment
    | _ => .error "provider identifiers resolve to different payments"

/-- `x is not None`. -/
def given : Json → Bool
  | .null => false
  | _ => true

/-- `_validate_provider_identity`. -/
def validateProviderIdentity (payment : Payment) (parsed : Dict) : Option String :=
  let paymentId := Call.field parsed "external_payment_id"
  let amount := parsed.get "amount_minor"
  let currency := parsed.get "currency"
  if payment.externalPaymentId.any (fun x => x != "" && paymentId != "" && x != paymentId) then
    some "provider payment identifier does not match the stored mapping"
  else if given amount && amount.int? != some payment.amountMinor then
    some "provider amount does not match the server-authoritative amount"
  else if given currency && currency.text != payment.currency then
    some "provider currency does not match the stored payment"
  else none

/-- `_next_transition_sequence`. -/
def nextTransitionSequence (db : Database) (paymentId : Uuid) : ℕ :=
  ((db.history paymentId).map PaymentTransition.sequence).foldl max 0 + 1

/-- The event row under its lock: as the first read found it, or the one that stood in the way of the insert, or
the inserted one. -/
def lockedEvent (db : Database) (c : Call) (existing : Option WebhookEvent) (tenantId : Option Uuid) :
    WebhookEvent :=
  match db.events c.eventId with
  | some current => existing.getD current
  | none => c.newEvent tenantId

/-- The rest of the call when no payment is found: the event is stored without a tenant. -/
def parkEvent (db : Database) (c : Call) (existing : Option WebhookEvent) (mappingError : String) :
    RazorpayReceipt × Database :=
  let event := lockedEvent db c existing none
  if event.processed then (duplicateReceipt c.eventId event, db)
  else
    (⟨true, c.eventId, existing.isSome, false, .pendingMapping, none, some mappingError⟩,
      db.saveEvent c.eventId event { event with attempts := event.attempts + 1, lastError := some mappingError })

/-- `_mark_ignored`. -/
def markIgnored (db : Database) (c : Call) (read event : WebhookEvent) (payment : Payment) (detail : String) :
    RazorpayReceipt × Database :=
  (⟨true, c.eventId, false, true, .ignored, some payment.id.text, some detail⟩,
    db.saveEvent c.eventId read { event with processedAt := some c.now, lastError := some detail })

/-- The payment after its move to `new`. -/
def movedPayment (c : Call) (payment : Payment) (new : PaymentStatus) : Payment :=
  let method := ((c.parsed.get "method").or (.str "unknown")).text
  { payment with
    status := new
    externalPaymentId :=
      if (c.parsed.get "external_payment_id").truthy && payment.externalPaymentId.isNone then
        some (c.parsed.get "external_payment_id").text
      else payment.externalPaymentId
    method := if paymentMethods.contains method then method else "unknown"
    providerPayload := sanitizeProviderPayload ((c.parsed.get "entity").or (.obj []))
    reconciliationStatus := "matched"
    reconciledAt := some c.now
    capturedAt := if new = .captured then some c.now else payment.capturedAt }

def newTransition (db : Database) (c : Call) (payment : Payment) (new : PaymentStatus) : PaymentTransition where
  tenantId := payment.tenantId
  paymentId := payment.id
  sequence := nextTransitionSequence db payment.id
  fromStatus := payment.status
  toStatus := new
  source := "webhook"
  providerEventId := c.eventId
  correlationId := c.correlationId

/-- The event a transition is published as. -/
def transitionEvent (c : Call) (payment : Payment) (new : PaymentStatus) : DomainEvent where
  eventType := "payment." ++ new.value
  tenantId := payment.tenantId
  resourceType := "payment"
  resourceId := payment.id
  payload := [("from_status", .str payment.status.value), ("to_status", .str new.value),
    ("provider", .str provider), ("external_event_id", .str c.eventId)]
  actorId := none
  actorType := "provider"
  correlationId := c.correlationId
  eventId := c.domainEventId
  occurredAt := c.now
  timestamp := c.timestamp
  schemaVersion := "1.0"

def applyTransition (db : Database) (c : Call) (read event : WebhookEvent) (payment : Payment)
    (new : PaymentStatus) : RazorpayReceipt × Database :=
  (⟨true, c.eventId, false, true, .applied, some payment.id.text, none⟩,
    { payments := db.savePayment payment (movedPayment c payment new)
      events := (db.saveEvent c.eventId read { event with processedAt := some c.now }).events
      transitions := db.transitions ++ [newTransition db c payment new]
      outbox := db.outbox ++ [outboxRow c.outboxId (transitionEvent c payment new)] })

/-- The call once the event row, which was loaded as `read`, is its own: the identity check and the state
machine. -/
def processEvent (db : Database) (c : Call) (duplicate : Bool) (read event : WebhookEvent) (payment : Payment) :
    RazorpayReceipt × Database :=
  match validateProviderIdentity payment c.parsed with
  | some error =>
    (⟨true, c.eventId, duplicate, false, .pendingReconciliation, some payment.id.text, some error⟩,
      db.saveEvent c.eventId read { event with lastError := some error })
  | none =>
    match (c.parsed.get "status").str? with
    | none => markIgnored db c read event payment "unsupported Razorpay event type"
    | some target =>
      match assertTransition payment.status target true with
      | .error exc => markIgnored db c read event payment ("out-of-order event ignored: " ++ exc)
      | .ok new =>
        if new = payment.status then markIgnored db c read event payment "payment already has this status"
        else applyTransition db c read event payment new

/-- The event row the call makes its own. -/
def claimedEvent (c : Call) (payment : Payment) (read : WebhookEvent) : WebhookEvent :=
  { read with
    tenantId := some payment.tenantId
    payload := sanitizeProviderPayload (.obj c.parsed)
    attempts := read.attempts + 1
    lastError := none }

/-- The rest of the call under the lock of `payment`, which it has as `_resolve_payment` found it.  Only a row the
first read found is checked for its tenant. -/
def settleEvent (db : Database) (c : Call) (existing : Option WebhookEvent) (payment : Payment) :
    RazorpayReceipt × Database :=
  let event := lockedEvent db c existing (some payment.tenantId)
  if existing.isSome && event.tenantId.any (· != payment.tenantId) then
    (⟨true, c.eventId, true, event.processed, .duplicateConflict, none,
      some "provider event id is already bound to another payment tenant"⟩, db)
  else if event.processed then (duplicateReceipt c.eventId event, db)
  else processEvent db c existing.isSome event (claimedEvent c payment event) payment

/-- `accept_verified_razorpay_event`, undisturbed. -/
def acceptVerifiedRazorpayEvent (db : Database) (c : Call) : RazorpayReceipt × Database :=
  match lookUp db c with
  | .inl receipt => (receipt, db)
  | .inr existing =>
    match resolvePayment db c.parsed with
    | .error mappingError => parkEvent db c existing mappingError
    | .ok payment => settleEvent db c existing payment

/-- What a delivery brings beside its body. -/
structure Delivery where
  body : Json
  correlationId : Option String
  now : ℤ
  timestamp : String
  outboxId : Uuid
  domainEventId : Uuid

/-- The call a parsed delivery makes. -/
def Delivery.call (d : Delivery) (parsed : Dict) : Call :=
  ⟨parsed, d.correlationId, d.now, d.timestamp, d.outboxId, d.domainEventId⟩

/-- `razorpay_webhook` after the signature check. -/
def razorpayWebhook (db : Database) (d : Delivery) : Except PyError (RazorpayReceipt × Database) := do
  let parsed ← parseWebhook d.body
  return acceptVerifiedRazorpayEvent db (d.call parsed)

end RevenueOS.Payments
