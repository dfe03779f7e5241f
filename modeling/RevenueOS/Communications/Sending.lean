import Mathlib.Data.Prod.Lex
import Mathlib.Data.String.Basic
import RevenueOS.Communications.Messages
import RevenueOS.Leads.Forms

/-!
# RevenueOS.Communications.Sending — outbound messages and consent

`InboxService.send` (`application/crm/inbox.py`), `WhatsAppReplyService.reply`
(`application/communications/whatsapp_reply.py`) and `contact_has_consent` (`application/communications/consents.py`),
each as one call on the tables it finds.  `send` looks at the consent of the linked contact before it queues a message;
a WhatsApp message of a thread with a lead goes to `reply` instead, once a provider is configured, and `reply` does not
look.

* `queue_consented`: what `send` queues by itself has consent.
* `reply_outgoing`: a reply that is not refused reaches the provider or waits for it.
* `consent_gates_iff`: when a call sends only what it may.

Left out: audit records, events, the timeline entry and the first response.
-/

namespace RevenueOS.Communications

open RevenueOS.Py RevenueOS.Lib RevenueOS.Workflows

/-! ## Consent -/

/-- `CONSENT_TYPES`. -/
inductive ConsentType where
  | marketing
  | communication
  | dataProcessing
  | whatsappOptin
deriving DecidableEq

/-- `CONSENT_STATUSES`. -/
inductive ConsentStatus where
  | granted
  | denied
  | withdrawn
  | expired
deriving DecidableEq

structure ConsentRecord where
  id : Uuid
  tenantId : Uuid
  subjectType : String
  subjectId : Option Uuid
  consentType : ConsentType
  channel : Option Channel
  status : ConsentStatus
  withdrawsId : Option Uuid
  expiresAt : Option ℕ
  createdAt : ℕ
deriving DecidableEq

def consentTypeFor (channel : Channel) : ConsentType := if channel = .whatsapp then .whatsappOptin else .communication

namespace ConsentRecord

/-- The record is about this contact and channel. -/
def Covers (tenantId contactId : Uuid) (channel : Channel) (r : ConsentRecord) : Prop :=
  r.tenantId = tenantId ∧ r.subjectType = "contact" ∧ r.subjectId = some contactId ∧
    r.consentType = consentTypeFor channel ∧ (r.channel = some channel ∨ r.channel = none)

instance (tenantId contactId : Uuid) (channel : Channel) (r : ConsentRecord) :
    Decidable (r.Covers tenantId contactId channel) :=
  inferInstanceAs (Decidable (_ ∧ _ ∧ _ ∧ _ ∧ (_ ∨ _)))

/-- `order_by(created_at, id)`. -/
def position (r : ConsentRecord) : ℕ ×ₗ String := toLex (r.createdAt, r.id.text)

def Permits (now : ℕ) (r : ConsentRecord) : Prop := r.status = .granted ∧ ∀ deadline ∈ r.expiresAt, now < deadline

instance (now : ℕ) (r : ConsentRecord) : Decidable (r.Permits now) :=
  inferInstanceAs (Decidable (_ ∧ _))

end ConsentRecord

/-- The current record of a contact on a channel, the latest. -/
def currentConsent (records : List ConsentRecord) (tenantId contactId : Uuid) (channel : Channel) :
    Option ConsentRecord :=
  (records.filter fun r => r.Covers tenantId contactId channel).argmax ConsentRecord.position

/-- `contact_has_consent`. -/
def contactHasConsent (records : List ConsentRecord) (tenantId contactId : Uuid) (channel : Channel) (now : ℕ) :
    Bool :=
  match currentConsent records tenantId contactId channel with
  | none => false
  | some r => decide (r.Permits now)

/-! ## Channels and providers -/

/-- What `get_settings()` says of the providers. -/
structure ChannelSettings where
  whatsappConfigured : Bool
  emailConfigured : Bool
  voiceConfigured : Bool
  webchatEnabled : Bool

/-- `channel_ready`. -/
def channelReady (cfg : ChannelSettings) : Channel → Bool
  | .whatsapp => cfg.whatsappConfigured
  | .email => cfg.emailConfigured
  | .voice => cfg.voiceConfigured
  | .sms => false
  | .webChat => cfg.webchatEnabled

structure OutboundMessage where
  tenantId : Uuid
  recipient : String
  channel : Channel
  body : String
  idempotencyKey : String

structure ProviderResult where
  ok : Bool
  externalId : Option String
  queued : Bool
  errorCode : Option String
  errorMessage : Option String

/-- The provider as a call finds it: the text of an open circuit, and its answer to a message. -/
structure Provider where
  circuitOpen : Option String
  answer : OutboundMessage → ProviderResult

/-- `WhatsAppAdapter.send`, with the messages that it posts to the provider. -/
def adapterSend (cfg : ChannelSettings) (provider : Provider) (message : OutboundMessage) :
    ProviderResult × List OutboundMessage :=
  if !cfg.whatsappConfigured then
    (⟨false, none, true, some "PROVIDER_NOT_CONFIGURED", some "WhatsApp is not activated; the message was queued."⟩,
      [])
  else
    match provider.circuitOpen with
    | some text => (⟨false, none, true, some "PROVIDER_UNAVAILABLE", some text⟩, [])
    | none => (provider.answer message, [message])

/-! ## The calls -/

structure InboxTables where
  conversations : Table Conversation.id
  messages : Table Message.key
  leads : Table LeadRow.id
  consents : List ConsentRecord

/-- Who calls, and the rows that the scope of the role shows. -/
structure Caller where
  tenantId : Uuid
  sees : Conversation → Bool
  seesLead : LeadRow → Bool

/-- What a call takes from its surroundings: the clock and new identifiers. -/
structure Moment where
  now : ℕ
  messageId : Uuid
  threadId : Uuid

/-- `get_scoped`: a row of the workspace that was not deleted and is in scope. -/
def visibleConversation (caller : Caller) (db : InboxTables) (id : Uuid) : Option Conversation :=
  (db.conversations.find? id).filter fun c => c.tenantId = caller.tenantId ∧ c.deletedAt = none ∧ caller.sees c = true

def visibleLead (caller : Caller) (db : InboxTables) (id : Uuid) : Option LeadRow :=
  (db.leads.find? id).filter fun l => l.tenantId = caller.tenantId ∧ l.deletedAt = none ∧ caller.seesLead l = true

/-- `try_normalize_phone`. -/
def tryNormalizePhone (raw : Option String) : Option String :=
  match raw with
  | none => none
  | some raw => if raw = "" then none else Leads.normalizePhone raw

/-- What a call leaves: what it posted to the provider, the row of the message, and the tables. -/
structure Outcome where
  posted : List OutboundMessage
  message : Message
  db : InboxTables

/-- The row of a thread, inserted or updated. -/
def InboxTables.saveConversation (db : InboxTables) (c : Conversation) : InboxTables :=
  { db with
    conversations :=
      if (db.conversations.find? c.id).isSome then db.conversations.set c else db.conversations.insert c }

/-- `MAX_CHARS`. -/
def maxChars : ℕ := 4096

/-- The row that `reply` writes. -/
def replyMessage (tenantId conversationId : Uuid) (moment : Moment) (body : String) (result : ProviderResult) :
    Message where
  id := moment.messageId
  createdAt := moment.now
  tenantId := tenantId
  conversationId := conversationId
  channel := .whatsapp
  direction := .outbound
  content := some body
  status := if result.ok then .sent else if result.queued then .pending else .failed
  failureReason := if result.ok then none else some (slice (result.errorMessage.getD "") 300)
  externalId := result.externalId
  deliveredAt := none
  readAt := none

/-- `WhatsAppReplyService.reply`. -/
def reply (cfg : ChannelSettings) (provider : Provider) (caller : Caller) (db : InboxTables) (moment : Moment)
    (leadId : Uuid) (text : String) : Except CommsError Outcome :=
  let body := strip text
  if body = "" then .error (.validation "A reply cannot be empty.")
  else if maxChars < body.length then .error (.validation "WhatsApp messages are limited to 4096 characters.")
  else
    match visibleLead caller db leadId with
    | none => .error (.notFound "Lead not found.")
    | some lead =>
      match tryNormalizePhone lead.phone with
      | none => .error (.validation "This prospect has no usable WhatsApp number.")
      | some recipient =>
        let sent := adapterSend cfg provider ⟨caller.tenantId, recipient, .whatsapp, body, moment.messageId.text⟩
        let thread := conversationFor db.conversations.rows caller.tenantId leadId (some lead.toLeadOwner)
          moment.threadId moment.now moment.now
        let message := replyMessage caller.tenantId thread.id moment body sent.1
        .ok ⟨sent.2, message, { db.saveConversation thread with messages := db.messages.insert message }⟩

/-- The channels whose messages need consent. -/
def consentChannels : List Channel := [.whatsapp, .email, .sms, .voice]

/-- The row that `send` writes. -/
def queuedMessage (cfg : ChannelSettings) (caller : Caller) (conversationId : Uuid) (moment : Moment)
    (channel : Channel) (content : String) : Message where
  id := moment.messageId
  createdAt := moment.now
  tenantId := caller.tenantId
  conversationId := conversationId
  channel := channel
  direction := .outbound
  content := some content
  status := .queued
  failureReason :=
    if channelReady cfg channel then none
    else some (channel.name ++ " is not configured; the message is held until it is")
  externalId := none
  deliveredAt := none
  readAt := none

/-- The thread after a reply of a human. -/
def Conversation.answered (c : Conversation) (now : ℕ) : Conversation :=
  { c with
    lastMessageAt := some now
    automationStopped := true
    automationStoppedReason := if c.automationStopped then c.automationStoppedReason else some "agent_reply" }

/-- The transaction of `send`. -/
def queue (cfg : ChannelSettings) (caller : Caller) (db : InboxTables) (moment : Moment) (conversation : Conversation)
    (channel : Channel) (content : String) : Except CommsError Outcome :=
  let message := queuedMessage cfg caller conversation.id moment channel content
  let outcome : Outcome :=
    ⟨[], message,
      { db.saveConversation (conversation.answered moment.now) with messages := db.messages.insert message }⟩
  match conversation.contactId with
  | none => .ok outcome
  | some contactId =>
    if channel ∈ consentChannels ∧
        contactHasConsent db.consents caller.tenantId contactId channel moment.now = false then
      .error (.validation "No current consent permits this channel for the linked contact.")
    else .ok outcome

/-- The payload of `send`. -/
structure SendPayload where
  content : String
  channel : Option String

/-- `str(payload.get("channel") or conversation["primary_channel"])`. -/
def SendPayload.channelName (payload : SendPayload) (conversation : Conversation) : String :=
  match payload.channel with
  | none => conversation.primaryChannel.name
  | some name => if name = "" then conversation.primaryChannel.name else name

/-- The lead that a message of `send` goes to at once. -/
def directLead (cfg : ChannelSettings) (channel : Channel) (conversation : Conversation) : Option Uuid :=
  if channel = .whatsapp ∧ channelReady cfg channel = true then conversation.leadId else none

/-- `InboxService.send`. -/
def send (cfg : ChannelSettings) (provider : Provider) (caller : Caller) (db : InboxTables) (moment : Moment)
    (conversationId : Uuid) (payload : SendPayload) : Except CommsError Outcome :=
  match visibleConversation caller db conversationId with
  | none => .error (.notFound "Conversation not found.")
  | some conversation =>
    let content := strip payload.content
    if content = "" then .error (.validation "A message needs content.")
    else
      match Channel.ofName? (payload.channelName conversation) with
      | none => .error (.validation ("Unknown channel: " ++ Py.reprStr (payload.channelName conversation) ++ "."))
      | some channel =>
        match directLead cfg channel conversation with
        | some leadId => reply cfg provider caller db moment leadId content
        | none => queue cfg caller db moment conversation channel content

/-! ## Consent gates what is sent -/

/-- A message went to the provider, or waits to be sent. -/
def Outcome.Outgoing (o : Outcome) : Prop := o.posted ≠ [] ∨ o.message.status = .pending ∨ o.message.status = .queued

/-- A call of an agent, of the page of a prospect or of a workflow. -/
inductive OutboundCall where
  | send (conversationId : Uuid) (payload : SendPayload)
  | reply (leadId : Uuid) (text : String)

namespace OutboundCall

section

variable (cfg : ChannelSettings) (provider : Provider) (caller : Caller) (db : InboxTables) (moment : Moment)

def run : OutboundCall → Except CommsError Outcome
  | .send conversationId payload => Communications.send cfg provider caller db moment conversationId payload
  | .reply leadId text => Communications.reply cfg provider caller db moment leadId text

/-- The reply that `send` passes on. -/
def passedOn (conversationId : Uuid) (payload : SendPayload) : Option (Uuid × String) :=
  (visibleConversation caller db conversationId).bind fun conversation =>
    if strip payload.content = "" then none
    else
      (Channel.ofName? (payload.channelName conversation)).bind fun channel =>
        (directLead cfg channel conversation).map fun leadId => (leadId, strip payload.content)

/-- The lead and the text of the reply that a call comes to. -/
def replied : OutboundCall → Option (Uuid × String)
  | .send conversationId payload => passedOn cfg caller db conversationId payload
  | .reply leadId text => some (leadId, text)

/-- The conversations that a call is about: the one it names, and the thread of the lead it replies to. -/
def threads (call : OutboundCall) : List Conversation :=
  (match call with
    | .send conversationId _ => (db.conversations.find? conversationId).toList
    | .reply _ _ => []) ++
  (match call.replied cfg caller db with
    | some (leadId, _) => (existingThread db.conversations.rows caller.tenantId leadId).toList
    | none => [])

/-- Every contact of these conversations consents to the channel. -/
def Consented (call : OutboundCall) (channel : Channel) : Prop :=
  ∀ c ∈ call.threads cfg caller db, ∀ contactId, c.contactId = some contactId →
    contactHasConsent db.consents caller.tenantId contactId channel moment.now = true

/-- What the call sends or queues on WhatsApp, email or SMS has consent. -/
def Gated (call : OutboundCall) : Prop :=
  ∀ outcome, call.run cfg provider caller db moment = .ok outcome → outcome.Outgoing →
    outcome.message.channel ∈ [Channel.whatsapp, .email, .sms] →
      call.Consented cfg caller db moment outcome.message.channel

end

end OutboundCall

/-- The reply is not refused: it has a text that fits, and a visible lead with a number. -/
def CanReply (caller : Caller) (db : InboxTables) (leadId : Uuid) (text : String) : Prop :=
  strip text ≠ "" ∧ (strip text).length ≤ maxChars ∧
    ((visibleLead caller db leadId).bind fun lead => tryNormalizePhone lead.phone).isSome = true

section

variable {cfg : ChannelSettings} {provider : Provider} {caller : Caller} {db : InboxTables} {moment : Moment}

theorem adapterSend_outgoing (message : OutboundMessage) :
    (adapterSend cfg provider message).2 ≠ [] ∨
      (adapterSend cfg provider message).1.ok = false ∧ (adapterSend cfg provider message).1.queued = true := by
  unfold adapterSend
  split_ifs
  · exact Or.inr ⟨rfl, rfl⟩
  · cases provider.circuitOpen with
    | some text => exact Or.inr ⟨rfl, rfl⟩
    | none => exact Or.inl (List.cons_ne_nil _ _)

/-- A reply is on WhatsApp. -/
theorem reply_channel {leadId : Uuid} {text : String} {outcome : Outcome}
    (h : reply cfg provider caller db moment leadId text = .ok outcome) : outcome.message.channel = .whatsapp := by
  unfold reply at h
  dsimp only at h
  split_ifs at h
  split at h
  · cases h
  · split at h
    · cases h
    · cases h
      rfl

/-- A reply that can be made is made, whatever the consent. -/
theorem reply_outgoing {leadId : Uuid} {text : String} (h : CanReply caller db leadId text) :
    ∃ outcome, reply cfg provider caller db moment leadId text = .ok outcome ∧ outcome.Outgoing := by
  obtain ⟨hbody, hlength, hlead⟩ := h
  unfold reply
  dsimp only
  rw [if_neg hbody, if_neg (Nat.not_lt.mpr hlength)]
  cases hvisible : visibleLead caller db leadId with
  | none =>
    rw [hvisible] at hlead
    cases hlead
  | some lead =>
    rw [hvisible, Option.bind_some] at hlead
    obtain ⟨recipient, hrecipient⟩ := Option.isSome_iff_exists.mp hlead
    dsimp only
    rw [hrecipient]
    refine ⟨_, rfl, ?_⟩
    unfold Outcome.Outgoing replyMessage
    dsimp only
    rcases @adapterSend_outgoing cfg provider
      ⟨caller.tenantId, recipient, .whatsapp, strip text, moment.messageId.text⟩ with hposted | ⟨hok, hqueued⟩
    · exact Or.inl hposted
    · rw [hok, hqueued]
      exact Or.inr (Or.inl rfl)

/-- A reply that is made could be made. -/
theorem canReply_of_reply {leadId : Uuid} {text : String} {outcome : Outcome}
    (h : reply cfg provider caller db moment leadId text = .ok outcome) : CanReply caller db leadId text := by
  unfold reply at h
  dsimp only at h
  split_ifs at h with hbody hlength
  refine ⟨hbody, Nat.not_lt.mp hlength, ?_⟩
  split at h
  · cases h
  · rename_i lead hvisible
    split at h
    · cases h
    · rename_i recipient hrecipient
      rw [hvisible, Option.bind_some, hrecipient]
      rfl

/-- What `send` queues by itself has consent. -/
theorem queue_consented {conversation : Conversation} {channel : Channel} {content : String} {outcome : Outcome}
    (h : queue cfg caller db moment conversation channel content = .ok outcome) :
    outcome.message.channel = channel ∧ (channel ∈ consentChannels → ∀ contactId,
      conversation.contactId = some contactId →
        contactHasConsent db.consents caller.tenantId contactId channel moment.now = true) := by
  unfold queue at h
  dsimp only at h
  split at h
  · rename_i hnone
    cases h
    refine ⟨rfl, fun _ contactId hcontact => ?_⟩
    rw [hnone] at hcontact
    cases hcontact
  · rename_i contactId hcontact
    split_ifs at h with hrefused
    cases h
    refine ⟨rfl, fun hchannel contactId' hcontact' => ?_⟩
    rw [hcontact] at hcontact'
    obtain rfl := Option.some.inj hcontact'
    rw [not_and, Bool.not_eq_false] at hrefused
    exact hrefused hchannel

/-- `send` refuses, passes a reply on, or queues. -/
theorem send_cases (conversationId : Uuid) (payload : SendPayload) :
    (∃ error, send cfg provider caller db moment conversationId payload = .error error ∧
        OutboundCall.passedOn cfg caller db conversationId payload = none) ∨
      (∃ leadId text, OutboundCall.passedOn cfg caller db conversationId payload = some (leadId, text) ∧
        send cfg provider caller db moment conversationId payload =
          reply cfg provider caller db moment leadId text) ∨
      ∃ conversation channel, OutboundCall.passedOn cfg caller db conversationId payload = none ∧
        db.conversations.find? conversationId = some conversation ∧
        send cfg provider caller db moment conversationId payload =
          queue cfg caller db moment conversation channel (strip payload.content) := by
  unfold send OutboundCall.passedOn
  cases hvisible : visibleConversation caller db conversationId with
  | none => exact Or.inl ⟨_, rfl, rfl⟩
  | some conversation =>
    have hfind : db.conversations.find? conversationId = some conversation :=
      (Option.filter_eq_some_iff.mp hvisible).1
    dsimp only [Option.bind_some]
    by_cases hcontent : strip payload.content = ""
    · rw [if_pos hcontent, if_pos hcontent]
      exact Or.inl ⟨_, rfl, rfl⟩
    · rw [if_neg hcontent, if_neg hcontent]
      cases Channel.ofName? (payload.channelName conversation) with
      | none => exact Or.inl ⟨_, rfl, rfl⟩
      | some channel =>
        dsimp only [Option.bind_some]
        cases directLead cfg channel conversation with
        | some leadId => exact Or.inr (Or.inl ⟨leadId, _, rfl, rfl⟩)
        | none => exact Or.inr (Or.inr ⟨conversation, channel, rfl, hfind, rfl⟩)

namespace OutboundCall

/-- A call that comes to a reply is that reply. -/
theorem run_of_replied {call : OutboundCall} {leadId : Uuid} {text : String}
    (h : call.replied cfg caller db = some (leadId, text)) :
    call.run cfg provider caller db moment = Communications.reply cfg provider caller db moment leadId text := by
  cases call with
  | reply leadId' text' =>
    cases h
    rfl
  | send conversationId payload =>
    rcases @send_cases cfg provider caller db moment conversationId payload with
      ⟨_, -, hnone⟩ | ⟨leadId', text', hsome, heq⟩ | ⟨_, _, hnone, -⟩
    · cases hnone.symm.trans h
    · cases hsome.symm.trans h
      exact heq
    · cases hnone.symm.trans h

/-- **A call sends or queues only what has consent exactly if the contacts of its threads consent to WhatsApp whenever
it comes to a reply that can be made.** -/
theorem consent_gates_iff (cfg : ChannelSettings) (provider : Provider) (caller : Caller) (db : InboxTables)
    (moment : Moment) (call : OutboundCall) :
    call.Gated cfg provider caller db moment ↔
      ∀ leadId text, call.replied cfg caller db = some (leadId, text) → CanReply caller db leadId text →
        call.Consented cfg caller db moment .whatsapp := by
  constructor
  · intro h leadId text hreplied hcan
    obtain ⟨outcome, houtcome, houtgoing⟩ := @reply_outgoing cfg provider caller db moment leadId text hcan
    have hchannel := reply_channel houtcome
    rw [← run_of_replied hreplied] at houtcome
    have hconsented := h outcome houtcome houtgoing
    rw [hchannel] at hconsented
    exact hconsented (by decide)
  · intro h outcome houtcome _ hchannel
    cases hreplied : call.replied cfg caller db with
    | some replied =>
      obtain ⟨leadId, text⟩ := replied
      rw [run_of_replied hreplied] at houtcome
      rw [reply_channel houtcome]
      exact h leadId text hreplied (canReply_of_reply houtcome)
    | none =>
      cases call with
      | reply leadId text => cases hreplied
      | send conversationId payload =>
        rcases @send_cases cfg provider caller db moment conversationId payload with
          ⟨_, herror, -⟩ | ⟨_, _, hsome, -⟩ | ⟨conversation, channel, -, hfind, hqueue⟩
        · cases herror.symm.trans houtcome
        · cases hsome.symm.trans hreplied
        · obtain ⟨hsame, hconsent⟩ := queue_consented (hqueue.symm.trans houtcome)
          intro c hc contactId hcontact
          unfold threads at hc
          rw [hreplied] at hc
          dsimp only at hc
          rw [hfind, List.append_nil, Option.toList_some, List.mem_singleton] at hc
          subst hc
          rw [hsame] at hchannel ⊢
          refine hconsent ?_ contactId hcontact
          revert hchannel
          cases channel <;> decide

end OutboundCall

end

/-! ## A reply to a contact who never consented -/

/-- A provider that accepts every message. -/
def acceptingProvider : Provider := ⟨none, fun _ => ⟨true, some "wamid.1", false, none, none⟩⟩

def seesAll : Caller := ⟨sampleUuid 'a', fun _ => true, fun _ => true⟩

/-- A prospect with an Indian mobile number. -/
def knownLead : LeadRow := ⟨⟨none, none, none⟩, sampleUuid 'l', sampleUuid 'a', some "+919845012201", 0, none⟩

/-- The thread of this prospect, linked to a contact. -/
def linkedThread : Conversation where
  id := sampleUuid 'c'
  tenantId := sampleUuid 'a'
  contactId := some (sampleUuid 'p')
  leadId := some (sampleUuid 'l')
  primaryChannel := .whatsapp
  status := .active
  assigneeId := none
  teamId := none
  branchId := none
  automationStopped := false
  automationStoppedReason := none
  lastMessageAt := none
  unreadCount := 0
  version := 1
  createdAt := 0
  deletedAt := none

/-- The contact is in no consent record. -/
def noConsent : InboxTables :=
  ⟨Table.empty.insert linkedThread, Table.empty, Table.empty.insert knownLead, []⟩

/-- A deployment with WhatsApp alone. -/
def whatsappOnly : ChannelSettings := ⟨true, false, false, false⟩

def atOne : Moment := ⟨1, sampleUuid 'm', sampleUuid 't'⟩

def hello : OutboundCall := .send (sampleUuid 'c') ⟨"Hello", none⟩

/-- The provider is given the message. -/
theorem hello_posted : ¬ hello.Gated whatsappOnly acceptingProvider seesAll noConsent atOne := by
  intro h
  obtain ⟨outcome, houtcome, houtgoing⟩ := @reply_outgoing whatsappOnly acceptingProvider seesAll noConsent atOne
    (sampleUuid 'l') "Hello" ⟨by decide +kernel, by decide +kernel, by decide +kernel⟩
  have hchannel := reply_channel houtcome
  have hreplied : hello.replied whatsappOnly seesAll noConsent = some (sampleUuid 'l', "Hello") := by decide +kernel
  rw [← OutboundCall.run_of_replied hreplied] at houtcome
  have hconsented := h outcome houtcome houtgoing (by rw [hchannel]; decide)
  have hlinked : linkedThread ∈ hello.threads whatsappOnly seesAll noConsent := by decide +kernel
  have hconsent := hconsented linkedThread hlinked (sampleUuid 'p') rfl
  rw [hchannel] at hconsent
  exact Bool.false_ne_true hconsent

end RevenueOS.Communications
