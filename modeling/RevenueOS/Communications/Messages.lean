import Mathlib.Data.List.MinMax
import RevenueOS.Lib.Table
import RevenueOS.Workflows.Triggers

/-!
# RevenueOS.Communications.Messages — conversations and their messages

The rows of `infrastructure/database/models/communications.py` as the message paths use them, `resolve_tenant` and
`conversation_for` (`application/communications/whatsapp_ingest.py`).  Instants are microseconds.

Left out: senders, content types, media, subjects and metadata, which no rule of this development reads.
-/

namespace RevenueOS.Communications

open RevenueOS.Lib RevenueOS.Workflows

/-! ## Rows -/

/-- `CHANNEL_TYPES`. -/
inductive Channel where
  | whatsapp
  | email
  | webChat
  | voice
  | sms
deriving DecidableEq

namespace Channel

def name : Channel → String
  | whatsapp => "whatsapp"
  | email => "email"
  | webChat => "web_chat"
  | voice => "voice"
  | sms => "sms"

/-- The channel of a name; `none` where the name is not in `CHANNELS`. -/
def ofName? (text : String) : Option Channel :=
  [whatsapp, email, webChat, voice, sms].find? fun channel => channel.name = text

theorem ofName?_name (channel : Channel) : ofName? channel.name = some channel := by
  cases channel <;> decide

end Channel

/-- `MESSAGE_DIRECTIONS`. -/
inductive Direction where
  | inbound
  | outbound
deriving DecidableEq

/-- `MESSAGE_STATUSES`. -/
inductive MessageStatus where
  | pending
  | queued
  | sent
  | delivered
  | read
  | failed
  | bounced
deriving DecidableEq

structure Message where
  id : Uuid
  createdAt : ℕ
  tenantId : Uuid
  conversationId : Uuid
  channel : Channel
  direction : Direction
  content : Option String
  status : MessageStatus
  failureReason : Option String
  externalId : Option String
  deliveredAt : Option ℕ
  readAt : Option ℕ
deriving DecidableEq

/-- The primary key of the partitioned table. -/
def Message.key (m : Message) : Uuid × ℕ := (m.id, m.createdAt)

/-- `CONVERSATION_STATUSES`. -/
inductive ConversationStatus where
  | active
  | resolved
  | archived
  | spam
deriving DecidableEq

structure Conversation where
  id : Uuid
  tenantId : Uuid
  contactId : Option Uuid
  leadId : Option Uuid
  primaryChannel : Channel
  status : ConversationStatus
  assigneeId : Option Uuid
  teamId : Option Uuid
  branchId : Option Uuid
  automationStopped : Bool
  automationStoppedReason : Option String
  lastMessageAt : Option ℕ
  unreadCount : ℕ
  version : ℕ
  createdAt : ℕ
  deletedAt : Option ℕ
deriving DecidableEq

/-- A row of `app.channels`: a number or an address that a workspace owns. -/
structure ChannelRow where
  tenantId : Uuid
  channelType : Channel
  identifier : String
  deletedAt : Option ℕ
deriving DecidableEq

/-! ## Errors -/

/-- What the message paths raise. -/
inductive CommsError where
  | validation (message : String)
  | notFound (message : String)
  | forbidden (message : String)
  | preconditionFailed (message : String)
  | multipleResultsFound
  | noResultFound
deriving DecidableEq

/-- `scalar_one_or_none()`. -/
def scalarOneOrNone {α : Type} : List α → Except CommsError (Option α)
  | [] => .ok none
  | [a] => .ok (some a)
  | _ => .error .multipleResultsFound

/-- `Ingested`: what happened to an inbound event. -/
structure Ingested where
  accepted : Bool
  reason : String
  tenantId : Option Uuid := none
  leadId : Option Uuid := none
  conversationId : Option Uuid := none
  messageId : Option Uuid := none
  createdLead : Bool := false
deriving DecidableEq

/-! ## The workspace of a business number -/

def ChannelRow.Owns (c : ChannelRow) (number : String) : Prop :=
  c.channelType = .whatsapp ∧ c.identifier = number ∧ c.deletedAt = none

instance (c : ChannelRow) (number : String) : Decidable (c.Owns number) :=
  inferInstanceAs (Decidable (c.channelType = .whatsapp ∧ c.identifier = number ∧ c.deletedAt = none))

/-- `resolve_tenant`; the constraint on `app.channels` lets two workspaces register one number. -/
def resolveTenant (channels : List ChannelRow) (businessPhoneNumberId : Option String) :
    Except CommsError (Option Uuid) :=
  match businessPhoneNumberId with
  | none => .ok none
  | some number =>
    if number = "" then .ok none
    else scalarOneOrNone ((channels.filter fun c => c.Owns number).map (·.tenantId))

/-! ## The thread of a prospect -/

/-- The columns of a lead that a thread inherits. -/
structure LeadOwner where
  assigneeId : Option Uuid
  teamId : Option Uuid
  branchId : Option Uuid
deriving DecidableEq

/-- `(None, None, None)`. -/
def LeadOwner.nobody : LeadOwner := ⟨none, none, none⟩

/-- A row of `app.leads`. -/
structure LeadRow extends LeadOwner where
  id : Uuid
  tenantId : Uuid
  phone : Option String
  createdAt : ℕ
  deletedAt : Option ℕ
deriving DecidableEq

def Conversation.IsThreadOf (tenantId leadId : Uuid) (c : Conversation) : Prop :=
  c.tenantId = tenantId ∧ c.leadId = some leadId ∧ c.primaryChannel = .whatsapp ∧ c.deletedAt = none

instance (tenantId leadId : Uuid) (c : Conversation) : Decidable (c.IsThreadOf tenantId leadId) :=
  inferInstanceAs (Decidable (c.tenantId = tenantId ∧ c.leadId = some leadId ∧ c.primaryChannel = .whatsapp ∧
    c.deletedAt = none))

/-- The thread that `conversation_for` finds, the latest one. -/
def existingThread (conversations : List Conversation) (tenantId leadId : Uuid) : Option Conversation :=
  (conversations.filter fun c => c.IsThreadOf tenantId leadId).argmax (·.createdAt)

/-- An existing thread, as `conversation_for` leaves it. -/
def Conversation.reopened (c : Conversation) (owner : LeadOwner) : Conversation :=
  { c with
    status := if c.status ≠ .active then .active else c.status
    assigneeId := c.assigneeId.or owner.assigneeId
    teamId := c.teamId.or owner.teamId
    branchId := c.branchId.or owner.branchId }

/-- A new thread of `conversation_for`; `createdAt` is the instant the transaction began. -/
def newThread (id tenantId leadId : Uuid) (owner : LeadOwner) (occurredAt createdAt : ℕ) : Conversation where
  id := id
  tenantId := tenantId
  contactId := none
  leadId := some leadId
  primaryChannel := .whatsapp
  status := .active
  assigneeId := owner.assigneeId
  teamId := owner.teamId
  branchId := owner.branchId
  automationStopped := false
  automationStoppedReason := none
  lastMessageAt := some occurredAt
  unreadCount := 0
  version := 1
  createdAt := createdAt
  deletedAt := none

/-- `conversation_for`: the row it leaves, which is inserted or updated. -/
def conversationFor (conversations : List Conversation) (tenantId leadId : Uuid) (owner : Option LeadOwner)
    (newId : Uuid) (occurredAt createdAt : ℕ) : Conversation :=
  match existingThread conversations tenantId leadId with
  | some c => c.reopened (owner.getD .nobody)
  | none => newThread newId tenantId leadId (owner.getD .nobody) occurredAt createdAt

theorem status_conversationFor (conversations : List Conversation) (tenantId leadId : Uuid) (owner : Option LeadOwner)
    (newId : Uuid) (occurredAt createdAt : ℕ) :
    (conversationFor conversations tenantId leadId owner newId occurredAt createdAt).status = .active := by
  unfold conversationFor
  split
  · rename_i c _
    show (if c.status ≠ .active then ConversationStatus.active else c.status) = .active
    split_ifs with h
    · rfl
    · exact not_not.mp h
  · rfl

theorem existingThread_isThreadOf {conversations : List Conversation} {tenantId leadId : Uuid} {c : Conversation}
    (h : existingThread conversations tenantId leadId = some c) :
    c ∈ conversations ∧ c.IsThreadOf tenantId leadId := by
  have hmem := List.argmax_mem h
  rw [List.mem_filter, decide_eq_true_iff] at hmem
  exact hmem

end RevenueOS.Communications
