import RevenueOS.Communications.Ingest

/-!
# RevenueOS.Communications.Inbox — customers who write again

The three ways in: `InboxService.receive` (`application/crm/inbox.py`), `ingest_inbound_message` and
`post_visitor_message` (`application/communications/webchat.py`), with what agents do to a conversation.  `receive`
makes a resolved or archived conversation active and leaves spam alone; the WhatsApp path makes every thread active;
the chat path leaves the status as it is.  `str.lower`, by which the origin of a chat is compared, is a parameter.

* `receive_received`, `ingest_received_iff`, `visitor_received_iff`: each way in, for every status it may find.
* `never_hidden_iff`: when every inbound message of a run finds its customer in the inbox.
-/

namespace RevenueOS.Communications

open RevenueOS.Py RevenueOS.Lib RevenueOS.Workflows

/-! ## `InboxService.receive` -/

/-- The row of an inbound message that is typed in or comes from a page. -/
def deliveredMessage (tenantId conversationId id : Uuid) (channel : Channel) (content : String) (now : ℕ) :
    Message where
  id := id
  createdAt := now
  tenantId := tenantId
  conversationId := conversationId
  channel := channel
  direction := .inbound
  content := some content
  status := .delivered
  failureReason := none
  externalId := none
  deliveredAt := some now
  readAt := none

/-- The thread after `receive`: one more unread message, and open again unless it is spam. -/
def Conversation.receivedAgain (c : Conversation) (now : ℕ) : Conversation :=
  { c.received now with status := if c.status = .resolved ∨ c.status = .archived then .active else c.status }

/-- A stored message and the tables it is in. -/
structure Stored where
  conversationId : Uuid
  tables : InboxTables

/-- `InboxService.receive`. -/
def receive (caller : Caller) (db : InboxTables) (now : ℕ) (conversationId : Uuid) (payload : SendPayload)
    (messageId : Uuid) : Except CommsError Stored :=
  match visibleConversation caller db conversationId with
  | none => .error (.notFound "Conversation not found.")
  | some conversation =>
    let content := strip payload.content
    if content = "" then .error (.validation "A message needs content.")
    else
      match Channel.ofName? (payload.channelName conversation) with
      | none => .error (.validation ("Unknown channel: " ++ Py.reprStr (payload.channelName conversation) ++ "."))
      | some channel =>
        .ok ⟨conversationId, { db with
          conversations := db.conversations.set (conversation.receivedAgain now)
          messages := db.messages.insert
            (deliveredMessage caller.tenantId conversationId messageId channel content now) }⟩

/-! ## `post_visitor_message` -/

/-- A row of `app.webchat_sessions`. -/
structure WebchatSession where
  tenantId : Uuid
  conversationId : Option Uuid
  sessionTokenHash : String
  origin : String
  expiresAt : ℕ
  endedAt : Option ℕ

/-- `text.rstrip("/")`. -/
def rstripSlash (text : String) : String := String.ofList (text.toList.reverse.dropWhile (· == '/')).reverse

/-- `normalise_origin`. -/
def normaliseOrigin (lower : String → String) (raw : String) : String :=
  let origin := rstripSlash (strip raw)
  let origin := if 2 < origin.toList.count '/' then join "/" ((split origin "/").take 3) else origin
  slice (lower origin) 300

/-- `MAX_MESSAGE_CHARS`. -/
def maxMessageChars : ℕ := 2000

/-- `MAX_MESSAGES_PER_SESSION`. -/
def maxMessagesPerSession : ℕ := 200

/-- `_resolve`. -/
def resolveSession (sessions : List WebchatSession) (now : ℕ) (tenantId : Uuid) (tokenHash : String) :
    Except CommsError WebchatSession := do
  let row ← scalarOneOrNone (sessions.filter fun v => v.tenantId = tenantId ∧ v.sessionTokenHash = tokenHash)
  match row with
  | none => .error (.notFound "This chat session has ended.")
  | some row =>
    if row.endedAt.isSome ∨ row.expiresAt ≤ now then .error (.notFound "This chat session has ended.") else .ok row

/-- A message of a visitor.  The token is what `_split` makes of it, a workspace and a hash, and `none` where that
raises. -/
structure VisitorMessage where
  token : Option (Uuid × String)
  body : String
  origin : String

/-- The conversation that `post_visitor_message` writes to, and its workspace. -/
def visitorTarget (lower : String → String) (db : InboxTables) (sessions : List WebchatSession) (now : ℕ)
    (v : VisitorMessage) : Except CommsError (Uuid × Conversation) :=
  let text := strip v.body
  if text = "" then .error (.validation "Type a message first.")
  else if maxMessageChars < text.length then .error (.validation "Messages are limited to 2000 characters.")
  else
    match v.token with
    | none => .error (.notFound "This chat session has ended.")
    | some (tenantId, tokenHash) => do
      let visitor ← resolveSession sessions now tenantId tokenHash
      if normaliseOrigin lower v.origin ≠ visitor.origin then
        .error (.forbidden "This site is not allowed to use this chat session.")
      else
        match visitor.conversationId with
        | none => .error (.notFound "This chat session has ended.")
        | some conversationId =>
          if maxMessagesPerSession ≤ db.messages.rows.countP fun m =>
              m.tenantId = tenantId ∧ m.conversationId = conversationId then
            .error (.validation "This conversation has reached its message limit.")
          else
            match db.conversations.find? conversationId with
            | none => .error .noResultFound
            | some conversation => .ok (tenantId, conversation)

/-- `post_visitor_message`. -/
def postVisitorMessage (lower : String → String) (db : InboxTables) (sessions : List WebchatSession) (now : ℕ)
    (v : VisitorMessage) (messageId : Uuid) : Except CommsError Stored :=
  match visitorTarget lower db sessions now v with
  | .error e => .error e
  | .ok (tenantId, conversation) =>
    .ok ⟨conversation.id, { db with
      conversations := db.conversations.set (conversation.received now)
      messages := db.messages.insert
        (deliveredMessage tenantId conversation.id messageId .webChat (strip v.body) now) }⟩

/-! ## `ingest_inbound_message`, alone -/

/-- A call that nothing overlaps. -/
def ingestAlone (s : IngestState) (event : InboundEvent) (ids : NewIds) : IngestState :=
  after IngestState.step { s with calls := [] } [.receive event, .checkDuplicate 0, .findLead 0, .commit 0 ids]

/-- The conversation it stored the message in. -/
def IngestState.storedIn (s : IngestState) : Option Uuid :=
  match s.calls with
  | [.recorded _ result] => result.conversationId
  | _ => none

/-- The thread that a message finds, where no constraint refuses the message. -/
def threadFound (s : IngestState) (event : InboundEvent) (ids : NewIds) : Option Conversation :=
  match beginIngest s event with
  | .begun e =>
    let found := findLeadByPhone s.leads e.tenantId e.phone
    if alreadyIngested s.messages e.tenantId e.externalId then none
    else
      (existingThread s.conversations.rows e.tenantId (found.getD ids.lead)).filter fun c =>
        (saveLead s.leads e found ids.lead).isSome &&
          (saveMessage s.messages (inboundMessage e c.id ids.message)).isSome
  | _ => none

/-! ## Agents -/

/-- The fields of `update_conversation`; an assignee may be cleared. -/
structure ConversationChanges where
  status : Option ConversationStatus
  assigneeId : Option (Option Uuid)

/-- `update_conversation`. -/
def updateConversation (caller : Caller) (db : InboxTables) (conversationId : Uuid) (changes : ConversationChanges)
    (expectedVersion : Option ℕ) : Except CommsError InboxTables :=
  match visibleConversation caller db conversationId with
  | none => .error (.notFound "Conversation not found.")
  | some c =>
    if expectedVersion.isSome ∧ expectedVersion ≠ some c.version then
      .error (.preconditionFailed "The resource was modified by someone else.")
    else
      .ok { db with
        conversations := db.conversations.set { c with
          status := changes.status.getD c.status
          assigneeId := changes.assigneeId.getD c.assigneeId
          version := c.version + 1 } }

/-- `mark_read`. -/
def markRead (caller : Caller) (db : InboxTables) (conversationId : Uuid) : Except CommsError InboxTables :=
  match visibleConversation caller db conversationId with
  | none => .error (.notFound "Conversation not found.")
  | some c => .ok { db with conversations := db.conversations.set { c with unreadCount := 0 } }

/-- The row of `open_conversation`. -/
def openedConversation (caller : Caller) (id : Uuid) (channel : Channel) (contactId assigneeId : Option Uuid)
    (now : ℕ) : Conversation where
  id := id
  tenantId := caller.tenantId
  contactId := contactId
  leadId := none
  primaryChannel := channel
  status := .active
  assigneeId := assigneeId
  teamId := none
  branchId := none
  automationStopped := false
  automationStoppedReason := none
  lastMessageAt := none
  unreadCount := 0
  version := 1
  createdAt := now
  deletedAt := none

/-- `open_conversation`; `seesContact` says whether the caller may read the contact. -/
def openConversation (caller : Caller) (seesContact : Uuid → Bool) (db : InboxTables) (now : ℕ) (id : Uuid)
    (primaryChannel : Option String) (contactId assigneeId : Option Uuid) : Except CommsError InboxTables :=
  match Channel.ofName? (primaryChannel.getD "web_chat") with
  | none => .error (.validation ("Unknown channel: " ++ Py.reprStr (primaryChannel.getD "web_chat") ++ "."))
  | some channel =>
    if contactId.any (fun c => !seesContact c) then .error (.notFound "Contact not found.")
    else .ok { db with
      conversations := db.conversations.insert (openedConversation caller id channel contactId assigneeId now) }

/-! ## Runs -/

structure InboxState where
  now : ℕ
  channels : List ChannelRow
  sessions : List WebchatSession
  tables : InboxTables

inductive InboxStep where
  | tick (microseconds : ℕ)
  | receive (caller : Caller) (conversationId : Uuid) (payload : SendPayload) (messageId : Uuid)
  | ingest (event : InboundEvent) (ids : NewIds)
  | visitor (message : VisitorMessage) (messageId : Uuid)
  | openConversation (caller : Caller) (seesContact : Uuid → Bool) (id : Uuid) (primaryChannel : Option String)
      (contactId assigneeId : Option Uuid)
  | updateConversation (caller : Caller) (conversationId : Uuid) (changes : ConversationChanges)
      (expectedVersion : Option ℕ)
  | markRead (caller : Caller) (conversationId : Uuid)
  | outbound (call : OutboundCall) (cfg : ChannelSettings) (provider : Provider) (caller : Caller)
      (messageId threadId : Uuid)

namespace InboxState

/-- The tables that a WhatsApp message reads and writes. -/
def forIngest (s : InboxState) : IngestState :=
  ⟨s.now, s.channels, s.tables.leads, s.tables.conversations, s.tables.messages, []⟩

/-- A call that may raise, and then leaves the tables as they are. -/
def withTables (s : InboxState) (result : Except CommsError InboxTables) : InboxState :=
  match result with
  | .ok tables => { s with tables }
  | .error _ => s

def ingest (s : InboxState) (event : InboundEvent) (ids : NewIds) : InboxState :=
  let t := ingestAlone s.forIngest event ids
  { s with tables := { s.tables with leads := t.leads, conversations := t.conversations, messages := t.messages } }

def step (lower : String → String) (s : InboxState) : InboxStep → InboxState
  | .tick microseconds => { s with now := s.now + microseconds }
  | .receive caller conversationId payload messageId =>
    s.withTables ((Communications.receive caller s.tables s.now conversationId payload messageId).map (·.tables))
  | .ingest event ids => s.ingest event ids
  | .visitor message messageId =>
    s.withTables ((postVisitorMessage lower s.tables s.sessions s.now message messageId).map (·.tables))
  | .openConversation caller seesContact id primaryChannel contactId assigneeId =>
    s.withTables (openConversation caller seesContact s.tables s.now id primaryChannel contactId assigneeId)
  | .updateConversation caller conversationId changes expectedVersion =>
    s.withTables (updateConversation caller s.tables conversationId changes expectedVersion)
  | .markRead caller conversationId => s.withTables (markRead caller s.tables conversationId)
  | .outbound call cfg provider caller messageId threadId =>
    s.withTables ((call.run cfg provider caller s.tables ⟨s.now, messageId, threadId⟩).map (·.db))

end InboxState

/-- The conversation in which a step stores an inbound message. -/
def InboxStep.storesIn (lower : String → String) (s : InboxState) : InboxStep → Option Uuid
  | .receive caller conversationId payload messageId =>
    ((Communications.receive caller s.tables s.now conversationId payload messageId).toOption).map (·.conversationId)
  | .ingest event ids => (ingestAlone s.forIngest event ids).storedIn
  | .visitor message messageId =>
    ((postVisitorMessage lower s.tables s.sessions s.now message messageId).toOption).map (·.conversationId)
  | _ => none

/-- After an inbound message a conversation is active, or spam if it was spam, with one more unread message. -/
def Received (before later : Table Conversation.id) (id : Uuid) : Prop :=
  ∃ c', later.find? id = some c' ∧
    match before.find? id with
    | some c => c'.status = (if c.status = .spam then .spam else .active) ∧ c'.unreadCount = c.unreadCount + 1
    | none => c'.status = .active ∧ c'.unreadCount = 1

/-- The customer of an inbound message is not hidden. -/
def NotHidden (lower : String → String) (s : InboxState) (l : InboxStep) : Prop :=
  ∀ id, l.storesIn lower s = some id → Received s.tables.conversations (s.step lower l).tables.conversations id

/-- A WhatsApp message does not find its thread marked as spam, and a visitor does not find the conversation resolved
or archived. -/
def FindsOpen (lower : String → String) (s : InboxState) : InboxStep → Prop
  | .ingest event ids => ∀ c, threadFound s.forIngest event ids = some c → c.status ≠ .spam
  | .visitor message _ => ∀ tenantId c, visitorTarget lower s.tables s.sessions s.now message = .ok (tenantId, c) →
      c.status = .active ∨ c.status = .spam
  | _ => True

/-! ## The three ways in -/

/-- A conversation that was there, and is rewritten. -/
theorem received_set_iff {before : Table Conversation.id} {c c' : Conversation} (hfind : before.find? c.id = some c)
    (hid : c'.id = c.id) : Received before (before.set c') c.id ↔
      c'.status = (if c.status = .spam then .spam else .active) ∧ c'.unreadCount = c.unreadCount + 1 := by
  have hset : (before.set c').find? c.id = some c' := by
    rw [← hid] at hfind ⊢
    exact Table.find?_set_self hfind
  unfold Received
  rw [hset, hfind]
  constructor
  · rintro ⟨c'', heq, hrule⟩
    obtain rfl := Option.some.inj heq
    exact hrule
  · exact fun hrule => ⟨c', rfl, hrule⟩

theorem status_receivedAgain (c : Conversation) (now : ℕ) :
    (c.receivedAgain now).status = if c.status = .spam then .spam else .active := by
  unfold Conversation.receivedAgain
  cases hstatus : c.status <;> rfl

/-- `receive` obeys the rule. -/
theorem receive_received {caller : Caller} {db : InboxTables} {now : ℕ} {conversationId messageId : Uuid}
    {payload : SendPayload} {stored : Stored}
    (h : receive caller db now conversationId payload messageId = .ok stored) :
    Received db.conversations stored.tables.conversations stored.conversationId := by
  unfold receive at h
  cases hvisible : visibleConversation caller db conversationId with
  | none =>
    rw [hvisible] at h
    cases h
  | some c =>
    rw [hvisible] at h
    dsimp only at h
    split_ifs at h
    split at h
    · cases h
    · cases h
      have hfind : db.conversations.find? conversationId = some c := (Option.filter_eq_some_iff.mp hvisible).1
      obtain rfl := Table.key_of_find? hfind
      exact (@received_set_iff _ c (c.receivedAgain now) hfind rfl).mpr ⟨status_receivedAgain c now, rfl⟩

theorem visitorTarget_find {lower : String → String} {db : InboxTables} {sessions : List WebchatSession} {now : ℕ}
    {v : VisitorMessage} {tenantId : Uuid} {c : Conversation}
    (h : visitorTarget lower db sessions now v = .ok (tenantId, c)) :
    db.conversations.find? c.id = some c := by
  unfold visitorTarget at h
  dsimp only at h
  split_ifs at h
  split at h
  · cases h
  · obtain ⟨visitor, -, h⟩ := bind_eq_ok.mp h
    split_ifs at h
    split at h
    · cases h
    · split_ifs at h
      split at h
      · cases h
      · rename_i c' hfind
        cases h
        rw [Table.key_of_find? hfind]
        exact hfind

/-- The chat path obeys the rule where the conversation is open or spam. -/
theorem visitor_received_iff {lower : String → String} {db : InboxTables} {sessions : List WebchatSession} {now : ℕ}
    {v : VisitorMessage} {messageId tenantId : Uuid} {c : Conversation}
    (h : visitorTarget lower db sessions now v = .ok (tenantId, c)) :
    ∃ stored, postVisitorMessage lower db sessions now v messageId = .ok stored ∧
      (Received db.conversations stored.tables.conversations stored.conversationId ↔
        c.status = .active ∨ c.status = .spam) := by
  unfold postVisitorMessage
  rw [h]
  refine ⟨_, rfl, ?_⟩
  dsimp only
  rw [@received_set_iff _ c (c.received now) (visitorTarget_find h) rfl]
  show c.status = _ ∧ c.unreadCount + 1 = c.unreadCount + 1 ↔ _
  rw [and_iff_left rfl]
  cases c.status <;> decide

/-- A call alone, in one step. -/
theorem ingestAlone_eq (s : IngestState) (event : InboundEvent) (ids : NewIds) :
    ingestAlone s event ids =
      match beginIngest s event with
      | .begun e =>
        if alreadyIngested s.messages e.tenantId e.externalId then
          { s with calls := [.refused { accepted := false, reason := "duplicate", tenantId := some e.tenantId }] }
        else
          (IngestState.record { s with calls := [.matched e (findLeadByPhone s.leads e.tenantId e.phone)] } 0 e
            (findLeadByPhone s.leads e.tenantId e.phone) ids).getD { s with calls := [.raised] }
      | call => { s with calls := [call] } := by
  have hbegin : beginIngest { s with calls := [] } event = beginIngest s event := rfl
  unfold ingestAlone after
  rcases beginIngest_cases s event with ⟨e, heq, -⟩ | ⟨result, heq⟩ | heq
  · dsimp only [List.foldl, IngestState.step, List.nil_append]
    rw [hbegin, heq]
    dsimp only [List.getElem?_cons_zero]
    by_cases hdup : alreadyIngested s.messages e.tenantId e.externalId = true
    · simp only [if_pos hdup]
      rfl
    · simp only [if_neg hdup]
      rfl
  · dsimp only [List.foldl, IngestState.step, List.nil_append]
    rw [hbegin, heq]
    rfl
  · dsimp only [List.foldl, IngestState.step, List.nil_append]
    rw [hbegin, heq]
    rfl

theorem conversationFor_of_existing {conversations : List Conversation} {tenantId leadId : Uuid} {c : Conversation}
    (h : existingThread conversations tenantId leadId = some c) (owner : Option LeadOwner) (newId : Uuid)
    (occurredAt createdAt : ℕ) :
    conversationFor conversations tenantId leadId owner newId occurredAt createdAt =
      c.reopened (owner.getD .nobody) := by
  unfold conversationFor
  rw [h]

theorem conversationFor_of_none {conversations : List Conversation} {tenantId leadId : Uuid}
    (h : existingThread conversations tenantId leadId = none) (owner : Option LeadOwner) (newId : Uuid)
    (occurredAt createdAt : ℕ) :
    conversationFor conversations tenantId leadId owner newId occurredAt createdAt =
      newThread newId tenantId leadId (owner.getD .nobody) occurredAt createdAt := by
  unfold conversationFor
  rw [h]

/-- What a commit does to the threads. -/
theorem record_thread {s s' : IngestState} {e : Enquiry} {found : Option Uuid} {ids : NewIds}
    (h : IngestState.record { s with calls := [.matched e found] } 0 e found ids = some s') :
    (∃ c c', existingThread s.conversations.rows e.tenantId (found.getD ids.lead) = some c ∧
        (saveLead s.leads e found ids.lead).isSome = true ∧
        (saveMessage s.messages (inboundMessage e c.id ids.message)).isSome = true ∧
        c'.id = c.id ∧ c'.status = .active ∧ c'.unreadCount = c.unreadCount + 1 ∧
        s'.storedIn = some c.id ∧ s'.conversations = s.conversations.set c') ∨
      ∃ c', existingThread s.conversations.rows e.tenantId (found.getD ids.lead) = none ∧
        c'.status = .active ∧ c'.unreadCount = 1 ∧ s'.storedIn = some c'.id ∧
        s.conversations.append? [c'] = some s'.conversations := by
  unfold IngestState.record at h
  simp only [Option.bind_eq_bind, Option.bind_eq_some_iff] at h
  obtain ⟨leads, hleads, messages, hmessages, conversations, hthread, heq⟩ := h
  obtain rfl := Option.some.inj heq
  have hlead : (saveLead s.leads e found ids.lead).isSome = true := Option.isSome_iff_exists.mpr ⟨leads, hleads⟩
  have hmessage := Option.isSome_iff_exists.mpr ⟨messages, hmessages⟩
  unfold saveThread at hthread
  cases hexisting : existingThread s.conversations.rows e.tenantId (found.getD ids.lead) with
  | some c =>
    have hfor := conversationFor_of_existing hexisting
    have hstatus := status_conversationFor s.conversations.rows e.tenantId (found.getD ids.lead)
      ((leads.find? (found.getD ids.lead)).map (·.toLeadOwner)) ids.thread e.occurredAt e.occurredAt
    rw [hexisting, hfor] at hthread
    rw [hfor] at hmessage hstatus
    refine Or.inl ⟨c, _, rfl, hlead, hmessage, ?_, ?_, ?_, ?_, (Option.some.inj hthread).symm⟩
    · rfl
    · exact hstatus
    · rfl
    · show some (conversationFor s.conversations.rows e.tenantId (found.getD ids.lead) _ ids.thread e.occurredAt
        e.occurredAt).id = some c.id
      rw [hfor]
      rfl
  | none =>
    have hfor := conversationFor_of_none hexisting
    rw [hexisting, hfor] at hthread
    refine Or.inr ⟨_, rfl, ?_, ?_, ?_, hthread⟩
    · rfl
    · rfl
    · show some (conversationFor s.conversations.rows e.tenantId (found.getD ids.lead) _ ids.thread e.occurredAt
        e.occurredAt).id = _
      rw [hfor]
      rfl

/-- A commit that finds its thread and that no constraint refuses. -/
theorem record_isSome {s : IngestState} {e : Enquiry} {found : Option Uuid} {ids : NewIds} {c : Conversation}
    (hexisting : existingThread s.conversations.rows e.tenantId (found.getD ids.lead) = some c)
    (hlead : (saveLead s.leads e found ids.lead).isSome = true)
    (hmessage : (saveMessage s.messages (inboundMessage e c.id ids.message)).isSome = true) :
    (IngestState.record { s with calls := [.matched e found] } 0 e found ids).isSome = true := by
  obtain ⟨leads, hleads⟩ := Option.isSome_iff_exists.mp hlead
  obtain ⟨messages, hmessages⟩ := Option.isSome_iff_exists.mp hmessage
  have hthread : ∀ c', saveThread s.conversations e.tenantId (found.getD ids.lead) c' =
      some (s.conversations.set c') := by
    intro c'
    unfold saveThread
    rw [hexisting]
    rfl
  have hid : ∀ owner, (c.reopened owner).id = c.id := fun _ => rfl
  unfold IngestState.record
  dsimp only [Option.bind_eq_bind]
  rw [hleads, Option.bind_some, conversationFor_of_existing hexisting, hid, hmessages, Option.bind_some, hthread]
  rfl

/-- A conversation that is new. -/
theorem received_append {before later : Table Conversation.id} {c' : Conversation}
    (h : before.append? [c'] = some later) (hstatus : c'.status = .active) (hunread : c'.unreadCount = 1) :
    Received before later c'.id := by
  unfold Received
  rw [Table.find?_of_append? h (List.mem_singleton_self c')]
  exact ⟨c', Table.find?_inserted h (List.mem_singleton_self c'), hstatus, hunread⟩

/-- The WhatsApp path obeys the rule where the thread is not spam. -/
theorem ingest_received_iff (s : IngestState) (event : InboundEvent) (ids : NewIds) :
    (∀ id, (ingestAlone s event ids).storedIn = some id →
        Received s.conversations (ingestAlone s event ids).conversations id) ↔
      ∀ c, threadFound s event ids = some c → c.status ≠ .spam := by
  rw [ingestAlone_eq]
  unfold threadFound
  rcases beginIngest_cases s event with ⟨e, heq, -⟩ | ⟨result, heq⟩ | heq
  · rw [heq]
    dsimp only
    by_cases hdup : alreadyIngested s.messages e.tenantId e.externalId = true
    · rw [if_pos hdup, if_pos hdup]
      exact iff_of_true (fun id hid => by cases hid) (fun c hc => by cases hc)
    · rw [if_neg hdup, if_neg hdup]
      cases hrecord : IngestState.record { s with calls := [.matched e (findLeadByPhone s.leads e.tenantId e.phone)] }
          0 e (findLeadByPhone s.leads e.tenantId e.phone) ids with
      | none =>
        refine iff_of_true (fun id hid => by cases hid) fun c hc => ?_
        obtain ⟨hexisting, hwritten⟩ := Option.filter_eq_some_iff.mp hc
        rw [Bool.and_eq_true] at hwritten
        have hsome := record_isSome hexisting hwritten.1 hwritten.2
        rw [hrecord] at hsome
        cases hsome
      | some s' =>
        rw [Option.getD_some]
        rcases record_thread hrecord with
          ⟨c, c', hexisting, hlead, hmessage, hid, hstatus, hunread, hstored, hset⟩ |
          ⟨c', hexisting, hstatus, hunread, hstored, happend⟩
        · have hfind : s.conversations.find? c.id = some c :=
            Table.find?_of_mem (existingThread_isThreadOf hexisting).1
          have hrule := @received_set_iff _ c c' hfind hid
          rw [hstatus, hunread, and_iff_left rfl] at hrule
          rw [hexisting, hstored, hset, Option.filter_some, hlead, hmessage]
          simp only [Option.some.injEq, forall_eq', Bool.and_self, if_true, hrule]
          cases c.status <;> decide
        · rw [hexisting, hstored]
          refine iff_of_true (fun id hid => ?_) (fun c hc => by cases hc)
          rw [← Option.some.inj hid]
          exact received_append happend hstatus hunread
  · rw [heq]
    exact iff_of_true (fun id hid => by cases hid) (fun c hc => by cases hc)
  · rw [heq]
    exact iff_of_true (fun id hid => by cases hid) (fun c hc => by cases hc)

/-! ## Runs of messages and agents -/

theorem notHidden_iff (lower : String → String) (s : InboxState) (l : InboxStep) :
    NotHidden lower s l ↔ FindsOpen lower s l := by
  cases l with
  | receive caller conversationId payload messageId =>
    refine iff_of_true (fun id hid => ?_) trivial
    dsimp only [InboxStep.storesIn, InboxState.step] at hid ⊢
    cases hreceive : Communications.receive caller s.tables s.now conversationId payload messageId with
    | error e =>
      rw [hreceive] at hid
      cases hid
    | ok stored =>
      rw [hreceive] at hid
      rw [← Option.some.inj hid]
      exact receive_received hreceive
  | ingest event ids => exact ingest_received_iff s.forIngest event ids
  | visitor message messageId =>
    dsimp only [NotHidden, FindsOpen, InboxStep.storesIn, InboxState.step]
    cases htarget : visitorTarget lower s.tables s.sessions s.now message with
    | error e =>
      have hpost : postVisitorMessage lower s.tables s.sessions s.now message messageId = .error e := by
        unfold postVisitorMessage
        rw [htarget]
      rw [hpost]
      exact iff_of_true (fun id hid => by cases hid) (fun tenantId c hc => by cases hc)
    | ok target =>
      obtain ⟨tenantId, c⟩ := target
      obtain ⟨stored, hpost, hrule⟩ := @visitor_received_iff lower _ _ _ _ messageId _ _ htarget
      rw [hpost]
      constructor
      · intro h tenantId' c' hc
        cases hc
        exact hrule.mp (h _ rfl)
      · intro h id hid
        rw [← Option.some.inj hid]
        exact hrule.mpr (h tenantId c rfl)
  | tick => exact iff_of_true (fun id hid => by cases hid) trivial
  | openConversation => exact iff_of_true (fun id hid => by cases hid) trivial
  | updateConversation => exact iff_of_true (fun id hid => by cases hid) trivial
  | markRead => exact iff_of_true (fun id hid => by cases hid) trivial
  | outbound => exact iff_of_true (fun id hid => by cases hid) trivial

/-- **No inbound message of a run hides its customer, exactly if every WhatsApp message finds its thread not marked as
spam and every visitor finds the conversation active or spam.** -/
theorem never_hidden_iff (lower : String → String) (s : InboxState) (steps : List InboxStep) :
    Meets (InboxState.step lower) (NotHidden lower) s steps ↔ Meets (InboxState.step lower) (FindsOpen lower) s steps :=
  @meets_congr_of_inv _ _ _ (fun _ => True) _ _ (fun _ _ _ => trivial) (fun s l _ => notHidden_iff lower s l) steps s
    trivial

/-! ## A visitor who comes back -/

/-- A chat that an agent has resolved. -/
def resolvedChat : Conversation :=
  { linkedThread with contactId := none, leadId := none, primaryChannel := .webChat, status := .resolved }

def openSession : WebchatSession :=
  ⟨sampleUuid 'a', some (sampleUuid 'c'), "hash", "https://shop.example", 1000, none⟩

def chatInbox : InboxState :=
  ⟨1, [], [openSession], ⟨Table.empty.insert resolvedChat, Table.empty, Table.empty, []⟩⟩

def visitorAgain : VisitorMessage := ⟨some (sampleUuid 'a', "hash"), "Are you there?", "https://shop.example/"⟩

/-- The chat stays resolved. -/
theorem visitorAgain_hidden :
    ¬ Meets (InboxState.step Py.lower) (NotHidden Py.lower) chatInbox [.visitor visitorAgain (sampleUuid 'm')] := by
  rintro ⟨h, -⟩
  obtain ⟨c', hfind, hrule⟩ := h (sampleUuid 'c') (by decide +kernel)
  have hresolved : ((chatInbox.step Py.lower (.visitor visitorAgain (sampleUuid 'm'))).tables.conversations.find?
      (sampleUuid 'c')).map (·.status) = some .resolved := by decide +kernel
  have hbefore : chatInbox.tables.conversations.find? (sampleUuid 'c') = some resolvedChat := by decide +kernel
  rw [hfind] at hresolved
  rw [hbefore] at hrule
  cases (Option.some.inj hresolved).symm.trans hrule.1

end RevenueOS.Communications
