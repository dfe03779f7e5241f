import RevenueOS.Communications.Sending
import RevenueOS.Lib.Slots
import RevenueOS.Lib.Trace

/-!
# RevenueOS.Communications.Ingest — inbound WhatsApp messages

`ingest_inbound_message` (`application/communications/whatsapp_ingest.py`), for calls that overlap under read
committed.  A call takes its instant, looks whether the provider id was written before, looks for a lead with the last
ten digits of the sender, and commits a new lead if it found none, with the message.  What another call commits in
between is not seen: the constraint on messages has the instant in it, and none is on the number of a lead.

* `asciiDigits_normalized`: in a normalised number the digits of Python and of SQL are the same.
* `recorded_once`: in a run in which what the calls have read still holds when they commit, a message is stored once
  and a lead is created once for a number.  `redelivered_twice` is a run in which it does not.

Left out: the timeline entry, the audit record, the names and the captured data of a lead, and the Redis key in front
of the call.
-/

namespace RevenueOS.Communications

open RevenueOS.Py RevenueOS.Lib RevenueOS.Workflows

/-! ## Numbers -/

/-- `MATCH_DIGITS`. -/
def matchDigits : ℕ := 10

/-- `text[-MATCH_DIGITS:]`, and `right(text, MATCH_DIGITS)`. -/
def lastDigits (digits : List Char) : List Char := digits.drop (digits.length - matchDigits)

/-- `_match_key`. -/
def matchKey (phone : String) : Option (List Char) :=
  let digits := phone.toList.filter isDigit
  if matchDigits ≤ digits.length then some (lastDigits digits) else none

def isAsciiDigit (c : Char) : Bool := '0' ≤ c && c ≤ '9'

/-- `regexp_replace(phone, '\D', '', 'g')`. -/
def asciiDigits (phone : String) : List Char := phone.toList.filter isAsciiDigit

/-- Two senders that the last ten digits do not tell apart, or that have one text. -/
def SameNumber (phone phone' : String) : Prop :=
  phone = phone' ∨ ∃ key, matchKey phone = some key ∧ matchKey phone' = some key

/-! ### Normalised numbers -/

/-- A text of digits and plus signs. -/
def IsDialled (text : String) : Prop := ∀ c ∈ text.toList, isAsciiDigit c = true ∨ c = '+'

theorem IsDialled.drop {text : String} (h : IsDialled text) (n : ℕ) : IsDialled (text.drop n).toString := by
  intro c hc
  have hlist : (text.drop n).toString.toList = text.toList.drop n := by simp
  rw [hlist] at hc
  exact h c (List.mem_of_mem_drop hc)

theorem IsDialled.append {text text' : String} (h : IsDialled text) (h' : IsDialled text') :
    IsDialled (text ++ text') := by
  intro c hc
  rw [String.toList_append] at hc
  rcases List.mem_append.mp hc with hc | hc
  · exact h c hc
  · exact h' c hc

theorem IsDialled.ite {p : Prop} [Decidable p] {text text' : String} (h : IsDialled text) (h' : IsDialled text') :
    IsDialled (if p then text else text') := by
  split_ifs
  · exact h
  · exact h'

theorem isDialled_plus : IsDialled "+" := by
  intro c hc
  have hc : c = '+' := by simpa using hc
  exact Or.inr hc

theorem isDialled_india : IsDialled "+91" := by
  intro c hc
  have hc : c = '+' ∨ c = '9' ∨ c = '1' := by simpa using hc
  rcases hc with rfl | rfl | rfl
  · exact Or.inr rfl
  · exact Or.inl rfl
  · exact Or.inl rfl

/-- Every step of `normalize_phone` keeps digits and plus signs. -/
theorem isDialled_normalizePhone {raw phone : String} (h : Leads.normalizePhone raw = some phone) :
    IsDialled phone := by
  have hclean : IsDialled (String.ofList ((strip raw).toList.filter fun c => ('0' ≤ c && c ≤ '9') || c == '+')) := by
    intro c hc
    rw [String.toList_ofList, List.mem_filter] at hc
    simpa [isAsciiDigit] using hc.2
  unfold Leads.normalizePhone at h
  generalize String.ofList ((strip raw).toList.filter fun c => ('0' ≤ c && c ≤ '9') || c == '+') = cleaned at h hclean
  dsimp only at h
  have hstart : IsDialled (if startsWith cleaned "00" then "+" ++ (cleaned.drop 2).toString else cleaned) :=
    (isDialled_plus.append (hclean.drop 2)).ite hclean
  generalize (if startsWith cleaned "00" = true then "+" ++ (cleaned.drop 2).toString else cleaned) = start at h hstart
  by_cases hinternational : startsWith start "+" = true
  · rw [if_pos hinternational] at h
    split_ifs at h
    · cases h
      exact isDialled_india.append ((hstart.drop 1).drop 2)
    · cases h
      exact isDialled_plus.append (hstart.drop 1)
  · rw [if_neg hinternational] at h
    have hzero : IsDialled (if startsWith start "0" then (start.drop 1).toString else start) :=
      (hstart.drop 1).ite hstart
    generalize (if startsWith start "0" = true then (start.drop 1).toString else start) = domestic at h hzero
    have hnational : IsDialled
        (if startsWith domestic "91" ∧ domestic.length = 12 then (domestic.drop 2).toString else domestic) :=
      (hzero.drop 2).ite hzero
    generalize
      (if startsWith domestic "91" = true ∧ domestic.length = 12 then (domestic.drop 2).toString else domestic) =
      national at h hnational
    split_ifs at h
    cases h
    exact isDialled_india.append hnational

theorem isDigit_of_ascii {c : Char} (h : isAsciiDigit c = true ∨ c = '+') : isDigit c = isAsciiDigit c := by
  rcases h with h | rfl
  · rw [h]
    unfold isAsciiDigit at h
    rw [Bool.and_eq_true, decide_eq_true_iff, decide_eq_true_iff] at h
    have hlow : 48 ≤ c.toNat := h.1
    have hhigh : c.toNat ≤ 57 := h.2
    have hdecimal : (decimalValue? c).isSome = true := by
      unfold decimalValue? decimalZeros
      rw [Option.isSome_map, List.find?_cons_of_pos]
      · rfl
      · simp only [Bool.and_eq_true, decide_eq_true_iff]
        omega
    unfold isDigit
    rw [hdecimal]
    rfl
  · decide

/-- In a normalised number the digits of Python and of SQL are the same. -/
theorem asciiDigits_normalized {phone : String} (h : IsDialled phone) :
    asciiDigits phone = phone.toList.filter isDigit := by
  unfold asciiDigits
  exact List.filter_congr fun c hc => (isDigit_of_ascii (h c hc)).symm

/-! ## Lookups -/

/-- `_already_ingested`. -/
def alreadyIngested (messages : Table Message.key) (tenantId : Uuid) (externalId : String) : Bool :=
  messages.rows.any fun m => m.tenantId = tenantId ∧ m.channel = .whatsapp ∧ m.externalId = some externalId

/-- The `WHERE` of `_find_lead_by_phone`. -/
def LeadRow.Matches (tenantId : Uuid) (key : List Char) (l : LeadRow) : Prop :=
  l.tenantId = tenantId ∧ l.deletedAt = none ∧ l.phone.map (fun phone => lastDigits (asciiDigits phone)) = some key

instance (tenantId : Uuid) (key : List Char) (l : LeadRow) : Decidable (l.Matches tenantId key) :=
  inferInstanceAs (Decidable (_ ∧ _ ∧ _))

/-- `_find_lead_by_phone`: the latest lead with the last ten digits. -/
def findLeadByPhone (leads : Table LeadRow.id) (tenantId : Uuid) (phone : String) : Option Uuid :=
  (matchKey phone).bind fun key =>
    ((leads.rows.filter fun l => l.Matches tenantId key).argmax (·.createdAt)).map (·.id)

theorem not_matches_of_findLeadByPhone {leads : Table LeadRow.id} {tenantId : Uuid} {phone : String} {key : List Char}
    (hkey : matchKey phone = some key) (h : findLeadByPhone leads tenantId phone = none) :
    ∀ l ∈ leads.rows, ¬ l.Matches tenantId key := by
  unfold findLeadByPhone at h
  rw [hkey, Option.bind_some, Option.map_eq_none_iff, List.argmax_eq_none] at h
  intro l hl hmatches
  exact List.filter_eq_nil_iff.mp h l hl (decide_eq_true hmatches)

/-! ## Calls -/

/-- An event of kind `inbound_message`. -/
structure InboundEvent where
  externalId : Option String
  businessPhoneNumberId : Option String
  sender : Option String
  content : Option String

/-- An event that has a provider id, a workspace and a number, and the instant it is handled at. -/
structure Enquiry where
  tenantId : Uuid
  externalId : String
  phone : String
  content : Option String
  occurredAt : ℕ
deriving DecidableEq

inductive IngestCall where
  | refused (result : Ingested)
  | begun (enquiry : Enquiry)
  /-- The provider id was not there. -/
  | fresh (enquiry : Enquiry)
  /-- The lead that was found, if one was. -/
  | matched (enquiry : Enquiry) (leadId : Option Uuid)
  | recorded (enquiry : Enquiry) (result : Ingested)
  | raised
deriving DecidableEq

structure IngestState where
  now : ℕ
  channels : List ChannelRow
  leads : Table LeadRow.id
  conversations : Table Conversation.id
  messages : Table Message.key
  calls : List IngestCall

/-- Identifiers of the rows that a call makes. -/
structure NewIds where
  lead : Uuid
  thread : Uuid
  message : Uuid

inductive IngestStep where
  | tick (microseconds : ℕ)
  | receive (event : InboundEvent)
  | checkDuplicate (k : ℕ)
  | findLead (k : ℕ)
  | commit (k : ℕ) (ids : NewIds)
  | abort (k : ℕ)

/-- `ingest_inbound_message` before its transaction. -/
def beginIngest (s : IngestState) (event : InboundEvent) : IngestCall :=
  let externalId := event.externalId.getD ""
  if externalId = "" then .refused { accepted := false, reason := "no_external_id" }
  else
    match resolveTenant s.channels event.businessPhoneNumberId with
    | .error _ => .raised
    | .ok none => .refused { accepted := false, reason := "no_tenant_for_business_number" }
    | .ok (some tenantId) =>
      match tryNormalizePhone event.sender with
      | none => .refused { accepted := false, reason := "unusable_sender_number", tenantId := some tenantId }
      | some phone => .begun ⟨tenantId, externalId, phone, event.content, s.now⟩

/-- The row of `_create_lead`. -/
def createLead (e : Enquiry) (id : Uuid) : LeadRow := ⟨.nobody, id, e.tenantId, some e.phone, e.occurredAt, none⟩

/-- The row of the message. -/
def inboundMessage (e : Enquiry) (conversationId id : Uuid) : Message where
  id := id
  createdAt := e.occurredAt
  tenantId := e.tenantId
  conversationId := conversationId
  channel := .whatsapp
  direction := .inbound
  content := e.content
  status := .delivered
  failureReason := none
  externalId := some e.externalId
  deliveredAt := some e.occurredAt
  readAt := none

/-- `UniqueConstraint("tenant_id", "channel", "external_id", "created_at")`. -/
def violatesTenantExternal (messages : Table Message.key) (m : Message) : Bool :=
  m.externalId.isSome && messages.rows.any fun m' =>
    m'.tenantId = m.tenantId ∧ m'.channel = m.channel ∧ m'.externalId = m.externalId ∧ m'.createdAt = m.createdAt

/-- The thread with one more unread message. -/
def Conversation.received (c : Conversation) (now : ℕ) : Conversation :=
  { c with
    lastMessageAt := some now
    unreadCount := c.unreadCount + 1 }

/-- The leads with the one that the call creates, if it found none. -/
def saveLead (leads : Table LeadRow.id) (e : Enquiry) (found : Option Uuid) (id : Uuid) : Option (Table LeadRow.id) :=
  if found.isNone then leads.append? [createLead e id] else some leads

def saveMessage (messages : Table Message.key) (m : Message) : Option (Table Message.key) :=
  if violatesTenantExternal messages m then none else messages.append? [m]

/-- The thread of the lead, updated or inserted. -/
def saveThread (conversations : Table Conversation.id) (tenantId leadId : Uuid) (c : Conversation) :
    Option (Table Conversation.id) :=
  if (existingThread conversations.rows tenantId leadId).isSome then some (conversations.set c)
  else conversations.append? [c]

namespace IngestState

def setCall (s : IngestState) (k : ℕ) (call : IngestCall) : IngestState := { s with calls := s.calls.set k call }

/-- The commit of a call; `none` where a constraint refuses it. -/
def record (s : IngestState) (k : ℕ) (e : Enquiry) (found : Option Uuid) (ids : NewIds) : Option IngestState := do
  let leadId := found.getD ids.lead
  let leads ← saveLead s.leads e found ids.lead
  let owner := (leads.find? leadId).map (·.toLeadOwner)
  let thread := conversationFor s.conversations.rows e.tenantId leadId owner ids.thread e.occurredAt e.occurredAt
  let messages ← saveMessage s.messages (inboundMessage e thread.id ids.message)
  let conversations ← saveThread s.conversations e.tenantId leadId (thread.received e.occurredAt)
  let result : Ingested :=
    { accepted := true, reason := "recorded", tenantId := some e.tenantId, leadId := some leadId
      conversationId := some thread.id, messageId := some ids.message, createdLead := found.isNone }
  some { s.setCall k (.recorded e result) with leads, conversations, messages }

def step (s : IngestState) : IngestStep → IngestState
  | .tick microseconds => { s with now := s.now + microseconds }
  | .receive event => { s with calls := s.calls ++ [beginIngest s event] }
  | .checkDuplicate k =>
    match s.calls[k]? with
    | some (.begun e) =>
      if alreadyIngested s.messages e.tenantId e.externalId then
        s.setCall k (.refused { accepted := false, reason := "duplicate", tenantId := some e.tenantId })
      else s.setCall k (.fresh e)
    | _ => s
  | .findLead k =>
    match s.calls[k]? with
    | some (.fresh e) => s.setCall k (.matched e (findLeadByPhone s.leads e.tenantId e.phone))
    | _ => s
  | .commit k ids =>
    match s.calls[k]? with
    | some (.matched e found) => (s.record k e found ids).getD (s.setCall k .raised)
    | _ => s
  | .abort k =>
    match s.calls[k]? with
    | some (.recorded _ _) => s
    | _ => s.setCall k .raised

/-- No call has begun. -/
def initial (now : ℕ) (channels : List ChannelRow) (leads : Table LeadRow.id) (conversations : Table Conversation.id)
    (messages : Table Message.key) : IngestState :=
  ⟨now, channels, leads, conversations, messages, []⟩

end IngestState

/-! ## Once -/

/-- At most one inbound message of a workspace has a provider id. -/
def StoredOnce (messages : Table Message.key) : Prop :=
  ∀ m ∈ messages.rows, ∀ m' ∈ messages.rows, m.direction = .inbound → m'.direction = .inbound →
    m.channel = .whatsapp → m'.channel = .whatsapp → m.tenantId = m'.tenantId → m.externalId.isSome = true →
    m.externalId = m'.externalId → m = m'

structure RecordedOnce (s : IngestState) : Prop where
  messages : StoredOnce s.messages
  /-- Two calls that created a lead had different senders, or different workspaces. -/
  leads : ∀ (j k : ℕ) (e e' : Enquiry) (r r' : Ingested), s.calls[j]? = some (.recorded e r) →
    s.calls[k]? = some (.recorded e' r') → r.createdLead = true → r'.createdLead = true →
    e.tenantId = e'.tenantId → SameNumber e.phone e'.phone → j = k

/-- No lead of the workspace has the number. -/
def NoLeadOf (leads : Table LeadRow.id) (tenantId : Uuid) (phone : String) : Prop :=
  findLeadByPhone leads tenantId phone = none ∧
    ∀ l ∈ leads.rows, l.tenantId = tenantId → l.deletedAt = none → l.phone ≠ some phone

instance (leads : Table LeadRow.id) (tenantId : Uuid) (phone : String) : Decidable (NoLeadOf leads tenantId phone) :=
  inferInstanceAs (Decidable (_ ∧ _))

/-- What a call has read still holds when it commits. -/
def StillHolds (s : IngestState) : IngestStep → Prop
  | .commit k _ =>
    match s.calls[k]? with
    | some (.matched e found) =>
      alreadyIngested s.messages e.tenantId e.externalId = false ∧
        (found = none → NoLeadOf s.leads e.tenantId e.phone)
    | _ => True
  | _ => True

theorem stillHolds_commit {s : IngestState} {k : ℕ} {e : Enquiry} {found : Option Uuid} {ids : NewIds}
    (hk : s.calls[k]? = some (.matched e found))
    (hnew : alreadyIngested s.messages e.tenantId e.externalId = false)
    (hnone : found = none → NoLeadOf s.leads e.tenantId e.phone) : StillHolds s (.commit k ids) := by
  dsimp only [StillHolds]
  rw [hk]
  exact ⟨hnew, hnone⟩

/-! ## The invariant -/

/-- What is known of a call, given the leads. -/
def IngestCall.Sound (leads : List LeadRow) : IngestCall → Prop
  | .begun e | .fresh e | .matched e _ => IsDialled e.phone
  | .recorded e r => IsDialled e.phone ∧
      (r.createdLead = true → ∃ l ∈ leads, l.tenantId = e.tenantId ∧ l.deletedAt = none ∧ l.phone = some e.phone)
  | .refused _ | .raised => True

/-- The call did not record its message. -/
def IngestCall.Unrecorded : IngestCall → Prop
  | .recorded _ _ => False
  | _ => True

structure IngestState.Kept (s : IngestState) : Prop where
  once : RecordedOnce s
  calls : ∀ call ∈ s.calls, call.Sound s.leads.rows

section

variable {s : IngestState}

/-- A call that has begun is refused, raises or has a normalised number. -/
theorem beginIngest_cases (s : IngestState) (event : InboundEvent) :
    (∃ e, beginIngest s event = .begun e ∧ IsDialled e.phone) ∨ (∃ result, beginIngest s event = .refused result) ∨
      beginIngest s event = .raised := by
  unfold beginIngest
  dsimp only
  split_ifs
  · exact Or.inr (Or.inl ⟨_, rfl⟩)
  · split
    · exact Or.inr (Or.inr rfl)
    · exact Or.inr (Or.inl ⟨_, rfl⟩)
    · split
      · exact Or.inr (Or.inl ⟨_, rfl⟩)
      · rename_i phone hphone
        refine Or.inl ⟨_, rfl, ?_⟩
        unfold tryNormalizePhone at hphone
        split at hphone
        · cases hphone
        · split_ifs at hphone
          exact isDialled_normalizePhone hphone

theorem beginIngest_sound (s : IngestState) (event : InboundEvent) :
    (beginIngest s event).Sound s.leads.rows ∧ (beginIngest s event).Unrecorded := by
  rcases beginIngest_cases s event with ⟨e, heq, hdialled⟩ | ⟨result, heq⟩ | heq
  · rw [heq]
    exact ⟨hdialled, trivial⟩
  · rw [heq]
    exact ⟨trivial, trivial⟩
  · rw [heq]
    exact ⟨trivial, trivial⟩

/-- The recorded calls stay where they are. -/
theorem RecordedOnce.of_calls {s' : IngestState} (h : RecordedOnce s) (hmessages : s'.messages = s.messages)
    (hcalls : ∀ (j : ℕ) (e : Enquiry) (r : Ingested), s'.calls[j]? = some (.recorded e r) →
      s.calls[j]? = some (.recorded e r)) : RecordedOnce s' where
  messages := hmessages ▸ h.messages
  leads j k e e' r r' hj hk := h.leads j k e e' r r' (hcalls j e r hj) (hcalls k e' r' hk)

/-- A call moves on without recording its message. -/
theorem IngestState.Kept.setCall (h : s.Kept) (k : ℕ) {call : IngestCall} (hcall : call.Sound s.leads.rows)
    (hun : call.Unrecorded) : (s.setCall k call).Kept where
  once := by
    refine RecordedOnce.of_calls h.once rfl fun j e r hj => ?_
    rcases getElem?_set_cases hj with ⟨-, rfl⟩ | ⟨-, hj⟩
    · exact hun.elim
    · exact hj
  calls := forall_mem_set h.calls hcall

/-- What a commit writes. -/
theorem record_eq {k : ℕ} {e : Enquiry} {found : Option Uuid} {ids : NewIds} {s' : IngestState}
    (h : s.record k e found ids = some s') :
    ∃ (conversationId : Uuid) (result : Ingested), result.createdLead = found.isNone ∧
      s'.calls = s.calls.set k (.recorded e result) ∧
      s'.leads.rows = s.leads.rows ++ (if found.isNone then [createLead e ids.lead] else []) ∧
      s'.messages.rows = s.messages.rows ++ [inboundMessage e conversationId ids.message] := by
  unfold IngestState.record at h
  simp only [Option.bind_eq_bind, Option.bind_eq_some_iff] at h
  obtain ⟨leads, hleads, messages, hmessages, conversations, -, heq⟩ := h
  unfold saveLead at hleads
  unfold saveMessage at hmessages
  have hrows : leads.rows = s.leads.rows ++ (if found.isNone then [createLead e ids.lead] else []) := by
    split_ifs at hleads ⊢
    · exact Table.rows_append? hleads
    · rw [← Option.some.inj hleads, List.append_nil]
  split_ifs at hmessages
  have hstored := Table.rows_append? hmessages
  obtain rfl := Option.some.inj heq
  exact ⟨_, _, rfl, rfl, hrows, hstored⟩

theorem not_mem_of_alreadyIngested {messages : Table Message.key} {tenantId : Uuid} {externalId : String}
    (h : alreadyIngested messages tenantId externalId = false) {m : Message} (hm : m ∈ messages.rows)
    (htenant : m.tenantId = tenantId) (hchannel : m.channel = .whatsapp) : m.externalId ≠ some externalId := by
  intro hid
  unfold alreadyIngested at h
  rw [List.any_eq_false] at h
  exact h m hm (decide_eq_true ⟨htenant, hchannel, hid⟩)

/-- A new provider id. -/
theorem StoredOnce.concat {messages messages' : Table Message.key} {m : Message} {externalId : String}
    (h : StoredOnce messages) (hrows : messages'.rows = messages.rows ++ [m]) (hid : m.externalId = some externalId)
    (hnew : alreadyIngested messages m.tenantId externalId = false) : StoredOnce messages' := by
  intro x hx y hy hxin hyin hxwa hywa htenant hsome hxy
  rw [hrows] at hx hy
  rcases List.mem_append.mp hx with hxold | hxnew
  · rcases List.mem_append.mp hy with hyold | hynew
    · exact h x hxold y hyold hxin hyin hxwa hywa htenant hsome hxy
    · obtain rfl := List.mem_singleton.mp hynew
      exact absurd (hxy.trans hid) (not_mem_of_alreadyIngested hnew hxold htenant hxwa)
  · obtain rfl := List.mem_singleton.mp hxnew
    rcases List.mem_append.mp hy with hyold | hynew
    · exact absurd (hxy.symm.trans hid) (not_mem_of_alreadyIngested hnew hyold htenant.symm hywa)
    · exact (List.mem_singleton.mp hynew).symm

theorem matchKey_normalized {phone : String} {key : List Char} (h : IsDialled phone)
    (hkey : matchKey phone = some key) : lastDigits (asciiDigits phone) = key := by
  unfold matchKey at hkey
  dsimp only at hkey
  split_ifs at hkey
  rw [asciiDigits_normalized h]
  exact Option.some.inj hkey

/-- A lead that a call created is found by every sender of the same number. -/
theorem not_sameNumber_of_noLeadOf {leads : Table LeadRow.id} {e e' : Enquiry} {r : Ingested}
    (hcall : (IngestCall.recorded e r).Sound leads.rows) (hcreated : r.createdLead = true)
    (hnone : NoLeadOf leads e'.tenantId e'.phone) (htenant : e.tenantId = e'.tenantId) :
    ¬ SameNumber e.phone e'.phone := by
  obtain ⟨hdialled, hlead⟩ := hcall
  obtain ⟨l, hl, hltenant, hldeleted, hlphone⟩ := hlead hcreated
  rintro (hphone | ⟨key, hkey, hkey'⟩)
  · exact hnone.2 l hl (hltenant.trans htenant) hldeleted (hphone ▸ hlphone)
  · refine not_matches_of_findLeadByPhone hkey' hnone.1 l hl ⟨hltenant.trans htenant, hldeleted, ?_⟩
    rw [hlphone, Option.map_some, matchKey_normalized hdialled hkey]

theorem SameNumber.symm {phone phone' : String} (h : SameNumber phone phone') : SameNumber phone' phone := by
  rcases h with h | ⟨key, hkey, hkey'⟩
  · exact Or.inl h.symm
  · exact Or.inr ⟨key, hkey', hkey⟩

theorem IngestCall.Sound.mono {call : IngestCall} {leads more : List LeadRow} (h : call.Sound leads) :
    call.Sound (leads ++ more) := by
  cases call with
  | recorded e r =>
    refine ⟨h.1, fun hcreated => ?_⟩
    obtain ⟨l, hl, hlead⟩ := h.2 hcreated
    exact ⟨l, List.mem_append_left _ hl, hlead⟩
  | refused result => trivial
  | raised => trivial
  | begun e => exact h
  | fresh e => exact h
  | matched e found => exact h

/-- A call commits while what it has read still holds. -/
theorem IngestState.Kept.record (h : s.Kept) {k : ℕ} {e : Enquiry} {found : Option Uuid} {ids : NewIds}
    {s' : IngestState} (hk : s.calls[k]? = some (.matched e found)) (heq : s.record k e found ids = some s')
    (hnew : alreadyIngested s.messages e.tenantId e.externalId = false)
    (hnone : found = none → NoLeadOf s.leads e.tenantId e.phone) : s'.Kept := by
  obtain ⟨conversationId, result, hresult, hcalls, hleads, hmessages⟩ := record_eq heq
  have hdialled : IsDialled e.phone := h.calls _ (List.mem_of_getElem? hk)
  -- an earlier call that created a lead had another sender
  have hearlier : ∀ {j : ℕ} {e' : Enquiry} {r' : Ingested}, s.calls[j]? = some (.recorded e' r') →
      result.createdLead = true → r'.createdLead = true → e'.tenantId = e.tenantId →
        ¬ SameNumber e'.phone e.phone := by
    intro j e' r' hj hcreated hcreated' htenant
    rw [hresult, Option.isNone_iff_eq_none] at hcreated
    exact not_sameNumber_of_noLeadOf (h.calls _ (List.mem_of_getElem? hj)) hcreated' (hnone hcreated) htenant
  refine ⟨⟨h.once.messages.concat hmessages rfl hnew, fun i j e₁ e₂ r₁ r₂ hi hj hr₁ hr₂ htenant hsame => ?_⟩,
    fun call hcall => ?_⟩
  · rw [hcalls] at hi hj
    rcases getElem?_set_cases hi with ⟨rfl, heq₁⟩ | ⟨-, hiold⟩
    · rcases getElem?_set_cases hj with ⟨rfl, -⟩ | ⟨-, hjold⟩
      · rfl
      · cases heq₁
        exact absurd hsame.symm (hearlier hjold hr₁ hr₂ htenant.symm)
    · rcases getElem?_set_cases hj with ⟨rfl, heq₂⟩ | ⟨-, hjold⟩
      · cases heq₂
        exact absurd hsame (hearlier hiold hr₂ hr₁ htenant)
      · exact h.once.leads i j e₁ e₂ r₁ r₂ hiold hjold hr₁ hr₂ htenant hsame
  · rw [hcalls] at hcall
    rw [hleads]
    rcases List.mem_or_eq_of_mem_set hcall with hmem | rfl
    · exact (h.calls call hmem).mono
    · refine ⟨hdialled, fun hcreated => ⟨createLead e ids.lead, List.mem_append_right _ ?_, rfl, rfl, rfl⟩⟩
      rw [hresult] at hcreated
      rw [if_pos hcreated]
      exact List.mem_singleton_self _

theorem IngestState.Kept.step (h : s.Kept) (l : IngestStep) (hc : StillHolds s l) : (s.step l).Kept := by
  cases l with
  | tick microseconds => exact ⟨⟨h.once.messages, h.once.leads⟩, h.calls⟩
  | receive event =>
    obtain ⟨hsound, hun⟩ := beginIngest_sound s event
    refine ⟨RecordedOnce.of_calls h.once rfl fun j e r hj => ?_, forall_mem_concat h.calls hsound⟩
    rcases getElem?_concat_cases hj with heq | hj
    · rw [← heq] at hun
      exact hun.elim
    · exact hj
  | checkDuplicate k =>
    dsimp only [IngestState.step]
    split
    · rename_i e hk
      have hdialled : IsDialled e.phone := h.calls _ (List.mem_of_getElem? hk)
      split_ifs
      · exact h.setCall k trivial trivial
      · exact h.setCall k hdialled trivial
    · exact h
  | findLead k =>
    dsimp only [IngestState.step]
    split
    · rename_i e hk
      have hdialled : IsDialled e.phone := h.calls _ (List.mem_of_getElem? hk)
      exact h.setCall k hdialled trivial
    · exact h
  | commit k ids =>
    dsimp only [IngestState.step, StillHolds] at hc ⊢
    split
    · rename_i e found hk
      rw [hk] at hc
      cases hrecord : s.record k e found ids with
      | none => exact h.setCall k trivial trivial
      | some s' => exact h.record hk hrecord hc.1 hc.2
    · exact h
  | abort k =>
    dsimp only [IngestState.step]
    split
    · exact h
    · exact h.setCall k trivial trivial

/-- **A message is stored once and a number gets one lead, in every run in which what the calls have read still holds
when they commit.** -/
theorem recorded_once {now : ℕ} {channels : List ChannelRow} {leads : Table LeadRow.id}
    {conversations : Table Conversation.id} {messages : Table Message.key} (hmessages : StoredOnce messages)
    {steps : List IngestStep}
    (h : Meets IngestState.step StillHolds (.initial now channels leads conversations messages) steps) :
    Always IngestState.step RecordedOnce (.initial now channels leads conversations messages) steps := by
  refine always_of_inv IngestState.Kept (fun _ hs => hs.once) (fun _ l hs hc => hs.step l hc) steps _ ?_ h
  refine ⟨⟨hmessages, fun j k e e' r r' hj => ?_⟩, fun call hcall => absurd hcall List.not_mem_nil⟩
  cases hj

end

/-! ## A message that is delivered again -/

/-- A message from a number that nobody knows. -/
def enquiryEvent : InboundEvent := ⟨some "wamid.7", some "1001", some "+919845012201", some "Hello"⟩

/-- The same number, written as a business saved it. -/
def enquiryAgain : InboundEvent := ⟨some "wamid.8", some "1001", some "098450 12201", some "Are you there?"⟩

def emptyWorkspace : IngestState := .initial 1 [⟨sampleUuid 'a', .whatsapp, "1001", none⟩] .empty .empty .empty

def firstIds : NewIds := ⟨sampleUuid 'l', sampleUuid 'c', sampleUuid 'm'⟩

def secondIds : NewIds := ⟨sampleUuid 'k', sampleUuid 'd', sampleUuid 'n'⟩

/-- Two messages of one sender, one call after the other. -/
def oneByOne : List IngestStep :=
  [.receive enquiryEvent, .checkDuplicate 0, .findLead 0, .commit 0 firstIds, .tick 1,
    .receive enquiryAgain, .checkDuplicate 1, .findLead 1, .commit 1 secondIds]

/-- One message, delivered again before the first call commits. -/
def redelivered : List IngestStep :=
  [.receive enquiryEvent, .checkDuplicate 0, .findLead 0, .tick 1, .receive enquiryEvent, .checkDuplicate 1,
    .findLead 1, .commit 0 firstIds, .commit 1 secondIds]

theorem recorded_once_oneByOne :
    StoredOnce Table.empty ∧ Meets IngestState.step StillHolds emptyWorkspace oneByOne ∧
      Always IngestState.step RecordedOnce emptyWorkspace oneByOne := by
  have hempty : StoredOnce Table.empty := fun m hm => absurd hm List.not_mem_nil
  have hmeets : Meets IngestState.step StillHolds emptyWorkspace oneByOne := by
    refine ⟨trivial, trivial, trivial, ?_, trivial, trivial, trivial, trivial, ?_, trivial⟩
    · exact @stillHolds_commit _ 0 ⟨sampleUuid 'a', "wamid.7", "+919845012201", some "Hello", 1⟩ none firstIds
        (by decide +kernel) (by decide +kernel) (by decide +kernel)
    · exact @stillHolds_commit _ 1 ⟨sampleUuid 'a', "wamid.8", "+919845012201", some "Are you there?", 2⟩
        (some (sampleUuid 'l')) secondIds (by decide +kernel) (by decide +kernel) (by decide +kernel)
  exact ⟨hempty, hmeets, recorded_once hempty hmeets⟩

/-- What the calls answer: each has stored the message and created a lead. -/
def storedIn (ids : NewIds) : Ingested where
  accepted := true
  reason := "recorded"
  tenantId := some (sampleUuid 'a')
  leadId := some ids.lead
  conversationId := some ids.thread
  messageId := some ids.message
  createdLead := true

/-- There are two leads for one message. -/
theorem redelivered_twice : ¬ Always IngestState.step RecordedOnce emptyWorkspace redelivered := by
  intro h
  have hsame := (always_last h).leads 0 1 ⟨sampleUuid 'a', "wamid.7", "+919845012201", some "Hello", 1⟩
    ⟨sampleUuid 'a', "wamid.7", "+919845012201", some "Hello", 2⟩ (storedIn firstIds) (storedIn secondIds)
    (by decide +kernel) (by decide +kernel) rfl rfl rfl (Or.inl rfl)
  exact Nat.zero_ne_one hsame

end RevenueOS.Communications
