import RevenueOS.Communications.Sending
import RevenueOS.Lib.Slots
import RevenueOS.Lib.Trace

/-!
# RevenueOS.Communications.Withdrawal — consent that is withdrawn while messages are queued

`ConsentService.withdraw` and `grant` (`application/communications/consents.py`) with the transactions of
`InboxService.send`, under read committed.  A `send` looks at the consent, and its message is visible when it commits.
A `withdraw` locks the grant, takes the messages that its `UPDATE` sees, waits for the rows that another `withdraw`
holds, and writes the record and the failures when it commits.  Its record has the instant it began at.

* `mayQueue_eq_false`: the check of a `send` refuses once the consent that it reads is withdrawn.
* `Held.step`: what holds while no consent is withdrawn between the check of a message and its commit.
* `withdrawal_stops`: in such a run no message of a withdrawn consent is left waiting.  `committedPast_waits` is a run
  with a message that was.

Left out: audit records and events.  A call that raises or is cut off has no effect.
-/

namespace RevenueOS.Communications

open RevenueOS.Lib RevenueOS.Workflows

/-! ## Rows -/

/-- What does not change: the workspace, its providers and the contacts of its conversations. -/
structure Workspace where
  tenantId : Uuid
  cfg : ChannelSettings
  conversations : Table Conversation.id

def Message.IsWaiting (m : Message) : Prop := m.status = .pending ∨ m.status = .queued

instance (m : Message) : Decidable m.IsWaiting := inferInstanceAs (Decidable (_ ∨ _))

/-- The contact of the conversation of a message. -/
def Workspace.contactOf (w : Workspace) (m : Message) : Option Uuid :=
  (w.conversations.find? m.conversationId).bind (·.contactId)

/-- The message is one that the contact of a record gets on its channel. -/
def ConsentRecord.Reaches (w : Workspace) (r : ConsentRecord) (m : Message) : Prop :=
  r.subjectType = "contact" ∧ r.subjectId.isSome = true ∧ w.contactOf m = r.subjectId ∧ m.direction = .outbound ∧
    r.channel = some m.channel

instance (w : Workspace) (r : ConsentRecord) (m : Message) : Decidable (r.Reaches w m) :=
  inferInstanceAs (Decidable (_ ∧ _ ∧ _ ∧ _ ∧ _))

/-- The `WHERE` of the `UPDATE` of `withdraw`. -/
def ConsentRecord.Cancels (w : Workspace) (r : ConsentRecord) (m : Message) : Prop := r.Reaches w m ∧ m.IsWaiting

instance (w : Workspace) (r : ConsentRecord) (m : Message) : Decidable (r.Cancels w m) :=
  inferInstanceAs (Decidable (_ ∧ _))

/-- The record that `withdraw` writes. -/
def ConsentRecord.withdrawal (grant : ConsentRecord) (id : Uuid) (moment : ℕ) : ConsentRecord :=
  { grant with
    id := id
    status := .withdrawn
    withdrawsId := some grant.id
    expiresAt := none
    createdAt := moment }

/-- The values that the `UPDATE` of `withdraw` sets. -/
def Message.cancelled (m : Message) : Message :=
  { m with
    status := .failed
    failureReason := some "Consent withdrawn before delivery" }

/-- A grant of the same consent, on the same channel. -/
def ConsentRecord.SameConsent (r g : ConsentRecord) : Prop :=
  g.subjectType = r.subjectType ∧ g.subjectId = r.subjectId ∧ g.consentType = r.consentType ∧ g.channel = r.channel

instance (r g : ConsentRecord) : Decidable (r.SameConsent g) := inferInstanceAs (Decidable (_ ∧ _ ∧ _ ∧ _))

/-- The consent was granted again later. -/
def LaterGrant (consents : List ConsentRecord) (r : ConsentRecord) : Prop :=
  ∃ g ∈ consents, g.status = .granted ∧ r.SameConsent g ∧ r.position < g.position

instance (consents : List ConsentRecord) (r : ConsentRecord) : Decidable (LaterGrant consents r) :=
  inferInstanceAs (Decidable (∃ g ∈ consents, _))

/-! ## Calls that run at the same time -/

inductive SendCall where
  | begun (message : Message)
  /-- The check has read this ledger, and let the message through. -/
  | checked (message : Message) (seen : List ConsentRecord)
  | finished
deriving DecidableEq

inductive WithdrawCall where
  | begun (consentId recordId : Uuid) (moment : ℕ)
  | holding (grant : ConsentRecord) (recordId : Uuid) (moment : ℕ)
  /-- The `UPDATE` has seen its rows. -/
  | scanned (record : ConsentRecord) (keys : List (Uuid × ℕ))
  /-- The `UPDATE` has locked and changed its rows. -/
  | updated (record : ConsentRecord) (keys : List (Uuid × ℕ))
  /-- Committed, when so many calls of `send` had begun. -/
  | committed (record : ConsentRecord) (sends : ℕ)
  | finished
deriving DecidableEq

/-- The call has locked the grant. -/
def WithdrawCall.holds (consentId : Uuid) : WithdrawCall → Bool
  | .holding grant _ _ => grant.id = consentId
  | .scanned record _ | .updated record _ => record.withdrawsId = some consentId
  | _ => false

/-- The call has locked the row of a message. -/
def WithdrawCall.locks (key : Uuid × ℕ) : WithdrawCall → Bool
  | .updated _ keys => key ∈ keys
  | _ => false

structure ConsentState where
  now : ℕ
  messages : Table Message.key
  consents : List ConsentRecord
  sends : List SendCall
  withdraws : List WithdrawCall

inductive ConsentStep where
  | tick (microseconds : ℕ)
  | grant (id contactId : Uuid) (consentType : ConsentType) (channel : Channel) (expiresAt : Option ℕ) (moment : ℕ)
  | sendBegin (caller : Caller) (conversation : Conversation) (channel : Channel) (content : String) (messageId : Uuid)
  | sendCheck (k : ℕ)
  | sendCommit (k : ℕ)
  | sendAbort (k : ℕ)
  | withdrawBegin (consentId recordId : Uuid)
  | withdrawLock (k : ℕ)
  | withdrawScan (k : ℕ)
  | withdrawUpdate (k : ℕ)
  | withdrawCommit (k : ℕ)
  | withdrawAbort (k : ℕ)

namespace ConsentState

variable (w : Workspace)

def setSend (s : ConsentState) (k : ℕ) (call : SendCall) : ConsentState := { s with sends := s.sends.set k call }

def setWithdraw (s : ConsentState) (k : ℕ) (call : WithdrawCall) : ConsentState :=
  { s with withdraws := s.withdraws.set k call }

/-- The record that `grant` writes. -/
def grantRecord (id contactId : Uuid) (consentType : ConsentType) (channel : Channel) (expiresAt : Option ℕ)
    (moment : ℕ) : ConsentRecord where
  id := id
  tenantId := w.tenantId
  subjectType := "contact"
  subjectId := some contactId
  consentType := consentType
  channel := some channel
  status := .granted
  withdrawsId := none
  expiresAt := expiresAt
  createdAt := moment

/-- The primary key of the ledger. -/
def HasId (s : ConsentState) (id : Uuid) : Prop := ∃ r ∈ s.consents, r.id = id

instance (s : ConsentState) (id : Uuid) : Decidable (s.HasId id) := inferInstanceAs (Decidable (∃ r ∈ s.consents, _))

/-- `grant`: the latest record of the consent must not be a grant that still holds. -/
def grant (s : ConsentState) (record : ConsentRecord) : ConsentState :=
  match (s.consents.filter fun r => record.SameConsent r).argmax ConsentRecord.position with
  | some latest =>
    if latest.Permits record.createdAt then s
    else if s.HasId record.id then s
    else { s with consents := s.consents ++ [record] }
  | none => if s.HasId record.id then s else { s with consents := s.consents ++ [record] }

/-- The consent check of `send`. -/
def mayQueue (consents : List ConsentRecord) (now : ℕ) (m : Message) : Bool :=
  match w.contactOf m with
  | none => true
  | some contactId =>
    !(decide (m.channel ∈ consentChannels)) || contactHasConsent consents w.tenantId contactId m.channel now

/-- `withdraw` up to its `UPDATE`: the lock of the grant and the two checks on it. -/
def lockGrant (s : ConsentState) (k : ℕ) (consentId recordId : Uuid) (moment : ℕ) : ConsentState :=
  if s.withdraws.any (WithdrawCall.holds consentId) then s
  else
    match s.consents.find? fun r => r.id = consentId with
    | none => s.setWithdraw k .finished
    | some grant =>
      if grant.status ≠ .granted then s.setWithdraw k .finished
      else if grant.subjectId = none then s.setWithdraw k .finished
      else if ∃ r ∈ s.consents, r.withdrawsId = some consentId then s.setWithdraw k .finished
      else s.setWithdraw k (.holding grant recordId moment)

/-- The rows that the `UPDATE` sees. -/
def waitingKeys (s : ConsentState) (record : ConsentRecord) : List (Uuid × ℕ) :=
  (s.messages.rows.filter fun m => record.Cancels w m).map Message.key

/-- The rows of a commit of `withdraw`. -/
def cancel (messages : Table Message.key) (keys : List (Uuid × ℕ)) : Table Message.key :=
  messages.map (fun m => if m.key ∈ keys then m.cancelled else m) fun m => by split_ifs <;> rfl

def step (s : ConsentState) : ConsentStep → ConsentState
  | .tick microseconds => { s with now := s.now + microseconds }
  | .grant id contactId consentType channel expiresAt moment =>
    -- the instant is taken before the advisory lock
    if moment ≤ s.now then s.grant (grantRecord w id contactId consentType channel expiresAt moment) else s
  | .sendBegin caller conversation channel content messageId =>
    -- a message that goes to the provider at once takes the path of `reply`
    if caller.tenantId = w.tenantId ∧ conversation ∈ w.conversations.rows ∧
        directLead w.cfg channel conversation = none then
      { s with
        sends := s.sends ++
          [.begun (queuedMessage w.cfg caller conversation.id ⟨s.now, messageId, messageId⟩ channel content)] }
    else s
  | .sendCheck k =>
    match s.sends[k]? with
    | some (.begun message) =>
      if mayQueue w s.consents s.now message then s.setSend k (.checked message s.consents)
      else s.setSend k .finished
    | _ => s
  | .sendCommit k =>
    match s.sends[k]? with
    | some (.checked message _) => { s.setSend k .finished with messages := s.messages.insert message }
    | _ => s
  | .sendAbort k => s.setSend k .finished
  | .withdrawBegin consentId recordId => { s with withdraws := s.withdraws ++ [.begun consentId recordId s.now] }
  | .withdrawLock k =>
    match s.withdraws[k]? with
    | some (.begun consentId recordId moment) => s.lockGrant k consentId recordId moment
    | _ => s
  | .withdrawScan k =>
    match s.withdraws[k]? with
    | some (.holding grant recordId moment) =>
      let record := grant.withdrawal recordId moment
      s.setWithdraw k (.scanned record (s.waitingKeys w record))
    | _ => s
  | .withdrawUpdate k =>
    match s.withdraws[k]? with
    | some (.scanned record keys) =>
      -- a row that another call has changed is waited for, and looked at again
      if keys.any fun key => s.withdraws.any (WithdrawCall.locks key) then s
      else s.setWithdraw k (.updated record (keys.filter fun key => key ∈ s.waitingKeys w record))
    | _ => s
  | .withdrawCommit k =>
    match s.withdraws[k]? with
    | some (.updated record keys) =>
      if s.HasId record.id then s.setWithdraw k .finished
      else
        { s.setWithdraw k (.committed record s.sends.length) with
          messages := cancel s.messages keys
          consents := s.consents ++ [record] }
    | _ => s
  | .withdrawAbort k =>
    match s.withdraws[k]? with
    | some (.committed _ _) => s
    | _ => s.setWithdraw k .finished

/-- Nothing runs yet. -/
def initial (now : ℕ) (messages : Table Message.key) (consents : List ConsentRecord) : ConsentState :=
  ⟨now, messages, consents, [], []⟩

/-! ## What a withdrawal stops -/

/-- Once a withdrawal has committed and the calls of `send` that began before are over, and the consent was not
granted again later, no message of the contact on the channel is waiting. -/
def Stopped (s : ConsentState) : Prop :=
  ∀ (k : ℕ) (record : ConsentRecord) (sends : ℕ), s.withdraws[k]? = some (.committed record sends) →
    (∀ j < sends, s.sends[j]? = some .finished) → ¬ LaterGrant s.consents record →
      ∀ m ∈ s.messages.rows, record.Reaches w m → m.status ≠ .pending ∧ m.status ≠ .queued

end ConsentState

/-- The call withdraws the consent for a message: its `UPDATE` has seen its rows, or it has committed and the consent
was not granted again. -/
def WithdrawCall.Withdraws (w : Workspace) (consents : List ConsentRecord) (m : Message) : WithdrawCall → Prop
  | .scanned record _ | .updated record _ => record.Reaches w m
  | .committed record _ => record.Reaches w m ∧ ¬ LaterGrant consents record
  | _ => False

/-- The check of a message goes by this record: it is of the consent that the check reads, and the current record of the
contact is for the channel of the message. -/
def ConsentRecord.Governs (w : Workspace) (seen : List ConsentRecord) (r : ConsentRecord) (m : Message) : Prop :=
  m.channel ∈ consentChannels ∧ r.tenantId = w.tenantId ∧ r.consentType = consentTypeFor m.channel ∧
    ∀ contactId ∈ r.subjectId, ∀ current ∈ currentConsent seen w.tenantId contactId m.channel,
      current.channel = some m.channel

/-- The withdrawal had committed when the check read the ledger, and the check goes by it. -/
def WithdrawCall.BeforeCheck (w : Workspace) (seen : List ConsentRecord) (m : Message) : WithdrawCall → Prop
  | .committed record _ => record ∈ seen ∧ record.Governs w seen m
  | _ => False

/-- The consent for a message is not withdrawn between its check and its commit, and before its check only where the
check goes by it. -/
def NotPast (w : Workspace) (s : ConsentState) : ConsentStep → Prop
  | .sendCommit k =>
    match s.sends[k]? with
    | some (.checked message seen) =>
      ∀ call ∈ s.withdraws, call.Withdraws w s.consents message → call.BeforeCheck w seen message
    | _ => True
  | _ => True

/-! ## The invariant -/

/-- What is known of a call, given the tables. -/
def WithdrawCall.Sound (w : Workspace) (messages : List Message) (consents : List ConsentRecord) : WithdrawCall → Prop
  | .scanned record keys | .updated record keys => ∀ m ∈ messages, record.Cancels w m → m.key ∈ keys
  | .committed record _ => LaterGrant consents record ∨ ∀ m ∈ messages, ¬ record.Cancels w m
  | _ => True

/-- The record of a call: a withdrawal, which has its id for itself once it is in the ledger. -/
def WithdrawCall.Recorded (consents : List ConsentRecord) : WithdrawCall → Prop
  | .scanned record _ | .updated record _ => record.status = .withdrawn
  | .committed record _ =>
    record.status = .withdrawn ∧ record ∈ consents ∧ ∀ r ∈ consents, r.id = record.id → r = record
  | _ => True

/-- A message that was let through was let through by the check, over a ledger that has grown since. -/
def SendCall.Allowed (w : Workspace) (consents : List ConsentRecord) : SendCall → Prop
  | .checked message seen => seen ⊆ consents ∧ ∃ now, ConsentState.mayQueue w seen now message = true
  | _ => True

structure ConsentState.Held (w : Workspace) (s : ConsentState) : Prop where
  sound : ∀ call ∈ s.withdraws, call.Sound w s.messages.rows s.consents
  recorded : ∀ call ∈ s.withdraws, call.Recorded s.consents
  allowed : ∀ call ∈ s.sends, call.Allowed w s.consents

section

variable {w : Workspace} {s : ConsentState}

theorem ConsentState.Held.stopped (h : s.Held w) : s.Stopped w := by
  intro k record sends hk _ hlater m hm hreaches
  rcases h.sound _ (List.mem_of_getElem? hk) with hgrant | hnone
  · exact absurd hgrant hlater
  · exact ⟨fun heq => hnone m hm ⟨hreaches, Or.inl heq⟩, fun heq => hnone m hm ⟨hreaches, Or.inr heq⟩⟩

theorem LaterGrant.mono {consents consents' : List ConsentRecord} {r : ConsentRecord} (h : LaterGrant consents r)
    (hmore : consents ⊆ consents') : LaterGrant consents' r := by
  obtain ⟨g, hg, hgrant⟩ := h
  exact ⟨g, hmore hg, hgrant⟩

theorem LaterGrant.append {consents : List ConsentRecord} {r : ConsentRecord} (h : LaterGrant consents r)
    (more : List ConsentRecord) : LaterGrant (consents ++ more) r :=
  h.mono (List.subset_append_left _ _)

/-! ### The check -/

theorem position_injective {r g : ConsentRecord} (h : r.position = g.position) : r.id = g.id := by
  have htext : r.id.text = g.id.text := congrArg (fun p => (ofLex p).2) h
  exact Uuid.ext (congrArg String.toList htext)

/-- **The check refuses** where a withdrawal stands that it goes by: the current record of the contact is that
withdrawal, or a later one that is no grant. -/
theorem mayQueue_eq_false {seen : List ConsentRecord} {record : ConsentRecord} {m : Message} (now : ℕ)
    (hmem : record ∈ seen) (hwithdrawn : record.status = .withdrawn)
    (hunique : ∀ r ∈ seen, r.id = record.id → r = record) (hreaches : record.Reaches w m)
    (hgoverns : record.Governs w seen m) (hlater : ¬LaterGrant seen record) :
    ConsentState.mayQueue w seen now m = false := by
  obtain ⟨htype, hsome, hcontact, -, hchannel⟩ := hreaches
  obtain ⟨hchecked, htenant, hkind, hcurrent⟩ := hgoverns
  obtain ⟨contactId, hsubject⟩ := Option.isSome_iff_exists.mp hsome
  rw [hsubject] at hcontact
  have hcovers : record.Covers w.tenantId contactId m.channel := ⟨htenant, htype, hsubject, hkind, Or.inl hchannel⟩
  have hin : record ∈ seen.filter fun r => r.Covers w.tenantId contactId m.channel :=
    List.mem_filter.mpr ⟨hmem, decide_eq_true hcovers⟩
  simp only [ConsentState.mayQueue, hcontact, hchecked, decide_true, Bool.not_true, Bool.false_or]
  unfold contactHasConsent
  cases hlatest : currentConsent seen w.tenantId contactId m.channel with
  | none => rfl
  | some current =>
    refine decide_eq_false fun hpermits => hlater ?_
    obtain ⟨hold, hcover⟩ := List.mem_filter.mp (List.argmax_mem hlatest)
    obtain ⟨-, hsubjectType, hsubjectId, hconsent, -⟩ := of_decide_eq_true hcover
    have hsame : current.channel = some m.channel := hcurrent contactId hsubject current hlatest
    have hle : record.position ≤ current.position := List.le_of_mem_argmax hin hlatest
    refine ⟨current, hold, hpermits.1, ⟨?_, ?_, ?_, ?_⟩, lt_of_le_of_ne hle fun heq => ?_⟩
    · rw [hsubjectType, htype]
    · rw [hsubjectId, hsubject]
    · rw [hconsent, hkind]
    · rw [hsame, hchannel]
    · have hrecord := hunique current hold (position_injective heq).symm
      rw [← hrecord, hpermits.1] at hwithdrawn
      cases hwithdrawn

/-- A message that was let through is not withdrawn by a call that its check goes by. -/
theorem ConsentState.Held.not_withdraws (h : s.Held w) {k : ℕ} {message : Message} {seen : List ConsentRecord}
    (hk : s.sends[k]? = some (.checked message seen)) {call : WithdrawCall} (hcall : call ∈ s.withdraws)
    (hbefore : call.Withdraws w s.consents message → call.BeforeCheck w seen message) :
    ¬call.Withdraws w s.consents message := by
  intro hwithdraws
  have hcheck := hbefore hwithdraws
  obtain ⟨hgrown, now, hmay⟩ := h.allowed _ (List.mem_of_getElem? hk)
  have hrecorded := h.recorded call hcall
  cases call with
  | committed record sends =>
    obtain ⟨hreaches, hlater⟩ := hwithdraws
    obtain ⟨hmem, hgoverns⟩ := hcheck
    obtain ⟨hwithdrawn, -, hunique⟩ := hrecorded
    rw [mayQueue_eq_false now hmem hwithdrawn (fun r hr => hunique r (hgrown hr)) hreaches hgoverns fun hgrant =>
      hlater (hgrant.mono hgrown)] at hmay
    cases hmay
  | _ => exact hcheck

/-! ### The steps -/

/-- The tables of a call: the ledger grows, and every message that may wait was there or is none of the call's. -/
theorem WithdrawCall.Sound.mono {call : WithdrawCall} {messages messages' : List Message}
    {consents : List ConsentRecord} (more : List ConsentRecord) (h : call.Sound w messages consents)
    (hnew : ∀ m ∈ messages', m.IsWaiting → m ∈ messages ∨ ¬ call.Withdraws w consents m) :
    call.Sound w messages' (consents ++ more) := by
  cases call with
  | scanned record keys =>
    intro m hm hcancels
    rcases hnew m hm hcancels.2 with hold | hnot
    · exact h m hold hcancels
    · exact absurd hcancels.1 hnot
  | updated record keys =>
    intro m hm hcancels
    rcases hnew m hm hcancels.2 with hold | hnot
    · exact h m hold hcancels
    · exact absurd hcancels.1 hnot
  | committed record sends =>
    rcases h with hgrant | hnone
    · exact Or.inl (hgrant.append more)
    · by_cases hlater : LaterGrant consents record
      · exact Or.inl (hlater.append more)
      · refine Or.inr fun m hm hcancels => ?_
        rcases hnew m hm hcancels.2 with hold | hnot
        · exact hnone m hold hcancels
        · exact hnot ⟨hcancels.1, hlater⟩
  | _ => trivial

/-- A record with a new id leaves the others alone in theirs. -/
theorem WithdrawCall.Recorded.append {call : WithdrawCall} {record : ConsentRecord} (h : call.Recorded s.consents)
    (hfresh : ¬s.HasId record.id) : call.Recorded (s.consents ++ [record]) := by
  cases call with
  | committed own sends =>
    obtain ⟨hwithdrawn, hmem, hunique⟩ := h
    refine ⟨hwithdrawn, List.mem_append_left _ hmem, forall_mem_concat hunique fun heq => ?_⟩
    exact absurd ⟨own, hmem, heq.symm⟩ hfresh
  | _ => exact h

theorem SendCall.Allowed.append {call : SendCall} {consents : List ConsentRecord} (h : call.Allowed w consents)
    (record : ConsentRecord) : call.Allowed w (consents ++ [record]) := by
  cases call with
  | checked message seen => exact ⟨fun r hr => List.mem_append_left _ (h.1 hr), h.2⟩
  | _ => trivial

/-- A call of `withdraw` moves on, and the tables stay. -/
theorem ConsentState.Held.setWithdraw (h : s.Held w) (k : ℕ) {call : WithdrawCall}
    (hsound : call.Sound w s.messages.rows s.consents) (hrecorded : call.Recorded s.consents) :
    (s.setWithdraw k call).Held w :=
  ⟨forall_mem_set h.sound hsound, forall_mem_set h.recorded hrecorded, h.allowed⟩

theorem ConsentState.Held.setSend (h : s.Held w) (k : ℕ) {call : SendCall} (hallowed : call.Allowed w s.consents) :
    (s.setSend k call).Held w :=
  ⟨h.sound, h.recorded, forall_mem_set h.allowed hallowed⟩

theorem ConsentState.Held.lockGrant (h : s.Held w) (k : ℕ) (consentId recordId : Uuid) (moment : ℕ) :
    (s.lockGrant k consentId recordId moment).Held w := by
  unfold ConsentState.lockGrant
  by_cases hheld : s.withdraws.any (WithdrawCall.holds consentId) = true
  · rw [if_pos hheld]
    exact h
  · rw [if_neg hheld]
    split
    · exact h.setWithdraw k trivial trivial
    · split_ifs
      · exact h.setWithdraw k trivial trivial
      · exact h.setWithdraw k trivial trivial
      · exact h.setWithdraw k trivial trivial
      · exact h.setWithdraw k trivial trivial

theorem ConsentState.Held.grant (h : s.Held w) (record : ConsentRecord) : (s.grant record).Held w := by
  have hmore (hfresh : ¬s.HasId record.id) :
      ConsentState.Held w { s with consents := s.consents ++ [record] } := by
    refine ⟨fun call hcall => ?_, fun call hcall => ?_, fun call hcall => ?_⟩
    · exact (h.sound call hcall).mono [record] fun m hm _ => Or.inl hm
    · exact (h.recorded call hcall).append hfresh
    · exact (h.allowed call hcall).append record
  unfold ConsentState.grant
  split
  · split_ifs with hpermits hid
    · exact h
    · exact h
    · exact hmore hid
  · split_ifs with hid
    · exact h
    · exact hmore hid

/-- The messages that wait after the commit of a `withdraw` waited before, and it had not seen them. -/
theorem mem_cancel {messages : Table Message.key} {keys : List (Uuid × ℕ)} {m : Message}
    (h : m ∈ (ConsentState.cancel messages keys).rows) (hwaiting : m.IsWaiting) :
    m ∈ messages.rows ∧ m.key ∉ keys := by
  obtain ⟨m', hm', rfl⟩ := List.mem_map.mp h
  split_ifs at hwaiting ⊢ with hkey
  · rcases hwaiting with hstatus | hstatus <;> cases hstatus
  · exact ⟨hm', hkey⟩

theorem ConsentState.Held.withdrawCommit (h : s.Held w) {k : ℕ} {record : ConsentRecord} {keys : List (Uuid × ℕ)}
    (hk : s.withdraws[k]? = some (.updated record keys)) (hfresh : ¬s.HasId record.id) :
    ConsentState.Held w { s.setWithdraw k (.committed record s.sends.length) with
      messages := ConsentState.cancel s.messages keys
      consents := s.consents ++ [record] } := by
  have hown := List.mem_of_getElem? hk
  refine ⟨forall_mem_set (fun call hcall => ?_) ?_, forall_mem_set (fun call hcall => ?_) ?_, fun call hcall => ?_⟩
  · exact (h.sound call hcall).mono [record] fun m hm hwaiting => Or.inl (mem_cancel hm hwaiting).1
  · -- every message of the contact that waited was seen
    refine Or.inr fun m hm hcancels => ?_
    obtain ⟨hold, hkey⟩ := mem_cancel hm hcancels.2
    exact hkey (h.sound _ hown m hold hcancels)
  · exact (h.recorded call hcall).append hfresh
  · refine ⟨h.recorded _ hown, List.mem_append_right _ (List.mem_singleton_self record), ?_⟩
    exact forall_mem_concat (fun r hr heq => absurd ⟨r, hr, heq⟩ hfresh) fun _ => rfl
  · exact (h.allowed call hcall).append record

/-- A message is committed past no withdrawal. -/
theorem ConsentState.Held.sendCommit (h : s.Held w) {k : ℕ} {message : Message} {seen : List ConsentRecord}
    (hk : s.sends[k]? = some (.checked message seen))
    (hc : ∀ call ∈ s.withdraws, call.Withdraws w s.consents message → call.BeforeCheck w seen message) :
    ConsentState.Held w { s.setSend k .finished with messages := s.messages.insert message } := by
  refine ⟨fun call hcall => ?_, h.recorded, forall_mem_set h.allowed trivial⟩
  have hsound := (h.sound call hcall).mono [] fun m hm _ => (Table.mem_insert hm).imp_right fun ⟨heq, _⟩ =>
    heq ▸ h.not_withdraws hk hcall (hc call hcall)
  rw [List.append_nil] at hsound
  exact hsound

theorem ConsentState.Held.step (h : s.Held w) (l : ConsentStep) (hc : NotPast w s l) : (s.step w l).Held w := by
  cases l with
  | tick microseconds => exact ⟨h.sound, h.recorded, h.allowed⟩
  | grant id contactId consentType channel expiresAt moment =>
    dsimp only [ConsentState.step]
    split_ifs
    · exact h.grant _
    · exact h
  | sendBegin caller conversation channel content messageId =>
    dsimp only [ConsentState.step]
    split_ifs
    · exact ⟨h.sound, h.recorded, forall_mem_concat h.allowed trivial⟩
    · exact h
  | sendCheck k =>
    dsimp only [ConsentState.step]
    split
    · split_ifs with hmay
      · exact h.setSend k ⟨List.Subset.refl _, _, hmay⟩
      · exact h.setSend k trivial
    · exact h
  | sendCommit k =>
    dsimp only [ConsentState.step, NotPast] at hc ⊢
    split
    · rename_i message seen hk
      rw [hk] at hc
      exact h.sendCommit hk hc
    · exact h
  | sendAbort k => exact h.setSend k trivial
  | withdrawBegin consentId recordId =>
    exact ⟨forall_mem_concat h.sound trivial, forall_mem_concat h.recorded trivial, h.allowed⟩
  | withdrawLock k =>
    dsimp only [ConsentState.step]
    split
    · exact h.lockGrant k _ _ _
    · exact h
  | withdrawScan k =>
    dsimp only [ConsentState.step]
    split
    · refine h.setWithdraw k (fun m hm hcancels => ?_) rfl
      exact List.mem_map_of_mem (List.mem_filter.mpr ⟨hm, decide_eq_true hcancels⟩)
    · exact h
  | withdrawUpdate k =>
    dsimp only [ConsentState.step]
    split
    · rename_i record keys hk
      split_ifs
      · exact h
      · have hown := List.mem_of_getElem? hk
        have hwithdrawn : record.status = .withdrawn := h.recorded _ hown
        refine h.setWithdraw k (fun m hm hcancels => List.mem_filter.mpr ⟨?_, decide_eq_true ?_⟩) hwithdrawn
        · exact h.sound _ hown m hm hcancels
        · exact List.mem_map_of_mem (List.mem_filter.mpr ⟨hm, decide_eq_true hcancels⟩)
    · exact h
  | withdrawCommit k =>
    dsimp only [ConsentState.step]
    split
    · rename_i record keys hk
      split_ifs with hid
      · exact h.setWithdraw k trivial trivial
      · exact h.withdrawCommit hk hid
    · exact h
  | withdrawAbort k =>
    dsimp only [ConsentState.step]
    split
    · exact h
    · exact h.setWithdraw k trivial trivial

/-- **A withdrawal stops the messages that wait, in every run in which no message is committed past it.** -/
theorem withdrawal_stops (w : Workspace) (now : ℕ) (messages : Table Message.key) (consents : List ConsentRecord)
    (steps : List ConsentStep) (h : Meets (ConsentState.step w) (NotPast w) (.initial now messages consents) steps) :
    Always (ConsentState.step w) (ConsentState.Stopped w) (.initial now messages consents) steps :=
  always_of_inv (ConsentState.Held w) (fun _ hs => hs.stopped) (fun _ l hs hc => hs.step l hc) steps _
    ⟨fun _ hcall => absurd hcall List.not_mem_nil, fun _ hcall => absurd hcall List.not_mem_nil,
      fun _ hcall => absurd hcall List.not_mem_nil⟩ h

end

/-! ## A message before the withdrawal, and one past it -/

/-- A thread of a contact on email. -/
def emailThread : Conversation := { linkedThread with leadId := none, primaryChannel := .email }

def emailWorkspace : Workspace := ⟨sampleUuid 'a', whatsappOnly, Table.empty.insert emailThread⟩

/-- The contact has agreed to email. -/
def emailGrant : ConsentRecord :=
  ConsentState.grantRecord emailWorkspace (sampleUuid 'g') (sampleUuid 'p') .communication .email none 0

def emailConsented : ConsentState := .initial 1 .empty [emailGrant]

def queueEmail : List ConsentStep := [.sendBegin seesAll emailThread .email "Hello" (sampleUuid 'm'), .sendCheck 0]

def withdrawEmail : List ConsentStep :=
  [.withdrawBegin (sampleUuid 'g') (sampleUuid 'w'), .withdrawLock 0, .withdrawScan 0, .withdrawUpdate 0,
    .withdrawCommit 0]

/-- A message is committed before the withdrawal, and another is begun after it. -/
def aroundWithdrawal : List ConsentStep :=
  queueEmail ++ [.sendCommit 0] ++ withdrawEmail ++
    [.sendBegin seesAll emailThread .email "Hello?" (sampleUuid 'n'), .sendCheck 1, .sendCommit 1]

/-- The first is cancelled, and the second is refused by its check. -/
theorem withdrawal_stops_aroundWithdrawal :
    Meets (ConsentState.step emailWorkspace) (NotPast emailWorkspace) emailConsented aroundWithdrawal ∧
      Always (ConsentState.step emailWorkspace) (ConsentState.Stopped emailWorkspace) emailConsented
        aroundWithdrawal := by
  have hrefused : (after (ConsentState.step emailWorkspace) emailConsented (aroundWithdrawal.take 10)).sends[1]? =
      some .finished := by decide +kernel
  have hlast : NotPast emailWorkspace
      (after (ConsentState.step emailWorkspace) emailConsented (aroundWithdrawal.take 10)) (.sendCommit 1) := by
    simp only [NotPast, hrefused]
  have hmeets : Meets (ConsentState.step emailWorkspace) (NotPast emailWorkspace) emailConsented aroundWithdrawal :=
    ⟨trivial, trivial, fun _ hcall => absurd hcall List.not_mem_nil, trivial, trivial, trivial, trivial, trivial,
      trivial, trivial, hlast, trivial⟩
  exact ⟨hmeets, withdrawal_stops emailWorkspace 1 .empty [emailGrant] _ hmeets⟩

/-- The consent is withdrawn between the check of a `send` and its commit. -/
def committedPast : List ConsentStep := queueEmail ++ withdrawEmail ++ [.sendCommit 0]

/-- The message waits, and no grant is later. -/
theorem committedPast_waits : ¬ Always (ConsentState.step emailWorkspace) (ConsentState.Stopped emailWorkspace)
    emailConsented committedPast := by
  intro h
  have hstopped := always_last h 0 (emailGrant.withdrawal (sampleUuid 'w') 1) 1 (by decide +kernel) (by decide +kernel)
    (by decide +kernel) (queuedMessage whatsappOnly seesAll (sampleUuid 'c') ⟨1, sampleUuid 'm', sampleUuid 'm'⟩ .email
      "Hello") (by decide +kernel) (by decide +kernel)
  exact hstopped.2 rfl

end RevenueOS.Communications
