import RevenueOS.Lib.Trace
import RevenueOS.Lib.Slots
import RevenueOS.Workflows.Triggers

/-!
# RevenueOS.Leads.FirstResponse — the first response to a lead

`domain/leads/first_response.py` and `record_first_response` (`application/leads/first_response.py`) on one lead.  Each
call runs in the unit of work that writes its evidence: the conditional `UPDATE` holds the lock of the row until its
transaction ends, an `UPDATE` that finds the row locked waits and then looks at the committed value, and the event
that was collected is inserted by the commit.

* `qualifies_cases`: what qualifies.
* `firstResponse_once`: over every interleaving of calls, commits and rollbacks the column is what the first committed
  call that qualifies says, it stays, and there is one event for it.
-/

namespace RevenueOS.Leads

open RevenueOS.Lib RevenueOS.Workflows

/-! ## What qualifies -/

/-- `CUSTOMER_CONTACT_CHANNELS`. -/
def customerContactChannels : List String := ["call", "email", "whatsapp", "meeting", "sms", "webchat"]

/-- `DIRECTIONS`. -/
def directions : List String := ["outbound", "inbound"]

/-- `UNENGAGED_OUTCOMES`. -/
def unengagedOutcomes : List String :=
  ["no_answer", "meeting_scheduled", "received", "failed", "cancelled", "no_show"]

/-- `ENGAGED_OUTCOMES`. -/
def engagedOutcomes : List String := ["spoke", "meeting_held", "sent"]

/-- `OUTCOMES`. -/
def outcomes : List String := engagedOutcomes ++ unengagedOutcomes

/-- `INBOUND_ENGAGED_OUTCOMES`. -/
def inboundEngagedOutcomes : List String := ["spoke", "meeting_held"]

/-- `is_customer_contact`. -/
def isCustomerContact (channel : String) : Bool := customerContactChannels.contains channel

/-- `qualifies_as_first_response`. -/
def qualifiesAsFirstResponse (channel direction : String) (outcome : Option String) : Bool :=
  if !isCustomerContact channel then false
  else if !directions.contains direction then false
  else
    match outcome with
    | none => direction == "outbound"
    | some outcome =>
      if !outcomes.contains outcome then false
      else if unengagedOutcomes.contains outcome then false
      else if direction == "outbound" then true
      else inboundEngagedOutcomes.contains outcome

/-- What qualifies reached the customer, and was sent by the business or spoken with it. -/
theorem qualifies_cases {channel direction : String} {outcome : Option String}
    (h : qualifiesAsFirstResponse channel direction outcome = true) :
    isCustomerContact channel = true ∧
      (direction = "outbound" ∧ (outcome = none ∨ ∃ o ∈ engagedOutcomes, outcome = some o) ∨
        direction = "inbound" ∧ ∃ o ∈ inboundEngagedOutcomes, outcome = some o) := by
  unfold qualifiesAsFirstResponse at h
  by_cases hchannel : isCustomerContact channel = true
  · by_cases hdirection : direction ∈ directions
    · rw [hchannel, List.contains_iff_mem.mpr hdirection] at h
      refine ⟨hchannel, ?_⟩
      cases outcome with
      | none => exact Or.inl ⟨beq_iff_eq.mp h, Or.inl rfl⟩
      | some o =>
        change (if (!outcomes.contains o) = true then false else if unengagedOutcomes.contains o = true then false
          else if (direction == "outbound") = true then true else inboundEngagedOutcomes.contains o) = true at h
        split_ifs at h with hknown hunengaged houtbound
        · rw [Bool.not_eq_true', Bool.not_eq_false, List.contains_iff_mem] at hknown
          rw [List.contains_iff_mem] at hunengaged
          have hengaged : o ∈ engagedOutcomes := (List.mem_append.mp hknown).resolve_right hunengaged
          exact Or.inl ⟨beq_iff_eq.mp houtbound, Or.inr ⟨o, hengaged, rfl⟩⟩
        · rcases List.mem_cons.mp hdirection with hout | hin
          · exact absurd (beq_iff_eq.mpr hout) houtbound
          · exact Or.inr ⟨List.mem_singleton.mp hin, o, List.contains_iff_mem.mp h, rfl⟩
    · rw [← List.contains_iff_mem, Bool.not_eq_true] at hdirection
      rw [hchannel, hdirection] at h
      cases h
  · rw [Bool.not_eq_true] at hchannel
    rw [hchannel] at h
    cases h

/-! ## Calls -/

/-- The arguments of a call of `record_first_response`. -/
structure LeadContact where
  channel : String
  direction : String
  outcome : Option String
  occurredAt : ℤ
  actorId : Option Uuid
  source : String
deriving DecidableEq

def LeadContact.qualifies (contact : LeadContact) : Bool :=
  qualifiesAsFirstResponse contact.channel contact.direction contact.outcome

/-- The event `lead.first_response_recorded` of a call. -/
structure ResponseEvent where
  actorId : Option Uuid
  channel : String
  direction : String
  outcome : Option String
  source : String
  occurredAt : ℤ
deriving DecidableEq

def LeadContact.event (contact : LeadContact) : ResponseEvent :=
  ⟨contact.actorId, contact.channel, contact.direction, contact.outcome, contact.source, contact.occurredAt⟩

/-- A transaction that makes one call. -/
inductive ResponseTx where
  /-- The `UPDATE` was sent. -/
  | updating (contact : LeadContact)
  /-- The `UPDATE` matched the row, which it locks; the event is collected.  The call returned `True`. -/
  | stamped (contact : LeadContact)
  /-- The call returned `False`. -/
  | passed (contact : LeadContact)
  | ended
deriving DecidableEq

/-- The row as it is committed, the committed events, the contacts whose evidence is committed, in the order of the
commits, and the transactions. -/
structure ResponseState where
  firstResponseAt : Option ℤ
  outbox : List ResponseEvent
  evidence : List LeadContact
  txs : List ResponseTx
deriving DecidableEq

inductive ResponseStep where
  /-- A transaction opens and makes its call. -/
  | call (contact : LeadContact)
  /-- The `UPDATE` of a transaction is executed; it waits while another one holds the row. -/
  | update (k : ℕ)
  | commit (k : ℕ)
  | rollback (k : ℕ)

namespace ResponseState

def start : ResponseState := ⟨none, [], [], []⟩

/-- Some transaction holds the row. -/
def locked (s : ResponseState) : Bool :=
  s.txs.any fun tx => match tx with
    | .stamped _ => true
    | _ => false

def setTx (s : ResponseState) (k : ℕ) (tx : ResponseTx) : ResponseState := { s with txs := s.txs.set k tx }

def step (s : ResponseState) : ResponseStep → ResponseState
  | .call contact =>
    { s with txs := s.txs ++ [if contact.qualifies then .updating contact else .passed contact] }
  | .update k =>
    match s.txs[k]? with
    | some (.updating contact) =>
      if s.locked then s
      else
        match s.firstResponseAt with
        | none => s.setTx k (.stamped contact)
        | some _ => s.setTx k (.passed contact)
    | _ => s
  | .commit k =>
    match s.txs[k]? with
    | some (.stamped contact) =>
      { firstResponseAt := some contact.occurredAt
        outbox := s.outbox ++ [contact.event]
        evidence := s.evidence ++ [contact]
        txs := s.txs.set k .ended }
    | some (.passed contact) => { s.setTx k .ended with evidence := s.evidence ++ [contact] }
    | _ => s
  | .rollback k => if k < s.txs.length then s.setTx k .ended else s

end ResponseState

/-! ## What a step does -/

/-- What a step of the system does to it. -/
inductive ResponseMove (s : ResponseState) : ResponseState → Prop where
  | idle : ResponseMove s s
  | opened (tx : ResponseTx) (h : (∃ c, tx = .updating c ∧ c.qualifies = true) ∨
      ∃ c, tx = .passed c ∧ c.qualifies = false) : ResponseMove s { s with txs := s.txs ++ [tx] }
  | stamped {k : ℕ} {c : LeadContact} (hk : s.txs[k]? = some (.updating c)) (hfree : s.locked = false)
      (hnone : s.firstResponseAt = none) : ResponseMove s (s.setTx k (.stamped c))
  | passed {k : ℕ} {c : LeadContact} (hk : s.txs[k]? = some (.updating c)) (hsome : s.firstResponseAt ≠ none) :
      ResponseMove s (s.setTx k (.passed c))
  | answered {k : ℕ} {c : LeadContact} (hk : s.txs[k]? = some (.stamped c)) :
      ResponseMove s ⟨some c.occurredAt, s.outbox ++ [c.event], s.evidence ++ [c], s.txs.set k .ended⟩
  | logged {k : ℕ} {c : LeadContact} (hk : s.txs[k]? = some (.passed c)) :
      ResponseMove s { s.setTx k .ended with evidence := s.evidence ++ [c] }
  | dropped (k : ℕ) : ResponseMove s (s.setTx k .ended)

theorem responseMove_step (s : ResponseState) (l : ResponseStep) : ResponseMove s (s.step l) := by
  cases l with
  | call contact =>
    dsimp only [ResponseState.step]
    by_cases h : contact.qualifies = true
    · rw [if_pos h]
      exact .opened _ (Or.inl ⟨contact, rfl, h⟩)
    · rw [if_neg h]
      exact .opened _ (Or.inr ⟨contact, rfl, Bool.not_eq_true _ ▸ h⟩)
  | update k =>
    dsimp only [ResponseState.step]
    split
    · rename_i contact hk
      split_ifs with hlocked
      · exact .idle
      · cases hfirst : s.firstResponseAt with
        | none => exact .stamped hk (Bool.not_eq_true _ ▸ hlocked) hfirst
        | some t => exact .passed hk (by rw [hfirst]; exact Option.some_ne_none t)
    · exact .idle
  | commit k =>
    dsimp only [ResponseState.step]
    split
    · rename_i contact hk
      exact .answered hk
    · rename_i contact hk
      exact .logged hk
    · exact .idle
  | rollback k =>
    dsimp only [ResponseState.step]
    split_ifs
    · exact .dropped k
    · exact .idle

/-! ## The first committed call that qualifies -/

/-- The column and the events are those of the first contact with committed evidence that qualifies. -/
structure ResponseState.Truthful (s : ResponseState) : Prop where
  column : s.firstResponseAt = (s.evidence.find? LeadContact.qualifies).map LeadContact.occurredAt
  events : s.outbox = ((s.evidence.find? LeadContact.qualifies).map LeadContact.event).toList

/-- A step keeps the time that is recorded. -/
def KeepsResponse (s : ResponseState) (l : ResponseStep) : Prop :=
  ∀ t, s.firstResponseAt = some t → (s.step l).firstResponseAt = some t

/-- What is known of a transaction, given the column. -/
def ResponseTx.Sound (firstResponseAt : Option ℤ) : ResponseTx → Prop
  | .updating c => c.qualifies = true
  | .stamped c => c.qualifies = true ∧ firstResponseAt = none
  | .passed c => c.qualifies = true → firstResponseAt ≠ none
  | .ended => True

structure ResponseState.Inv (s : ResponseState) : Prop where
  truthful : s.Truthful
  sound : ∀ (k : ℕ) (tx : ResponseTx), s.txs[k]? = some tx → tx.Sound s.firstResponseAt
  one_holder : ∀ (j k : ℕ) (c d : LeadContact), s.txs[j]? = some (.stamped c) → s.txs[k]? = some (.stamped d) → j = k

theorem ResponseState.not_stamped_of_free {s : ResponseState} (h : s.locked = false) {k : ℕ} {c : LeadContact} :
    s.txs[k]? ≠ some (.stamped c) := by
  intro hk
  have hall := List.any_eq_false.mp h _ (List.mem_of_getElem? hk)
  exact hall rfl

/-- A transaction that does not hold the row takes another state. -/
theorem ResponseState.Inv.setTx {s : ResponseState} (h : s.Inv) {k : ℕ} {tx : ResponseTx}
    (hsound : tx.Sound s.firstResponseAt) (hfree : ∀ c, tx ≠ .stamped c) : (s.setTx k tx).Inv where
  truthful := ⟨h.truthful.column, h.truthful.events⟩
  sound j t ht := by
    rcases getElem?_set_cases ht with ⟨-, rfl⟩ | ⟨-, ht⟩
    · exact hsound
    · exact h.sound j t ht
  one_holder i j c d hi hj := by
    rcases getElem?_set_cases hi with ⟨-, heq⟩ | ⟨-, hi⟩
    · exact absurd heq.symm (hfree c)
    · rcases getElem?_set_cases hj with ⟨-, heq⟩ | ⟨-, hj⟩
      · exact absurd heq.symm (hfree d)
      · exact h.one_holder i j c d hi hj

theorem ResponseState.Inv.truthful_logged {s : ResponseState} (h : s.Inv) {k : ℕ} {c : LeadContact}
    (hk : s.txs[k]? = some (.passed c)) :
    (s.evidence ++ [c]).find? LeadContact.qualifies = s.evidence.find? LeadContact.qualifies := by
  rw [List.find?_append]
  cases hfind : s.evidence.find? LeadContact.qualifies with
  | some first => rfl
  | none =>
    -- nothing is recorded, so the contact that passed does not qualify
    have hcolumn := h.truthful.column
    rw [hfind] at hcolumn
    cases hqualifies : c.qualifies with
    | true => exact absurd hcolumn (h.sound k _ hk hqualifies)
    | false =>
      rw [List.find?_singleton, hqualifies]
      rfl

theorem ResponseState.Inv.none_of_stamped {s : ResponseState} (h : s.Inv) {k : ℕ} {c : LeadContact}
    (hk : s.txs[k]? = some (.stamped c)) : s.evidence.find? LeadContact.qualifies = none := by
  have hcolumn := h.truthful.column
  rw [(h.sound k _ hk).2] at hcolumn
  exact Option.map_eq_none_iff.mp hcolumn.symm

theorem ResponseState.Inv.move {s s' : ResponseState} (h : s.Inv) (hmove : ResponseMove s s') : s'.Inv := by
  cases hmove with
  | idle => exact h
  | opened tx htx =>
    have hsound : tx.Sound s.firstResponseAt := by
      rcases htx with ⟨c, rfl, hc⟩ | ⟨c, rfl, hc⟩
      · exact hc
      · intro hqualifies
        rw [hc] at hqualifies
        cases hqualifies
    have hfree : ∀ c, tx ≠ .stamped c := by
      rcases htx with ⟨c, rfl, -⟩ | ⟨c, rfl, -⟩
      · exact fun _ => ResponseTx.noConfusion
      · exact fun _ => ResponseTx.noConfusion
    refine ⟨⟨h.truthful.column, h.truthful.events⟩, fun k t ht => ?_, fun i j c d hi hj => ?_⟩
    · rcases getElem?_concat_cases ht with rfl | ht
      · exact hsound
      · exact h.sound k t ht
    · rcases getElem?_concat_cases hi with heq | hi
      · exact absurd heq.symm (hfree c)
      · rcases getElem?_concat_cases hj with heq | hj
        · exact absurd heq.symm (hfree d)
        · exact h.one_holder i j c d hi hj
  | @stamped k c hk hfree hnone =>
    refine ⟨⟨h.truthful.column, h.truthful.events⟩, fun j t ht => ?_, fun i j c' d hi hj => ?_⟩
    · rcases getElem?_set_cases ht with ⟨-, rfl⟩ | ⟨-, ht⟩
      · exact ⟨h.sound k _ hk, hnone⟩
      · exact h.sound j t ht
    · rcases getElem?_set_cases hi with ⟨rfl, -⟩ | ⟨-, hi⟩
      · rcases getElem?_set_cases hj with ⟨rfl, -⟩ | ⟨-, hj⟩
        · rfl
        · exact absurd hj (ResponseState.not_stamped_of_free hfree)
      · exact absurd hi (ResponseState.not_stamped_of_free hfree)
  | passed hk hsome => exact h.setTx (fun _ => hsome) (fun _ => ResponseTx.noConfusion)
  | @answered k c hk =>
    have hnone := h.none_of_stamped hk
    have hfind : (s.evidence ++ [c]).find? LeadContact.qualifies = some c := by
      rw [List.find?_append, hnone, List.find?_singleton, (h.sound k _ hk).1]
      rfl
    refine ⟨⟨?_, ?_⟩, fun j t ht => ?_, fun i j c' d hi hj => ?_⟩
    · dsimp only
      rw [hfind]
      rfl
    · dsimp only
      rw [hfind, h.truthful.events, hnone]
      rfl
    · rcases getElem?_set_cases ht with ⟨-, rfl⟩ | ⟨hne, ht⟩
      · trivial
      · cases t with
        | updating d => exact h.sound j _ ht
        | stamped d => exact absurd (h.one_holder j k d c ht hk) hne
        | passed d => exact fun _ => Option.some_ne_none _
        | ended => trivial
    · rcases getElem?_set_cases hi with ⟨-, heq⟩ | ⟨-, hi⟩
      · cases heq
      · rcases getElem?_set_cases hj with ⟨-, heq⟩ | ⟨-, hj⟩
        · cases heq
        · exact h.one_holder i j c' d hi hj
  | @logged k c hk =>
    have hended : (s.setTx k .ended).Inv := h.setTx trivial (fun _ => ResponseTx.noConfusion)
    refine ⟨⟨?_, ?_⟩, hended.sound, hended.one_holder⟩
    · dsimp only
      rw [h.truthful_logged hk]
      exact h.truthful.column
    · dsimp only
      rw [h.truthful_logged hk]
      exact h.truthful.events
  | dropped k => exact h.setTx trivial (fun _ => ResponseTx.noConfusion)

/-- No transaction holds the row once a response is recorded, so none writes it again. -/
theorem ResponseState.Inv.keeps {s s' : ResponseState} (h : s.Inv) (hmove : ResponseMove s s') {t : ℤ}
    (ht : s.firstResponseAt = some t) : s'.firstResponseAt = some t := by
  cases hmove with
  | answered hk =>
    have hnone := (h.sound _ _ hk).2
    rw [ht] at hnone
    cases hnone
  | _ => exact ht

theorem inv_start : ResponseState.start.Inv where
  truthful := ⟨rfl, rfl⟩
  sound k tx h := by cases h
  one_holder i j c d hi := by cases hi

/-- **First response is recorded once and truthfully.** -/
theorem firstResponse_once (steps : List ResponseStep) :
    Always ResponseState.step ResponseState.Truthful .start steps ∧
      Meets ResponseState.step KeepsResponse .start steps := by
  constructor
  · exact always_of_inv ResponseState.Inv (fun _ h => h.truthful)
      (fun s l h _ => h.move (responseMove_step s l)) steps _ inv_start
      (meets_of_forall (fun _ _ => trivial) steps _)
  · exact meets_of_inv ResponseState.Inv
      (fun s l h => ⟨fun _ => h.keeps (responseMove_step s l), h.move (responseMove_step s l)⟩) steps _ inv_start

end RevenueOS.Leads
