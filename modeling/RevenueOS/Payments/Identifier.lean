import RevenueOS.Payments.Accept
import RevenueOS.Lib.Except

/-!
# RevenueOS.Payments.Identifier — which deliveries are taken for one another

An event is deduplicated by the `id` of the envelope or, where that is missing, by the `id` of the first entity
the body carries.  Two deliveries about one payment may therefore share an identifier although their events
differ, and the second is then answered as a duplicate: `confuses_iff` says exactly when.
-/

namespace RevenueOS.Payments

open RevenueOS.Py RevenueOS.Workflows RevenueOS.Lib

/-! ## The identifier of a body -/

/-- The object a value is, or an empty one. -/
def dictOf : Json → Dict
  | .obj d => d
  | _ => []

/-- The entity a body carries under `kind`. -/
def entityOfKind (body : Json) (kind : String) : Json :=
  (dictOf ((dictOf ((dictOf body).getD "payload" (.obj []))).getD kind (.obj []))).get "entity"

/-- The first entity present: the payment, the refund, the order. -/
def presentEntity (body : Json) : Dict :=
  dictOf ((entityOfKind body "payment").or ((entityOfKind body "refund").or (entityOfKind body "order")))

/-- The `id` of the envelope, or else of the first entity, as a text without blanks around it. -/
def identifier (body : Json) : String :=
  strip (((dictOf body).get "id").or (((presentEntity body).get "id").or (.str ""))).text

/-- The name of the event, without blanks around it. -/
def eventName (body : Json) : String := strip (((dictOf body).getD "event" (.str "")).or (.str "")).text

theorem asDict_eq_ok {x : Json} {d : Dict} : x.asDict = .ok d ↔ x = .obj d := by
  cases x <;> simp [Json.asDict]

theorem dictOf_of_asDict {x : Json} {d : Dict} (h : x.asDict = .ok d) : dictOf x = d := by
  rw [asDict_eq_ok.mp h]
  rfl

/-- A value that is not true holds no fields. -/
theorem dictOf_of_not_truthy {x : Json} (h : x.truthy = false) : dictOf x = [] := by
  cases x with
  | obj d => simpa [Json.truthy, dictOf] using h
  | _ => rfl

theorem wrapped_eq_ok {body x : Json} {wrapper : Dict} {kind : String}
    (hwrapper : (Dict.getD (dictOf body) "payload" (.obj [])).asDict = .ok wrapper)
    (h : wrapped wrapper kind = .ok x) : entityOfKind body kind = x := by
  unfold wrapped at h
  obtain ⟨inner, hinner, h⟩ := bind_eq_ok.mp h
  unfold entityOfKind
  rw [dictOf_of_asDict hwrapper, dictOf_of_asDict hinner]
  exact pure_eq_ok.mp h

/-- `entityOf` finds the first entity present. -/
theorem dictOf_entityOf {body entity : Json} {wrapper : Dict}
    (hwrapper : (Dict.getD (dictOf body) "payload" (.obj [])).asDict = .ok wrapper)
    (h : entityOf wrapper = .ok entity) : presentEntity body = dictOf entity := by
  unfold entityOf at h
  obtain ⟨payment, hpayment, h⟩ := bind_eq_ok.mp h
  unfold presentEntity Json.or
  rw [wrapped_eq_ok hwrapper hpayment]
  split_ifs at h with hp
  · rw [if_pos hp, pure_eq_ok.mp h]
  · rw [if_neg hp]
    obtain ⟨refund, hrefund, h⟩ := bind_eq_ok.mp h
    rw [wrapped_eq_ok hwrapper hrefund]
    split_ifs at h with hr
    · rw [if_pos hr, pure_eq_ok.mp h]
    · rw [if_neg hr]
      obtain ⟨order, horder, h⟩ := bind_eq_ok.mp h
      rw [wrapped_eq_ok hwrapper horder, ← pure_eq_ok.mp h]
      unfold Json.or
      split_ifs with ho
      · rfl
      · exact dictOf_of_not_truthy (Bool.eq_false_iff.mpr ho)

/-- The parts of a body that parses. -/
structure Parsed (body : Json) (parsed : Dict) : Prop where
  event : parsed.get "event" = (dictOf body).getD "event" (.str "")
  eventId : ∃ text, parsed.get "external_event_id" = .str text ∧
    text = (((dictOf body).get "id").or (((presentEntity body).get "id").or (.str ""))).text
  status : statusOf ((dictOf body).getD "event" (.str "")) = .ok (parsed.get "status")
  amount : parsed.get "amount_minor" = (presentEntity body).get "amount"

theorem parsed_of_parseWebhook {body : Json} {parsed : Dict} (h : parseWebhook body = .ok parsed) :
    Parsed body parsed := by
  unfold parseWebhook at h
  obtain ⟨payload, hpayload, h⟩ := bind_eq_ok.mp h
  obtain ⟨wrapper, hwrapper, h⟩ := bind_eq_ok.mp h
  obtain ⟨entity, hentity, h⟩ := bind_eq_ok.mp h
  obtain ⟨eventId, hid, h⟩ := bind_eq_ok.mp h
  obtain ⟨status, hstatus, h⟩ := bind_eq_ok.mp h
  obtain ⟨isPayment, -, h⟩ := bind_eq_ok.mp h
  obtain ⟨fields, hfields, h⟩ := bind_eq_ok.mp h
  obtain ⟨orderId, -, h⟩ := bind_eq_ok.mp h
  rw [← pure_eq_ok.mp h]
  obtain rfl := dictOf_of_asDict hpayload
  have hpresent := dictOf_entityOf hwrapper hentity
  have hdict := dictOf_of_asDict hfields
  refine ⟨rfl, ⟨eventId, rfl, ?_⟩, hstatus, ?_⟩
  · unfold externalEventId at hid
    unfold Json.or
    split_ifs at hid with htop
    · rw [if_pos htop, pure_eq_ok.mp hid]
    · obtain ⟨fields', hfields', hid⟩ := bind_eq_ok.mp hid
      rw [if_neg htop, ← pure_eq_ok.mp hid, hpresent, dictOf_of_asDict hfields']
      rfl
  · rw [hpresent, hdict]
    rfl

theorem field_of_str {parsed : Dict} {key text : String} (h : parsed.get key = .str text) :
    Call.field parsed key = strip text := by
  unfold Call.field Json.or
  rw [h]
  split_ifs with ht
  · rfl
  · have hempty : text = "" := by simpa [Json.truthy] using ht
    rw [hempty]
    rfl

theorem eventId_call {d : Delivery} {parsed : Dict} (h : parseWebhook d.body = .ok parsed) :
    (d.call parsed).eventId = identifier d.body := by
  obtain ⟨text, hget, htext⟩ := (parsed_of_parseWebhook h).eventId
  have hfield : Call.field parsed "external_event_id" = strip text := field_of_str hget
  unfold identifier
  rw [← htext]
  exact hfield

theorem eventType_call {d : Delivery} {parsed : Dict} (h : parseWebhook d.body = .ok parsed) :
    (d.call parsed).eventType = eventName d.body := by
  have hevent := (parsed_of_parseWebhook h).event
  unfold eventName
  rw [← hevent]
  rfl

/-! ## Duplicates -/

theorem processEvent_not_duplicate (db : Database) (c : Call) (duplicate : Bool) (read event : WebhookEvent)
    (p : Payment) : (processEvent db c duplicate read event p).1.state ≠ .duplicate := by
  unfold processEvent
  split
  · exact ReceiptState.noConfusion
  · split
    · exact ReceiptState.noConfusion
    · split
      · exact ReceiptState.noConfusion
      · split_ifs <;> exact ReceiptState.noConfusion

/-- A call is answered as a duplicate exactly when its event has been processed. -/
theorem duplicate_iff (db : Database) (c : Call) : (acceptVerifiedRazorpayEvent db c).1.state = .duplicate ↔
    c.eventId ≠ "" ∧ c.eventType ≠ "" ∧ IsProcessed db c.eventId := by
  unfold acceptVerifiedRazorpayEvent
  cases hlook : lookUp db c with
  | inl receipt =>
    rcases lookUp_eq_inl hlook with ⟨hstate, hblank⟩ | ⟨hstate, hid, htype, hprocessed⟩
    · refine iff_of_false (by simp [hstate]) ?_
      rintro ⟨hid, htype, -⟩
      exact hblank.elim hid htype
    · exact iff_of_true hstate ⟨hid, htype, hprocessed⟩
  | inr existing =>
    obtain ⟨-, -, hun, rfl⟩ := lookUp_eq_inr.mp hlook
    refine iff_of_false ?_ (fun h => not_isProcessed.mpr hun h.2.2)
    have hfresh : ∀ tenantId, ¬ (lockedEvent db c (db.events c.eventId) tenantId).processed = true :=
      fun tenantId => Bool.eq_false_iff.mp (lockedEvent_unprocessed hun tenantId)
    cases resolvePayment db c.parsed with
    | error error =>
      simp only [parkEvent, if_neg (hfresh none)]
      exact ReceiptState.noConfusion
    | ok p =>
      simp only [settleEvent, if_neg (hfresh (some p.tenantId))]
      split_ifs
      · exact not_false
      · exact processEvent_not_duplicate _ _ _ _ _ _

/-- The events processed after a call: those before, and its own if it is accepted. -/
theorem isProcessed_accept (db : Database) (c : Call) (eventId : String) :
    IsProcessed (acceptVerifiedRazorpayEvent db c).2 eventId ↔
      IsProcessed db eventId ∨ (eventId = c.eventId ∧ ∃ p, Accepts db p c) := by
  by_cases hacc : ∃ p, Accepts db p c
  · obtain ⟨p, h⟩ := hacc
    by_cases heq : eventId = c.eventId
    · subst heq
      refine iff_of_true ?_ (Or.inr ⟨rfl, p, h⟩)
      rcases accept_of_accepts h with ⟨-, -, e, he, hdb⟩ | ⟨-, -, read, event, hread, hdb⟩
      · rw [hdb]
        exact ⟨e, db.setEvent_self c.eventId e, he⟩
      · rw [hdb]
        exact isProcessed_applyTransition db c hread event p _
    · unfold IsProcessed
      rw [accept_events_of_ne db c heq]
      exact ⟨Or.inl, fun hor => hor.resolve_right (fun hown => heq hown.1)⟩
  · rw [(accept_of_not_accepts (not_exists.mp hacc)).processed eventId]
    exact ⟨Or.inl, fun hor => hor.resolve_right (fun hown => hacc hown.2)⟩

/-! ## Confusion -/

/-- The delivery is answered as a duplicate. -/
def answeredDuplicate (db : Database) (d : Delivery) : Bool :=
  match razorpayWebhook db d with
  | .ok answer => answer.1.state == .duplicate
  | .error _ => false

/-- The tables after a delivery; a body that does not parse raises before any write. -/
def receive (db : Database) (d : Delivery) : Database :=
  match razorpayWebhook db d with
  | .ok answer => answer.2
  | .error _ => db

/-- Processing `d` makes `e` be answered as a duplicate. -/
def Confuses (db : Database) (d e : Delivery) : Prop :=
  ¬ answeredDuplicate db e = true ∧ answeredDuplicate (receive db d) e = true

instance (db : Database) (d e : Delivery) : Decidable (Confuses db d e) := inferInstanceAs (Decidable (_ ∧ _))

theorem razorpayWebhook_eq {db : Database} {d : Delivery} {parsed : Dict} (h : parseWebhook d.body = .ok parsed) :
    razorpayWebhook db d = .ok (acceptVerifiedRazorpayEvent db (d.call parsed)) := by
  unfold razorpayWebhook
  rw [h]
  rfl

theorem receive_eq {db : Database} {d : Delivery} {parsed : Dict} (h : parseWebhook d.body = .ok parsed) :
    receive db d = (acceptVerifiedRazorpayEvent db (d.call parsed)).2 := by
  unfold receive
  rw [razorpayWebhook_eq h]

theorem answeredDuplicate_iff {db : Database} {d : Delivery} {parsed : Dict}
    (h : parseWebhook d.body = .ok parsed) : answeredDuplicate db d = true ↔
      identifier d.body ≠ "" ∧ eventName d.body ≠ "" ∧ IsProcessed db (identifier d.body) := by
  rw [← eventId_call h, ← eventType_call h, ← duplicate_iff]
  unfold answeredDuplicate
  simp only [razorpayWebhook_eq h, beq_iff_eq]

/-- **Confusion of deliveries**, exactly.  Processing a delivery that resolves to the payment `p` leaves another
one unconfused iff their identifiers differ, or the first is not processed at all: a blank identifier or name, an
identity that is not the payment's, or an event row that is not free for it. -/
theorem confuses_iff (db : Database) (p : Payment) (d e : Delivery) (parsed parsed' : Dict)
    (hd : parseWebhook d.body = .ok parsed) (he : parseWebhook e.body = .ok parsed')
    (hres : resolvePayment db parsed = .ok p) :
    ¬ Confuses db d e ↔
      identifier d.body ≠ identifier e.body ∨ identifier d.body = "" ∨ eventName d.body = "" ∨
        eventName e.body = "" ∨ Mismatches p parsed ∨ ¬ Open db p.tenantId (identifier d.body) := by
  have haccepts : (∃ q, Accepts db q (d.call parsed)) ↔ identifier d.body ≠ "" ∧ eventName d.body ≠ "" ∧
      Open db p.tenantId (identifier d.body) ∧ ¬ Mismatches p parsed := by
    rw [← eventId_call hd, ← eventType_call hd]
    constructor
    · rintro ⟨q, hq⟩
      obtain rfl : p = q := Except.ok.inj (hres.symm.trans hq.resolves)
      exact ⟨hq.eventId, hq.eventType, hq.free, hq.same⟩
    · rintro ⟨hid, htype, hfree, hsame⟩
      exact ⟨p, hid, htype, hres, hfree, hsame⟩
  unfold Confuses
  rw [answeredDuplicate_iff he, answeredDuplicate_iff he, receive_eq hd, isProcessed_accept, haccepts, eventId_call hd]
  constructor
  · intro h
    by_contra hnot
    simp only [not_or, not_not, ne_eq] at hnot
    obtain ⟨hsame, hid, hname, hname', hmatch, hfree⟩ := hnot
    have hun : ¬ IsProcessed db (identifier e.body) := by
      rw [not_isProcessed, ← hsame]
      exact fun event hevent => (hfree event hevent).1
    exact h ⟨fun hdup => hun hdup.2.2, hsame ▸ hid, hname', Or.inr ⟨hsame.symm, hid, hname, hfree, hmatch⟩⟩
  · rintro h ⟨hbefore, hid', hname', hprocessed | ⟨hsame, hid, hname, hfree, hmatch⟩⟩
    · exact hbefore ⟨hid', hname', hprocessed⟩
    · rcases h with h | h | h | h | h | h
      · exact h hsame.symm
      · exact hid h
      · exact hname h
      · exact hname' h
      · exact hmatch h
      · exact h hfree

/-! ## Two events of one payment -/

/-- A body about the sample payment, with the given fields in its envelope. -/
def sampleDelivery (event : String) (envelope : Dict) : Delivery where
  body := .obj (envelope ++ [("event", .str event), ("payload", .obj [("payment", .obj [("entity", .obj
    [("id", .str "pay_1"), ("order_id", .str "order_1"), ("amount", .int 1000), ("currency", .str "INR")])])])])
  correlationId := none
  now := 0
  timestamp := "1970-01-01T00:00:00+00:00"
  outboxId := sampleUuid 'o'
  domainEventId := sampleUuid 'd'

/-- With an `id` in each envelope, the capture is not taken for the authorisation. -/
theorem own_ids_not_confused :
    ¬ Confuses (sampleDatabase samplePayment) (sampleDelivery "payment.authorized" [("id", .str "evt_1")])
      (sampleDelivery "payment.captured" [("id", .str "evt_2")]) :=
  (confuses_iff (sampleDatabase samplePayment) samplePayment _ _ _ _ (eq_ok_get (by decide +kernel))
    (eq_ok_get (by decide +kernel)) (resolves_sample (by decide +kernel))).mpr (Or.inl (by decide +kernel))

/-- Without, both go by the id of the payment, and the capture is answered as a duplicate. -/
theorem same_entity_confused :
    eventName (sampleDelivery "payment.authorized" []).body ≠ eventName (sampleDelivery "payment.captured" []).body ∧
      Confuses (sampleDatabase samplePayment) (sampleDelivery "payment.authorized" [])
        (sampleDelivery "payment.captured" []) := by
  decide +kernel

end RevenueOS.Payments
