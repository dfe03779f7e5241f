import RevenueOS.Payments.Accept
import Mathlib.Data.List.Perm.Basic

/-!
# RevenueOS.Payments.Order — how the order of delivery decides a payment's status

An event that the current status does not allow is marked as processed and never looked at again.  So a list of
events for one payment moves it as the machine moves over their targets (`status_deliver`), and the order
matters exactly when both an event for `attempted` and one for `captured` are among them (`delivery_order`).
-/

namespace RevenueOS.Payments

open RevenueOS.Py RevenueOS.Workflows RevenueOS.Lib

/-! ## The machine over a list of targets -/

/-- The status after events for the given targets. -/
def advanceAll (s : PaymentStatus) (ks : List (Option PaymentStatus)) : PaymentStatus := ks.foldl advance s

theorem advanceAll_cons (s : PaymentStatus) (k : Option PaymentStatus) (ks : List (Option PaymentStatus)) :
    advanceAll s (k :: ks) = advanceAll (advance s k) ks := rfl

theorem advanceAll_append (s : PaymentStatus) (ks ms : List (Option PaymentStatus)) :
    advanceAll s (ks ++ ms) = advanceAll (advanceAll s ks) ms := List.foldl_append

theorem advanceAll_failed : ∀ ks : List (Option PaymentStatus), advanceAll .failed ks = .failed
  | [] => rfl
  | k :: ks => by
    have hstay : advance .failed k = .failed := by rcases k with _ | k <;> rfl
    rw [advanceAll_cons, hstay, advanceAll_failed ks]

theorem advanceAll_captured : ∀ ks : List (Option PaymentStatus),
    advanceAll .captured ks = if some .refunded ∈ ks then .refunded else .captured
  | [] => rfl
  | k :: ks => by
    have hrefunded : ∀ ms : List (Option PaymentStatus), advanceAll .refunded ms = .refunded := by
      intro ms
      induction ms with
      | nil => rfl
      | cons m ms ih =>
        have hstay : advance .refunded m = .refunded := by rcases m with _ | m <;> rfl
        rw [advanceAll_cons, hstay, ih]
    rw [advanceAll_cons]
    rcases k with _ | k
    · simp [advance, advanceAll_captured ks]
    · cases k <;> simp [advance, allowed, advanceAll_captured ks, hrefunded]

/-- From `attempted`, without a captured event. -/
theorem advanceAll_attempted : ∀ {ks : List (Option PaymentStatus)}, some .captured ∉ ks →
    advanceAll .attempted ks = if some .failed ∈ ks then .failed else .attempted
  | [], _ => rfl
  | k :: ks, h => by
    rw [List.mem_cons, not_or] at h
    rw [advanceAll_cons]
    rcases k with _ | k
    · simp [advance, advanceAll_attempted h.2]
    · cases k <;> simp_all [advance, allowed, advanceAll_attempted h.2, advanceAll_failed]

/-- Without both an attempted and a captured event, the status depends on which targets occur only. -/
theorem advanceAll_created : ∀ {ks : List (Option PaymentStatus)},
    ¬ (some .attempted ∈ ks ∧ some .captured ∈ ks) → advanceAll .created ks =
      if some .failed ∈ ks then .failed else if some .attempted ∈ ks then .attempted else .created
  | [], _ => rfl
  | k :: ks, h => by
    have hks : ¬ (some .attempted ∈ ks ∧ some .captured ∈ ks) := fun hboth =>
      h ⟨List.mem_cons_of_mem _ hboth.1, List.mem_cons_of_mem _ hboth.2⟩
    rw [advanceAll_cons]
    rcases k with _ | k
    · simp [advance, advanceAll_created hks]
    · cases k with
      | created => simp [advance, allowed, advanceAll_created hks]
      | attempted =>
        have hcaptured : some .captured ∉ ks := fun hc =>
          h ⟨List.mem_cons_self, List.mem_cons_of_mem _ hc⟩
        simp [advance, allowed, advanceAll_attempted hcaptured]
      | captured => simp [advance, allowed, advanceAll_created hks]
      | failed => simp [advance, allowed, advanceAll_failed]
      | refunded => simp [advance, allowed, advanceAll_created hks]

/-- From `attempted`, without a failed or refund event. -/
theorem advanceAll_attempted_eq_captured : ∀ {ks : List (Option PaymentStatus)}, some .failed ∉ ks →
    some .refunded ∉ ks → (advanceAll .attempted ks = .captured ↔ some .captured ∈ ks)
  | [], _, _ => by simp [advanceAll]
  | k :: ks, hf, hr => by
    rw [List.mem_cons, not_or] at hf hr
    rw [advanceAll_cons]
    rcases k with _ | k
    · simp [advance, advanceAll_attempted_eq_captured hf.2 hr.2]
    · cases k <;> simp_all [advance, allowed, advanceAll_attempted_eq_captured hf.2 hr.2, advanceAll_captured]

/-- Without a failed or refund event, the payment is captured exactly if a captured event comes after an
attempted one. -/
theorem advanceAll_eq_captured : ∀ {ks : List (Option PaymentStatus)}, some .failed ∉ ks → some .refunded ∉ ks →
    (advanceAll .created ks = .captured ↔
      ∃ before later, ks = before ++ some .captured :: later ∧ some .attempted ∈ before)
  | [], _, _ => by simp [advanceAll]
  | k :: ks, hf, hr => by
    rw [List.mem_cons, not_or] at hf hr
    rw [advanceAll_cons]
    by_cases hk : k = some .attempted
    · subst hk
      have hmove : advance .created (some .attempted) = .attempted := rfl
      rw [hmove, advanceAll_attempted_eq_captured hf.2 hr.2]
      constructor
      · intro hc
        obtain ⟨before, later, rfl⟩ := List.append_of_mem hc
        exact ⟨some .attempted :: before, later, rfl, List.mem_cons_self⟩
      · rintro ⟨before, later, heq, ha⟩
        rcases before with _ | ⟨b, before⟩
        · cases ha
        · rw [List.cons_append, List.cons.injEq] at heq
          rw [heq.2]
          exact List.mem_append_right _ List.mem_cons_self
    · have hstay : advance .created k = .created := by
        rcases k with _ | k
        · rfl
        · cases k <;> simp_all [advance, allowed]
      rw [hstay, advanceAll_eq_captured hf.2 hr.2]
      constructor
      · rintro ⟨before, later, rfl, ha⟩
        exact ⟨k :: before, later, rfl, List.mem_cons_of_mem _ ha⟩
      · rintro ⟨before, later, heq, ha⟩
        rcases before with _ | ⟨b, before⟩
        · cases ha
        · rw [List.cons_append, List.cons.injEq] at heq
          obtain ⟨rfl, rfl⟩ := heq
          exact ⟨before, later, rfl, (List.mem_cons.mp ha).resolve_left (Ne.symm hk)⟩

theorem advanceAll_all {s t : PaymentStatus} (ht : t ∈ allowed s) : ∀ {ks : List (Option PaymentStatus)},
    (∀ k ∈ ks, k = some t) → some t ∈ ks → advanceAll s ks = t
  | [], _, h => absurd h List.not_mem_nil
  | k :: ks, hall, _ => by
    have hrest : ∀ {ms : List (Option PaymentStatus)}, (∀ k ∈ ms, k = some t) → advanceAll t ms = t := by
      intro ms
      induction ms with
      | nil => exact fun _ => rfl
      | cons m ms ih =>
        intro hms
        rw [advanceAll_cons, hms m List.mem_cons_self, advance, if_neg (not_mem_allowed_self t)]
        exact ih (fun k hk => hms k (List.mem_cons_of_mem _ hk))
    rw [advanceAll_cons, hall k List.mem_cons_self, advance, if_pos ht]
    exact hrest (fun k hk => hall k (List.mem_cons_of_mem _ hk))

/-! ## Lists of events -/

/-- The status an event is for. -/
def Call.kind (c : Call) : Option PaymentStatus := c.target.bind PaymentStatus.ofText?

theorem mem_map_kind {cs : List Call} {k : Option PaymentStatus} : k ∈ cs.map Call.kind ↔ ∃ c ∈ cs, c.kind = k :=
  List.mem_map

/-- Two orders of events that lead to different statuses, when both targets occur. -/
theorem exists_orders {cs : List Call} (ha : some .attempted ∈ cs.map Call.kind)
    (hc : some .captured ∈ cs.map Call.kind) : ∃ l₁ l₂ : List Call, l₁.Perm cs ∧ l₂.Perm cs ∧
      advanceAll .created (l₁.map Call.kind) ≠ advanceAll .created (l₂.map Call.kind) := by
  let isA := fun c : Call => decide (c.kind = some .attempted)
  let isC := fun c : Call => decide (c.kind = some .captured)
  have hattempted : some .attempted ∈ (cs.filter isA).map Call.kind := by
    obtain ⟨a, hmem, hkind⟩ := mem_map_kind.mp ha
    exact mem_map_kind.mpr ⟨a, List.mem_filter.mpr ⟨hmem, decide_eq_true hkind⟩, hkind⟩
  have hall : ∀ k ∈ (cs.filter isA).map Call.kind, k = some .attempted := by
    intro k hk
    obtain ⟨a, hmem, rfl⟩ := mem_map_kind.mp hk
    exact of_decide_eq_true (List.mem_filter.mp hmem).2
  -- attempted events first, then the captured ones
  let rest := cs.filter (fun c => !isA c)
  refine ⟨cs.filter isA ++ (rest.filter isC ++ rest.filter (fun c => !isC c)), rest ++ cs.filter isA, ?_, ?_, ?_⟩
  · exact ((List.filter_append_perm isC rest).append_left _).trans (List.filter_append_perm isA cs)
  · exact List.perm_append_comm.trans (List.filter_append_perm isA cs)
  · have hcaptured : some .captured ∈ (rest.filter isC).map Call.kind := by
      obtain ⟨c, hmem, hkind⟩ := mem_map_kind.mp hc
      refine mem_map_kind.mpr ⟨c, ?_, hkind⟩
      simp [rest, isA, isC, hmem, hkind]
    have hallc : ∀ k ∈ (rest.filter isC).map Call.kind, k = some .captured := by
      intro k hk
      obtain ⟨c, hmem, rfl⟩ := mem_map_kind.mp hk
      exact of_decide_eq_true (List.mem_filter.mp hmem).2
    have hnone : some .attempted ∉ rest.map Call.kind := by
      intro hmem
      obtain ⟨c, hmem, hkind⟩ := mem_map_kind.mp hmem
      simp [rest, isA, hkind] at hmem
    rw [List.map_append, List.map_append, List.map_append, advanceAll_append, advanceAll_append,
      advanceAll_all (by decide) hall hattempted, advanceAll_all (by decide) hallc hcaptured, advanceAll_captured,
      advanceAll_append, advanceAll_created (fun h => hnone h.1), if_neg hnone]
    split_ifs
    · rw [advanceAll_failed]
      decide
    · rw [advanceAll_all (by decide) hall hattempted]
      decide
    · rw [advanceAll_failed]
      decide
    · rw [advanceAll_all (by decide) hall hattempted]
      decide

/-- The order matters exactly when both an attempted and a captured event occur. -/
theorem orders_agree_iff (cs : List Call) :
    (∀ l₁ l₂ : List Call, l₁.Perm cs → l₂.Perm cs →
        advanceAll .created (l₁.map Call.kind) = advanceAll .created (l₂.map Call.kind)) ↔
      ¬ (some .attempted ∈ cs.map Call.kind ∧ some .captured ∈ cs.map Call.kind) := by
  constructor
  · rintro hagree ⟨ha, hc⟩
    obtain ⟨l₁, l₂, h₁, h₂, hne⟩ := exists_orders ha hc
    exact hne (hagree l₁ l₂ h₁ h₂)
  · intro hnot l₁ l₂ h₁ h₂
    have hmem : ∀ {l : List Call} (_ : l.Perm cs) (k : Option PaymentStatus),
        k ∈ l.map Call.kind ↔ k ∈ cs.map Call.kind := fun h k => (h.map Call.kind).mem_iff
    rw [advanceAll_created (by rwa [hmem h₁, hmem h₁]), advanceAll_created (by rwa [hmem h₂, hmem h₂])]
    simp only [hmem h₁, hmem h₂]

/-! ## Deliveries -/

/-- The tables after a list of calls, one after another. -/
def deliver (db : Database) (cs : List Call) : Database :=
  cs.foldl (fun db c => (acceptVerifiedRazorpayEvent db c).2) db

/-- The status of a payment after the calls. -/
def statusAfter (db : Database) (id : Uuid) (cs : List Call) : Option PaymentStatus :=
  ((deliver db cs).payment? id).map Payment.status

theorem statusAfter_cons (db : Database) (id : Uuid) (c : Call) (cs : List Call) :
    statusAfter db id (c :: cs) = statusAfter (acceptVerifiedRazorpayEvent db c).2 id cs := by
  unfold statusAfter deliver
  rw [List.foldl_cons]

/-- An event for the payment with matching identity: it is accepted for it, and the payment id it names, if any,
is `x`. -/
structure Matching (db : Database) (p : Payment) (x : String) (c : Call) : Prop extends Accepts db p c where
  names : (c.parsed.get "external_payment_id").truthy = true → (c.parsed.get "external_payment_id").text = x

/-- `q` is `p` after some moves: the same payment, with at most the payment id `x` filled in. -/
structure SameIdentity (p q : Payment) (x : String) : Prop where
  id : q.id = p.id
  tenantId : q.tenantId = p.tenantId
  provider : q.provider = p.provider
  externalOrderId : q.externalOrderId = p.externalOrderId
  amountMinor : q.amountMinor = p.amountMinor
  currency : q.currency = p.currency
  paymentId : q.externalPaymentId = p.externalPaymentId ∨ (p.externalPaymentId = none ∧ q.externalPaymentId = some x)

/-- The payments after some moves of `p`, which is now `q`. -/
structure Reached (db cur : Database) (p q : Payment) (x : String) : Prop where
  same : SameIdentity p q x
  rows : cur.payments.rows = db.payments.rows.map (fun r => if r.id = p.id then q else r)

/-- The identifier an event names, as the code reads it. -/
theorem field_paymentId {parsed : Dict} {x : String} (hx : strip x = x)
    (hnames : (parsed.get "external_payment_id").truthy = true → (parsed.get "external_payment_id").text = x) :
    Call.field parsed "external_payment_id" = "" ∨ Call.field parsed "external_payment_id" = x := by
  unfold Call.field Json.or
  split_ifs with ht
  · rw [hnames ht, hx]
    exact Or.inr rfl
  · left
    decide

theorem not_mismatches_of_same {p q : Payment} {x : String} (h : SameIdentity p q x) {parsed : Dict}
    (hfield : Call.field parsed "external_payment_id" = "" ∨ Call.field parsed "external_payment_id" = x)
    (hmatch : ¬ Mismatches p parsed) : ¬ Mismatches q parsed := by
  rintro (⟨y, hy, hne, hgiven, hdiff⟩ | hamount | hcurrency)
  · rcases h.paymentId with hsame | ⟨-, hnew⟩
    · exact hmatch (Or.inl ⟨y, hsame ▸ hy, hne, hgiven, hdiff⟩)
    · obtain rfl : x = y := Option.some.inj (hnew.symm.trans hy)
      exact hfield.elim hgiven (Ne.symm hdiff)
  · exact hmatch (Or.inr (Or.inl (h.amountMinor ▸ hamount)))
  · exact hmatch (Or.inr (Or.inr (h.currency ▸ hcurrency)))

/-- A payment keeps every identifier it carries. -/
theorem carries_of_same {p q : Payment} {x : String} (h : SameIdentity p q x) {paymentId orderId : String}
    (hp : p.carries paymentId orderId = true) : q.carries paymentId orderId = true := by
  unfold Payment.carries at hp ⊢
  rw [h.provider, h.externalOrderId]
  rcases h.paymentId with hsame | ⟨hnone, -⟩
  · rwa [hsame]
  · rw [hnone] at hp
    simp only [Bool.and_eq_true, Bool.or_eq_true] at hp ⊢
    refine ⟨hp.1, hp.2.imp (fun hid => ?_) id⟩
    simp at hid

/-- An event that found the payment before finds it still. -/
theorem resolves_of_reached {db cur : Database} {p q : Payment} {x : String} (h : Reached db cur p q x)
    {parsed : Dict} (hres : resolvePayment db parsed = .ok p) : resolvePayment cur parsed = .ok q := by
  have hp := mem_of_resolvePayment hres
  rw [resolvePayment_eq_ok] at hres ⊢
  unfold matchingPayments at hres ⊢
  have hcarries := (List.mem_filter.mp (hres ▸ List.mem_singleton.mpr rfl : p ∈ _)).2
  have hfilter : db.payments.rows.filter ((fun r : Payment => r.carries (Call.field parsed "external_payment_id")
      (Call.field parsed "external_order_id")) ∘ fun r => if r.id = p.id then q else r) = [p] := by
    rw [← hres]
    refine List.filter_congr fun r hr => ?_
    by_cases hid : r.id = p.id
    · obtain rfl := Table.eq_of_key hr hp hid
      simp only [Function.comp, if_pos, hcarries]
      exact carries_of_same h.same hcarries
    · simp only [Function.comp, if_neg hid]
  rw [h.rows, List.filter_map, hfilter, List.map_singleton, if_pos rfl]

theorem accepts_of_reached {db cur : Database} {p q : Payment} {x : String} (h : Reached db cur p q x)
    (hx : strip x = x) {c : Call} (hc : Matching db p x c) (hevent : cur.events c.eventId = db.events c.eventId) :
    Accepts cur q c where
  eventId := hc.eventId
  eventType := hc.eventType
  resolves := resolves_of_reached h hc.resolves
  free := by
    intro event he
    rw [h.same.tenantId]
    exact hc.free event (hevent ▸ he)
  same := not_mismatches_of_same h.same (field_paymentId hx hc.names) hc.same

theorem sameIdentity_movedPayment {p q : Payment} {x : String} (h : SameIdentity p q x) {c : Call}
    (hnames : (c.parsed.get "external_payment_id").truthy = true → (c.parsed.get "external_payment_id").text = x)
    (new : PaymentStatus) : SameIdentity p (q.flush (movedPayment c q new) q) x := by
  refine ⟨h.id, h.tenantId, h.provider, h.externalOrderId, h.amountMinor, h.currency, ?_⟩
  simp only [Payment.flush, flushed_self, movedPayment]
  split_ifs with hset
  · obtain ⟨htruthy, hnone⟩ := Bool.and_eq_true_iff.mp hset
    right
    rw [hnames htruthy]
    rcases h.paymentId with hsame | ⟨hp, -⟩
    · exact ⟨hsame ▸ Option.isNone_iff_eq_none.mp hnone, rfl⟩
    · exact ⟨hp, rfl⟩
  · exact h.paymentId

/-- **One matching event** moves the payment as the machine says. -/
theorem deliver_one {db cur : Database} {p q : Payment} {x : String} (h : Reached db cur p q x) (hx : strip x = x)
    {c : Call} (hc : Matching db p x c) (hevent : cur.events c.eventId = db.events c.eventId) :
    ∃ q', Reached db (acceptVerifiedRazorpayEvent cur c).2 p q' x ∧ q'.status = advance q.status c.kind := by
  have hstatus : applyStatus q.status c.target = advance q.status c.kind := applyStatus_eq_advance _ _
  have haccepts := accepts_of_reached h hx hc hevent
  rcases accept_of_accepts haccepts with ⟨-, hstay, e, -, hdb⟩ | ⟨-, -, read, event, -, hdb⟩
  · rw [hdb]
    exact ⟨q, ⟨h.same, h.rows⟩, by rw [← hstatus, hstay]⟩
  · rw [hdb]
    set row := q.flush (movedPayment c q (applyStatus q.status c.target)) q
    have hmoved : row.status = applyStatus q.status c.target := flushed_self _ _
    refine ⟨row, ⟨sameIdentity_movedPayment h.same hc.names _, ?_⟩, hmoved.trans hstatus⟩
    have hfind : cur.payment? q.id = some q := Table.find?_of_mem (mem_of_resolvePayment haccepts.resolves)
    have hpayments : (applyTransition cur c read event q (applyStatus q.status c.target)).2.payments =
        cur.payments.set row := by
      dsimp only [applyTransition, Database.savePayment]
      rw [hfind]
    have hid : row.id = p.id := h.same.id
    rw [hpayments, Table.rows_set, h.rows, List.map_map]
    refine List.map_congr_left fun r _ => ?_
    by_cases hr : r.id = p.id
    · simp [hr, hid, h.same.id]
    · simp [hr, hid]

/-- The status after a list of matching events with distinct ids. -/
theorem status_deliver {db : Database} {p : Payment} {x : String} (hp : p ∈ db.payments.rows) (hx : strip x = x) :
    ∀ {cs : List Call} {cur : Database} {q : Payment}, Reached db cur p q x → (∀ c ∈ cs, Matching db p x c) →
      (cs.map Call.eventId).Nodup → (∀ c ∈ cs, cur.events c.eventId = db.events c.eventId) →
      statusAfter cur p.id cs = some (advanceAll q.status (cs.map Call.kind))
  | [], cur, q, h, _, _, _ => by
    have hmem : q ∈ cur.payments.rows := by
      rw [h.rows]
      exact List.mem_map.mpr ⟨p, hp, if_pos rfl⟩
    have hfind : cur.payments.find? q.id = some q := Table.find?_of_mem hmem
    unfold statusAfter deliver Database.payment?
    rw [List.foldl_nil, ← h.same.id, hfind]
    rfl
  | c :: cs, cur, q, h, hall, hnodup, hevents => by
    rw [List.map_cons, List.nodup_cons] at hnodup
    obtain ⟨q', h', hstatus⟩ :=
      deliver_one h hx (hall c List.mem_cons_self) (hevents c List.mem_cons_self)
    have hrest : ∀ d ∈ cs, (acceptVerifiedRazorpayEvent cur c).2.events d.eventId = db.events d.eventId := by
      intro d hd
      have hne : d.eventId ≠ c.eventId := fun heq => hnodup.1 (heq ▸ List.mem_map.mpr ⟨d, hd, rfl⟩)
      rw [accept_events_of_ne cur c hne, hevents d (List.mem_cons_of_mem _ hd)]
    have hind := status_deliver hp hx h' (fun d hd => hall d (List.mem_cons_of_mem _ hd)) hnodup.2 hrest
    rw [List.map_cons, advanceAll_cons, ← hstatus, ← hind, statusAfter_cons]

theorem Reached.start {db : Database} {p : Payment} (hp : p ∈ db.payments.rows) (x : String) :
    Reached db db p p x := by
  refine ⟨⟨rfl, rfl, rfl, rfl, rfl, rfl, Or.inl rfl⟩, ?_⟩
  conv_lhs => rw [← List.map_id db.payments.rows]
  refine List.map_congr_left fun r hr => ?_
  by_cases hid : r.id = p.id
  · rw [if_pos hid, Table.eq_of_key hr hp hid]
    rfl
  · rw [if_neg hid]
    rfl

/-- **Delivery order.**  For a payment in `created` and events that match it under distinct ids, the final status
is the same in all orders exactly if no two of them are for `attempted` and for `captured`; and without a failed
or refund event, an order ends in `captured` exactly if a captured event comes after an attempted one. -/
theorem delivery_order (db : Database) (p : Payment) (x : String) (cs : List Call)
    (hp : db.payment? p.id = some p) (hcreated : p.status = .created) (hx : strip x = x)
    (hmatching : ∀ c ∈ cs, Matching db p x c) (hdistinct : (cs.map Call.eventId).Nodup) :
    ((∀ l₁ l₂ : List Call, l₁.Perm cs → l₂.Perm cs → statusAfter db p.id l₁ = statusAfter db p.id l₂) ↔
        ¬ ((∃ a ∈ cs, a.kind = some .attempted) ∧ ∃ c ∈ cs, c.kind = some .captured)) ∧
      ((∀ c ∈ cs, c.kind ≠ some .failed ∧ c.kind ≠ some .refunded) → ∀ l : List Call, l.Perm cs →
        (statusAfter db p.id l = some .captured ↔ ∃ before c later, l = before ++ c :: later ∧
          c.kind = some .captured ∧ ∃ a ∈ before, a.kind = some .attempted)) := by
  have hmem := Table.mem_of_find? hp
  have hstatus : ∀ {l : List Call}, l.Perm cs →
      statusAfter db p.id l = some (advanceAll .created (l.map Call.kind)) := by
    intro l hl
    rw [← hcreated]
    exact status_deliver hmem hx (Reached.start hmem x) (fun c hc => hmatching c (hl.mem_iff.mp hc))
      ((hl.map Call.eventId).nodup_iff.mpr hdistinct) (fun _ _ => rfl)
  constructor
  · rw [← mem_map_kind, ← mem_map_kind, ← orders_agree_iff]
    refine forall_congr' fun l₁ => forall_congr' fun l₂ => forall_congr' fun h₁ => forall_congr' fun h₂ => ?_
    rw [hstatus h₁, hstatus h₂, Option.some.injEq]
  · intro hnone l hl
    have hf : some .failed ∉ l.map Call.kind := by
      intro hk
      obtain ⟨c, hc, hkind⟩ := mem_map_kind.mp hk
      exact (hnone c (hl.mem_iff.mp hc)).1 hkind
    have hr : some .refunded ∉ l.map Call.kind := by
      intro hk
      obtain ⟨c, hc, hkind⟩ := mem_map_kind.mp hk
      exact (hnone c (hl.mem_iff.mp hc)).2 hkind
    rw [hstatus hl, Option.some.injEq, advanceAll_eq_captured hf hr]
    constructor
    · rintro ⟨before, later, heq, ha⟩
      obtain ⟨l₁, l₂, rfl, rfl, htail⟩ := List.map_eq_append_iff.mp heq
      obtain ⟨c, l₃, rfl, hc, -⟩ := List.map_eq_cons_iff.mp htail
      exact ⟨l₁, c, l₃, rfl, hc, mem_map_kind.mp ha⟩
    · rintro ⟨before, c, later, rfl, hc, ha⟩
      refine ⟨before.map Call.kind, later.map Call.kind, ?_, mem_map_kind.mpr ha⟩
      rw [List.map_append, List.map_cons, hc]

/-! ## A capture that overtakes the authorisation -/

def authorizedCall : Call := sampleCall "payment.authorized" "evt_1" "attempted"

def capturedCall : Call := sampleCall "payment.captured" "evt_2" "captured"

theorem matching_sample : ∀ c ∈ [authorizedCall, capturedCall],
    Matching (sampleDatabase samplePayment) samplePayment "pay_1" c := by
  have hfree : ∀ tenantId eventId, Open (sampleDatabase samplePayment) tenantId eventId := by
    intro _ _ event hevent
    cases hevent
  intro c hc
  simp only [List.mem_cons, List.not_mem_nil, or_false] at hc
  rcases hc with rfl | rfl
  · exact ⟨⟨by decide +kernel, by decide +kernel, resolves_sample (by decide +kernel), hfree _ _,
      validateProviderIdentity_eq_none.mp (by decide +kernel)⟩, fun _ => rfl⟩
  · exact ⟨⟨by decide +kernel, by decide +kernel, resolves_sample (by decide +kernel), hfree _ _,
      validateProviderIdentity_eq_none.mp (by decide +kernel)⟩, fun _ => rfl⟩

theorem capture_after_attempt :
    (∀ c ∈ [authorizedCall, capturedCall], Matching (sampleDatabase samplePayment) samplePayment "pay_1" c) ∧
      statusAfter (sampleDatabase samplePayment) samplePayment.id [authorizedCall, capturedCall] = some .captured := by
  refine ⟨matching_sample, ?_⟩
  have horder := (delivery_order (sampleDatabase samplePayment) samplePayment "pay_1" [authorizedCall, capturedCall]
    (by rfl) rfl (by decide +kernel) matching_sample (by decide +kernel)).2
  exact (horder (by decide +kernel) _ (List.Perm.refl _)).mpr
    ⟨[authorizedCall], capturedCall, [], rfl, by decide +kernel, authorizedCall, List.mem_singleton.mpr rfl,
      by decide +kernel⟩

/-- Delivered the other way round, the same two events leave the payment in `attempted`. -/
theorem capture_before_attempt :
    (∀ c ∈ [capturedCall, authorizedCall], Matching (sampleDatabase samplePayment) samplePayment "pay_1" c) ∧
      ([capturedCall, authorizedCall].map Call.eventId).Nodup ∧
      statusAfter (sampleDatabase samplePayment) samplePayment.id [capturedCall, authorizedCall] = some .attempted ∧
      statusAfter (sampleDatabase samplePayment) samplePayment.id [authorizedCall, capturedCall] = some .captured := by
  refine ⟨fun c hc => matching_sample c ?_, by decide +kernel, by decide +kernel, by decide +kernel⟩
  rw [List.mem_cons, List.mem_singleton] at hc ⊢
  exact hc.symm

end RevenueOS.Payments
