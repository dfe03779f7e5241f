import RevenueOS.Messaging.Webhooks

/-!
# RevenueOS.Messaging.WebhookSweep — deliveries the sweep no longer sees

An attempt is counted when it is claimed, and the sweep selects rows with fewer than five attempts.  A task that
ends after the fifth claim without a result leaves a row that nothing picks up.

* `notStranded_step_iff`: one step strands no delivery exactly if the task it ends is replaceable.
* `notStranded_iff`: so does a whole run.  `crashingRun_stranded` is a run that ends a task that is not.
-/

namespace RevenueOS.Messaging

open RevenueOS.Py RevenueOS.Lib RevenueOS.Workflows

/-! ## Stranded deliveries -/

/-- A `deliver` task of the delivery is queued or at work. -/
def InFlight (tasks : List DeliverTask) (id : Uuid) : Prop :=
  ∃ (j : ℕ) (t : DeliverTask), tasks[j]? = some t ∧ t.deliveryId = id ∧ t.phase ≠ .over

/-- The sweep selects the row once its `next_attempt_at` has passed. -/
def Delivery.SelectedOnceDue (d : Delivery) : Prop :=
  ∃ next, d.nextAttemptAt = some next ∧ ∀ now, next ≤ now → d.due now = true

/-- **No open delivery is stranded.** -/
def NotStranded (s : WebhookState) : Prop :=
  ∀ id d, s.deliveries id = some d → d.status.isOpen = true → InFlight s.tasks id ∨ d.SelectedOnceDue

/-- The delivery can do without task `k`. -/
def Spares (s : WebhookState) (k : ℕ) (id : Uuid) : Prop :=
  ∀ d, s.deliveries id = some d → d.status = .processing → d.attempts < maxDeliveryAttempts ∨
    ∃ (j : ℕ) (t : DeliverTask), j ≠ k ∧ s.tasks[j]? = some t ∧ t.deliveryId = id ∧ t.phase ≠ .over

/-- A task that ends without writing its row is not the last one of a row in its final attempt. -/
def Replaceable (s : WebhookState) : WebhookStep → Prop
  | .claim k => ∀ id d, s.tasks[k]? = some ⟨id, .queued⟩ → s.deliveries id = some d →
      claimDelivery s.now (s.configs d.configId) d = .inProgress → Spares s k id
  | .record k => ∀ id attempts result lease d, s.tasks[k]? = some ⟨id, .answered attempts result lease⟩ →
      s.deliveries id = some d → d.status ≠ .delivered → d.attempts ≠ attempts → Spares s k id
  | .lose k => ∀ id phase, s.tasks[k]? = some ⟨id, phase⟩ → phase ≠ .over → Spares s k id
  | _ => True

theorem Delivery.selectedOnceDue_iff {d : Delivery} (hopen : d.status.isOpen = true) :
    d.SelectedOnceDue ↔ d.nextAttemptAt.isSome = true ∧ d.attempts < maxDeliveryAttempts := by
  constructor
  · rintro ⟨next, hnext, hdue⟩
    have hat := hdue next (le_refl next)
    unfold Delivery.due at hat
    simp only [Bool.and_eq_true, decide_eq_true_eq] at hat
    exact ⟨by rw [hnext]; rfl, hat.2⟩
  · rintro ⟨hsome, hlt⟩
    obtain ⟨next, hnext⟩ := Option.isSome_iff_exists.mp hsome
    refine ⟨next, hnext, fun now hnow => ?_⟩
    unfold Delivery.due
    simp [hopen, hnext, hnow, hlt]

/-- What every step keeps: an open row has a `next_attempt_at`, and a waiting one attempts left. -/
structure Regular (s : WebhookState) : Prop where
  next : ∀ id d, s.deliveries id = some d → d.status.isOpen = true → d.nextAttemptAt.isSome = true
  left : ∀ id d, s.deliveries id = some d → d.status = .pending → d.attempts < maxDeliveryAttempts

namespace Regular

variable {s : WebhookState}

theorem put (hs : Regular s) {id : Uuid} {d : Delivery}
    (hnext : d.status.isOpen = true → d.nextAttemptAt.isSome = true)
    (hleft : d.status = .pending → d.attempts < maxDeliveryAttempts) : Regular (s.put id d) := by
  constructor
  · intro id' d' hd'
    by_cases h : id' = id
    · rw [h, s.deliveries_put_self] at hd'
      obtain rfl := Option.some.inj hd'
      exact hnext
    · rw [s.deliveries_put_ne h] at hd'
      exact hs.next id' d' hd'
  · intro id' d' hd'
    by_cases h : id' = id
    · rw [h, s.deliveries_put_self] at hd'
      obtain rfl := Option.some.inj hd'
      exact hleft
    · rw [s.deliveries_put_ne h] at hd'
      exact hs.left id' d' hd'

theorem setTask (hs : Regular s) (k : ℕ) (id : Uuid) (phase : Phase) : Regular (s.setTask k id phase) :=
  ⟨hs.next, hs.left⟩

theorem of_start (now : ℤ) (configs : Uuid → Option DeliveryConfig) : Regular (.start now configs) where
  next _ _ h := by cases h
  left _ _ h := by cases h

end Regular

/-- A result that is not final leaves attempts and a time for the next one. -/
theorem recordDelivery_open {now : ℤ} {attempts : ℕ} {result : WebhookResult} {d : Delivery}
    (hopen : (recordDelivery now attempts result d).status.isOpen = true) :
    (recordDelivery now attempts result d).nextAttemptAt.isSome = true ∧ attempts < maxDeliveryAttempts ∧
      (recordDelivery now attempts result d).attempts = d.attempts := by
  unfold recordDelivery at hopen ⊢
  split_ifs at hopen ⊢ with hdelivered hterminal
  · cases hopen
  · cases hopen
  · unfold isTerminal at hterminal
    simp only [Bool.or_eq_true, decide_eq_true_eq, not_or, not_le] at hterminal
    have hlt := hterminal.2
    unfold maxDeliveryAttempts at hlt
    have hindex : attempts - 1 < retryDelaysSeconds.length := by
      change attempts - 1 < 4
      omega
    refine ⟨?_, hterminal.2, rfl⟩
    rw [List.getElem?_eq_getElem hindex]
    rfl

theorem Regular.claim {s s' : WebhookState} {k : ℕ} (hs : Regular s) (h : Claimed s k s') : Regular s' := by
  cases h with
  | idle _ => exact hs
  | duplicate hk hd h => exact hs.setTask k _ _
  | inProgress hk hd h => exact hs.setTask k _ _
  | inactive hk hd h =>
    obtain ⟨-, rfl⟩ := claimDelivery_inactive h
    refine (hs.setTask k _ _).put (fun h => ?_) (fun h => ?_)
    · cases h
    · cases h
  | started hk hd h =>
    obtain ⟨-, rfl⟩ := claimDelivery_started h
    refine (hs.put (fun _ => rfl) (fun h => ?_)).setTask k _ _
    cases h

theorem Regular.record {s s' : WebhookState} {k : ℕ} (hs : Regular s) (h : Recorded s k s') : Regular s' := by
  cases h with
  | idle _ => exact hs
  | skipped hk hd h => exact hs.setTask k _ _
  | @written id attempts result lease d hk hd hopen hown configs =>
    have hput : Regular ((s.setTask k id .over).put id (recordDelivery s.now attempts result d)) := by
      refine (hs.setTask k id _).put (fun hopen => (recordDelivery_open hopen).1) (fun hpending => ?_)
      obtain ⟨-, hlt, hsame⟩ := recordDelivery_open (by rw [hpending]; rfl)
      rw [hsame, hown]
      exact hlt
    exact ⟨hput.next, hput.left⟩

theorem Regular.step {s : WebhookState} (hs : Regular s) (l : WebhookStep) : Regular (s.step l) := by
  cases l with
  | elapse seconds => exact ⟨hs.next, hs.left⟩
  | insert id configId =>
    change Regular (s.insert id configId)
    unfold WebhookState.insert
    split
    · exact hs
    · exact hs.put (fun _ => rfl) (fun _ => Nat.succ_pos 4)
  | configure id config => exact ⟨hs.next, hs.left⟩
  | sweep found => exact ⟨hs.next, hs.left⟩
  | enqueue id => exact ⟨hs.next, hs.left⟩
  | claim k => exact hs.claim (claimed_claim s k)
  | send k sending =>
    change Regular (s.send k sending)
    unfold WebhookState.send
    split
    · cases sending <;> exact ⟨hs.next, hs.left⟩
    · exact hs
  | record k => exact hs.record (recorded_record s k)
  | restart k =>
    change Regular (s.restart k)
    unfold WebhookState.restart
    split <;> exact ⟨hs.next, hs.left⟩
  | lose k =>
    change Regular (s.lose k)
    unfold WebhookState.lose
    split <;> exact ⟨hs.next, hs.left⟩

section Stranding

variable {s s' : WebhookState} {k : ℕ} {id : Uuid}

/-- Rows that change, or lose a task, are looked after by another one or by the sweep. -/
theorem NotStranded.mono (hp : NotStranded s)
    (h : ∀ id d, s'.deliveries id = some d → d.status.isOpen = true →
      s.deliveries id = some d ∧ (InFlight s.tasks id → InFlight s'.tasks id) ∨ InFlight s'.tasks id ∨
        d.SelectedOnceDue) : NotStranded s' := by
  intro id d hd hopen
  rcases h id d hd hopen with ⟨hold, hlive⟩ | hlive | hselected
  · exact (hp id d hold hopen).imp_left hlive
  · exact Or.inl hlive
  · exact Or.inr hselected

theorem inFlight_set_ne {tasks : List DeliverTask} {phase phase' : Phase} {id' : Uuid}
    (hk : tasks[k]? = some ⟨id, phase⟩) (hne : id' ≠ id) (h : InFlight tasks id') :
    InFlight (tasks.set k ⟨id, phase'⟩) id' := by
  obtain ⟨j, t, ht, hid, hlive⟩ := h
  refine ⟨j, t, ?_, hid, hlive⟩
  rw [List.getElem?_set_ne, ht]
  rintro rfl
  rw [hk] at ht
  obtain rfl := Option.some.inj ht
  exact hne hid.symm

theorem inFlight_set_self {tasks : List DeliverTask} {t : DeliverTask} {phase : Phase} (hk : tasks[k]? = some t)
    (hlive : phase ≠ .over) : InFlight (tasks.set k ⟨id, phase⟩) id :=
  ⟨k, ⟨id, phase⟩, getElem?_set_of_some hk, rfl, hlive⟩

theorem inFlight_append {tasks more : List DeliverTask} (h : InFlight tasks id) : InFlight (tasks ++ more) id := by
  obtain ⟨j, t, ht, hid, hlive⟩ := h
  obtain ⟨hlt, -⟩ := List.getElem?_eq_some_iff.mp ht
  exact ⟨j, t, by rw [List.getElem?_append_left hlt, ht], hid, hlive⟩

/-- A task goes on with its delivery. -/
theorem NotStranded.setTask (hp : NotStranded s) {phase phase' : Phase} (hk : s.tasks[k]? = some ⟨id, phase⟩)
    (hlive : phase' ≠ .over) : NotStranded (s.setTask k id phase') := by
  refine hp.mono fun id' d hd _ => ?_
  by_cases h : id' = id
  · subst h
    exact Or.inr (Or.inl (inFlight_set_self hk hlive))
  · exact Or.inl ⟨hd, inFlight_set_ne hk h⟩

/-- A task ends after it wrote its row. -/
theorem NotStranded.put (hp : NotStranded s) {phase : Phase} (hk : s.tasks[k]? = some ⟨id, phase⟩) {d : Delivery}
    (hd : d.status.isOpen = true → d.SelectedOnceDue) : NotStranded ((s.setTask k id .over).put id d) := by
  refine hp.mono fun id' d' hd' hopen => ?_
  by_cases h : id' = id
  · rw [h, WebhookState.deliveries_put_self] at hd'
    obtain rfl := Option.some.inj hd'
    exact Or.inr (Or.inr (hd hopen))
  · rw [WebhookState.deliveries_put_ne _ h] at hd'
    exact Or.inl ⟨hd', inFlight_set_ne hk h⟩

/-- A task ends and leaves its row as it was. -/
theorem notStranded_over_iff (hs : Regular s) (hp : NotStranded s) {phase : Phase}
    (hk : s.tasks[k]? = some ⟨id, phase⟩) : NotStranded (s.setTask k id .over) ↔ Spares s k id := by
  constructor
  · intro h d hd hstatus
    have hopen : d.status.isOpen = true := by
      rw [hstatus]
      rfl
    rcases h id d hd hopen with ⟨j, t, ht, hid, hlive⟩ | hselected
    · rcases getElem?_set_cases ht with ⟨-, rfl⟩ | ⟨hne, hold⟩
      · exact absurd rfl hlive
      · exact Or.inr ⟨j, t, hne, hold, hid, hlive⟩
    · exact Or.inl ((Delivery.selectedOnceDue_iff hopen).mp hselected).2
  · intro h
    refine hp.mono fun id' d hd hopen => ?_
    by_cases heq : id' = id
    · subst heq
      have hold : s.deliveries id' = some d := hd
      have hselected := Delivery.selectedOnceDue_iff hopen
      have hnext := hs.next id' d hold hopen
      cases hstatus : d.status with
      | pending => exact Or.inr (Or.inr (hselected.mpr ⟨hnext, hs.left id' d hold hstatus⟩))
      | processing =>
        rcases h d hold hstatus with hlt | ⟨j, t, hne, ht, hid, hlive⟩
        · exact Or.inr (Or.inr (hselected.mpr ⟨hnext, hlt⟩))
        · refine Or.inr (Or.inl ⟨j, t, ?_, hid, hlive⟩)
          change (s.tasks.set k _)[j]? = some t
          rw [List.getElem?_set_ne hne.symm, ht]
      | delivered =>
        rw [hstatus] at hopen
        cases hopen
      | failed =>
        rw [hstatus] at hopen
        cases hopen
    · exact Or.inl ⟨hd, inFlight_set_ne hk heq⟩

theorem spares_of_status {d : Delivery} (hd : s.deliveries id = some d) (h : d.status ≠ .processing) :
    Spares s k id := by
  intro d' hd' hstatus
  rw [hd] at hd'
  obtain rfl := Option.some.inj hd'
  exact absurd hstatus h

theorem notStranded_claim_iff (hs : Regular s) (hp : NotStranded s) (h : Claimed s k s') :
    NotStranded s' ↔ Replaceable s (.claim k) := by
  cases h with
  | idle h => exact iff_of_true hp fun id d hk hd _ => absurd hd (h id d hk)
  | @duplicate id d hk hd h =>
    refine iff_of_true ?_ fun id' d' hk' hd' h' => ?_
    · rw [notStranded_over_iff hs hp hk]
      refine spares_of_status hd ?_
      rw [claimDelivery_duplicate h]
      decide
    · rw [hk] at hk'
      cases hk'
      rw [hd] at hd'
      cases hd'
      rw [h] at h'
      cases h'
  | @inProgress id d hk hd h =>
    rw [notStranded_over_iff hs hp hk]
    refine ⟨fun hspares id' d' hk' _ _ => ?_, fun hr => hr id d hk hd h⟩
    rw [hk] at hk'
    cases hk'
    exact hspares
  | @inactive id d d' hk hd h =>
    refine iff_of_true (hp.put hk fun hopen => ?_) fun id' d'' hk' hd' h' => ?_
    · obtain ⟨-, rfl⟩ := claimDelivery_inactive h
      cases hopen
    · rw [hk] at hk'
      cases hk'
      rw [hd] at hd'
      cases hd'
      rw [h] at h'
      cases h'
  | @started id d d' hk hd h =>
    refine iff_of_true (hp.mono fun id' d'' hd'' _ => ?_) fun id' d'' hk' hd' h' => ?_
    · by_cases heq : id' = id
      · subst heq
        exact Or.inr (Or.inl (inFlight_set_self hk Phase.noConfusion))
      · have hold : s.deliveries id' = some d'' := by
          rw [← s.deliveries_put_ne heq d']
          exact hd''
        exact Or.inl ⟨hold, inFlight_set_ne hk heq⟩
    · rw [hk] at hk'
      cases hk'
      rw [hd] at hd'
      cases hd'
      rw [h] at h'
      cases h'

theorem notStranded_record_iff (hs : Regular s) (hp : NotStranded s) (h : Recorded s k s') :
    NotStranded s' ↔ Replaceable s (.record k) := by
  cases h with
  | idle h => exact iff_of_true hp fun id n r l d hk hd _ hne => absurd (h id n r l d hk hd).2 hne
  | @skipped id n r l d hk hd h =>
    rw [notStranded_over_iff hs hp hk]
    constructor
    · intro hspares id' n' r' l' d' hk' _ _ _
      rw [hk] at hk'
      cases hk'
      exact hspares
    · intro hr
      by_cases hdelivered : d.status = .delivered
      · refine spares_of_status hd ?_
        rw [hdelivered]
        decide
      · exact hr id n r l d hk hd hdelivered (h.resolve_left hdelivered)
  | @written id n r l d hk hd hopen hown configs =>
    have hput : NotStranded ((s.setTask k id .over).put id (recordDelivery s.now n r d)) := by
      refine hp.put hk fun hopen' => ?_
      obtain ⟨hnext, hlt, hsame⟩ := recordDelivery_open hopen'
      refine (Delivery.selectedOnceDue_iff hopen').mpr ⟨hnext, ?_⟩
      rw [hsame, hown]
      exact hlt
    refine iff_of_true hput fun id' n' r' l' d' hk' hd' _ hne => ?_
    rw [hk] at hk'
    cases hk'
    rw [hd] at hd'
    cases hd'
    exact absurd hown hne

/-- **One step strands no delivery exactly if the task it ends is replaceable.** -/
theorem notStranded_step_iff (hs : Regular s) (hp : NotStranded s) (l : WebhookStep) :
    NotStranded (s.step l) ↔ Replaceable s l := by
  cases l with
  | elapse seconds => exact iff_of_true hp trivial
  | insert id configId =>
    refine iff_of_true ?_ trivial
    change NotStranded (s.insert id configId)
    unfold WebhookState.insert
    split
    · exact hp
    · refine hp.mono fun id' d hd hopen => ?_
      by_cases h : id' = id
      · rw [h, s.deliveries_put_self] at hd
        obtain rfl := Option.some.inj hd
        exact Or.inr (Or.inr ((Delivery.selectedOnceDue_iff hopen).mpr ⟨rfl, Nat.succ_pos 4⟩))
      · rw [s.deliveries_put_ne h] at hd
        exact Or.inl ⟨hd, fun hlive => hlive⟩
  | configure id config => exact iff_of_true hp trivial
  | sweep found => exact iff_of_true (hp.mono fun _ _ hd _ => Or.inl ⟨hd, inFlight_append⟩) trivial
  | enqueue id => exact iff_of_true (hp.mono fun _ _ hd _ => Or.inl ⟨hd, inFlight_append⟩) trivial
  | claim k => exact notStranded_claim_iff hs hp (claimed_claim s k)
  | send k sending =>
    refine iff_of_true ?_ trivial
    change NotStranded (s.send k sending)
    unfold WebhookState.send
    split
    · rename_i id attempts scheduled lease hk
      cases sending <;> exact hp.setTask hk Phase.noConfusion
    · exact hp
  | record k => exact notStranded_record_iff hs hp (recorded_record s k)
  | restart k =>
    refine iff_of_true ?_ trivial
    change NotStranded (s.restart k)
    unfold WebhookState.restart
    split
    · exact hp
    · rename_i id phase hnot hk
      exact hp.setTask hk Phase.noConfusion
    · exact hp
  | lose k =>
    change NotStranded (s.lose k) ↔ _
    unfold WebhookState.lose
    split
    · rename_i id phase hk
      rw [notStranded_over_iff hs hp hk]
      constructor
      · intro hspares id' phase' hk' _
        rw [hk] at hk'
        cases hk'
        exact hspares
      · intro hr
        by_cases hover : phase = .over
        · -- nothing ends, so nothing is missed
          subst hover
          have hsame : s.setTask k id .over = s := by
            obtain ⟨hlt, hget⟩ := List.getElem?_eq_some_iff.mp hk
            unfold WebhookState.setTask
            rw [← hget, List.set_getElem_self]
          exact (notStranded_over_iff hs hp hk).mp (hsame.symm ▸ hp)
        · exact hr id phase hk hover
    · rename_i hk
      refine iff_of_true hp fun id phase hk' _ => ?_
      rw [hk] at hk'
      cases hk'

end Stranding

/-- **No open delivery is stranded exactly if every task that ends without writing its row is replaceable.** -/
theorem notStranded_iff (now : ℤ) (configs : Uuid → Option DeliveryConfig) (run : List WebhookStep) :
    Always WebhookState.step NotStranded (.start now configs) run ↔
      Meets WebhookState.step Replaceable (.start now configs) run := by
  refine always_iff_meets (fun _ l hs => hs.step l) (fun _ l hs hp => notStranded_step_iff hs hp l) run _
    (.of_start now configs) ?_
  intro id d hd
  cases hd

/-- Five times a task claims the delivery and its worker dies before the result. -/
def crashingRun : List WebhookStep :=
  [.insert (sampleUuid 'd') (sampleUuid 'c')] ++
    (List.range 5).flatMap fun k => [.sweep [sampleUuid 'd'], .claim k, .lose k, .elapse 120]

/-- After the fifth claim nothing looks at the row again. -/
theorem crashingRun_stranded :
    (after WebhookState.step (.start 0 activeConfigs) crashingRun).deliveries (sampleUuid 'd') =
        some ⟨sampleUuid 'c', .processing, 5, some 600⟩ ∧
      ¬Always WebhookState.step NotStranded (.start 0 activeConfigs) crashingRun := by
  have hrow : (after WebhookState.step (.start 0 activeConfigs) crashingRun).deliveries (sampleUuid 'd') =
      some ⟨sampleUuid 'c', .processing, 5, some 600⟩ := by decide +kernel
  have hover : ∀ t ∈ (after WebhookState.step (.start 0 activeConfigs) crashingRun).tasks, t.phase = .over := by
    decide +kernel
  refine ⟨hrow, fun h => ?_⟩
  have hlast : NotStranded (after WebhookState.step (.start 0 activeConfigs) crashingRun) := always_last h
  rcases hlast _ _ hrow rfl with ⟨j, t, ht, -, hlive⟩ | hselected
  · exact hlive (hover t (List.mem_of_getElem? ht))
  · have hlt := ((Delivery.selectedOnceDue_iff rfl).mp hselected).2
    exact absurd hlt (by decide)

end RevenueOS.Messaging
