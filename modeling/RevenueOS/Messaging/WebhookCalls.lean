import RevenueOS.Messaging.Webhooks

/-!
# RevenueOS.Messaging.WebhookCalls — how often the transport is called

The claim of a delivery looks at its status and its lease only: a task that is not the sweep's may start an attempt
early, after the fifth one, or of a delivery that has failed, and an attempt that outlives its lease may call the
transport when another one has settled the delivery.

* `bounded_of_punctual`: without these the calls are bounded and final.  `hurriedRun_unbounded` is a run with them.
-/

namespace RevenueOS.Messaging

open RevenueOS.Py RevenueOS.Lib RevenueOS.Workflows

/-! ## Bounded calls -/

/-- The number and the lease of the attempt a task is in. -/
def Phase.running : Phase → Option (ℕ × ℤ)
  | .claimed attempts _ lease => some (attempts, lease)
  | .answered attempts _ lease => some (attempts, lease)
  | _ => none

/-- The task has claimed the delivery and not tried to send it yet. -/
def DeliverTask.unsent (id : Uuid) (t : DeliverTask) : Bool :=
  match t.phase with
  | .claimed _ _ _ => t.deliveryId == id
  | _ => false

def WebhookState.attemptsOf (s : WebhookState) (id : Uuid) : ℕ := (s.deliveries id).elim 0 Delivery.attempts

/-- The calls of the transport for a delivery. -/
def WebhookState.callsOf (s : WebhookState) (id : Uuid) : List Call := s.calls.filter (·.deliveryId = id)

theorem WebhookState.attemptsOf_put (s : WebhookState) (id id' : Uuid) (d : Delivery) :
    (s.put id d).attemptsOf id' = if id' = id then d.attempts else s.attemptsOf id' := by
  unfold attemptsOf
  split_ifs with h
  · rw [h, deliveries_put_self]
    rfl
  · rw [deliveries_put_ne s h]

theorem WebhookState.mem_settled_put {s : WebhookState} {id id' : Uuid} {d : Delivery}
    (h : id' ∈ (s.put id d).settled) : id' = id ∧ d.status.isOpen = false ∨ id' ∈ s.settled := by
  unfold put at h
  dsimp only at h
  split_ifs at h with hopen
  · exact Or.inr h
  · rcases List.mem_cons.mp h with heq | h
    · exact Or.inl ⟨heq, Bool.eq_false_iff.mpr hopen⟩
    · exact Or.inr h

/-- **Bounded and final**: at most five calls, none after the delivery was delivered or failed, none before its
`next_attempt_at`. -/
def Bounded (s : WebhookState) : Prop :=
  ∀ id, (s.callsOf id).length ≤ maxDeliveryAttempts ∧
    ∀ c ∈ s.callsOf id, c.late = false ∧ ∀ due, c.scheduled = some due → due ≤ c.madeAt

/-- A claim starts an attempt of a delivery that the sweep would select, the transport is called and the result
written before the lease is over. -/
def Punctual (s : WebhookState) : WebhookStep → Prop
  | .claim k => ∀ id d d', s.tasks[k]? = some ⟨id, .queued⟩ → s.deliveries id = some d →
      claimDelivery s.now (s.configs d.configId) d = .started d' → d.due s.now = true
  | .send k (.sent _) => ∀ id attempts scheduled lease,
      s.tasks[k]? = some ⟨id, .claimed attempts scheduled lease⟩ → s.now < lease
  | .record k => ∀ id attempts result lease d, s.tasks[k]? = some ⟨id, .answered attempts result lease⟩ →
      s.deliveries id = some d → d.status ≠ .delivered → d.attempts = attempts → s.now < lease
  | _ => True

/-- The task in slot `j` is in this attempt of the delivery. -/
def Runs (tasks : List DeliverTask) (j : ℕ) (id : Uuid) (attempts : ℕ) (lease : ℤ) : Prop :=
  ∃ t, tasks[j]? = some t ∧ t.deliveryId = id ∧ t.phase.running = some (attempts, lease)

/-- What punctual steps keep.  Every attempt was counted when it was claimed, so the calls of a delivery and the
claims that may still send it stay under its counter. -/
structure Sound (s : WebhookState) : Prop where
  counted : ∀ id, (s.callsOf id).length + s.tasks.countP (·.unsent id) ≤ s.attemptsOf id
  attempts_le : ∀ id, s.attemptsOf id ≤ maxDeliveryAttempts
  scheduled : ∀ (j : ℕ) id attempts due lease,
    s.tasks[j]? = some ⟨id, .claimed attempts (some due) lease⟩ → due ≤ s.now
  calls : ∀ c ∈ s.calls, c.late = false ∧ ∀ due, c.scheduled = some due → due ≤ c.madeAt
  settled : ∀ id ∈ s.settled, ∃ d, s.deliveries id = some d ∧ d.status.isOpen = false
  -- a running lease keeps every other claim off the row
  holds : ∀ j id attempts lease, Runs s.tasks j id attempts lease → s.now < lease →
    ∃ d, s.deliveries id = some d ∧ d.status = .processing ∧ d.nextAttemptAt = some lease ∧ d.attempts = attempts
  older : ∀ j id attempts lease, Runs s.tasks j id attempts lease → attempts ≤ s.attemptsOf id
  apart : ∀ i j id attempts l l', Runs s.tasks i id attempts l → Runs s.tasks j id attempts l' → i = j

theorem Sound.bounded {s : WebhookState} (hs : Sound s) : Bounded s := by
  intro id
  refine ⟨?_, fun c hc => hs.calls c (List.mem_filter.mp hc).1⟩
  have hcounted := hs.counted id
  have hle := hs.attempts_le id
  omega

section Tasks

variable {tasks : List DeliverTask} {j k : ℕ} {id id' : Uuid} {phase : Phase} {attempts : ℕ} {lease : ℤ}

theorem runs_set (h : Runs (tasks.set k ⟨id', phase⟩) j id attempts lease) :
    j = k ∧ id' = id ∧ phase.running = some (attempts, lease) ∨ j ≠ k ∧ Runs tasks j id attempts lease := by
  obtain ⟨t, ht, hid, hrun⟩ := h
  rcases getElem?_set_cases ht with ⟨rfl, rfl⟩ | ⟨hne, hold⟩
  · exact Or.inl ⟨rfl, hid, hrun⟩
  · exact Or.inr ⟨hne, t, hold, hid, hrun⟩

theorem runs_append_queued {ids : List Uuid}
    (h : Runs (tasks ++ ids.map (⟨·, .queued⟩)) j id attempts lease) : Runs tasks j id attempts lease := by
  obtain ⟨t, ht, hid, hrun⟩ := h
  rcases Nat.lt_or_ge j tasks.length with hlt | hge
  · rw [List.getElem?_append_left hlt] at ht
    exact ⟨t, ht, hid, hrun⟩
  · rw [List.getElem?_append_right hge] at ht
    obtain ⟨x, -, rfl⟩ := List.mem_map.mp (List.mem_of_getElem? ht)
    cases hrun

/-- The unsent claims after a slot was set. -/
theorem countP_unsent_set {t : DeliverTask} (ht : tasks[k]? = some t) (id : Uuid) (u : DeliverTask) :
    (tasks.set k u).countP (·.unsent id) + (t.unsent id).toNat =
      tasks.countP (·.unsent id) + (u.unsent id).toNat := by
  obtain ⟨hlt, hget⟩ := List.getElem?_eq_some_iff.mp ht
  rw [List.countP_set hlt, hget]
  have hpos : t.unsent id = true → 0 < tasks.countP (·.unsent id) :=
    fun h => List.countP_pos_iff.mpr ⟨t, List.mem_of_getElem? ht, h⟩
  cases hold : t.unsent id with
  | false => cases u.unsent id <;> simp
  | true =>
    have := hpos hold
    cases u.unsent id <;> simp <;> omega

end Tasks

namespace Sound

variable {s : WebhookState}

/-- Tasks end, start over or are added. -/
theorem retire (hs : Sound s) {tasks : List DeliverTask}
    (hscheduled : ∀ (j : ℕ) id attempts scheduled lease, tasks[j]? = some ⟨id, .claimed attempts scheduled lease⟩ →
      s.tasks[j]? = some ⟨id, .claimed attempts scheduled lease⟩)
    (hruns : ∀ j id attempts lease, Runs tasks j id attempts lease → Runs s.tasks j id attempts lease)
    (hcount : ∀ id, tasks.countP (·.unsent id) ≤ s.tasks.countP (·.unsent id)) :
    Sound { s with tasks := tasks } where
  counted id := (Nat.add_le_add_left (hcount id) _).trans (hs.counted id)
  attempts_le := hs.attempts_le
  scheduled j id attempts due lease ht := hs.scheduled j id attempts due lease (hscheduled j id attempts _ lease ht)
  calls := hs.calls
  settled := hs.settled
  holds j id attempts lease h := hs.holds j id attempts lease (hruns j id attempts lease h)
  older j id attempts lease h := hs.older j id attempts lease (hruns j id attempts lease h)
  apart i j id attempts l l' hi hj := hs.apart i j id attempts l l' (hruns _ _ _ _ hi) (hruns _ _ _ _ hj)

theorem setTask_idle (hs : Sound s) {k : ℕ} {t : DeliverTask} (ht : s.tasks[k]? = some t) (id : Uuid) (phase : Phase)
    (hidle : phase.running = none) : Sound (s.setTask k id phase) := by
  have hunsent : ∀ id', (DeliverTask.mk id phase).unsent id' = false := by
    intro id'
    cases phase <;> first | rfl | cases hidle
  refine hs.retire (fun j id' attempts scheduled lease h => ?_) (fun j id' attempts lease h => ?_) (fun id' => ?_)
  · rcases getElem?_set_cases h with ⟨-, heq⟩ | ⟨-, hold⟩
    · obtain rfl := (DeliverTask.mk.inj heq).2
      cases hidle
    · exact hold
  · rcases runs_set h with ⟨-, -, hrun⟩ | ⟨-, hold⟩
    · rw [hidle] at hrun
      cases hrun
    · exact hold
  · have hset := countP_unsent_set ht id' ⟨id, phase⟩
    rw [hunsent] at hset
    simp only [Bool.toNat_false] at hset
    omega

theorem enqueue (hs : Sound s) (ids : List Uuid) : Sound (s.enqueue ids) := by
  refine hs.retire (fun j id attempts scheduled lease h => ?_) (fun j id attempts lease h => ?_) (fun id => ?_)
  · rcases Nat.lt_or_ge j s.tasks.length with hlt | hge
    · rwa [List.getElem?_append_left hlt] at h
    · rw [List.getElem?_append_right hge] at h
      obtain ⟨x, -, heq⟩ := List.mem_map.mp (List.mem_of_getElem? h)
      cases heq
  · exact runs_append_queued h
  · have hnone : (ids.map (DeliverTask.mk · .queued)).countP (·.unsent id) = 0 := by
      rw [List.countP_eq_zero]
      rintro t ht
      obtain ⟨x, -, rfl⟩ := List.mem_map.mp ht
      exact Bool.false_ne_true
    rw [List.countP_append, hnone]
    exact Nat.le_refl _

/-- A row that no running lease holds is written. -/
theorem put (hs : Sound s) {id : Uuid} {d : Delivery}
    (hfree : ∀ j attempts lease, Runs s.tasks j id attempts lease → lease ≤ s.now)
    (hge : s.attemptsOf id ≤ d.attempts) (hle : d.attempts ≤ maxDeliveryAttempts)
    (hfinal : id ∈ s.settled → d.status.isOpen = false) : Sound (s.put id d) where
  counted id' := by
    rw [s.attemptsOf_put]
    have hcounted := hs.counted id'
    split_ifs with h
    · subst h
      exact hcounted.trans hge
    · exact hcounted
  attempts_le id' := by
    rw [s.attemptsOf_put]
    split_ifs
    · exact hle
    · exact hs.attempts_le id'
  scheduled := hs.scheduled
  calls := hs.calls
  settled id' h := by
    by_cases heq : id' = id
    · subst heq
      refine ⟨d, s.deliveries_put_self id' d, ?_⟩
      rcases WebhookState.mem_settled_put h with ⟨-, hclosed⟩ | hold
      · exact hclosed
      · exact hfinal hold
    · rw [s.deliveries_put_ne heq]
      rcases WebhookState.mem_settled_put h with ⟨heq', -⟩ | hold
      · exact absurd heq' heq
      · exact hs.settled id' hold
  holds j id' attempts lease hrun hlease := by
    by_cases heq : id' = id
    · subst heq
      have hover := hfree j attempts lease hrun
      have hlease' : s.now < lease := hlease
      omega
    · rw [s.deliveries_put_ne heq]
      exact hs.holds j id' attempts lease hrun hlease
  older j id' attempts lease hrun := by
    rw [s.attemptsOf_put]
    have holder := hs.older j id' attempts lease hrun
    split_ifs with h
    · subst h
      exact holder.trans hge
    · exact holder
  apart := hs.apart

/-- A queued task claims a row that the sweep would select. -/
theorem start (hs : Sound s) {k : ℕ} {id : Uuid} {d : Delivery} {scheduled : Option ℤ}
    (hk : s.tasks[k]? = some ⟨id, .queued⟩) (hd : d.attempts = s.attemptsOf id + 1) (hstatus : d.status = .processing)
    (hnext : d.nextAttemptAt = some (s.now + leaseSeconds)) (hlt : s.attemptsOf id < maxDeliveryAttempts)
    (hfree : ∀ j attempts lease, Runs s.tasks j id attempts lease → lease ≤ s.now) (hopen : id ∉ s.settled)
    (hdue : ∀ due, scheduled = some due → due ≤ s.now) :
    Sound ((s.put id d).setTask k id (.claimed d.attempts scheduled (s.now + leaseSeconds))) := by
  have hput : Sound (s.put id d) := hs.put hfree (by omega) (by omega) (fun h => absurd h hopen)
  have hself := s.deliveries_put_self id d
  have hattempts : (s.put id d).attemptsOf id = d.attempts := by
    rw [s.attemptsOf_put, if_pos rfl]
  constructor
  case counted =>
    intro id'
    have hset := countP_unsent_set hk id' ⟨id, .claimed d.attempts scheduled (s.now + leaseSeconds)⟩
    have hold : DeliverTask.unsent id' ⟨id, .queued⟩ = false := rfl
    have hnew : DeliverTask.unsent id' ⟨id, .claimed d.attempts scheduled (s.now + leaseSeconds)⟩ = (id == id') := rfl
    have hcounted := hs.counted id'
    change (s.callsOf id').length + (s.tasks.set k _).countP (·.unsent id') ≤ (s.put id d).attemptsOf id'
    rw [hold, hnew, Bool.toNat_false] at hset
    rw [s.attemptsOf_put]
    by_cases h : id' = id
    · subst h
      rw [beq_self_eq_true, Bool.toNat_true] at hset
      rw [if_pos rfl]
      omega
    · rw [beq_eq_false_iff_ne.mpr (Ne.symm h), Bool.toNat_false] at hset
      rw [if_neg h]
      omega
  case attempts_le => exact hput.attempts_le
  case scheduled =>
    intro j id' attempts due lease h
    rcases getElem?_set_cases h with ⟨-, heq⟩ | ⟨-, hold⟩
    · obtain ⟨-, hphase⟩ := DeliverTask.mk.inj heq
      exact hdue due (Phase.claimed.inj hphase).2.1.symm
    · exact hs.scheduled j id' attempts due lease hold
  case calls => exact hs.calls
  case settled => exact hput.settled
  case holds =>
    intro j id' attempts lease hrun hlease
    rcases runs_set hrun with ⟨-, rfl, hphase⟩ | ⟨-, hold⟩
    · obtain ⟨hn, hl⟩ := Prod.mk.inj (Option.some.inj hphase)
      exact ⟨d, hself, hstatus, hl ▸ hnext, hn⟩
    · exact hput.holds j id' attempts lease hold hlease
  case older =>
    intro j id' attempts lease hrun
    rcases runs_set hrun with ⟨-, rfl, hphase⟩ | ⟨-, hold⟩
    · obtain ⟨hn, -⟩ := Prod.mk.inj (Option.some.inj hphase)
      exact hn ▸ hattempts.ge
    · exact hput.older j id' attempts lease hold
  case apart =>
    -- the new number is above every number of the row
    have hnew : ∀ j attempts lease, Runs s.tasks j id attempts lease → attempts ≠ d.attempts := by
      intro j attempts lease hrun heq
      have := hs.older j id attempts lease hrun
      omega
    intro i j id' attempts l l' hi hj
    rcases runs_set hi with ⟨rfl, rfl, hnumber⟩ | ⟨-, hoi⟩
    · rcases runs_set hj with ⟨rfl, -, -⟩ | ⟨-, hoj⟩
      · rfl
      · obtain ⟨hn, -⟩ := Prod.mk.inj (Option.some.inj hnumber)
        exact absurd hn.symm (hnew j attempts l' hoj)
    · rcases runs_set hj with ⟨rfl, rfl, hnumber⟩ | ⟨-, hoj⟩
      · obtain ⟨hn, -⟩ := Prod.mk.inj (Option.some.inj hnumber)
        exact absurd hn.symm (hnew i attempts l hoi)
      · exact hs.apart i j id' attempts l l' hoi hoj

/-- An attempt is made; a call that is logged is neither late nor early. -/
theorem answer (hs : Sound s) {k : ℕ} {id : Uuid} {attempts : ℕ} {scheduled : Option ℤ} {lease : ℤ}
    (hk : s.tasks[k]? = some ⟨id, .claimed attempts scheduled lease⟩) (result : WebhookResult) {calls : List Call}
    (hcalls : calls = [] ∨ calls = [⟨id, s.now, scheduled, decide (id ∈ s.settled)⟩] ∧ s.now < lease) :
    Sound { s.setTask k id (.answered attempts result lease) with calls := s.calls ++ calls } := by
  have hself : Runs s.tasks k id attempts lease := ⟨_, hk, rfl, rfl⟩
  have hruns : ∀ j id' n l, Runs (s.tasks.set k ⟨id, .answered attempts result lease⟩) j id' n l →
      Runs s.tasks j id' n l := by
    intro j id' n l h
    rcases runs_set h with ⟨rfl, rfl, hrun⟩ | ⟨-, hold⟩
    · obtain ⟨rfl, rfl⟩ := Prod.mk.inj (Option.some.inj hrun)
      exact hself
    · exact hold
  constructor
  case counted =>
    intro id'
    have hset := countP_unsent_set hk id' ⟨id, .answered attempts result lease⟩
    have hold : DeliverTask.unsent id' ⟨id, .claimed attempts scheduled lease⟩ = (id == id') := rfl
    have hnew : DeliverTask.unsent id' ⟨id, .answered attempts result lease⟩ = false := rfl
    have hcounted := hs.counted id'
    have hlength : (calls.filter (·.deliveryId = id')).length ≤ (id == id').toNat := by
      rcases hcalls with rfl | ⟨rfl, -⟩
      · exact Nat.zero_le _
      · by_cases h : id = id' <;> simp [h]
    change ((s.calls ++ calls).filter (·.deliveryId = id')).length + (s.tasks.set k _).countP (·.unsent id') ≤
      s.attemptsOf id'
    rw [hold, hnew, Bool.toNat_false] at hset
    rw [List.filter_append, List.length_append]
    unfold WebhookState.callsOf at hcounted
    omega
  case attempts_le => exact hs.attempts_le
  case scheduled =>
    intro j id' n due l h
    rcases getElem?_set_cases h with ⟨-, heq⟩ | ⟨-, hold⟩
    · cases heq
    · exact hs.scheduled j id' n due l hold
  case calls =>
    intro c hc
    rcases List.mem_append.mp hc with hc | hc
    · exact hs.calls c hc
    · rcases hcalls with rfl | ⟨rfl, hlease⟩
      · cases hc
      · rw [List.mem_singleton.mp hc]
        refine ⟨decide_eq_false fun hsettled => ?_, fun due hdue => hs.scheduled k id attempts due lease (hdue ▸ hk)⟩
        -- under a running lease the row is still in process
        obtain ⟨d, hd, hclosed⟩ := hs.settled id hsettled
        obtain ⟨d', hd', hstatus, -⟩ := hs.holds k id attempts lease hself hlease
        rw [hd] at hd'
        obtain rfl := Option.some.inj hd'
        rw [hstatus] at hclosed
        cases hclosed
  case settled => exact hs.settled
  case holds => exact fun j id' n l h => hs.holds j id' n l (hruns j id' n l h)
  case older => exact fun j id' n l h => hs.older j id' n l (hruns j id' n l h)
  case apart => exact fun i j id' n l l' hi hj => hs.apart i j id' n l l' (hruns _ _ _ _ hi) (hruns _ _ _ _ hj)

/-! ### Steps -/

theorem elapse (hs : Sound s) (seconds : ℕ) : Sound { s with now := s.now + seconds } where
  counted := hs.counted
  attempts_le := hs.attempts_le
  scheduled j id attempts due lease h := by
    have := hs.scheduled j id attempts due lease h
    change due ≤ s.now + seconds
    omega
  calls := hs.calls
  settled := hs.settled
  holds j id attempts lease hrun hlease := by
    have hlease' : s.now + seconds < lease := hlease
    exact hs.holds j id attempts lease hrun (by omega)
  older := hs.older
  apart := hs.apart

theorem insert (hs : Sound s) (id configId : Uuid) : Sound (s.insert id configId) := by
  unfold WebhookState.insert
  split
  · exact hs
  · rename_i hnone
    have hzero : s.attemptsOf id = 0 := by
      unfold WebhookState.attemptsOf
      rw [hnone]
      rfl
    refine hs.put (fun j attempts lease hrun => ?_) hzero.le (Nat.zero_le _) (fun hsettled => ?_)
    · by_contra hlease
      obtain ⟨d, hd, -⟩ := hs.holds j id attempts lease hrun (by omega)
      rw [hnone] at hd
      cases hd
    · obtain ⟨d, hd, -⟩ := hs.settled id hsettled
      rw [hnone] at hd
      cases hd

theorem attemptsOf_eq {id : Uuid} {d : Delivery} (hd : s.deliveries id = some d) : s.attemptsOf id = d.attempts := by
  unfold WebhookState.attemptsOf
  rw [hd]
  rfl

/-- A claim that gets past the lease finds it over. -/
theorem free_of_unleased (hs : Sound s) {id : Uuid} {d : Delivery} (hd : s.deliveries id = some d)
    (hunleased : ¬d.leased s.now) {j attempts : ℕ} {lease : ℤ} (hrun : Runs s.tasks j id attempts lease) :
    lease ≤ s.now := by
  by_contra hlease
  obtain ⟨d', hd', hstatus, hnext, -⟩ := hs.holds j id attempts lease hrun (by omega)
  rw [hd] at hd'
  obtain rfl := Option.some.inj hd'
  refine hunleased ⟨hstatus, ?_⟩
  rw [hnext]
  simpa using hlease

theorem unsettled_of_open (hs : Sound s) {id : Uuid} {d : Delivery} (hd : s.deliveries id = some d)
    (hopen : d.status.isOpen = true) : id ∉ s.settled := by
  intro hsettled
  obtain ⟨d', hd', hclosed⟩ := hs.settled id hsettled
  rw [hd] at hd'
  obtain rfl := Option.some.inj hd'
  rw [hopen] at hclosed
  cases hclosed

theorem claim (hs : Sound s) {k : ℕ} {s' : WebhookState} (hc : Punctual s (.claim k)) (h : Claimed s k s') :
    Sound s' := by
  cases h with
  | idle _ => exact hs
  | duplicate hk hd h => exact hs.setTask_idle hk _ _ rfl
  | inProgress hk hd h => exact hs.setTask_idle hk _ _ rfl
  | @inactive id d d' hk hd h =>
    obtain ⟨hunleased, rfl⟩ := claimDelivery_inactive h
    have hretired := hs.setTask_idle hk id .over rfl
    refine hretired.put (fun j n l hrun => hretired.free_of_unleased hd hunleased hrun) ?_ ?_ (fun _ => rfl)
    · exact (attemptsOf_eq hd).le
    · exact (attemptsOf_eq hd).symm.le.trans (hs.attempts_le id)
  | @started id d d' hk hd h =>
    have hdue := hc id d d' hk hd h
    obtain ⟨hunleased, rfl⟩ := claimDelivery_started h
    unfold Delivery.due at hdue
    simp only [Bool.and_eq_true, decide_eq_true_eq] at hdue
    obtain ⟨⟨hopen, hnext⟩, hlt⟩ := hdue
    have hattempts := attemptsOf_eq hd
    refine hs.start hk ?_ rfl rfl ?_ (fun j n l hrun => hs.free_of_unleased hd hunleased hrun)
      (hs.unsettled_of_open hd hopen) ?_
    · rw [hattempts]
    · rw [hattempts]
      exact hlt
    · intro due hdue
      rw [hdue] at hnext
      simpa using hnext

theorem send (hs : Sound s) (k : ℕ) (sending : Sending) (hc : Punctual s (.send k sending)) :
    Sound (s.send k sending) := by
  unfold WebhookState.send
  split
  · rename_i id attempts scheduled lease hk
    cases sending with
    | unsent terminal =>
      have hanswer := hs.answer hk (Sending.unsent terminal).result (Or.inl rfl)
      rw [List.append_nil] at hanswer
      exact hanswer
    | sent result => exact hs.answer hk result (Or.inr ⟨rfl, hc id attempts scheduled lease hk⟩)
  · exact hs

theorem record (hs : Sound s) {k : ℕ} {s' : WebhookState} (hc : Punctual s (.record k)) (h : Recorded s k s') :
    Sound s' := by
  cases h with
  | idle _ => exact hs
  | skipped hk hd h => exact hs.setTask_idle hk _ _ rfl
  | @written id attempts result lease d hk hd hopen hown configs =>
    have hlease := hc id attempts result lease d hk hd hopen hown
    obtain ⟨d', hd', hstatus, -⟩ := hs.holds k id attempts lease ⟨_, hk, rfl, rfl⟩ hlease
    rw [hd] at hd'
    obtain rfl := Option.some.inj hd'
    have hattempts : (recordDelivery s.now attempts result d).attempts = d.attempts := by
      unfold recordDelivery
      split_ifs <;> rfl
    have hretired := hs.setTask_idle hk id .over rfl
    have hput : Sound ((s.setTask k id .over).put id (recordDelivery s.now attempts result d)) := by
      refine hretired.put (fun j n l hrun => ?_) ?_ ?_ (fun hsettled => ?_)
      · -- another running lease of the row would have the number of this attempt
        by_contra hl
        obtain ⟨d', hd', -, -, hn⟩ := hretired.holds j id n l hrun (not_le.mp hl)
        rcases runs_set hrun with ⟨-, -, hidle⟩ | ⟨hne, hold⟩
        · cases hidle
        · have hsame : s.deliveries id = some d' := hd'
          rw [hd] at hsame
          obtain rfl := Option.some.inj hsame
          have hnumber : n = attempts := hn.symm.trans hown
          exact hne (hs.apart j k id n l lease hold ⟨_, hk, rfl, hnumber ▸ rfl⟩)
      · rw [hattempts]
        exact (attemptsOf_eq hd).le
      · rw [hattempts, ← attemptsOf_eq hd]
        exact hs.attempts_le id
      · exact absurd hsettled (hs.unsettled_of_open hd (by rw [hstatus]; rfl))
    exact ⟨hput.counted, hput.attempts_le, hput.scheduled, hput.calls, hput.settled, hput.holds, hput.older,
      hput.apart⟩

theorem step (hs : Sound s) (l : WebhookStep) (hc : Punctual s l) : Sound (s.step l) := by
  cases l with
  | elapse seconds => exact hs.elapse seconds
  | insert id configId => exact hs.insert id configId
  | configure id config =>
    exact ⟨hs.counted, hs.attempts_le, hs.scheduled, hs.calls, hs.settled, hs.holds, hs.older, hs.apart⟩
  | sweep found => exact hs.enqueue _
  | enqueue id => exact hs.enqueue [id]
  | claim k => exact hs.claim hc (claimed_claim s k)
  | send k sending => exact hs.send k sending hc
  | record k => exact hs.record hc (recorded_record s k)
  | restart k =>
    change Sound (s.restart k)
    unfold WebhookState.restart
    split
    · exact hs
    · rename_i id phase hnot hk
      exact hs.setTask_idle hk id _ rfl
    · exact hs
  | lose k =>
    change Sound (s.lose k)
    unfold WebhookState.lose
    split
    · rename_i id phase hk
      exact hs.setTask_idle hk id _ rfl
    · exact hs

theorem of_start (now : ℤ) (configs : Uuid → Option DeliveryConfig) : Sound (.start now configs) where
  counted _ := Nat.le_refl 0
  attempts_le _ := Nat.zero_le _
  scheduled _ _ _ _ _ h := by cases h
  calls _ h := absurd h List.not_mem_nil
  settled _ h := absurd h List.not_mem_nil
  holds _ _ _ _ h := by
    obtain ⟨t, ht, -⟩ := h
    cases ht
  older _ _ _ _ h := by
    obtain ⟨t, ht, -⟩ := h
    cases ht
  apart _ _ _ _ _ _ h := by
    obtain ⟨t, ht, -⟩ := h
    cases ht

end Sound

/-- **Calls are bounded and final** in every run of punctual steps. -/
theorem bounded_of_punctual (now : ℤ) (configs : Uuid → Option DeliveryConfig) (run : List WebhookStep)
    (h : Meets WebhookState.step Punctual (.start now configs) run) :
    Always WebhookState.step Bounded (.start now configs) run :=
  always_of_inv Sound (fun _ => Sound.bounded) (fun _ l hs hc => hs.step l hc) run _ (.of_start now configs) h

/-- A delivery fails, waits a minute and is delivered by the task of the sweep. -/
def retriedRun : List WebhookStep :=
  [.insert (sampleUuid 'd') (sampleUuid 'c'), .sweep [sampleUuid 'd'], .claim 0, .send 0 (.sent ⟨false, false⟩),
    .record 0, .elapse 60, .sweep [sampleUuid 'd'], .claim 1, .send 1 (.sent ⟨true, false⟩), .record 1]

theorem retriedRun_punctual : Meets WebhookState.step Punctual (.start 0 activeConfigs) retriedRun := by
  refine ⟨trivial, trivial, ?_, ?_, ?_, trivial, trivial, ?_, ?_, ?_, trivial⟩
  · intro id d d' hk hd _
    cases hk
    cases hd
    rfl
  · intro id attempts scheduled lease hk
    cases hk
    decide
  · intro id attempts result lease d hk hd _ _
    cases hk
    decide
  · intro id d d' hk hd _
    cases hk
    cases hd
    rfl
  · intro id attempts scheduled lease hk
    cases hk
    decide
  · intro id attempts result lease d hk hd _ _
    cases hk
    decide

theorem bounded_retriedRun : Meets WebhookState.step Punctual (.start 0 activeConfigs) retriedRun ∧
    Always WebhookState.step Bounded (.start 0 activeConfigs) retriedRun :=
  ⟨retriedRun_punctual, bounded_of_punctual 0 activeConfigs retriedRun retriedRun_punctual⟩

/-- Six tasks of one delivery, one after the other, and a transport that fails. -/
def hurriedRun : List WebhookStep :=
  [.insert (sampleUuid 'd') (sampleUuid 'c')] ++
    (List.range 6).flatMap fun k =>
      [.enqueue (sampleUuid 'd'), .claim k, .send k (.sent ⟨false, false⟩), .record k]

/-- Nothing makes the second task wait a minute, and the sixth one starts a delivery that has failed. -/
theorem hurriedRun_unbounded :
    ((after WebhookState.step (.start 0 activeConfigs) hurriedRun).callsOf (sampleUuid 'd')).map
        (fun c => (c.madeAt, c.scheduled, c.late)) =
      [(0, some 0, false), (0, some 60, false), (0, some 900, false), (0, some 3600, false), (0, some 21600, false),
        (0, none, true)] ∧
    ¬Always WebhookState.step Bounded (.start 0 activeConfigs) hurriedRun := by
  have hcalls : ((after WebhookState.step (.start 0 activeConfigs) hurriedRun).callsOf (sampleUuid 'd')).map
      (fun c => (c.madeAt, c.scheduled, c.late)) =
      [(0, some 0, false), (0, some 60, false), (0, some 900, false), (0, some 3600, false), (0, some 21600, false),
        (0, none, true)] := by decide +kernel
  refine ⟨hcalls, fun h => ?_⟩
  have hsix := congrArg List.length hcalls
  rw [List.length_map] at hsix
  have hbounded : Bounded (after WebhookState.step (.start 0 activeConfigs) hurriedRun) := always_last h
  have hfive := (hbounded (sampleUuid 'd')).1
  rw [hsix] at hfive
  exact absurd hfive (by decide)

end RevenueOS.Messaging
