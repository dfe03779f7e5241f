import RevenueOS.Lib.Slots
import RevenueOS.Lib.TtlStore
import Mathlib.Data.Nat.Basic

/-!
# RevenueOS.Workflows.Control — kill switches

`application/workflows/control.py` over the Redis cache of `infrastructure/caching/redis.py` and the
`kill_switch` column of `workflow_definitions`.

The cache is fail-open: an operation that cannot reach Redis reads as absent or does nothing.  `up` says
whether an operation reaches it.  Times are in milliseconds, as Redis keeps them.

* Whole calls: `engageKillSwitch`, `isKilled`, `releaseKillSwitch`; `engaged_iff` says when an engaged
  switch is seen later.
* Single steps: `KillCheck.step`, `Release.step` and their interleavings in `Race`; `released_iff` says when a
  released switch stays released.  `KillCheck.run_eq` connects the steps with the whole call.

The cache keys `g:kill:all`, `t:{tenant}:kill:tenant:all` and `t:{tenant}:kill:workflow:{id}` are an inductive
type; ids are UUIDs, on which these texts are injective.  Audit records, events and `paused_at` are left out.
-/

namespace RevenueOS.Workflows

open RevenueOS.Lib

/-! ## The stores -/

/-- The cache keys of the three scopes. -/
inductive KillKey where
  | global
  | tenant (tenantId : String)
  | workflow (tenantId workflowId : String)
deriving DecidableEq, Repr

/-- `KILL_TTL_SECONDS`, in milliseconds. -/
def killTtl : ℕ := 86400 * 1000

/-- The cache, and `kill_switch` of every workflow definition that is not deleted. -/
structure KillWorld where
  cache : TtlStore KillKey
  killSwitch : String → String → Option Bool

namespace KillWorld

/-- `get_json(key) is not None`. -/
def cached (w : KillWorld) (up : Bool) (key : KillKey) : Bool := up && w.cache.live key

/-- `set_json(key, .., KILL_TTL_SECONDS)`. -/
def cacheSet (w : KillWorld) (up : Bool) (key : KillKey) : KillWorld :=
  if up then { w with cache := w.cache.set key killTtl } else w

/-- `delete(key)`. -/
def cacheDelete (w : KillWorld) (up : Bool) (key : KillKey) : KillWorld :=
  if up then { w with cache := w.cache.delete key } else w

def elapse (w : KillWorld) (d : ℕ) : KillWorld := { w with cache := w.cache.elapse d }

/-- `workflow.kill_switch = value`. -/
def setSwitch (w : KillWorld) (tenantId workflowId : String) (value : Bool) : KillWorld :=
  { w with
    killSwitch := Function.update w.killSwitch tenantId
      (Function.update (w.killSwitch tenantId) workflowId (some value)) }

@[simp] theorem setSwitch_self (w : KillWorld) (t i : String) (b : Bool) :
    (w.setSwitch t i b).killSwitch t i = some b := by
  simp [setSwitch]

theorem setSwitch_of_ne (w : KillWorld) {t i t' i' : String} (b : Bool) (h : (t', i') ≠ (t, i)) :
    (w.setSwitch t i b).killSwitch t' i' = w.killSwitch t' i' := by
  by_cases ht : t' = t
  · subst ht
    have hi : i' ≠ i := by rintro rfl; exact h rfl
    simp [setSwitch, hi]
  · simp [setSwitch, ht]

@[simp] theorem cacheSet_killSwitch (w : KillWorld) (up : Bool) (k : KillKey) :
    (w.cacheSet up k).killSwitch = w.killSwitch := by
  cases up <;> rfl

@[simp] theorem cacheDelete_killSwitch (w : KillWorld) (up : Bool) (k : KillKey) :
    (w.cacheDelete up k).killSwitch = w.killSwitch := by
  cases up <;> rfl

@[simp] theorem cacheSet_now (w : KillWorld) (up : Bool) (k : KillKey) :
    (w.cacheSet up k).cache.now = w.cache.now := by
  cases up <;> rfl

theorem cacheSet_expiry_of_ne (w : KillWorld) (up : Bool) {k k' : KillKey} (h : k' ≠ k) :
    (w.cacheSet up k).cache.expiry k' = w.cache.expiry k' := by
  cases up with
  | false => rfl
  | true => exact TtlStore.expiry_set_of_ne h

end KillWorld

inductive ControlError where
  | notFound (message : String)
deriving DecidableEq, Repr

/-- The key of a scope: the workflow's, or the tenant's. -/
def scopeKey (tenantId : String) : Option String → KillKey
  | some workflowId => .workflow tenantId workflowId
  | none => .tenant tenantId

/-! ## Whole calls -/

/-- The database part of engaging and releasing: the workflow scope writes its row, the tenant scope none. -/
def writeSwitch (tenantId : String) (workflowId : Option String) (value : Bool) (w : KillWorld) :
    Except ControlError KillWorld :=
  match workflowId with
  | none => .ok w
  | some id =>
    match w.killSwitch tenantId id with
    | none => .error (.notFound "Workflow not found.")
    | some _ => .ok (w.setSwitch tenantId id value)

/-- `engage_kill_switch`. -/
def engageKillSwitch (up : Bool) (tenantId : String) (workflowId : Option String) (w : KillWorld) :
    Except ControlError KillWorld := do
  return (← writeSwitch tenantId workflowId true w).cacheSet up (scopeKey tenantId workflowId)

/-- `release_kill_switch`. -/
def releaseKillSwitch (up : Bool) (tenantId : String) (workflowId : Option String) (w : KillWorld) :
    Except ControlError KillWorld := do
  return (← writeSwitch tenantId workflowId false w).cacheDelete up (scopeKey tenantId workflowId)

/-- `is_killed`. -/
def isKilled (up : Bool) (tenantId : String) (workflowId : Option String) (w : KillWorld) : Bool × KillWorld :=
  if w.cached up .global || w.cached up (.tenant tenantId) then (true, w)
  else
    match workflowId with
    | none => (false, w)
    | some id =>
      if w.cached up (.workflow tenantId id) then (true, w)
      else if w.killSwitch tenantId id = some true then (true, w.cacheSet up (.workflow tenantId id))
      else (false, w)

/-! ## An engaged switch -/

/-- What may happen after a switch was engaged. -/
inductive KillEvent where
  | isKilled (up : Bool) (tenantId : String) (workflowId : Option String)
  | elapse (d : ℕ)

def KillEvent.apply (w : KillWorld) : KillEvent → KillWorld
  | .isKilled up tenantId workflowId => (Workflows.isKilled up tenantId workflowId w).2
  | .elapse d => w.elapse d

def runEvents (w : KillWorld) (events : List KillEvent) : KillWorld := events.foldl KillEvent.apply w

/-- The time that passes in a history. -/
def elapsed : List KillEvent → ℕ
  | [] => 0
  | .isKilled _ _ _ :: events => elapsed events
  | .elapse d :: events => d + elapsed events

/-- A check leaves the database, the clock and every key outside the workflow scope alone. -/
theorem isKilled_frame (up : Bool) (t : String) (i : Option String) (w : KillWorld) :
    (isKilled up t i w).2.killSwitch = w.killSwitch ∧ (isKilled up t i w).2.cache.now = w.cache.now ∧
      ∀ k, (∀ t' i', k ≠ .workflow t' i') → (isKilled up t i w).2.cache.expiry k = w.cache.expiry k := by
  unfold isKilled
  split_ifs
  · exact ⟨rfl, rfl, fun _ _ => rfl⟩
  · cases i with
    | none => exact ⟨rfl, rfl, fun _ _ => rfl⟩
    | some id =>
      simp only
      split_ifs
      · exact ⟨rfl, rfl, fun _ _ => rfl⟩
      · exact ⟨by simp, by simp, fun k hk => KillWorld.cacheSet_expiry_of_ne _ _ (hk t id)⟩
      · exact ⟨rfl, rfl, fun _ _ => rfl⟩

/-- The same over a history, with the time that passed. -/
theorem runEvents_frame (events : List KillEvent) (w : KillWorld) :
    (runEvents w events).killSwitch = w.killSwitch ∧
      (runEvents w events).cache.now = w.cache.now + elapsed events ∧
      ∀ k, (∀ t i, k ≠ .workflow t i) → (runEvents w events).cache.expiry k = w.cache.expiry k := by
  induction events generalizing w with
  | nil => exact ⟨rfl, rfl, fun _ _ => rfl⟩
  | cons event events ih =>
    obtain ⟨h1, h2, h3⟩ := ih (event.apply w)
    rw [runEvents, List.foldl_cons]
    cases event with
    | isKilled up t i =>
      obtain ⟨f1, f2, f3⟩ := isKilled_frame up t i w
      exact ⟨h1.trans f1, by rw [← f2]; exact h2, fun k hk => (h3 k hk).trans (f3 k hk)⟩
    | elapse d =>
      refine ⟨h1, ?_, h3⟩
      have : (KillEvent.apply w (.elapse d)).cache.now = w.cache.now + d := rfl
      rw [runEvents, this] at h2
      rw [h2, elapsed, Nat.add_assoc]

/-- A switch set in the database is seen with or without the cache. -/
theorem isKilled_of_switch {up : Bool} {t i : String} {w : KillWorld} (h : w.killSwitch t i = some true) :
    (isKilled up t (some i) w).1 = true := by
  unfold isKilled
  split_ifs
  · rfl
  · simp only [h, if_true]
    split_ifs <;> rfl

theorem engage_workflow {up : Bool} {t i : String} {w w' : KillWorld}
    (h : engageKillSwitch up t (some i) w = .ok w') : w'.killSwitch t i = some true := by
  unfold engageKillSwitch writeSwitch at h
  cases hs : w.killSwitch t i with
  | none => simp [hs, bind, Except.bind] at h
  | some b =>
    simp only [hs, bind, Except.bind, pure, Except.pure, Except.ok.injEq] at h
    rw [← h]
    simp

/-- The workflows a scope covers. -/
def InScope (scope workflowId : Option String) : Prop := scope = none ∨ scope = workflowId

/-- Every check within the scope of an engaged switch, after the history `events`, finds it. -/
def StaysEngaged (up up' : Bool) (t : String) (scope : Option String) (events : List KillEvent) : Prop :=
  ∀ w w', engageKillSwitch up t scope w = .ok w' → ∀ i, InScope scope i →
    (isKilled up' t i (runEvents w' events)).1 = true

/-- A fresh world: nothing cached, every workflow present and not killed. -/
def freshWorld : KillWorld := ⟨TtlStore.empty, fun _ _ => some false⟩

/-- In a fresh world a tenant-wide switch is seen only through its cache entry. -/
theorem fresh_tenant (up up' : Bool) (t : String) (events : List KillEvent) :
    (isKilled up' t none (runEvents (freshWorld.cacheSet up (.tenant t)) events)).1 =
      (up && up' && decide (elapsed events < killTtl)) := by
  obtain ⟨-, hnow, hexp⟩ := runEvents_frame events (freshWorld.cacheSet up (.tenant t))
  have hg := hexp .global (by simp)
  have ht := hexp (.tenant t) (by simp)
  unfold isKilled KillWorld.cached TtlStore.live
  rw [hnow, hg, ht]
  cases up with
  | false =>
    simp [KillWorld.cacheSet, freshWorld, TtlStore.empty]
  | true =>
    by_cases hlt : elapsed events < killTtl <;>
      cases up' <;> simp [KillWorld.cacheSet, freshWorld, TtlStore.empty, TtlStore.set, hlt]

/-- **An engaged switch stays engaged**, exactly: a workflow's always, a tenant's for a day of Redis. -/
theorem engaged_iff (up up' : Bool) (t : String) (scope : Option String) (events : List KillEvent) :
    StaysEngaged up up' t scope events ↔
      scope.isSome = true ∨ (up = true ∧ up' = true ∧ elapsed events < killTtl) := by
  cases scope with
  | some i =>
    refine ⟨fun _ => Or.inl rfl, ?_⟩
    intro _ w w' hw i' hi'
    have hdb := engage_workflow hw
    rw [← (runEvents_frame events w').1] at hdb
    rcases hi' with h | rfl
    · cases h
    · exact isKilled_of_switch hdb
  | none =>
    constructor
    · intro h
      have := h freshWorld (freshWorld.cacheSet up (.tenant t)) rfl none (Or.inl rfl)
      rw [fresh_tenant] at this
      simpa [and_assoc] using this
    · rintro (h | ⟨rfl, rfl, hlt⟩) w w' hw i -
      · cases h
      have hw' : w' = w.cacheSet true (.tenant t) := by
        simp only [engageKillSwitch, writeSwitch, bind, Except.bind, pure, Except.pure, Except.ok.injEq] at hw
        exact hw.symm
      obtain ⟨-, hnow, hexp⟩ := runEvents_frame events w'
      have hlive : (runEvents w' events).cache.live (.tenant t) = true := by
        rw [TtlStore.live_iff, hexp (.tenant t) (by simp), hnow, hw']
        exact ⟨_, TtlStore.expiry_set_self, by simpa [KillWorld.cacheSet] using hlt⟩
      unfold isKilled
      rw [if_pos (by simp [KillWorld.cached, hlive])]

/-- After a day, a tenant-wide switch that nobody released is gone. -/
theorem tenant_switch_expires : ¬ ∀ (up up' : Bool) (t : String) (scope : Option String)
    (events : List KillEvent), up = true → up' = true → StaysEngaged up up' t scope events := by
  intro h
  have := h true true "tenant" none [.elapse killTtl] rfl rfl freshWorld _ rfl none (Or.inl rfl)
  rw [show freshWorld.cacheSet true (scopeKey "tenant" none) = freshWorld.cacheSet true (.tenant "tenant")
    from rfl, fresh_tenant] at this
  simp [elapsed] at this

/-! ## Single steps -/

/-- Where a call of `is_killed` stands: the next cache read, the database read, the cache write, or done. -/
inductive CheckPc where
  | global | tenant | workflow | database | store
  | returned (result : Bool)
deriving DecidableEq, Repr

/-- A call of `is_killed` in progress. -/
structure KillCheck where
  tenantId : String
  workflowId : Option String
  pc : CheckPc
deriving DecidableEq, Repr

/-- One cache or database step of `is_killed`. -/
def KillCheck.step (up : Bool) (c : KillCheck) (w : KillWorld) : KillCheck × KillWorld :=
  match c.pc, c.workflowId with
  | .global, _ => ({ c with pc := if w.cached up .global then .returned true else .tenant }, w)
  | .tenant, i =>
    ({ c with
      pc := if w.cached up (.tenant c.tenantId) then .returned true
        else if i.isSome then .workflow else .returned false }, w)
  | .workflow, some i =>
    ({ c with pc := if w.cached up (.workflow c.tenantId i) then .returned true else .database }, w)
  | .database, some i =>
    ({ c with pc := if w.killSwitch c.tenantId i = some true then .store else .returned false }, w)
  | .store, some i => ({ c with pc := .returned true }, w.cacheSet up (.workflow c.tenantId i))
  | .returned _, _ => (c, w)
  | _, none => ({ c with pc := .returned false }, w)

/-- `n` steps of one call with nothing in between. -/
def KillCheck.steps (up : Bool) : ℕ → KillCheck × KillWorld → KillCheck × KillWorld
  | 0, cw => cw
  | n + 1, cw => KillCheck.steps up n (cw.1.step up cw.2)

/-- Undisturbed, the steps of a call are the call. -/
theorem KillCheck.run_eq (up : Bool) (t : String) (i : Option String) (w : KillWorld) :
    KillCheck.steps up 5 (⟨t, i, .global⟩, w) =
      (⟨t, i, .returned (isKilled up t i w).1⟩, (isKilled up t i w).2) := by
  unfold isKilled
  by_cases hg : w.cached up .global = true
  · simp [KillCheck.steps, KillCheck.step, hg]
  by_cases ht : w.cached up (.tenant t) = true
  · simp [KillCheck.steps, KillCheck.step, hg, ht]
  cases i with
  | none => simp [KillCheck.steps, KillCheck.step, hg, ht]
  | some i =>
    by_cases hw : w.cached up (.workflow t i) = true
    · simp [KillCheck.steps, KillCheck.step, hg, ht, hw]
    by_cases hs : w.killSwitch t i = some true
    · simp [KillCheck.steps, KillCheck.step, hg, ht, hw, hs]
    · simp [KillCheck.steps, KillCheck.step, hg, ht, hw, hs]

/-- Where a call of `release_kill_switch` stands. -/
inductive ReleasePc where
  | database | cache | returned | raised
deriving DecidableEq, Repr

/-- A call of `release_kill_switch(workflow)` in progress. -/
structure Release where
  tenantId : String
  workflowId : String
  pc : ReleasePc
deriving DecidableEq, Repr

/-- One step of `release_kill_switch`: the transaction on the row, then the cache. -/
def Release.step (up : Bool) (r : Release) (w : KillWorld) : Release × KillWorld :=
  match r.pc with
  | .database =>
    match writeSwitch r.tenantId (some r.workflowId) false w with
    | .ok w' => ({ r with pc := .cache }, w')
    | .error _ => ({ r with pc := .raised }, w)
  | .cache => ({ r with pc := .returned }, w.cacheDelete up (.workflow r.tenantId r.workflowId))
  | _ => (r, w)

/-- Any number of checks and releases over one world. -/
structure Race where
  world : KillWorld
  checks : List KillCheck
  releases : List Release

inductive RaceStep where
  | check (index : ℕ) (up : Bool)
  | release (index : ℕ) (up : Bool)
  | start (tenantId : String) (workflowId : Option String)
  | elapse (d : ℕ)

/-- One step of the interleaving; nobody engages a switch. -/
def Race.apply (s : Race) : RaceStep → Race
  | .check index up =>
    match s.checks[index]? with
    | some c => { s with world := (c.step up s.world).2, checks := s.checks.set index (c.step up s.world).1 }
    | none => s
  | .release index up =>
    match s.releases[index]? with
    | some r => { s with world := (r.step up s.world).2, releases := s.releases.set index (r.step up s.world).1 }
    | none => s
  | .start t i => { s with checks := s.checks ++ [⟨t, i, .global⟩] }
  | .elapse d => { s with world := s.world.elapse d }

def Race.run (s : Race) (steps : List RaceStep) : Race := steps.foldl Race.apply s

/-! ## A released switch -/

/-- A call about the workflow `i` of the tenant `t`. -/
def KillCheck.Of (c : KillCheck) (t i : String) : Prop := c.tenantId = t ∧ c.workflowId = some i

/-- In a race where a release of `i` just returned: once the calls that overlapped it have finished, no new
call for `i` returns `True`. -/
def StaysReleased (s : Race) (t i : String) : Prop :=
  ∀ steps, (∀ c ∈ (s.run steps).checks.take s.checks.length, ∃ b, c.pc = .returned b) →
    ∀ more, ∀ c ∈ ((s.run steps).run more).checks.drop (s.run steps).checks.length,
      c.Of t i → c.pc ≠ .returned true

/-- What the state before the release's cache step must look like. -/
structure Clear (s : Race) (up : Bool) (t i : String) : Prop where
  reaches : up = true ∨ s.world.cache.live (.workflow t i) = false
  noStore : ∀ c ∈ s.checks, c.Of t i → c.pc ≠ .store
  tenant : s.world.cache.live (.tenant t) = false
  global : s.world.cache.live .global = false

section Steps

variable {t i : String} {up : Bool}

theorem KillCheck.step_killSwitch (c : KillCheck) (w : KillWorld) :
    (c.step up w).2.killSwitch = w.killSwitch := by
  unfold KillCheck.step
  split <;> simp

theorem KillCheck.step_of (c : KillCheck) (w : KillWorld) : (c.step up w).1.Of t i ↔ c.Of t i := by
  unfold KillCheck.step
  split <;> exact Iff.rfl

/-- A check only ever adds a cache entry, and only the one it is about to store. -/
theorem KillCheck.step_live {c : KillCheck} {w : KillWorld} {k : KillKey}
    (h : (c.step up w).2.cache.live k = true) :
    w.cache.live k = true ∨ ∃ t' i', k = .workflow t' i' ∧ c.Of t' i' ∧ c.pc = .store := by
  unfold KillCheck.step at h
  split at h
  case h_5 i' hpc hi' =>
    by_cases hk : k = .workflow c.tenantId i'
    · exact Or.inr ⟨c.tenantId, i', hk, ⟨rfl, hi'⟩, hpc⟩
    · left
      cases up with
      | false => exact h
      | true =>
        simp only [KillWorld.cacheSet, if_true] at h
        rwa [TtlStore.live_set_of_ne hk] at h
  all_goals exact Or.inl h

/-- And it ends no entry's life. -/
theorem KillCheck.step_hot {c : KillCheck} {w : KillWorld} {k : KillKey} (h : w.cache.live k = true) :
    (c.step up w).2.cache.live k = true := by
  unfold KillCheck.step
  split
  case h_5 =>
    cases up with
    | false => exact h
    | true => exact TtlStore.live_set h (by decide)
  all_goals exact h

theorem Release.step_live {r : Release} {w : KillWorld} {k : KillKey}
    (h : (r.step up w).2.cache.live k = true) : w.cache.live k = true := by
  unfold Release.step writeSwitch at h
  split at h
  · split at h
    · rename_i w' hw'
      simp only at hw'
      split at hw'
      · cases hw'
      · obtain rfl := Except.ok.inj hw'
        exact h
    · exact h
  · cases up with
    | false => exact h
    | true => exact TtlStore.live_of_live_delete h
  · exact h

/-- A release never sets a switch. -/
theorem Release.step_killSwitch {r : Release} {w : KillWorld} (h : w.killSwitch t i = some false) :
    (r.step up w).2.killSwitch t i = some false := by
  unfold Release.step writeSwitch
  split
  · simp only
    split
    · rename_i w' hw'
      split at hw'
      · cases hw'
      · obtain rfl := Except.ok.inj hw'
        by_cases he : (t, i) = (r.tenantId, r.workflowId)
        · obtain ⟨rfl, rfl⟩ := Prod.mk.inj he
          simp
        · rw [KillWorld.setSwitch_of_ne _ _ he]
          exact h
    · exact h
  · simpa using h
  · exact h

/-- A release past its database step has the row on its side: nobody engages the switch again. -/
def SwitchOff (j : ℕ) (t i : String) (s : Race) : Prop :=
  ∃ pc, s.releases[j]? = some ⟨t, i, pc⟩ ∧
    (pc = .database ∨ pc = .raised ∨ s.world.killSwitch t i = some false)

theorem killSwitch_apply (s : Race) (step : RaceStep) (h : s.world.killSwitch t i = some false) :
    (s.apply step).world.killSwitch t i = some false := by
  cases step with
  | start _ _ => exact h
  | elapse _ => exact h
  | check k up =>
    unfold Race.apply
    simp only
    split
    · rw [KillCheck.step_killSwitch]
      exact h
    · exact h
  | release k up =>
    unfold Race.apply
    simp only
    split
    · exact Release.step_killSwitch h
    · exact h

/-- The release's own step. -/
theorem Release.step_off {pc : ReleasePc} {w : KillWorld}
    (h : pc = .database ∨ pc = .raised ∨ w.killSwitch t i = some false) :
    ∃ pc', (Release.step up ⟨t, i, pc⟩ w).1 = ⟨t, i, pc'⟩ ∧
      (pc' = .database ∨ pc' = .raised ∨ (Release.step up ⟨t, i, pc⟩ w).2.killSwitch t i = some false) := by
  cases pc with
  | database =>
    cases hs : w.killSwitch t i with
    | none => exact ⟨.raised, by simp [Release.step, writeSwitch, hs], by simp⟩
    | some b => exact ⟨.cache, by simp [Release.step, writeSwitch, hs], by simp [Release.step, writeSwitch, hs]⟩
  | raised => exact ⟨.raised, rfl, by simp⟩
  | cache => exact ⟨.returned, rfl, by simpa [Release.step] using h⟩
  | returned => exact ⟨.returned, rfl, by simpa [Release.step] using h⟩

theorem SwitchOff.apply {j : ℕ} {s : Race} (h : SwitchOff j t i s) (step : RaceStep) :
    SwitchOff j t i (s.apply step) := by
  obtain ⟨pc, hj, hpc⟩ := h
  have others : (s.apply step).releases[j]? = s.releases[j]? → SwitchOff j t i (s.apply step) := fun he =>
    ⟨pc, he.trans hj, hpc.imp_right (Or.imp_right (killSwitch_apply s step))⟩
  cases step with
  | start _ _ => exact others rfl
  | elapse _ => exact others rfl
  | check k up =>
    refine others ?_
    unfold Race.apply
    simp only
    split <;> rfl
  | release k up =>
    by_cases hkj : k = j
    · subst hkj
      have hlen : k < s.releases.length := (List.getElem?_eq_some_iff.mp hj).1
      obtain ⟨pc', he, hoff⟩ := @Release.step_off t i up pc s.world hpc
      refine ⟨pc', ?_, ?_⟩
      · simp only [Race.apply, hj, List.getElem?_set_self hlen, he]
      · simp only [Race.apply, hj]
        exact hoff
    · refine others ?_
      unfold Race.apply
      simp only
      split
      · exact List.getElem?_set_ne hkj
      · rfl

theorem SwitchOff.run {j : ℕ} (steps : List RaceStep) {s : Race} (h : SwitchOff j t i s) :
    SwitchOff j t i (s.run steps) := by
  induction steps generalizing s with
  | nil => exact h
  | cons step steps ih => exact ih (h.apply step)

/-! ### Settled races -/

/-- Nothing left that could bring the switch back; the calls from index `n` on never returned `True`. -/
structure Settled (n : ℕ) (t i : String) (s : Race) : Prop where
  switch : s.world.killSwitch t i = some false
  cold : ∀ k, k = .workflow t i ∨ k = .tenant t ∨ k = .global → s.world.cache.live k = false
  idle : ∀ c ∈ s.checks, c.Of t i → c.pc ≠ .store
  fresh : ∀ c ∈ s.checks.drop n, c.Of t i → c.pc ≠ .returned true

/-- A call for `i` in a settled world neither stores nor answers `True`. -/
theorem KillCheck.step_settled {c : KillCheck} {w : KillWorld} (hc : c.Of t i) (hs : w.killSwitch t i = some false)
    (hcold : ∀ k, k = .workflow t i ∨ k = .tenant t ∨ k = .global → w.cache.live k = false)
    (hidle : c.pc ≠ .store) :
    (c.step up w).1.pc ≠ .store ∧ (c.pc ≠ .returned true → (c.step up w).1.pc ≠ .returned true) := by
  obtain ⟨t', i', pc⟩ := c
  obtain ⟨rfl, rfl⟩ := hc
  have h1 : w.cached up (.workflow t' i) = false := by simp [KillWorld.cached, hcold]
  have h2 : w.cached up (.tenant t') = false := by simp [KillWorld.cached, hcold]
  have h3 : w.cached up .global = false := by simp [KillWorld.cached, hcold]
  cases pc with
  | store => exact absurd rfl hidle
  | returned b => exact ⟨by simp [KillCheck.step], fun h => by simpa [KillCheck.step] using h⟩
  | _ => simp [KillCheck.step, h1, h2, h3, hs]

/-- What a step does to the cache: an entry that is live after it was live before, or a call stored it. -/
theorem live_apply {s : Race} {step : RaceStep} {k : KillKey} (h : (s.apply step).world.cache.live k = true) :
    s.world.cache.live k = true ∨
      ∃ c ∈ s.checks, ∃ t' i', k = .workflow t' i' ∧ c.Of t' i' ∧ c.pc = .store := by
  cases step with
  | start _ _ => exact Or.inl h
  | elapse d => exact Or.inl (TtlStore.live_of_live_elapse h)
  | release k' up =>
    simp only [Race.apply] at h
    split at h
    · exact Or.inl (Release.step_live h)
    · exact Or.inl h
  | check k' up =>
    simp only [Race.apply] at h
    split at h
    · rename_i c hc
      exact (KillCheck.step_live h).imp_right fun hstore => ⟨c, List.mem_of_getElem? hc, hstore⟩
    · exact Or.inl h

/-- What a step does to the call at index `j`: nothing, one step of it, or its start. -/
theorem checks_apply {s : Race} {step : RaceStep} {j : ℕ} {c : KillCheck}
    (h : (s.apply step).checks[j]? = some c) :
    s.checks[j]? = some c ∨ c.pc = .global ∨
      ∃ c₀ up, s.checks[j]? = some c₀ ∧ c = (c₀.step up s.world).1 := by
  cases step with
  | elapse d => exact Or.inl h
  | release k up =>
    simp only [Race.apply] at h
    split at h <;> exact Or.inl h
  | start t' i' =>
    rcases getElem?_concat_cases h with rfl | hj
    · exact Or.inr (Or.inl rfl)
    · exact Or.inl hj
  | check k up =>
    simp only [Race.apply] at h
    split at h
    · rename_i c₀ hc₀
      rcases getElem?_set_cases h with ⟨rfl, rfl⟩ | ⟨-, hj⟩
      · exact Or.inr (Or.inr ⟨c₀, up, hc₀, rfl⟩)
      · exact Or.inl hj
    · exact Or.inl h

/-- Settled races stay settled: the key of `i` is stored by no call, and a call that steps finds nothing. -/
theorem Settled.apply {n : ℕ} {s : Race} (h : Settled n t i s) (step : RaceStep) :
    Settled n t i (s.apply step) := by
  refine ⟨killSwitch_apply s step h.switch, ?_, ?_, ?_⟩
  · intro k hk
    by_contra hlive
    rw [Bool.not_eq_false] at hlive
    rcases live_apply hlive with hl | ⟨c, hc, t', i', rfl, hof, hpc⟩
    · exact absurd hl (by simp [h.cold k hk])
    · rcases hk with hk | hk | hk
      · obtain ⟨rfl, rfl⟩ := KillKey.workflow.inj hk
        exact h.idle c hc hof hpc
      · cases hk
      · cases hk
  · intro c hc hof
    obtain ⟨j, hj⟩ := List.getElem?_of_mem hc
    rcases checks_apply hj with hold | hpc | ⟨c₀, up, hold, rfl⟩
    · exact h.idle c (List.mem_of_getElem? hold) hof
    · simp [hpc]
    · have hof₀ := (KillCheck.step_of c₀ _).mp hof
      have hidle := h.idle c₀ (List.mem_of_getElem? hold) hof₀
      exact (KillCheck.step_settled hof₀ h.switch h.cold hidle).1
  · intro c hc hof
    obtain ⟨j, hj⟩ := List.getElem?_of_mem hc
    rw [List.getElem?_drop] at hj
    have hdrop : ∀ {c'}, s.checks[n + j]? = some c' → c' ∈ s.checks.drop n := fun hc' =>
      List.mem_of_getElem? (List.getElem?_drop.trans hc')
    rcases checks_apply hj with hold | hpc | ⟨c₀, up, hold, rfl⟩
    · exact h.fresh c (hdrop hold) hof
    · simp [hpc]
    · have hof₀ := (KillCheck.step_of c₀ _).mp hof
      have hidle := h.idle c₀ (List.mem_of_getElem? hold) hof₀
      exact (KillCheck.step_settled hof₀ h.switch h.cold hidle).2 (h.fresh c₀ (hdrop hold) hof₀)

theorem length_checks_apply (s : Race) (step : RaceStep) : s.checks.length ≤ (s.apply step).checks.length := by
  cases step with
  | start _ _ => simp [Race.apply]
  | elapse _ => exact le_rfl
  | check k up =>
    simp only [Race.apply]
    split <;> simp
  | release k up =>
    simp only [Race.apply]
    split <;> exact le_rfl

theorem length_checks_run (steps : List RaceStep) (s : Race) : s.checks.length ≤ (s.run steps).checks.length := by
  induction steps generalizing s with
  | nil => exact le_rfl
  | cons step steps ih => exact Nat.le_trans (length_checks_apply s step) (ih (s.apply step))

theorem Settled.run {n : ℕ} (steps : List RaceStep) {s : Race} (h : Settled n t i s) :
    Settled n t i (s.run steps) := by
  induction steps generalizing s with
  | nil => exact h
  | cons step steps ih => exact ih (h.apply step)

theorem run_append (s : Race) (xs ys : List RaceStep) : s.run (xs ++ ys) = (s.run xs).run ys :=
  List.foldl_append

/-- In a settled race every new call of `i` answers `False`. -/
theorem Settled.stays {s : Race} (h : Settled s.checks.length t i s) : StaysReleased s t i := by
  intro steps _ more c hc hof
  have hfresh := (h.run (steps ++ more)).fresh
  rw [run_append] at hfresh
  refine hfresh c ?_ hof
  rw [← Nat.add_sub_cancel' (length_checks_run steps s), ← List.drop_drop] at hc
  exact List.mem_of_mem_drop hc

/-! ### Races that bring the switch back -/

/-- Some key that `is_killed` consults for `i` is cached. -/
def Hot (t i : String) (s : Race) : Prop :=
  ∃ k, (k = .workflow t i ∨ k = .tenant t ∨ k = .global) ∧ s.world.cache.live k = true

/-- Undisturbed steps of the call at index `k`. -/
theorem run_replicate_check {k : ℕ} (m : ℕ) : ∀ (s : Race) (c : KillCheck), s.checks[k]? = some c →
    s.run (List.replicate m (.check k up)) =
      { s with
        world := (KillCheck.steps up m (c, s.world)).2
        checks := s.checks.set k (KillCheck.steps up m (c, s.world)).1 } := by
  induction m with
  | zero =>
    intro s c hc
    have : s.checks.set k c = s.checks := by
      obtain ⟨hlt, rfl⟩ := List.getElem?_eq_some_iff.mp hc
      exact List.set_getElem_self hlt
    simp [Race.run, KillCheck.steps, this]
  | succ m ih =>
    intro s c hc
    have hlt : k < s.checks.length := (List.getElem?_eq_some_iff.mp hc).1
    have hone : s.apply (.check k up) =
        { s with world := (c.step up s.world).2, checks := s.checks.set k (c.step up s.world).1 } := by
      simp [Race.apply, hc]
    rw [List.replicate_succ, Race.run, List.foldl_cons, hone]
    have := ih { s with world := (c.step up s.world).2, checks := s.checks.set k (c.step up s.world).1 }
      (c.step up s.world).1 (List.getElem?_set_self hlt)
    rw [Race.run] at this
    rw [this]
    simp [KillCheck.steps]

/-- How many steps a call has left. -/
def CheckPc.rank : CheckPc → ℕ
  | .global => 5
  | .tenant => 4
  | .workflow => 3
  | .database => 2
  | .store => 1
  | .returned _ => 0

theorem KillCheck.step_rank (c : KillCheck) (w : KillWorld) : (c.step up w).1.pc.rank ≤ c.pc.rank - 1 := by
  obtain ⟨t, i, pc⟩ := c
  cases pc <;> cases i <;> simp only [KillCheck.step] <;> (try split_ifs) <;> simp [CheckPc.rank]

theorem KillCheck.steps_rank (n : ℕ) (c : KillCheck) (w : KillWorld) :
    (KillCheck.steps up n (c, w)).1.pc.rank ≤ c.pc.rank - n := by
  induction n generalizing c w with
  | zero => exact le_rfl
  | succ n ih =>
    have h1 : (KillCheck.steps up (n + 1) (c, w)).1.pc.rank ≤ (c.step up w).1.pc.rank - n :=
      ih (c.step up w).1 (c.step up w).2
    have h2 := @KillCheck.step_rank up c w
    omega

/-- Five steps finish any call. -/
theorem KillCheck.steps_returned (c : KillCheck) (w : KillWorld) :
    ∃ b, (KillCheck.steps up 5 (c, w)).1.pc = .returned b := by
  have h := @KillCheck.steps_rank up 5 c w
  have h5 : c.pc.rank ≤ 5 := by cases c.pc <;> simp [CheckPc.rank]
  have h0 : (KillCheck.steps up 5 (c, w)).1.pc.rank = 0 := by omega
  cases hpc : (KillCheck.steps up 5 (c, w)).1.pc with
  | returned b => exact ⟨b, rfl⟩
  | _ => rw [hpc] at h0; cases h0

theorem KillCheck.steps_hot {k : KillKey} (n : ℕ) (c : KillCheck) (w : KillWorld) (h : w.cache.live k = true) :
    (KillCheck.steps up n (c, w)).2.cache.live k = true := by
  induction n generalizing c w with
  | zero => exact h
  | succ n ih => exact ih _ _ (KillCheck.step_hot h)

/-- The calls before index `n` run to their end, one after the other; what is cached stays cached. -/
theorem exists_finish (n : ℕ) (s : Race) (hn : n ≤ s.checks.length) :
    ∃ steps, (∀ c ∈ (s.run steps).checks.take n, ∃ b, c.pc = .returned b) ∧
      (s.run steps).checks.length = s.checks.length ∧ (Hot t i s → Hot t i (s.run steps)) := by
  induction n with
  | zero => exact ⟨[], by simp, rfl, id⟩
  | succ n ih =>
    obtain ⟨steps, hret, hlen, hhot⟩ := ih (by omega)
    have hlt : n < (s.run steps).checks.length := by omega
    have hc : (s.run steps).checks[n]? = some (s.run steps).checks[n] := List.getElem?_eq_getElem hlt
    have hrun := @run_replicate_check true n 5 (s.run steps) _ hc
    refine ⟨steps ++ List.replicate 5 (.check n true), ?_, ?_, ?_⟩
    all_goals rw [run_append, hrun]
    · intro c hmem
      rw [List.take_succ_eq_append_getElem (by simpa using hlt)] at hmem
      rcases List.mem_append.mp hmem with hmem | hmem
      · rw [List.take_set_of_le le_rfl] at hmem
        exact hret c hmem
      · obtain rfl := List.mem_singleton.mp hmem
        simp only [List.getElem_set_self]
        exact KillCheck.steps_returned _ _
    · simpa using hlen
    · intro h
      obtain ⟨k, hk, hlive⟩ := hhot h
      exact ⟨k, hk, KillCheck.steps_hot 5 _ _ hlive⟩

/-- In a hot race a new call for `i` returns `True`. -/
theorem hot_returns {s : Race} (h : Hot t i s) :
    (s.run (.start t (some i) :: List.replicate 5 (.check s.checks.length true))).checks.drop s.checks.length =
      [⟨t, some i, .returned true⟩] := by
  have hc : (s.apply (.start t (some i))).checks[s.checks.length]? = some ⟨t, some i, .global⟩ := by
    simp [Race.apply]
  have hrun := @run_replicate_check true s.checks.length 5 (s.apply (.start t (some i))) _ hc
  rw [Race.run, List.foldl_cons]
  rw [Race.run] at hrun
  rw [hrun, KillCheck.run_eq]
  have hkill : (isKilled true t (some i) (s.apply (.start t (some i))).world).1 = true := by
    obtain ⟨k, hk, hlive⟩ := h
    change (isKilled true t (some i) s.world).1 = true
    unfold isKilled KillWorld.cached
    rcases hk with rfl | rfl | rfl
    · split_ifs with h1
      · rfl
      · simp [hlive]
    · simp [hlive]
    · simp [hlive]
  rw [hkill]
  simp [Race.apply]

/-- Whatever makes the race hot after the release returned breaks the promise. -/
theorem not_staysReleased_of_hot {s : Race} (steps : List RaceStep) (h : Hot t i (s.run steps)) :
    ¬ StaysReleased s t i := by
  intro hstay
  obtain ⟨finish, hret, -, hhot⟩ :=
    @exists_finish t i s.checks.length (s.run steps) (length_checks_run steps s)
  have hnew := hot_returns (hhot h)
  rw [← run_append] at hret hnew
  have hmem := List.mem_singleton_self (⟨t, some i, .returned true⟩ : KillCheck)
  rw [← hnew] at hmem
  exact hstay (steps ++ finish) hret _ _ hmem ⟨rfl, rfl⟩ rfl

/-- A release that has come to its cache step has committed its row. -/
theorem switch_of_cache {s₀ : Race} {j : ℕ} (h₀ : s₀.releases[j]? = some ⟨t, i, .database⟩)
    (steps : List RaceStep) (hj : (s₀.run steps).releases[j]? = some ⟨t, i, .cache⟩) :
    (s₀.run steps).world.killSwitch t i = some false := by
  obtain ⟨pc, hpc, h⟩ := SwitchOff.run steps (⟨.database, h₀, Or.inl rfl⟩ : SwitchOff j t i s₀)
  rw [hj] at hpc
  simp only [Option.some.injEq, Release.mk.injEq, true_and] at hpc
  subst hpc
  rcases h with h | h | h
  · cases h
  · cases h
  · exact h

/-- The cache step of a release. -/
theorem apply_release {s : Race} {j : ℕ} (hj : s.releases[j]? = some ⟨t, i, .cache⟩) :
    s.apply (.release j up) =
      { s with
        world := s.world.cacheDelete up (.workflow t i)
        releases := s.releases.set j ⟨t, i, .returned⟩ } := by
  simp [Race.apply, hj, Release.step]

theorem live_cacheDelete_of_ne {w : KillWorld} {k k' : KillKey} (h : k' ≠ k) :
    (w.cacheDelete up k).cache.live k' = w.cache.live k' := by
  cases up with
  | false => rfl
  | true => exact TtlStore.live_delete_of_ne h

/-- A clear state settles with the release's cache step. -/
theorem Clear.settled {s : Race} {j : ℕ} (hj : s.releases[j]? = some ⟨t, i, .cache⟩)
    (hoff : s.world.killSwitch t i = some false) (h : Clear s up t i) :
    Settled s.checks.length t i (s.apply (.release j up)) := by
  refine ⟨killSwitch_apply s _ hoff, ?_, ?_, ?_⟩
  all_goals rw [apply_release hj]
  · rintro k (rfl | rfl | rfl)
    · rcases h.reaches with rfl | hcold
      · exact TtlStore.live_delete_self
      · cases up with
        | false => exact hcold
        | true => exact TtlStore.live_delete_self
    · exact (live_cacheDelete_of_ne (by simp)).trans h.tenant
    · exact (live_cacheDelete_of_ne (by simp)).trans h.global
  · exact h.noStore
  · simp

/-- A pending write can be scheduled right after the delete. -/
theorem not_staysReleased_of_store {s : Race} {c : KillCheck} (hc : c ∈ s.checks) (hof : c.Of t i)
    (hpc : c.pc = .store) : ¬ StaysReleased s t i := by
  obtain ⟨k, hk⟩ := List.getElem?_of_mem hc
  refine not_staysReleased_of_hot [.check k true] ⟨.workflow t i, Or.inl rfl, ?_⟩
  obtain ⟨t', i', pc⟩ := c
  obtain ⟨rfl, rfl⟩ := hof
  obtain rfl : pc = .store := hpc
  simp only [Race.run, List.foldl_cons, List.foldl_nil, Race.apply, hk, KillCheck.step, KillWorld.cacheSet,
    if_true]
  exact TtlStore.live_set_self (by decide)

/-- What stays released was clear: a key left in the cache or a pending write would bring the switch back. -/
theorem clear_of_staysReleased {s : Race} {j : ℕ} (hj : s.releases[j]? = some ⟨t, i, .cache⟩)
    (hstay : StaysReleased (s.apply (.release j up)) t i) : Clear s up t i := by
  have hcold : ∀ k, k = .workflow t i ∨ k = .tenant t ∨ k = .global →
      (s.world.cacheDelete up (.workflow t i)).cache.live k = false := by
    intro k hk
    by_contra hl
    rw [Bool.not_eq_false] at hl
    refine not_staysReleased_of_hot [] ⟨k, hk, ?_⟩ hstay
    rw [apply_release hj]
    exact hl
  refine ⟨?_, ?_, ?_, ?_⟩
  · cases up with
    | true => exact Or.inl rfl
    | false => exact Or.inr (hcold _ (Or.inl rfl))
  · intro c hc hof hpc
    rw [apply_release hj] at hstay
    exact absurd hstay (not_staysReleased_of_store hc hof hpc)
  · exact (live_cacheDelete_of_ne (by simp)).symm.trans (hcold _ (Or.inr (Or.inl rfl)))
  · exact (live_cacheDelete_of_ne (by simp)).symm.trans (hcold _ (Or.inr (Or.inr rfl)))

/-- **A released switch stays released**, exactly: for every race that brings a release of `i` to its cache
step, the promise holds from there on iff the state before that step is clear. -/
theorem released_iff {s₀ : Race} {j : ℕ} (h₀ : s₀.releases[j]? = some ⟨t, i, .database⟩)
    (steps : List RaceStep) (hj : (s₀.run steps).releases[j]? = some ⟨t, i, .cache⟩) :
    StaysReleased ((s₀.run steps).apply (.release j up)) t i ↔ Clear (s₀.run steps) up t i := by
  refine ⟨clear_of_staysReleased hj, fun hclear => Settled.stays ?_⟩
  have hsettled := hclear.settled hj (switch_of_cache h₀ steps hj)
  have hlen : ((s₀.run steps).apply (.release j up)).checks.length = (s₀.run steps).checks.length := by
    rw [apply_release hj]
  rwa [hlen]

end Steps

/-- A killed workflow, the given calls of `is_killed` about to start, and a release. -/
def killedRace (checks : List KillCheck) : Race :=
  ⟨⟨TtlStore.empty, fun _ _ => some true⟩, checks, [⟨"tenant", "workflow", .database⟩]⟩

/-- A release that nobody overlaps stays in force. -/
theorem lone_release_stays :
    Clear ((killedRace []).run [.release 0 true]) true "tenant" "workflow" ∧
      StaysReleased (((killedRace []).run [.release 0 true]).apply (.release 0 true)) "tenant" "workflow" := by
  have hclear : Clear ((killedRace []).run [.release 0 true]) true "tenant" "workflow" :=
    ⟨Or.inl rfl, fun c hc => absurd hc List.not_mem_nil, rfl, rfl⟩
  exact ⟨hclear, (@released_iff "tenant" "workflow" true (killedRace []) 0 rfl [.release 0 true] rfl).mpr hclear⟩

/-- The stale read: a check reads the row, the release commits and deletes the key, the check then caches what
it read, and the next check says killed.  No other scope is engaged. -/
theorem stale_read_revives :
    let before := (killedRace [⟨"tenant", some "workflow", .global⟩]).run
      [.check 0 true, .check 0 true, .check 0 true, .check 0 true, .release 0 true]
    before.world.cache.live (.tenant "tenant") = false ∧ before.world.cache.live .global = false ∧
      ¬ StaysReleased (before.apply (.release 0 true)) "tenant" "workflow" := by
  refine ⟨by decide, by decide, ?_⟩
  intro h
  refine h [.check 0 true] ?_ (.start "tenant" (some "workflow") :: List.replicate 3 (.check 1 true))
    ⟨"tenant", some "workflow", .returned true⟩ ?_ ⟨rfl, rfl⟩ rfl
  · intro c hc
    have : c = ⟨"tenant", some "workflow", .returned true⟩ := by
      revert c
      decide
    exact ⟨true, by rw [this]⟩
  · decide

end RevenueOS.Workflows
