import Mathlib.Algebra.Order.Field.Rat
import Mathlib.Tactic.NormNum
import RevenueOS.Lib.Slots
import RevenueOS.Lib.Trace

/-!
# RevenueOS.Integrations.Circuit — the circuit breaker of the provider adapters

`CircuitBreaker` (`infrastructure/integrations/circuit.py`).  A breaker trips on enough failures within its window,
refuses for `open_seconds`, and lets trials through in its half-open state until one fails or enough have succeeded.

* `phases_safe`: what the calls of the breaker can do to its state, in any order, at times that do not decrease.
* `trials_accounted`: the calls of the adapters overlap, and a call may end without a report.  In a run in which a
  half-open breaker hears of a success only when no other trial is unfinished, and loses no trial that it waits for,
  its counter bounds the unfinished trials.  `lateReport_admits` is a run in which it does not.

Seconds are rational numbers, whose differences are rounded (`Clock`); the metrics are left out.
-/

namespace RevenueOS.Integrations

open RevenueOS.Lib

/-! ## `CircuitBreaker` -/

inductive CircuitState where
  | closed
  | open
  | halfOpen
deriving DecidableEq

structure CircuitPolicy where
  failureThreshold : ℤ := 5
  failureWindowSeconds : ℚ := 60
  openSeconds : ℚ := 30
  halfOpenSuccesses : ℤ := 3
  halfOpenMaxTrials : ℤ := 1

/-- `ANTHROPIC_POLICY`. -/
def anthropicPolicy : CircuitPolicy := { failureThreshold := 3, failureWindowSeconds := 15 }

/-- The difference of two readings of the clock, rounded so that it keeps their order. -/
structure Clock where
  since : ℚ → ℚ → ℚ
  later : ∀ {moment moment' : ℚ}, moment ≤ moment' → ∀ t, since moment t ≤ since moment' t
  earlier : ∀ {t t' : ℚ}, t ≤ t' → ∀ moment, since moment t' ≤ since moment t

/-- A clock whose differences need no rounding. -/
def Clock.exact : Clock where
  since moment t := moment - t
  later h t := sub_le_sub_right h t
  earlier h moment := sub_le_sub_left h moment

/-- A policy, and the clock by which it is followed. -/
structure TimedPolicy extends CircuitPolicy where
  clock : Clock := .exact

structure CircuitBreaker where
  state : CircuitState
  failures : List ℚ
  openedAt : ℚ
  halfOpenSuccesses : ℕ
  halfOpenTrials : ℕ
deriving DecidableEq

namespace CircuitBreaker

/-- A new breaker. -/
def fresh : CircuitBreaker := ⟨.closed, [], 0, 0, 0⟩

variable (p : TimedPolicy) (b : CircuitBreaker) (moment : ℚ)

/-- The first `if` of `allow`: an open breaker whose time is over. -/
def halfOpens : Bool := b.state = .open && p.openSeconds ≤ p.clock.since moment b.openedAt

/-- The breaker after the first `if` of `allow`. -/
def waited : CircuitBreaker :=
  if b.halfOpens p moment then { b with state := .halfOpen, halfOpenSuccesses := 0, halfOpenTrials := 0 } else b

/-- `allow`: the answer and the breaker after it. -/
def allow : Bool × CircuitBreaker :=
  let w := b.waited p moment
  match w.state with
  | .open => (false, w)
  | .halfOpen =>
    if p.halfOpenMaxTrials ≤ w.halfOpenTrials then (false, w)
    else (true, { w with halfOpenTrials := w.halfOpenTrials + 1 })
  | .closed => (true, w)

/-- The failures that are still in the window. -/
def recentFailures : List ℚ := b.failures.filter fun t => p.clock.since moment t < p.failureWindowSeconds

/-- `record_success`. -/
def recordSuccess : CircuitBreaker :=
  if b.state = .halfOpen then
    if p.halfOpenSuccesses ≤ b.halfOpenSuccesses + 1 then
      { b with
        state := .closed
        failures := []
        halfOpenSuccesses := b.halfOpenSuccesses + 1
        halfOpenTrials := 0 }
    else { b with halfOpenSuccesses := b.halfOpenSuccesses + 1, halfOpenTrials := 0 }
  else { b with failures := b.recentFailures p moment }

/-- `_trip`. -/
def trip : CircuitBreaker := ⟨.open, [], moment, 0, 0⟩

/-- When `record_failure` trips the breaker. -/
def trips : Bool :=
  b.state = .halfOpen || p.failureThreshold ≤ (b.recentFailures p moment ++ [moment]).length

/-- `record_failure`. -/
def recordFailure : CircuitBreaker :=
  if b.trips p moment then trip moment else { b with failures := b.recentFailures p moment ++ [moment] }

end CircuitBreaker

/-! ## Calls of one breaker -/

inductive BreakerEvent where
  | allow
  | success
  | failure
deriving DecidableEq

/-- A call of the breaker, at its time. -/
structure BreakerCall where
  moment : ℚ
  event : BreakerEvent

/-- The breaker, the time of its latest trip, and what was recorded since its latest half-open period began. -/
structure BreakerRun where
  breaker : CircuitBreaker
  lastTrip : Option ℚ
  recorded : List BreakerEvent

namespace BreakerRun

def start : BreakerRun := ⟨.fresh, none, []⟩

variable (p : TimedPolicy)

def step (s : BreakerRun) (c : BreakerCall) : BreakerRun :=
  match c.event with
  | .allow =>
    ⟨(s.breaker.allow p c.moment).2, s.lastTrip, if s.breaker.halfOpens p c.moment then [] else s.recorded⟩
  | .success => ⟨s.breaker.recordSuccess p c.moment, s.lastTrip, s.recorded ++ [.success]⟩
  | .failure =>
    ⟨s.breaker.recordFailure p c.moment, if s.breaker.trips p c.moment then some c.moment else s.lastTrip,
      s.recorded ++ [.failure]⟩

end BreakerRun

/-- What a call may do to the phase of the breaker. -/
structure PhaseSafe (p : TimedPolicy) (s : BreakerRun) (c : BreakerCall) : Prop where
  /-- Nothing is let through less than `open_seconds` after the latest trip. -/
  refused : c.event = .allow → ∀ tripped ∈ s.lastTrip, p.clock.since c.moment tripped < p.openSeconds →
    (s.breaker.allow p c.moment).1 = false
  /-- The breaker leaves its open state in an `allow` that comes late enough. -/
  left : s.breaker.state = .open → (s.step p c).breaker.state ≠ .open →
    c.event = .allow ∧ ∃ tripped ∈ s.lastTrip, p.openSeconds ≤ p.clock.since c.moment tripped
  /-- It closes in a half-open period with enough successes and no failure. -/
  closed : s.breaker.state ≠ .closed → (s.step p c).breaker.state = .closed →
    s.breaker.state = .halfOpen ∧ .failure ∉ (s.step p c).recorded ∧
      p.halfOpenSuccesses ≤ (s.step p c).recorded.count .success
  /-- A failure in a half-open period opens it. -/
  reopened : s.breaker.state = .halfOpen → c.event = .failure → (s.step p c).breaker.state = .open

/-! ### What a call does to the state -/

section Phases

variable {p : TimedPolicy} {b : CircuitBreaker} {moment : ℚ}

theorem waited_of_halfOpens (h : b.halfOpens p moment = true) :
    b.waited p moment = { b with state := .halfOpen, halfOpenSuccesses := 0, halfOpenTrials := 0 } := by
  unfold CircuitBreaker.waited
  rw [if_pos h]

theorem waited_of_not (h : b.halfOpens p moment = false) : b.waited p moment = b := by
  unfold CircuitBreaker.waited
  rw [if_neg (by simp [h])]

/-- `allow` changes the trials alone, after the wait. -/
theorem allow_eq (p : TimedPolicy) (b : CircuitBreaker) (moment : ℚ) : (b.allow p moment).2 = b.waited p moment ∨
    (b.waited p moment).state = .halfOpen ∧ ((b.waited p moment).halfOpenTrials : ℤ) < p.halfOpenMaxTrials ∧
      (b.allow p moment) =
        (true, { b.waited p moment with halfOpenTrials := (b.waited p moment).halfOpenTrials + 1 }) := by
  unfold CircuitBreaker.allow
  dsimp only
  split
  · exact Or.inl rfl
  · rename_i hstate
    split_ifs with htrials
    · exact Or.inl rfl
    · exact Or.inr ⟨hstate, not_le.mp htrials, rfl⟩
  · exact Or.inl rfl

theorem state_allow (p : TimedPolicy) (b : CircuitBreaker) (moment : ℚ) :
    (b.allow p moment).2.state = (b.waited p moment).state := by
  rcases allow_eq p b moment with h | ⟨-, -, h⟩
  · rw [h]
  · rw [h]

/-- An open breaker refuses. -/
theorem allow_of_open (h : (b.waited p moment).state = .open) : (b.allow p moment).1 = false := by
  unfold CircuitBreaker.allow
  dsimp only
  rw [h]

theorem halfOpens_iff :
    b.halfOpens p moment = true ↔ b.state = .open ∧ p.openSeconds ≤ p.clock.since moment b.openedAt := by
  unfold CircuitBreaker.halfOpens
  rw [Bool.and_eq_true, decide_eq_true_iff, decide_eq_true_iff]

theorem recordFailure_of_trips (h : b.trips p moment = true) :
    b.recordFailure p moment = CircuitBreaker.trip moment := by
  unfold CircuitBreaker.recordFailure
  rw [if_pos h]

theorem recordFailure_of_not (h : b.trips p moment = false) :
    b.recordFailure p moment = { b with failures := b.recentFailures p moment ++ [moment] } := by
  unfold CircuitBreaker.recordFailure
  rw [if_neg (by simp [h])]

theorem trips_of_halfOpen (h : b.state = .halfOpen) : b.trips p moment = true := by
  unfold CircuitBreaker.trips
  rw [h]
  rfl

theorem state_recordSuccess_of_ne (h : b.state ≠ .halfOpen) : (b.recordSuccess p moment).state = b.state := by
  unfold CircuitBreaker.recordSuccess
  rw [if_neg h]

theorem openedAt_allow (p : TimedPolicy) (b : CircuitBreaker) (moment : ℚ) :
    (b.allow p moment).2.openedAt = b.openedAt := by
  have hwaited : (b.waited p moment).openedAt = b.openedAt := by
    unfold CircuitBreaker.waited
    split_ifs
    · rfl
    · rfl
  rcases allow_eq p b moment with h | ⟨-, -, h⟩
  · rw [h, hwaited]
  · rw [h]
    exact hwaited

theorem halfOpenSuccesses_allow (p : TimedPolicy) (b : CircuitBreaker) (moment : ℚ) :
    (b.allow p moment).2.halfOpenSuccesses = (b.waited p moment).halfOpenSuccesses := by
  rcases allow_eq p b moment with h | ⟨-, -, h⟩
  · rw [h]
  · rw [h]

/-- What a success does in a half-open period. -/
theorem recordSuccess_of_halfOpen (h : b.state = .halfOpen) :
    (b.recordSuccess p moment).openedAt = b.openedAt ∧ (b.recordSuccess p moment).halfOpenTrials = 0 ∧
      (b.recordSuccess p moment).halfOpenSuccesses = b.halfOpenSuccesses + 1 ∧
      ((b.recordSuccess p moment).state = .closed ∧ p.halfOpenSuccesses ≤ b.halfOpenSuccesses + 1 ∨
        (b.recordSuccess p moment).state = .halfOpen) := by
  unfold CircuitBreaker.recordSuccess
  rw [if_pos h]
  split_ifs with henough
  · exact ⟨rfl, rfl, rfl, Or.inl ⟨rfl, henough⟩⟩
  · exact ⟨rfl, rfl, rfl, Or.inr h⟩

end Phases

/-! ### Runs -/

/-- What holds between two calls, given those to come. -/
structure BreakerRun.Inv (p : TimedPolicy) (s : BreakerRun) (later : List BreakerCall) : Prop where
  tripped : s.breaker.state = .open → s.lastTrip = some s.breaker.openedAt
  waited : s.breaker.state ≠ .open → ∀ tripped ∈ s.lastTrip, ∀ c ∈ later, p.openSeconds ≤ p.clock.since c.moment tripped
  successes : s.breaker.state = .halfOpen →
    .failure ∉ s.recorded ∧ s.recorded.count .success = s.breaker.halfOpenSuccesses

section Runs

variable {p : TimedPolicy} {s : BreakerRun} {c : BreakerCall} {later : List BreakerCall}

/-- The latest trip of a breaker that half-opens is long enough ago. -/
theorem BreakerRun.Inv.of_halfOpens (h : s.Inv p (c :: later)) (hopens : s.breaker.halfOpens p c.moment = true) :
    s.lastTrip = some s.breaker.openedAt ∧ p.openSeconds ≤ p.clock.since c.moment s.breaker.openedAt := by
  obtain ⟨hopen, hlate⟩ := halfOpens_iff.mp hopens
  exact ⟨h.tripped hopen, hlate⟩

theorem BreakerRun.Inv.phaseSafe (h : s.Inv p (c :: later)) : PhaseSafe p s c where
  refused _ tripped htripped hsoon := by
    by_cases hopen : s.breaker.state = .open
    · have hsame : tripped = s.breaker.openedAt := by
        rw [h.tripped hopen] at htripped
        exact (Option.some.inj htripped).symm
      have hnot : s.breaker.halfOpens p c.moment = false := by
        rw [Bool.eq_false_iff, ne_eq, halfOpens_iff]
        rintro ⟨-, hlate⟩
        rw [hsame] at hsoon
        exact absurd hlate (not_le.mpr hsoon)
      refine allow_of_open ?_
      rw [waited_of_not hnot]
      exact hopen
    · have hlate := h.waited hopen tripped htripped c List.mem_cons_self
      exact absurd hlate (not_le.mpr hsoon)
  left hopen hleft := by
    have hne : s.breaker.state ≠ .halfOpen := by
      rw [hopen]
      exact CircuitState.noConfusion
    cases hevent : c.event with
    | allow =>
      refine ⟨rfl, ?_⟩
      by_cases hopens : s.breaker.halfOpens p c.moment = true
      · obtain ⟨htrip, hlate⟩ := h.of_halfOpens hopens
        exact ⟨_, htrip, hlate⟩
      · rw [Bool.not_eq_true] at hopens
        simp only [BreakerRun.step, hevent] at hleft
        rw [state_allow, waited_of_not hopens] at hleft
        exact absurd hopen hleft
    | success =>
      simp only [BreakerRun.step, hevent] at hleft
      rw [state_recordSuccess_of_ne hne] at hleft
      exact absurd hopen hleft
    | failure =>
      simp only [BreakerRun.step, hevent] at hleft
      cases htrips : s.breaker.trips p c.moment with
      | true =>
        rw [recordFailure_of_trips htrips] at hleft
        exact absurd rfl hleft
      | false =>
        rw [recordFailure_of_not htrips] at hleft
        exact absurd hopen hleft
  closed hbefore hclosed := by
    cases hevent : c.event with
    | allow =>
      simp only [BreakerRun.step, hevent] at hclosed
      rw [state_allow] at hclosed
      cases hopens : s.breaker.halfOpens p c.moment with
      | true =>
        rw [waited_of_halfOpens hopens] at hclosed
        cases hclosed
      | false =>
        rw [waited_of_not hopens] at hclosed
        exact absurd hclosed hbefore
    | success =>
      simp only [BreakerRun.step, hevent] at hclosed ⊢
      by_cases hhalf : s.breaker.state = .halfOpen
      · obtain ⟨hnone, hcount⟩ := h.successes hhalf
        obtain ⟨-, -, -, ⟨-, henough⟩ | hstill⟩ := @recordSuccess_of_halfOpen p s.breaker c.moment hhalf
        · refine ⟨hhalf, ?_, ?_⟩
          · simpa using hnone
          · rw [List.count_append, hcount]
            simpa using henough
        · rw [hclosed] at hstill
          cases hstill
      · rw [state_recordSuccess_of_ne hhalf] at hclosed
        exact absurd hclosed hbefore
    | failure =>
      simp only [BreakerRun.step, hevent] at hclosed
      cases htrips : s.breaker.trips p c.moment with
      | true =>
        rw [recordFailure_of_trips htrips] at hclosed
        cases hclosed
      | false =>
        rw [recordFailure_of_not htrips] at hclosed
        exact absurd hclosed hbefore
  reopened hhalf hevent := by
    simp only [BreakerRun.step, hevent]
    rw [recordFailure_of_trips (trips_of_halfOpen hhalf)]
    rfl

theorem BreakerRun.Inv.step (h : s.Inv p (c :: later)) (hlater : ∀ c' ∈ later, c.moment ≤ c'.moment) :
    (s.step p c).Inv p later := by
  have hold : s.breaker.state ≠ .open → ∀ tripped ∈ s.lastTrip, ∀ c' ∈ later,
      p.openSeconds ≤ p.clock.since c'.moment tripped :=
    fun hne tripped htripped c' hc' => h.waited hne tripped htripped c' (List.mem_cons_of_mem _ hc')
  unfold BreakerRun.step
  cases hevent : c.event with
  | allow =>
    cases hopens : s.breaker.halfOpens p c.moment with
    | true =>
      obtain ⟨htrip, hlate⟩ := h.of_halfOpens hopens
      have hstate : (s.breaker.allow p c.moment).2.state = .halfOpen := by
        rw [state_allow, waited_of_halfOpens hopens]
      refine ⟨fun hopen => ?_, fun _ tripped htripped c' hc' => ?_, fun _ => ⟨List.not_mem_nil, ?_⟩⟩
      · rw [hstate] at hopen
        cases hopen
      · rw [htrip] at htripped
        obtain rfl := Option.some.inj htripped
        exact hlate.trans (p.clock.later (hlater c' hc') _)
      · show 0 = (s.breaker.allow p c.moment).2.halfOpenSuccesses
        rw [halfOpenSuccesses_allow, waited_of_halfOpens hopens]
    | false =>
      have hstate : (s.breaker.allow p c.moment).2.state = s.breaker.state := by
        rw [state_allow, waited_of_not hopens]
      have hsuccesses : (s.breaker.allow p c.moment).2.halfOpenSuccesses = s.breaker.halfOpenSuccesses := by
        rw [halfOpenSuccesses_allow, waited_of_not hopens]
      refine ⟨fun hopen => ?_, fun hne => ?_, fun hhalf => ?_⟩
      · rw [openedAt_allow]
        exact h.tripped (hstate ▸ hopen)
      · exact hold (hstate ▸ hne)
      · rw [hsuccesses]
        exact h.successes (hstate ▸ hhalf)
  | success =>
    by_cases hhalf : s.breaker.state = .halfOpen
    · have hne : s.breaker.state ≠ .open := by
        rw [hhalf]
        exact CircuitState.noConfusion
      obtain ⟨hopened, -, hsuccesses, hstate⟩ := @recordSuccess_of_halfOpen p s.breaker c.moment hhalf
      obtain ⟨hnone, hcount⟩ := h.successes hhalf
      refine ⟨fun hopen => ?_, fun _ => hold hne, fun _ => ⟨by simpa using hnone, ?_⟩⟩
      · dsimp only at hopen
        rcases hstate with ⟨hclosed, -⟩ | hstill
        · rw [hclosed] at hopen
          cases hopen
        · rw [hstill] at hopen
          cases hopen
      · rw [List.count_append, hcount, hsuccesses]
        rfl
    · have hstate := @state_recordSuccess_of_ne p s.breaker c.moment hhalf
      have hopened : (s.breaker.recordSuccess p c.moment).openedAt = s.breaker.openedAt := by
        unfold CircuitBreaker.recordSuccess
        rw [if_neg hhalf]
      refine ⟨fun hopen => ?_, fun hne => hold (hstate ▸ hne), fun hstill => absurd (hstate ▸ hstill) hhalf⟩
      rw [hopened]
      exact h.tripped (hstate ▸ hopen)
  | failure =>
    cases htrips : s.breaker.trips p c.moment with
    | true =>
      rw [recordFailure_of_trips htrips]
      refine ⟨fun _ => rfl, fun hne => absurd rfl hne, fun hhalf => ?_⟩
      cases hhalf
    | false =>
      have hne : s.breaker.state ≠ .halfOpen := by
        intro hhalf
        rw [trips_of_halfOpen hhalf] at htrips
        cases htrips
      rw [recordFailure_of_not htrips]
      exact ⟨h.tripped, hold, fun hhalf => absurd hhalf hne⟩

/-- **The phases of a breaker**: it refuses while it is open, half-opens late enough, closes after successes alone and
reopens at a failure, in every order of calls at times that do not decrease. -/
theorem phases_safe (p : TimedPolicy) {calls : List BreakerCall}
    (horder : calls.Pairwise fun c c' => c.moment ≤ c'.moment) :
    Meets (BreakerRun.step p) (PhaseSafe p) .start calls := by
  have hrun : ∀ (calls : List BreakerCall) (s : BreakerRun), (calls.Pairwise fun c c' => c.moment ≤ c'.moment) →
      s.Inv p calls → Meets (BreakerRun.step p) (PhaseSafe p) s calls := by
    intro calls
    induction calls with
    | nil => exact fun _ _ _ => trivial
    | cons c later ih =>
      intro s horder h
      obtain ⟨hlater, hrest⟩ := List.pairwise_cons.mp horder
      exact ⟨h.phaseSafe, ih _ hrest (h.step hlater)⟩
  refine hrun calls .start horder ⟨fun hopen => ?_, fun _ _ htripped => ?_, fun hhalf => ?_⟩
  · cases hopen
  · cases htripped
  · cases hhalf

end Runs

/-- Five failures, a refusal, a trial that succeeds, and a failure that opens the breaker again. -/
def tripped : List BreakerCall :=
  [⟨0, .failure⟩, ⟨1, .failure⟩, ⟨2, .failure⟩, ⟨3, .failure⟩, ⟨4, .failure⟩, ⟨5, .allow⟩, ⟨34, .allow⟩,
    ⟨35, .success⟩, ⟨36, .failure⟩]

theorem phases_safe_tripped : (tripped.Pairwise fun c c' => c.moment ≤ c'.moment) ∧
    Meets (BreakerRun.step {}) (PhaseSafe {}) .start tripped := by
  have horder : tripped.Pairwise fun c c' => c.moment ≤ c'.moment := by
    unfold tripped
    simp only [List.pairwise_cons, List.mem_cons, List.not_mem_nil]
    norm_num
  exact ⟨horder, phases_safe {} horder⟩

/-! ## Calls of the adapters -/

/-- How a call that was let through ends: with a report, or by an exception that its adapter does not catch. -/
inductive CallEnd where
  | success
  | failure
  | lost
deriving DecidableEq

/-- A call of a provider.  One that is unfinished was let through in a half-open period, or outside of any. -/
inductive ProviderCall where
  | refused
  | unfinished (period : Option ℕ)
  | finished
deriving DecidableEq

inductive TrialStep where
  | require (moment : ℚ)
  | finish (k : ℕ) (how : CallEnd) (moment : ℚ)

/-- The breaker, the half-open periods it has begun, and the calls. -/
structure TrialRun where
  breaker : CircuitBreaker
  period : ℕ
  calls : List ProviderCall

/-- What the adapter reports of a call that ended so. -/
def CircuitBreaker.report (p : TimedPolicy) (b : CircuitBreaker) (how : CallEnd) (moment : ℚ) : CircuitBreaker :=
  match how with
  | .success => b.recordSuccess p moment
  | .failure => b.recordFailure p moment
  | .lost => b

namespace TrialRun

def start : TrialRun := ⟨.fresh, 0, []⟩

variable (p : TimedPolicy) (s : TrialRun)

/-- The half-open period after an `allow`. -/
def periodAt (moment : ℚ) : ℕ := if s.breaker.halfOpens p moment then s.period + 1 else s.period

/-- The call that an `allow` begins. -/
def callAt (moment : ℚ) : ProviderCall :=
  if (s.breaker.allow p moment).1 then
    .unfinished (if (s.breaker.allow p moment).2.state = .halfOpen then some (s.periodAt p moment) else none)
  else .refused

def step : TrialStep → TrialRun
  | .require moment => ⟨(s.breaker.allow p moment).2, s.periodAt p moment, s.calls ++ [s.callAt p moment]⟩
  | .finish k how moment =>
    match s.calls[k]? with
    | some (.unfinished _) => ⟨s.breaker.report p how moment, s.period, s.calls.set k .finished⟩
    | _ => s

/-- The unfinished calls of the period. -/
def trials : ℕ := s.calls.count (.unfinished (some s.period))

/-- Those other than call `k`. -/
def trialsBut (k : ℕ) : ℕ := (s.calls.set k .finished).count (.unfinished (some s.period))

end TrialRun

/-- What is promised of a half-open breaker. -/
def TrialsAccounted (p : TimedPolicy) (s : TrialRun) : Prop :=
  s.breaker.state = .halfOpen →
    s.trials ≤ p.halfOpenMaxTrials ∧ (s.trials = 0 → ∀ moment, (s.breaker.allow p moment).1 = true)

/-- A half-open breaker hears of a success when no other trial is unfinished, unless it closes; and a trial is lost
when another is unfinished, or the counter is not at its end. -/
def ReportsInTurn (p : TimedPolicy) (s : TrialRun) : TrialStep → Prop
  | .require _ => True
  | .finish k how _ => ∀ q, s.calls[k]? = some (.unfinished q) → s.breaker.state = .halfOpen →
    match how with
    | .success => (s.breaker.halfOpenSuccesses : ℤ) + 1 < p.halfOpenSuccesses → s.trialsBut k = 0
    | .failure => True
    | .lost => q = some s.period → 0 < s.trialsBut k ∨ (s.breaker.halfOpenTrials : ℤ) < p.halfOpenMaxTrials

/-! ### What a call does to the trials -/

section Trials

variable {p : TimedPolicy} {b : CircuitBreaker} {moment : ℚ}

theorem allow_of_trials (hhalf : (b.waited p moment).state = .halfOpen)
    (hless : ((b.waited p moment).halfOpenTrials : ℤ) < p.halfOpenMaxTrials) :
    b.allow p moment =
      (true, { b.waited p moment with halfOpenTrials := (b.waited p moment).halfOpenTrials + 1 }) := by
  unfold CircuitBreaker.allow
  dsimp only
  rw [hhalf]
  exact if_neg (not_le.mpr hless)

theorem allow_of_max (hhalf : (b.waited p moment).state = .halfOpen)
    (hmax : p.halfOpenMaxTrials ≤ ((b.waited p moment).halfOpenTrials : ℤ)) :
    b.allow p moment = (false, b.waited p moment) := by
  unfold CircuitBreaker.allow
  dsimp only
  rw [hhalf]
  exact if_pos hmax

theorem waited_of_halfOpen (h : b.state = .halfOpen) : b.waited p moment = b := by
  refine waited_of_not ?_
  rw [Bool.eq_false_iff, ne_eq, halfOpens_iff]
  rintro ⟨hopen, -⟩
  rw [h] at hopen
  cases hopen

end Trials

/-- The counter is at least the unfinished trials, and at its end only while there is one. -/
structure TrialRun.Inv (p : TimedPolicy) (s : TrialRun) : Prop where
  periods : ∀ q, .unfinished (some q) ∈ s.calls → q ≤ s.period
  counted : s.breaker.state = .halfOpen → s.trials ≤ s.breaker.halfOpenTrials ∧
    (s.breaker.halfOpenTrials : ℤ) ≤ p.halfOpenMaxTrials ∧
    (s.trials = 0 → (s.breaker.halfOpenTrials : ℤ) < p.halfOpenMaxTrials)

section TrialRuns

variable {p : TimedPolicy} {s : TrialRun}

theorem TrialRun.Inv.accounted (h : s.Inv p) : TrialsAccounted p s := by
  intro hhalf
  obtain ⟨hle, hmax, hfree⟩ := h.counted hhalf
  refine ⟨by omega, fun hnone moment => ?_⟩
  have hwaited : s.breaker.waited p moment = s.breaker := waited_of_halfOpen hhalf
  rw [allow_of_trials (by rw [hwaited, hhalf]) (by rw [hwaited]; exact hfree hnone)]

/-- The invariant after the wait of an `allow`, before the call is counted. -/
theorem TrialRun.Inv.waited_counted (hmax : 0 < p.halfOpenMaxTrials) (h : s.Inv p) {moment : ℚ}
    (hhalf : (s.breaker.waited p moment).state = .halfOpen) :
    let trials := s.calls.count (.unfinished (some (s.periodAt p moment)))
    trials ≤ (s.breaker.waited p moment).halfOpenTrials ∧
      ((s.breaker.waited p moment).halfOpenTrials : ℤ) ≤ p.halfOpenMaxTrials ∧
      (trials = 0 → ((s.breaker.waited p moment).halfOpenTrials : ℤ) < p.halfOpenMaxTrials) := by
  unfold TrialRun.periodAt
  cases hopens : s.breaker.halfOpens p moment with
  | true =>
    -- a period that begins has no calls yet
    have hnone : s.calls.count (.unfinished (some (s.period + 1))) = 0 := by
      refine List.count_eq_zero.mpr fun hmem => ?_
      have hle := h.periods _ hmem
      omega
    rw [waited_of_halfOpens hopens]
    show s.calls.count (.unfinished (some (s.period + 1))) ≤ 0 ∧ ((0 : ℕ) : ℤ) ≤ p.halfOpenMaxTrials ∧ _
    rw [hnone]
    exact ⟨le_refl 0, by omega, fun _ => by simpa using hmax⟩
  | false =>
    rw [waited_of_not hopens] at hhalf ⊢
    exact h.counted hhalf

theorem TrialRun.Inv.require (hmax : 0 < p.halfOpenMaxTrials) (h : s.Inv p) (moment : ℚ) :
    (s.step p (.require moment)).Inv p := by
  refine ⟨fun q hq => ?_, fun hhalf => ?_⟩
  · rcases List.mem_append.mp hq with hold | hnew
    · have hle := h.periods q hold
      show q ≤ s.periodAt p moment
      unfold TrialRun.periodAt
      split_ifs
      · omega
      · exact hle
    · have hcall := List.mem_singleton.mp hnew
      unfold TrialRun.callAt at hcall
      split_ifs at hcall
      · simp only [ProviderCall.unfinished.injEq, Option.some.injEq] at hcall
        exact le_of_eq hcall
      · simp at hcall
  · have hwaited : (s.breaker.waited p moment).state = .halfOpen := by
      rw [← state_allow]
      exact hhalf
    have hcounted := h.waited_counted hmax hwaited
    dsimp only at hcounted
    show (s.calls ++ [s.callAt p moment]).count (.unfinished (some (s.periodAt p moment))) ≤
        (s.breaker.allow p moment).2.halfOpenTrials ∧
      ((s.breaker.allow p moment).2.halfOpenTrials : ℤ) ≤ p.halfOpenMaxTrials ∧
      ((s.calls ++ [s.callAt p moment]).count (.unfinished (some (s.periodAt p moment))) = 0 →
        ((s.breaker.allow p moment).2.halfOpenTrials : ℤ) < p.halfOpenMaxTrials)
    unfold TrialRun.callAt
    rw [List.count_append]
    by_cases hless : ((s.breaker.waited p moment).halfOpenTrials : ℤ) < p.halfOpenMaxTrials
    · rw [allow_of_trials hwaited hless, if_pos rfl]
      dsimp only
      rw [if_pos hwaited, List.count_singleton_self]
      exact ⟨by omega, by push_cast; omega, fun hnone => by omega⟩
    · rw [allow_of_max hwaited (not_lt.mp hless)]
      simpa using hcounted

/-- A call that ends leaves the others. -/
theorem TrialRun.trials_eq {k : ℕ} {q : Option ℕ} (hk : s.calls[k]? = some (.unfinished q)) :
    s.trials = s.trialsBut k + if q = some s.period then 1 else 0 := by
  have hcount := @countP_set_of_some ProviderCall s.calls .finished (.unfinished q) k
    (fun c => c == .unfinished (some s.period)) hk
  unfold TrialRun.trials TrialRun.trialsBut List.count
  simpa using hcount.symm

theorem TrialRun.Inv.finish (hmax : 0 < p.halfOpenMaxTrials) (h : s.Inv p) {k : ℕ} {how : CallEnd} {moment : ℚ}
    (hturn : ReportsInTurn p s (.finish k how moment)) : (s.step p (.finish k how moment)).Inv p := by
  unfold TrialRun.step
  dsimp only
  split
  case h_2 => exact h
  case h_1 q hk =>
    have hbut := TrialRun.trials_eq hk
    refine ⟨fun q hq => ?_, ?_⟩
    · rcases List.mem_or_eq_of_mem_set hq with hold | hnew
      · exact h.periods q hold
      · cases hnew
    · show (s.breaker.report p how moment).state = .halfOpen →
        s.trialsBut k ≤ (s.breaker.report p how moment).halfOpenTrials ∧
          ((s.breaker.report p how moment).halfOpenTrials : ℤ) ≤ p.halfOpenMaxTrials ∧
          (s.trialsBut k = 0 → ((s.breaker.report p how moment).halfOpenTrials : ℤ) < p.halfOpenMaxTrials)
      have hlast := hturn q hk
      cases how with
      | success =>
        intro hafter
        have hhalf : s.breaker.state = .halfOpen := by
          by_contra hne
          rw [← @state_recordSuccess_of_ne p s.breaker moment hne] at hne
          exact hne hafter
        obtain ⟨-, htrials, -, hstate⟩ := @recordSuccess_of_halfOpen p s.breaker moment hhalf
        have hfew : (s.breaker.halfOpenSuccesses : ℤ) + 1 < p.halfOpenSuccesses := by
          by_contra hmany
          have hclosed : (s.breaker.recordSuccess p moment).state = .closed := by
            unfold CircuitBreaker.recordSuccess
            rw [if_pos hhalf, if_pos (by omega)]
          rw [show s.breaker.report p .success moment = s.breaker.recordSuccess p moment from rfl, hclosed] at hafter
          cases hafter
        have hnone := hlast hhalf hfew
        rw [show s.breaker.report p .success moment = s.breaker.recordSuccess p moment from rfl, htrials, hnone]
        exact ⟨le_refl 0, by omega, fun _ => by simpa using hmax⟩
      | failure =>
        intro hafter
        -- a failure opens a half-open breaker, and half-opens none
        have hnot : (s.breaker.recordFailure p moment).state ≠ .halfOpen := by
          cases htrips : s.breaker.trips p moment with
          | true =>
            rw [recordFailure_of_trips htrips]
            exact CircuitState.noConfusion
          | false =>
            rw [recordFailure_of_not htrips]
            intro (hhalf : s.breaker.state = .halfOpen)
            rw [trips_of_halfOpen hhalf] at htrips
            cases htrips
        exact absurd hafter hnot
      | lost =>
        intro hhalf
        obtain ⟨hle, htop, hfree⟩ := h.counted hhalf
        show s.trialsBut k ≤ s.breaker.halfOpenTrials ∧ (s.breaker.halfOpenTrials : ℤ) ≤ p.halfOpenMaxTrials ∧
          (s.trialsBut k = 0 → (s.breaker.halfOpenTrials : ℤ) < p.halfOpenMaxTrials)
        refine ⟨by omega, htop, fun hnone => ?_⟩
        by_cases htrial : q = some s.period
        · rcases hlast hhalf htrial with hother | hless
          · omega
          · exact hless
        · rw [if_neg htrial] at hbut
          exact hfree (by omega)

/-- **The trials of a half-open period are accounted for** in every run whose successes are reported by the last
trial and whose trials are not lost. -/
theorem trials_accounted {steps : List TrialStep} (hmax : 0 < p.halfOpenMaxTrials)
    (hturn : Meets (TrialRun.step p) (ReportsInTurn p) .start steps) :
    Always (TrialRun.step p) (TrialsAccounted p) .start steps := by
  refine always_of_inv (TrialRun.Inv p) (fun _ h => h.accounted) (fun s step h hstep => ?_) steps .start ?_ hturn
  · cases step with
    | require moment => exact h.require hmax moment
    | finish k how moment => exact h.finish hmax hstep
  · exact ⟨fun q hq => absurd hq List.not_mem_nil, fun hhalf => CircuitState.noConfusion hhalf⟩

end TrialRuns

/-- Three failures, a trial that succeeds after the pause, a call that is refused meanwhile, and a trial that fails. -/
def takenInTurn : List TrialStep :=
  [.require 0, .require 0, .require 0, .finish 0 .failure 1, .finish 1 .failure 1, .finish 2 .failure 1, .require 40,
    .require 41, .finish 3 .success 42, .require 43, .finish 5 .failure 44]

/-- That policy, by a clock that is exact. -/
def anthropicTimed : TimedPolicy := ⟨anthropicPolicy, .exact⟩

theorem trials_accounted_takenInTurn :
    Meets (TrialRun.step anthropicTimed) (ReportsInTurn anthropicTimed) .start takenInTurn ∧
      Always (TrialRun.step anthropicTimed) (TrialsAccounted anthropicTimed) .start takenInTurn := by
  have hturn : Meets (TrialRun.step anthropicTimed) (ReportsInTurn anthropicTimed) .start takenInTurn :=
    ⟨trivial, trivial, trivial, fun _ _ _ => trivial, fun _ _ _ => trivial, fun _ _ _ => trivial, trivial, trivial,
      fun _ _ _ _ => by decide +kernel, trivial, fun _ _ _ => trivial, trivial⟩
  exact ⟨hturn, trials_accounted (by decide) hturn⟩

/-- A call that was let through before the breaker opened reports its success while a trial is under way. -/
def lateReport : List TrialStep :=
  [.require 0, .require 0, .require 0, .require 0, .require 0, .require 0, .finish 1 .failure 1, .finish 2 .failure 1,
    .finish 3 .failure 1, .finish 4 .failure 1, .finish 5 .failure 1, .require 40, .finish 0 .success 41, .require 42]

theorem lateReport_admits : ¬ Always (TrialRun.step {}) (TrialsAccounted {}) .start lateReport := by
  intro h
  have hend := always_last h
  have hhalf : (after (TrialRun.step {}) .start lateReport).breaker.state = .halfOpen := by decide +kernel
  have htrials : (after (TrialRun.step {}) .start lateReport).trials = 2 := by decide +kernel
  obtain ⟨hle, -⟩ := hend hhalf
  rw [htrials] at hle
  exact absurd hle (by decide)

end RevenueOS.Integrations
