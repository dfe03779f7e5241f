import Mathlib.Data.List.TakeWhile
import RevenueOS.Integrations.Circuit

/-!
# RevenueOS.Integrations.Consecutive — which failures trip a closed breaker

The breaker counts the failures of its window, and a success does not clear them.  So it trips on failures in a row
alone exactly in the runs in which no success comes between the failures that are counted.

* `trips_in_a_row_iff`: a run by its reports.
* `failures_between_successes`: five failures, with a success before the last, open the breaker.
-/

namespace RevenueOS.Integrations

open RevenueOS.Lib

/-- A breaker, all that was reported to it, and what was reported since it last closed; the latest first. -/
structure ReportRun where
  breaker : CircuitBreaker
  reports : List BreakerCall
  sinceClosed : List BreakerCall

namespace ReportRun

def start : ReportRun := ⟨.fresh, [], []⟩

variable (p : TimedPolicy)

/-- The breaker after a call. -/
def called (s : ReportRun) (c : BreakerCall) : CircuitBreaker :=
  match c.event with
  | .allow => (s.breaker.allow p c.moment).2
  | .success => s.breaker.recordSuccess p c.moment
  | .failure => s.breaker.recordFailure p c.moment

def step (s : ReportRun) (c : BreakerCall) : ReportRun where
  breaker := s.called p c
  reports := if c.event = .allow then s.reports else c :: s.reports
  sinceClosed :=
    if c.event = .allow then s.sinceClosed
    else if s.breaker.state = .closed then c :: s.sinceClosed
    else []

end ReportRun

/-- A failure. -/
def BreakerCall.failed (r : BreakerCall) : Bool := r.event = .failure

/-- Less than the window before a moment. -/
def BreakerCall.within (p : TimedPolicy) (now : ℚ) (r : BreakerCall) : Bool := 
  p.clock.since now r.moment < p.failureWindowSeconds

/-- The latest `failure_threshold` reports are failures within the window. -/
def InARow (p : TimedPolicy) (reports : List BreakerCall) : Prop :=
  ∃ latest, latest <+: reports ∧ latest.length = p.failureThreshold.toNat ∧ (∀ r ∈ latest, r.event = .failure) ∧
    latest.Pairwise fun r earlier => p.clock.since r.moment earlier.moment < p.failureWindowSeconds

/-- A closed breaker opens at the failures that complete such a row, and at nothing else. -/
def TripsInARow (p : TimedPolicy) (s : ReportRun) (c : BreakerCall) : Prop :=
  s.breaker.state = .closed →
    ((s.step p c).breaker.state = .open ↔ c.event = .failure ∧ InARow p (s.step p c).reports)

/-- No failure completes a row. -/
def Interleaved (p : TimedPolicy) (s : ReportRun) (c : BreakerCall) : Prop :=
  c.event = .failure → ¬InARow p (s.step p c).reports

/-- Where a failure finds all but one of the failures of the threshold in its window, it finds as many since the latest
success. -/
def NoneBetween (p : TimedPolicy) (s : ReportRun) (c : BreakerCall) : Prop :=
  s.breaker.state = .closed → c.event = .failure →
    p.failureThreshold - 1 ≤ (s.sinceClosed.filter BreakerCall.failed).countP (·.within p c.moment) →
    p.failureThreshold - 1 ≤ (s.sinceClosed.takeWhile BreakerCall.failed).countP (·.within p c.moment)

/-! ### Rows -/

section Rows

variable {p : TimedPolicy} {reports : List BreakerCall} {c : BreakerCall} {now : ℚ}

/-- What is in the window is what comes first. -/
theorem takeWhile_within : ∀ {reports : List BreakerCall},
    (reports.Pairwise fun r earlier => earlier.moment ≤ r.moment) →
    (reports.takeWhile (·.within p now)).length = reports.countP (·.within p now)
  | [], _ => rfl
  | r :: reports, h => by
    obtain ⟨hfirst, hrest⟩ := List.pairwise_cons.mp h
    by_cases hr : r.within p now = true
    · rw [List.takeWhile_cons_of_pos hr, List.countP_cons_of_pos hr, List.length_cons, takeWhile_within hrest]
    · have hnone : reports.countP (·.within p now) = 0 := by
        refine List.countP_eq_zero.mpr fun earlier he hwithin => hr ?_
        unfold BreakerCall.within at hwithin ⊢
        rw [decide_eq_true_iff] at hwithin ⊢
        exact (p.clock.earlier (hfirst earlier he) now).trans_lt hwithin
      rw [List.takeWhile_cons_of_neg hr, List.countP_cons_of_neg hr, hnone]
      rfl

/-- What comes first and has a property. -/
theorem prefix_takeWhile {q : BreakerCall → Bool} {latest : List BreakerCall} (h : latest <+: reports)
    (hq : ∀ r ∈ latest, q r = true) : latest <+: reports.takeWhile q := by
  obtain ⟨rest, rfl⟩ := h
  rw [List.takeWhile_append_of_pos hq]
  exact List.prefix_append latest _

/-- A failure completes a row if the failures before it, back to the latest success, are enough. -/
theorem inARow_iff (hevent : c.event = .failure)
    (h : (c :: reports).Pairwise fun r earlier => earlier.moment ≤ r.moment) :
    InARow p (c :: reports) ↔
      p.failureThreshold - 1 ≤ (reports.takeWhile BreakerCall.failed).countP (·.within p c.moment) := by
  obtain ⟨hpast, horder⟩ := List.pairwise_cons.mp h
  have hrow : ((reports.takeWhile BreakerCall.failed).takeWhile (·.within p c.moment)).length =
      (reports.takeWhile BreakerCall.failed).countP (·.within p c.moment) :=
    takeWhile_within (horder.sublist (List.takeWhile_sublist _))
  rw [← hrow]
  constructor
  · rintro ⟨latest, hlatest, hlength, hfailed, hwithin⟩
    rcases List.prefix_cons_iff.mp hlatest with rfl | ⟨earlier, rfl, hearlier⟩
    · rw [List.length_nil] at hlength
      omega
    · have hfirst : earlier <+: (reports.takeWhile BreakerCall.failed).takeWhile (·.within p c.moment) := by
        refine prefix_takeWhile (prefix_takeWhile hearlier fun r hr => ?_) fun r hr => ?_
        · exact decide_eq_true (hfailed r (List.mem_cons_of_mem c hr))
        · exact decide_eq_true ((List.pairwise_cons.mp hwithin).1 r hr)
      have hle := hfirst.length_le
      rw [List.length_cons] at hlength
      omega
  · intro henough
    by_cases hzero : p.failureThreshold ≤ 0
    · refine ⟨[], List.nil_prefix, ?_, fun r hr => absurd hr List.not_mem_nil, .nil⟩
      rw [List.length_nil]
      omega
    · -- the failure, and those before it that are needed
      let row := (reports.takeWhile BreakerCall.failed).takeWhile (·.within p c.moment)
      have henough : p.failureThreshold - 1 ≤ row.length := hrow ▸ henough
      have hfailed : ∀ r ∈ row, r.event = .failure := fun r hr => by
        have hfailed : r.failed = true := List.mem_takeWhile_imp ((List.takeWhile_sublist _).subset hr)
        exact of_decide_eq_true hfailed
      have hwithin : ∀ r ∈ row, p.clock.since c.moment r.moment < p.failureWindowSeconds := fun r hr => by
        have hwithin : r.within p c.moment = true := List.mem_takeWhile_imp hr
        exact of_decide_eq_true hwithin
      refine ⟨c :: row.take (p.failureThreshold.toNat - 1), ?_, ?_, ?_, ?_⟩
      · rw [List.prefix_cons_inj]
        exact (List.take_prefix _ row).trans ((List.takeWhile_prefix _).trans (List.takeWhile_prefix _))
      · rw [List.length_cons, List.length_take]
        omega
      · intro r hr
        rcases List.mem_cons.mp hr with rfl | hr
        · exact hevent
        · exact hfailed r (List.mem_of_mem_take hr)
      · refine List.pairwise_cons.mpr ⟨fun r hr => ?_, ?_⟩
        · exact hwithin r (List.mem_of_mem_take hr)
        · have hsub : (row.take (p.failureThreshold.toNat - 1)).Sublist reports :=
            (List.take_sublist _ row).trans ((List.takeWhile_sublist _).trans (List.takeWhile_sublist _))
          refine (horder.sublist hsub).imp_of_mem fun {r earlier} hr hearlier _ => ?_
          have hold := hwithin earlier (List.mem_of_mem_take hearlier)
          exact (p.clock.later (hpast r (hsub.subset hr)) earlier.moment).trans_lt hold

end Rows

/-! ### Runs -/

/-- What holds between two calls, given those to come. -/
structure ReportRun.Inv (p : TimedPolicy) (s : ReportRun) (later : List BreakerCall) : Prop where
  past : ∀ r ∈ s.reports, ∀ c ∈ later, r.moment ≤ c.moment
  ordered : s.reports.Pairwise fun r earlier => earlier.moment ≤ r.moment
  /-- A closed breaker has heard of a success before all that was reported since it closed, if of anything. -/
  since : s.breaker.state = .closed → ∃ before, s.reports = s.sinceClosed ++ before ∧
    before.takeWhile BreakerCall.failed = []
  /-- It counts the failures since it closed that are not too old. -/
  counted : s.breaker.state = .closed → ∀ c ∈ later,
    (s.breaker.recentFailures p c.moment).length =
      (s.sinceClosed.filter BreakerCall.failed).countP (·.within p c.moment)

section ReportRuns

variable {p : TimedPolicy} {s : ReportRun} {c : BreakerCall} {later : List BreakerCall}

/-- A breaker closes at a success, and forgets its failures. -/
theorem closes (hbefore : s.breaker.state ≠ .closed) (hclosed : (s.called p c).state = .closed) :
    c.event = .success ∧ (s.called p c).failures = [] := by
  unfold ReportRun.called at hclosed ⊢
  cases hevent : c.event with
  | allow =>
    rw [hevent] at hclosed
    dsimp only at hclosed
    rw [state_allow] at hclosed
    cases hopens : s.breaker.halfOpens p c.moment with
    | true =>
      rw [waited_of_halfOpens hopens] at hclosed
      cases hclosed
    | false =>
      rw [waited_of_not hopens] at hclosed
      exact absurd hclosed hbefore
  | success =>
    rw [hevent] at hclosed
    dsimp only at hclosed ⊢
    refine ⟨rfl, ?_⟩
    by_cases hhalf : s.breaker.state = .halfOpen
    · unfold CircuitBreaker.recordSuccess at hclosed ⊢
      rw [if_pos hhalf] at hclosed ⊢
      split_ifs at hclosed ⊢
      · rfl
      · rw [hhalf] at hclosed
        cases hclosed
    · rw [state_recordSuccess_of_ne hhalf] at hclosed
      exact absurd hclosed hbefore
  | failure =>
    rw [hevent] at hclosed
    dsimp only at hclosed
    cases htrips : s.breaker.trips p c.moment with
    | true =>
      rw [recordFailure_of_trips htrips] at hclosed
      cases hclosed
    | false =>
      rw [recordFailure_of_not htrips] at hclosed
      exact absurd hclosed hbefore

/-- What a closed breaker that stays closed counts. -/
theorem failures_called (hbefore : s.breaker.state = .closed) (hclosed : (s.called p c).state = .closed) :
    (s.called p c).failures =
      match c.event with
      | .allow => s.breaker.failures
      | .success => s.breaker.recentFailures p c.moment
      | .failure => s.breaker.recentFailures p c.moment ++ [c.moment] := by
  unfold ReportRun.called at hclosed ⊢
  cases hevent : c.event with
  | allow =>
    dsimp only
    have hopens : s.breaker.halfOpens p c.moment = false := by
      rw [Bool.eq_false_iff, ne_eq, halfOpens_iff, hbefore]
      exact fun h => CircuitState.noConfusion h.1
    rcases allow_eq p s.breaker c.moment with h | ⟨hhalf, -⟩
    · rw [h, waited_of_not hopens]
    · rw [waited_of_not hopens, hbefore] at hhalf
      cases hhalf
  | success =>
    dsimp only
    unfold CircuitBreaker.recordSuccess
    rw [if_neg (by rw [hbefore]; exact CircuitState.noConfusion)]
  | failure =>
    rw [hevent] at hclosed
    dsimp only at hclosed ⊢
    cases htrips : s.breaker.trips p c.moment with
    | true =>
      rw [recordFailure_of_trips htrips] at hclosed
      cases hclosed
    | false => rw [recordFailure_of_not htrips]

/-- Failures that an earlier call has dropped are too old later. -/
theorem recent_recent {b : CircuitBreaker} {now later : ℚ} (hle : now ≤ later) :
    (b.recentFailures p now).filter (fun t => decide (p.clock.since later t < p.failureWindowSeconds)) =
      b.recentFailures p later := by
  unfold CircuitBreaker.recentFailures
  rw [List.filter_filter]
  refine List.filter_congr fun t _ => ?_
  rw [Bool.eq_iff_iff, Bool.and_eq_true, decide_eq_true_iff, decide_eq_true_iff]
  exact ⟨fun h => h.1, fun h => ⟨h, (p.clock.later hle t).trans_lt h⟩⟩

theorem ReportRun.Inv.step (h : s.Inv p (c :: later)) (hlater : ∀ c' ∈ later, c.moment ≤ c'.moment) :
    (s.step p c).Inv p later := by
  refine ⟨?_, ?_, fun hclosed => ?_, fun hclosed c' hc' => ?_⟩
  · show ∀ r ∈ (if c.event = .allow then s.reports else c :: s.reports), ∀ c' ∈ later, r.moment ≤ c'.moment
    intro r hr c' hc'
    split_ifs at hr
    · exact h.past r hr c' (List.mem_cons_of_mem c hc')
    · rcases List.mem_cons.mp hr with rfl | hold
      · exact hlater c' hc'
      · exact h.past r hold c' (List.mem_cons_of_mem c hc')
  · show (if c.event = .allow then s.reports else c :: s.reports).Pairwise fun r earlier => earlier.moment ≤ r.moment
    split_ifs
    · exact h.ordered
    · exact List.pairwise_cons.mpr ⟨fun r hr => h.past r hr c List.mem_cons_self, h.ordered⟩
  · show ∃ before, (if c.event = .allow then s.reports else c :: s.reports) =
      (if c.event = .allow then s.sinceClosed else if s.breaker.state = .closed then c :: s.sinceClosed else []) ++
        before ∧ before.takeWhile BreakerCall.failed = []
    by_cases hbefore : s.breaker.state = .closed
    · obtain ⟨before, hreports, hsuccess⟩ := h.since hbefore
      refine ⟨before, ?_, hsuccess⟩
      rw [if_pos hbefore]
      split_ifs
      · exact hreports
      · rw [hreports, List.cons_append]
    · obtain ⟨hevent, -⟩ := closes hbefore hclosed
      rw [hevent, if_neg hbefore]
      refine ⟨c :: s.reports, rfl, List.takeWhile_cons_of_neg ?_⟩
      unfold BreakerCall.failed
      rw [hevent]
      decide
  · have hsince : (s.step p c).sinceClosed = if c.event = .allow then s.sinceClosed
      else if s.breaker.state = .closed then c :: s.sinceClosed else [] := rfl
    show ((s.called p c).recentFailures p c'.moment).length = _
    rw [hsince]
    by_cases hbefore : s.breaker.state = .closed
    · have hold := h.counted hbefore c' (List.mem_cons_of_mem c hc')
      have hfailures := failures_called hbefore hclosed
      rw [if_pos hbefore]
      unfold CircuitBreaker.recentFailures
      rw [hfailures]
      cases hevent : c.event with
      | allow =>
        rw [if_pos rfl]
        exact hold
      | success =>
        have hdropped : (c :: s.sinceClosed).filter BreakerCall.failed = s.sinceClosed.filter BreakerCall.failed :=
          List.filter_cons_of_neg (by unfold BreakerCall.failed; rw [hevent]; decide)
        dsimp only
        rw [if_neg BreakerEvent.noConfusion, recent_recent (hlater c' hc'), hdropped]
        exact hold
      | failure =>
        have hkept : (c :: s.sinceClosed).filter BreakerCall.failed = c :: s.sinceClosed.filter BreakerCall.failed :=
          List.filter_cons_of_pos (by unfold BreakerCall.failed; rw [hevent]; decide)
        dsimp only
        rw [if_neg BreakerEvent.noConfusion, List.filter_append, recent_recent (hlater c' hc'), hkept,
          List.length_append, hold, List.countP_cons, List.filter_singleton]
        unfold BreakerCall.within
        cases decide (p.clock.since c'.moment c.moment < p.failureWindowSeconds) with
        | true => rfl
        | false => rfl
    · obtain ⟨hevent, hfailures⟩ := closes hbefore hclosed
      unfold CircuitBreaker.recentFailures
      rw [hfailures, hevent, if_neg hbefore]
      rfl

/-- A closed breaker stays closed unless it hears of a failure. -/
theorem state_called (hclosed : s.breaker.state = .closed) (hevent : c.event ≠ .failure) :
    (s.called p c).state = .closed := by
  have hne : s.breaker.state ≠ .halfOpen := by
    rw [hclosed]
    exact CircuitState.noConfusion
  unfold ReportRun.called
  cases hcall : c.event with
  | allow =>
    dsimp only
    rw [state_allow, waited_of_not, hclosed]
    rw [Bool.eq_false_iff, ne_eq, halfOpens_iff, hclosed]
    exact fun h => CircuitState.noConfusion h.1
  | success =>
    dsimp only
    rw [state_recordSuccess_of_ne hne, hclosed]
  | failure => exact absurd hcall hevent

theorem closed_or_open (hclosed : s.breaker.state = .closed) :
    (s.called p c).state = .closed ∨ (s.called p c).state = .open := by
  by_cases hevent : c.event = .failure
  · unfold ReportRun.called
    rw [hevent]
    dsimp only
    cases htrips : s.breaker.trips p c.moment with
    | true =>
      rw [recordFailure_of_trips htrips]
      exact .inr rfl
    | false =>
      rw [recordFailure_of_not htrips]
      exact .inl hclosed
  · exact .inl (state_called hclosed hevent)

/-- A failure opens it if the window holds enough of them. -/
theorem opens_iff (hclosed : s.breaker.state = .closed) (hevent : c.event = .failure) :
    (s.called p c).state = .open ↔ p.failureThreshold - 1 ≤ (s.breaker.recentFailures p c.moment).length := by
  have htrips : s.breaker.trips p c.moment = true ↔
      p.failureThreshold - 1 ≤ (s.breaker.recentFailures p c.moment).length := by
    unfold CircuitBreaker.trips
    rw [hclosed, List.length_append, List.length_singleton]
    simp only [Bool.or_eq_true, decide_eq_true_eq, reduceCtorEq, false_or]
    push_cast
    omega
  rw [← htrips]
  unfold ReportRun.called
  rw [hevent]
  dsimp only
  cases h : s.breaker.trips p c.moment with
  | true =>
    rw [recordFailure_of_trips h]
    exact iff_of_true rfl rfl
  | false =>
    rw [recordFailure_of_not h]
    refine iff_of_false (fun hopen => ?_) Bool.noConfusion
    rw [hclosed] at hopen
    cases hopen

/-- A closed breaker trips on failures in a row alone exactly if none of those that it counts lies before the latest
success. -/
theorem ReportRun.Inv.tripsInARow_iff (h : s.Inv p (c :: later)) : TripsInARow p s c ↔ NoneBetween p s c := by
  unfold TripsInARow NoneBetween
  refine imp_congr_right fun hclosed => ?_
  by_cases hevent : c.event = .failure
  · have hreports : (s.step p c).reports = c :: s.reports := by
      show (if c.event = .allow then s.reports else c :: s.reports) = c :: s.reports
      rw [hevent]
      rfl
    have horder : (c :: s.reports).Pairwise fun r earlier => earlier.moment ≤ r.moment :=
      List.pairwise_cons.mpr ⟨fun r hr => h.past r hr c List.mem_cons_self, h.ordered⟩
    obtain ⟨before, hbefore, hsuccess⟩ := h.since hclosed
    have hrow : s.reports.takeWhile BreakerCall.failed = s.sinceClosed.takeWhile BreakerCall.failed := by
      rw [hbefore, List.takeWhile_append, hsuccess]
      split_ifs with hall
      · have hwhole := (List.takeWhile_prefix BreakerCall.failed).eq_of_length hall
        rw [List.append_nil, hwhole]
      · rfl
    have hfew : (s.sinceClosed.takeWhile BreakerCall.failed).countP (·.within p c.moment) ≤
        (s.sinceClosed.filter BreakerCall.failed).countP (·.within p c.moment) := by
      have hfailed : (s.sinceClosed.takeWhile BreakerCall.failed).filter BreakerCall.failed =
          s.sinceClosed.takeWhile BreakerCall.failed := List.filter_eq_self.mpr fun r => List.mem_takeWhile_imp
      rw [← hfailed]
      exact ((List.takeWhile_sublist _).filter _).countP_le
    rw [hreports, inARow_iff hevent horder, hrow, ← h.counted hclosed c List.mem_cons_self]
    rw [← h.counted hclosed c List.mem_cons_self] at hfew
    show ((s.called p c).state = .open ↔ _) ↔ _
    rw [opens_iff hclosed hevent]
    constructor
    · exact fun hiff _ henough => (hiff.mp henough).2
    · exact fun hnone => ⟨fun henough => ⟨hevent, hnone hevent henough⟩, fun hrow => by omega⟩
  · refine iff_of_true (iff_of_false (fun hopen => ?_) fun h => hevent h.1) fun h => absurd h hevent
    have hstill : (s.step p c).breaker.state = .closed := state_called hclosed hevent
    rw [hstill] at hopen
    cases hopen

/-- **A closed breaker trips on failures in a row alone**, and never if no failure completes a row, exactly in the runs
in which the failures that it counts are not separated by a success. -/
theorem trips_in_a_row_iff (p : TimedPolicy) {calls : List BreakerCall}
    (horder : calls.Pairwise fun c c' => c.moment ≤ c'.moment) :
    (Meets (ReportRun.step p) (TripsInARow p) .start calls ∧
        (Meets (ReportRun.step p) (Interleaved p) .start calls →
          Always (ReportRun.step p) (fun s => s.breaker.state = .closed) .start calls)) ↔
      Meets (ReportRun.step p) (NoneBetween p) .start calls := by
  have hiff : ∀ (calls : List BreakerCall) (s : ReportRun), (calls.Pairwise fun c c' => c.moment ≤ c'.moment) →
      s.Inv p calls →
        (Meets (ReportRun.step p) (TripsInARow p) s calls ↔ Meets (ReportRun.step p) (NoneBetween p) s calls) := by
    intro calls
    induction calls with
    | nil => exact fun _ _ _ => Iff.rfl
    | cons c later ih =>
      intro s horder h
      obtain ⟨hlater, hrest⟩ := List.pairwise_cons.mp horder
      exact and_congr h.tripsInARow_iff (ih _ hrest (h.step hlater))
  have hnever : Meets (ReportRun.step p) (TripsInARow p) .start calls →
      Meets (ReportRun.step p) (Interleaved p) .start calls →
        Always (ReportRun.step p) (fun s => s.breaker.state = .closed) .start calls := by
    intro htrips hinterleaved
    refine always_of_inv (fun s : ReportRun => s.breaker.state = .closed)
      (C := fun s c => TripsInARow p s c ∧ Interleaved p s c) (fun _ h => h) (fun s c hclosed hstep => ?_) calls .start
      rfl (meets_and.mpr ⟨htrips, hinterleaved⟩)
    rcases closed_or_open (p := p) (c := c) hclosed with hstill | hopen
    · exact hstill
    · obtain ⟨hevent, hrow⟩ := (hstep.1 hclosed).mp hopen
      exact absurd hrow (hstep.2 hevent)
  have hstart : ReportRun.start.Inv p calls := by
    refine ⟨?_, .nil, fun _ => ⟨[], rfl, rfl⟩, fun _ _ _ => rfl⟩
    exact fun r hr => absurd hr List.not_mem_nil
  rw [← hiff calls .start horder hstart]
  exact ⟨fun h => h.1, fun h => ⟨h, hnever h⟩⟩

end ReportRuns

/-- Five failures in a minute, with a success before the last. -/
def betweenSuccesses : List BreakerCall :=
  [⟨0, .failure⟩, ⟨1, .failure⟩, ⟨2, .failure⟩, ⟨3, .failure⟩, ⟨4, .success⟩, ⟨5, .failure⟩]

theorem trips_in_a_row_iff_betweenSuccesses : (betweenSuccesses.Pairwise fun c c' => c.moment ≤ c'.moment) ∧
    ((Meets (ReportRun.step {}) (TripsInARow {}) .start betweenSuccesses ∧
        (Meets (ReportRun.step {}) (Interleaved {}) .start betweenSuccesses →
          Always (ReportRun.step {}) (fun s => s.breaker.state = .closed) .start betweenSuccesses)) ↔
      Meets (ReportRun.step {}) (NoneBetween {}) .start betweenSuccesses) := by
  have horder : betweenSuccesses.Pairwise fun c c' => c.moment ≤ c'.moment := by
    unfold betweenSuccesses
    simp only [List.pairwise_cons, List.mem_cons, List.not_mem_nil]
    norm_num
  exact ⟨horder, trips_in_a_row_iff {} horder⟩

/-- The fifth failure opens the breaker, though the report before it is a success. -/
theorem failures_between_successes :
    (after (ReportRun.step {}) .start betweenSuccesses).breaker.state = .open ∧
      ¬Meets (ReportRun.step {}) (TripsInARow {}) .start betweenSuccesses := by
  have hopen : (after (ReportRun.step {}) .start betweenSuccesses).breaker.state = .open := by decide +kernel
  refine ⟨hopen, fun h => ?_⟩
  have hsplit : betweenSuccesses = betweenSuccesses.take 5 ++ [⟨5, .failure⟩] := rfl
  have hlast := meets_append.mp (hsplit ▸ h)
  have hclosed : (after (ReportRun.step {}) .start (betweenSuccesses.take 5)).breaker.state = .closed := by
    decide +kernel
  obtain ⟨-, latest, hlatest, hlength, hfailed, -⟩ := (hlast.2.1 hclosed).mp hopen
  have htake : latest = betweenSuccesses.reverse.take latest.length := List.prefix_iff_eq_take.mp hlatest
  have hmem : (⟨4, .success⟩ : BreakerCall) ∈ latest := by
    rw [htake, hlength]
    exact .tail _ (.head _)
  cases hfailed _ hmem

end RevenueOS.Integrations
