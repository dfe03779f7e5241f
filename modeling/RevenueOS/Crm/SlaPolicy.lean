import RevenueOS.Lib.Except
import RevenueOS.Lib.OpenTime
import RevenueOS.Py.Json
import RevenueOS.Shared.Timeutil

/-!
# RevenueOS.Crm.SlaPolicy — service levels over business hours

`add_business_minutes`, `SlaState.status` and `open_sla` (`domain/deals/sla_policy.py`).  The timestamps of an
`SlaState` are instants, as they are stored.

* `advance_spec`: the loop adds the minutes it is given, but for what it loses of the minute in which it starts.
* `advance_add`, `advance_mono`: the loop composes, and is monotone in the start and the minutes.
* `warnings_iff`: the warning comes in the last quarter exactly if the time allowed is less than a day.

In a zone without transitions the instants follow the clock, so that what holds of the loop holds of
`add_business_minutes`.
-/

namespace RevenueOS.Crm

open RevenueOS.Py RevenueOS.Lib RevenueOS.Shared

/-- `DEFAULT_BUSINESS_HOURS`. -/
def defaultBusinessHours : Dict :=
  let weekday : Json := .obj [("start", .str "09:30"), ("end", .str "18:30")]
  [("monday", weekday), ("tuesday", weekday), ("wednesday", weekday), ("thursday", weekday), ("friday", weekday),
    ("saturday", .obj [("start", .str "10:00"), ("end", .str "14:00")]), ("sunday", .null)]

/-- `WEEKDAYS`. -/
def weekdays : List String := ["monday", "tuesday", "wednesday", "thursday", "friday", "saturday", "sunday"]

structure SlaPolicy where
  name : String
  targetMinutes : ℤ
  businessHoursOnly : Bool := true
  escalateAfterMinutes : Option ℤ := none

inductive SlaError where
  | time (e : TimeError)
  | python (e : PyError)
deriving DecidableEq

/-! ## `add_business_minutes` -/

/-- `spec[key]`. -/
def item (spec : Json) (key : String) : Except SlaError Json :=
  match spec with
  | .obj d =>
    match d.lookup key with
    | some v => .ok v
    | none => .error (.python .keyError)
  | _ => .error (.python .typeError)

/-- `_hhmm`. -/
def hhmm (value : Json) : Except SlaError ℤ :=
  match value with
  | .str text => (timeOfText text).mapError .time
  | _ => .error (.python .attributeError)

/-- `_window_for`: when the day opens and closes, since midnight.  The day 0 is a Monday. -/
def windowFor (day : ℤ) (businessHours : Dict) : Except SlaError (Option (ℤ × ℤ)) :=
  let spec := businessHours.get (weekdays.getD (day % 7).toNat "")
  if !spec.truthy then .ok none
  else do
    let start ← item spec "start"
    let openAt ← hhmm start
    let stop ← item spec "end"
    let closeAt ← hhmm stop
    .ok (some (openAt, closeAt))

/-- The window of a day that may be a holiday. -/
def window (hours : Dict) (holidays : Finset ℤ) (day : ℤ) : Except SlaError (Option (ℤ × ℤ)) :=
  if day ∈ holidays then .ok none else windowFor day hours

/-- A `datetime`, if there is one. -/
def datetimeAt (wall : ℤ) : Except SlaError ℤ :=
  if inRange wall then .ok wall else .error (.time .overflowError)

/-- `datetime.combine(day + timedelta(days=1), time.min)`. -/
def nextMidnight (day : ℤ) : Except SlaError ℤ := datetimeAt ((day + 1) * dayLength)

/-- The open time of the cursor's day from the cursor on, if there is any. -/
def restOfDay (window : Option (ℤ × ℤ)) (cursor : ℤ) : Option (ℤ × ℤ) :=
  match window with
  | none => none
  | some (openAt, closeAt) =>
    let day := cursor / dayLength
    let openAt := day * dayLength + openAt
    let closeAt := day * dayLength + closeAt
    let cursor := if cursor < openAt then openAt else cursor
    if cursor ≥ closeAt then none else some (cursor, closeAt)

/-- The loop of `add_business_minutes`, by the zone's clock. -/
def advance (hours : Dict) (holidays : Finset ℤ) : ℕ → ℤ → ℤ → Except SlaError ℤ
  | 0, _, _ => .error (.time (.valueError "could not resolve an SLA due time within the configured horizon"))
  | n + 1, cursor, remaining => do
    let day := cursor / dayLength
    let window ← window hours holidays day
    match restOfDay window cursor with
    | none => do
      let cursor ← nextMidnight day
      advance hours holidays n cursor remaining
    | some (cursor, closeAt) =>
      let available := (closeAt - cursor) / minute
      if remaining ≤ available then datetimeAt (cursor + remaining * minute)
      else do
        let cursor ← nextMidnight day
        advance hours holidays n cursor (remaining - available)

/-- `business_hours or DEFAULT_BUSINESS_HOURS`. -/
def hoursOf (businessHours : Option Dict) : Dict :=
  match businessHours with
  | some hours => if hours.isEmpty then defaultBusinessHours else hours
  | none => defaultBusinessHours

section AddBusinessMinutes

variable (zoneInfo : String → Except ZoneFault Zone) (timezoneName : String) (businessHours : Option Dict)
  (holidays : Option (Finset ℤ))

/-- Local times are read as `fold=0`. -/
def addBusinessMinutes (start : Datetime) (minutes : ℤ) (maxDays : ℤ := 90) : Except SlaError ℤ := do
  let zone ← (tz zoneInfo timezoneName).mapError .time
  let cursor ← (toLocal zoneInfo start timezoneName).mapError .time
  let due ← advance (hoursOf businessHours) (holidays.getD ∅) (maxDays * 4).toNat cursor minutes
  let _ ← (toLocal zoneInfo start "UTC").mapError .time
  let _ ← (toLocal zoneInfo (.aware (zone.read false due)) "UTC").mapError .time
  .ok (zone.read false due)

end AddBusinessMinutes

/-! ## `SlaState` -/

def second : ℤ := 1000000

structure SlaState where
  policy : String
  startedAt : ℤ
  dueAt : ℤ
  resolvedAt : Option ℤ := none
  escalateAt : Option ℤ := none

inductive SlaStatus where
  | onTrack
  | atRisk
  | breached
  | escalated
  | met
deriving DecidableEq

/-- `self.due_at - timedelta(minutes=max(1, (self.due_at - self.started_at).seconds // 240))`. -/
def SlaState.threshold (s : SlaState) : ℤ :=
  s.dueAt - max 1 ((s.dueAt - s.startedAt) % dayLength / second / 240) * minute

def SlaState.status (s : SlaState) (utcnow : ℤ) (now : Option ℤ) : Except SlaError SlaStatus :=
  let moment := now.getD utcnow
  match s.resolvedAt with
  | some resolvedAt => .ok (if resolvedAt ≤ s.dueAt then .met else .breached)
  | none =>
    if moment > s.dueAt then
      .ok (if s.escalateAt.any (moment > ·) then .escalated else .breached)
    else do
      let threshold ← datetimeAt s.threshold
      .ok (if moment > threshold then .atRisk else .onTrack)

/-- `... if policy.escalate_after_minutes else None`. -/
def SlaPolicy.escalation (policy : SlaPolicy) (after : ℤ → Except SlaError ℤ) : Except SlaError (Option ℤ) :=
  match policy.escalateAfterMinutes with
  | none => .ok none
  | some minutes => if minutes = 0 then .ok none else (after minutes).map some

section OpenSla

variable (zoneInfo : String → Except ZoneFault Zone) (timezoneName : String) (businessHours : Option Dict)
  (holidays : Option (Finset ℤ))

def openSla (policy : SlaPolicy) (startedAt : ℤ) : Except SlaError SlaState := do
  let after := fun minutes =>
    if policy.businessHoursOnly then
      addBusinessMinutes zoneInfo timezoneName businessHours holidays (.aware startedAt) minutes
    else datetimeAt (startedAt + minutes * minute)
  let due ← after policy.targetMinutes
  let escalate ← policy.escalation after
  .ok { policy := policy.name, startedAt := startedAt, dueAt := due, escalateAt := escalate }

end OpenSla

/-! ## Working time -/

/-- The working time of a schedule, by the clock. -/
def workingTime (hours : Dict) (holidays : Finset ℤ) : Set ℤ :=
  {w | w / dayLength ∉ holidays ∧ ∃ openAt closeAt, windowFor (w / dayLength) hours = .ok (some (openAt, closeAt)) ∧
    openAt ≤ w % dayLength ∧ w % dayLength < closeAt}

/-- The time is within the window of a day that is no holiday, or at its end. -/
def WithinWindow (hours : Dict) (holidays : Finset ℤ) (w : ℤ) : Prop :=
  w / dayLength ∉ holidays ∧ ∃ openAt closeAt, windowFor (w / dayLength) hours = .ok (some (openAt, closeAt)) ∧
    openAt ≤ w % dayLength ∧ w % dayLength ≤ closeAt

section Loop

variable {hours : Dict} {holidays : Finset ℤ} {day c m r s e : ℤ} {n : ℕ} {w : Option (ℤ × ℤ)}

theorem window_eq_some_iff {openAt closeAt : ℤ} : window hours holidays day = .ok (some (openAt, closeAt)) ↔
    day ∉ holidays ∧ windowFor day hours = .ok (some (openAt, closeAt)) := by
  unfold window
  split_ifs with hholiday
  · exact iff_of_false (fun h => by cases h) fun h => h.1 hholiday
  · exact ⟨fun h => ⟨hholiday, h⟩, fun h => h.2⟩

theorem mem_workingTime {v : ℤ} : v ∈ workingTime hours holidays ↔
    ∃ openAt closeAt, window hours holidays (v / dayLength) = .ok (some (openAt, closeAt)) ∧
      openAt ≤ v % dayLength ∧ v % dayLength < closeAt := by
  constructor
  · rintro ⟨hholiday, openAt, closeAt, hwindow, hv⟩
    exact ⟨openAt, closeAt, window_eq_some_iff.mpr ⟨hholiday, hwindow⟩, hv⟩
  · rintro ⟨openAt, closeAt, hwindow, hv⟩
    obtain ⟨hholiday, hwindow⟩ := window_eq_some_iff.mp hwindow
    exact ⟨hholiday, openAt, closeAt, hwindow, hv⟩

theorem hhmm_minutes {value : Json} {time : ℤ} (h : hhmm value = .ok time) :
    ∃ k : ℤ, 0 ≤ k ∧ k < 24 * 60 ∧ time = k * minute := by
  unfold hhmm at h
  split at h
  · exact timeOfText_minutes (mapError_eq_ok.mp h)
  · cases h

/-- A window opens and closes at whole minutes of the day. -/
theorem window_minutes {openAt closeAt : ℤ} (h : window hours holidays day = .ok (some (openAt, closeAt))) :
    (∃ k : ℤ, 0 ≤ k ∧ k < 24 * 60 ∧ openAt = k * minute) ∧ ∃ k : ℤ, 0 ≤ k ∧ k < 24 * 60 ∧ closeAt = k * minute := by
  obtain ⟨-, h⟩ := window_eq_some_iff.mp h
  unfold windowFor at h
  dsimp only at h
  split_ifs at h with hspec
  · cases h
  · obtain ⟨start, -, h⟩ := bind_eq_ok.mp h
    obtain ⟨openAt', hopen, h⟩ := bind_eq_ok.mp h
    obtain ⟨stop, -, h⟩ := bind_eq_ok.mp h
    obtain ⟨closeAt', hclose, h⟩ := bind_eq_ok.mp h
    cases h
    exact ⟨hhmm_minutes hopen, hhmm_minutes hclose⟩

theorem minute_dvd_dayLength : minute ∣ dayLength := ⟨24 * 60, rfl⟩

/-- The midnight after the cursor's day. -/
def midnightAfter (c : ℤ) : ℤ := (c / dayLength + 1) * dayLength

/-- **A round of the loop**: the day is closed, it is used up, or the minutes end in it. -/
inductive Round (hours : Dict) (holidays : Finset ℤ) (n : ℕ) (c m r : ℤ) : Prop where
  | closed (w : Option (ℤ × ℤ)) (hwindow : window hours holidays (c / dayLength) = .ok w)
      (hrest : restOfDay w c = none) (hmidnight : inRange (midnightAfter c) = true)
      (hlater : advance hours holidays n (midnightAfter c) m = .ok r) : Round hours holidays n c m r
  | full (w : Option (ℤ × ℤ)) (s e : ℤ) (hwindow : window hours holidays (c / dayLength) = .ok w)
      (hrest : restOfDay w c = some (s, e)) (hmidnight : inRange (midnightAfter c) = true)
      (hmore : (e - s) / minute < m)
      (hlater : advance hours holidays n (midnightAfter c) (m - (e - s) / minute) = .ok r) :
        Round hours holidays n c m r
  | last (w : Option (ℤ × ℤ)) (s e : ℤ) (hwindow : window hours holidays (c / dayLength) = .ok w)
      (hrest : restOfDay w c = some (s, e)) (hfits : m ≤ (e - s) / minute) (hrange : inRange r = true)
      (hdue : s + m * minute = r) : Round hours holidays n c m r

theorem datetimeAt_eq_ok {wall : ℤ} : datetimeAt wall = .ok r ↔ inRange r = true ∧ wall = r := by
  unfold datetimeAt
  split_ifs with h
  · constructor
    · intro hr
      cases hr
      exact ⟨h, rfl⟩
    · rintro ⟨-, rfl⟩
      rfl
  · refine iff_of_false (fun hr => by cases hr) ?_
    rintro ⟨hr, rfl⟩
    exact h hr

theorem advance_succ_iff : advance hours holidays (n + 1) c m = .ok r ↔ Round hours holidays n c m r := by
  unfold advance
  dsimp only
  constructor
  · intro h
    obtain ⟨w, hwindow, h⟩ := bind_eq_ok.mp h
    split at h
    · rename_i hrest
      obtain ⟨c', hmidnight, hlater⟩ := bind_eq_ok.mp h
      obtain ⟨hmidnight, rfl⟩ := datetimeAt_eq_ok.mp hmidnight
      exact .closed w hwindow hrest hmidnight hlater
    · rename_i s e hrest
      split_ifs at h with hfits
      · obtain ⟨hrange, hdue⟩ := datetimeAt_eq_ok.mp h
        exact .last w s e hwindow hrest hfits hrange hdue
      · obtain ⟨c', hmidnight, hlater⟩ := bind_eq_ok.mp h
        obtain ⟨hmidnight, rfl⟩ := datetimeAt_eq_ok.mp hmidnight
        exact .full w s e hwindow hrest hmidnight (Int.not_le.mp hfits) hlater
  · rintro (⟨w, hwindow, hrest, hmidnight, hlater⟩ | ⟨w, s, e, hwindow, hrest, hmidnight, hmore, hlater⟩ |
      ⟨w, s, e, hwindow, hrest, hfits, hrange, hdue⟩)
    · refine bind_eq_ok.mpr ⟨w, hwindow, ?_⟩
      rw [hrest]
      exact bind_eq_ok.mpr ⟨_, datetimeAt_eq_ok.mpr ⟨hmidnight, rfl⟩, hlater⟩
    · refine bind_eq_ok.mpr ⟨w, hwindow, ?_⟩
      rw [hrest]
      dsimp only
      rw [if_neg (Int.not_le.mpr hmore)]
      exact bind_eq_ok.mpr ⟨_, datetimeAt_eq_ok.mpr ⟨hmidnight, rfl⟩, hlater⟩
    · refine bind_eq_ok.mpr ⟨w, hwindow, ?_⟩
      rw [hrest]
      dsimp only
      rw [if_pos hfits]
      exact datetimeAt_eq_ok.mpr ⟨hrange, hdue⟩

theorem lt_midnightAfter (c : ℤ) : c < midnightAfter c := by
  unfold midnightAfter
  rw [dayLength_eq]
  omega

theorem sameDay {v : ℤ} (hv : c ≤ v) (hlt : v < midnightAfter c) : v / dayLength = c / dayLength := by
  unfold midnightAfter at hlt
  rw [dayLength_eq] at hlt ⊢
  omega

theorem midnightAfter_of_sameDay {v : ℤ} (h : v / dayLength = c / dayLength) : midnightAfter v = midnightAfter c := by
  unfold midnightAfter
  rw [h]

theorem mod_dayLength (v : ℤ) : v % dayLength = v - v / dayLength * dayLength := by
  rw [dayLength_eq]
  omega

/-- What is left of a day's window from the cursor on, and from later in the day. -/
structure Rest (hours : Dict) (holidays : Finset ℤ) (w : Option (ℤ × ℤ)) (c s e : ℤ) : Prop where
  from_cursor : c ≤ s
  nonempty : s < e
  within_day : e < midnightAfter c
  starts : s = c ∨ minute ∣ s
  closes : minute ∣ e
  working : ∀ v, c ≤ v → v < midnightAfter c → (v ∈ workingTime hours holidays ↔ s ≤ v ∧ v < e)
  within_window : ∀ v, s ≤ v → v ≤ e → WithinWindow hours holidays v
  later : ∀ v, c ≤ v → v < midnightAfter c → restOfDay w v = if max v s < e then some (max v s, e) else none

theorem restOfDay_some {openAt closeAt v : ℤ} : restOfDay (some (openAt, closeAt)) v =
    if max v (v / dayLength * dayLength + openAt) < v / dayLength * dayLength + closeAt then
      some (max v (v / dayLength * dayLength + openAt), v / dayLength * dayLength + closeAt)
    else none := by
  unfold restOfDay
  dsimp only
  have hmax : (if v < v / dayLength * dayLength + openAt then v / dayLength * dayLength + openAt else v) =
      max v (v / dayLength * dayLength + openAt) := by
    split_ifs with h <;> omega
  rw [hmax]
  split_ifs with hclosed hopen hopen
  · omega
  · rfl
  · rfl
  · omega

theorem rest_of_some (hwindow : window hours holidays (c / dayLength) = .ok w) (hrest : restOfDay w c = some (s, e)) :
    Rest hours holidays w c s e := by
  rcases w with _ | ⟨openAt, closeAt⟩
  · cases hrest
  · obtain ⟨⟨k, hk, hk', hopen⟩, j, hj, hj', hclose⟩ := window_minutes hwindow
    have hoff := (window_eq_some_iff.mp hwindow).1
    have hsome := (window_eq_some_iff.mp hwindow).2
    rw [restOfDay_some] at hrest
    split_ifs at hrest with hlt
    obtain ⟨hs, he⟩ := Prod.mk.inj (Option.some.inj hrest)
    have hmidnight : midnightAfter c = c / dayLength * dayLength + dayLength := by
      unfold midnightAfter
      rw [Int.add_mul, Int.one_mul]
    have hday : minute ∣ c / dayLength * dayLength := Dvd.dvd.mul_left minute_dvd_dayLength _
    have hopen' : minute ∣ openAt := ⟨k, by rw [hopen, Int.mul_comm]⟩
    have hclose' : minute ∣ closeAt := ⟨j, by rw [hclose, Int.mul_comm]⟩
    have hend : closeAt < dayLength := by
      rw [hclose, minute_eq, dayLength_eq]
      omega
    refine ⟨?_, ?_, ?_, ?_, ?_, fun v hv hv' => ?_, fun v hv hv' => ?_, fun v hv hv' => ?_⟩
    · omega
    · omega
    · omega
    · rcases max_choice c (c / dayLength * dayLength + openAt) with hmax | hmax
      · exact .inl (hs.symm.trans hmax)
      · right
        rw [← hs, hmax]
        exact dvd_add hday hopen'
    · rw [← he]
      exact dvd_add hday hclose'
    · rw [mem_workingTime, sameDay hv hv', hwindow, mod_dayLength, sameDay hv hv']
      constructor
      · rintro ⟨_, _, heq, hfrom, huntil⟩
        cases heq
        omega
      · intro h
        exact ⟨openAt, closeAt, rfl, by omega, by omega⟩
    · have hsame : v / dayLength = c / dayLength := sameDay (by omega) (by omega)
      refine ⟨hsame ▸ hoff, openAt, closeAt, hsame ▸ hsome, ?_, ?_⟩
      · rw [mod_dayLength, hsame]
        omega
      · rw [mod_dayLength, hsame]
        omega
    · rw [restOfDay_some, sameDay hv hv', he]
      have hmax : max v (c / dayLength * dayLength + openAt) = max v s := by omega
      rw [hmax]

theorem closed_of_none (hwindow : window hours holidays (c / dayLength) = .ok w) (hrest : restOfDay w c = none)
    {v : ℤ} (hv : c ≤ v) (hlt : v < midnightAfter c) : v ∉ workingTime hours holidays ∧ restOfDay w v = none := by
  rw [mem_workingTime, sameDay hv hlt, hwindow]
  rcases w with _ | ⟨openAt, closeAt⟩
  · refine ⟨?_, rfl⟩
    rintro ⟨_, _, heq, -⟩
    cases heq
  · rw [restOfDay_some] at hrest ⊢
    rw [sameDay hv hlt]
    split_ifs at hrest with hclosed
    refine ⟨?_, if_neg (by omega)⟩
    rintro ⟨_, _, heq, hfrom, huntil⟩
    cases heq
    rw [mod_dayLength, sameDay hv hlt] at hfrom huntil
    omega

theorem minute_dvd_midnightAfter (c : ℤ) : minute ∣ midnightAfter c := Dvd.dvd.mul_left minute_dvd_dayLength _

/-! ## What the loop adds -/

/-- The minutes are added to the working time after the cursor. -/
structure Added (hours : Dict) (holidays : Finset ℤ) (c m r : ℤ) : Prop where
  later : c ≤ r
  enough : m * minute ≤ openTime (workingTime hours holidays) c r
  under : openTime (workingTime hours holidays) c r < (m + 1) * minute
  whole : minute ∣ c → openTime (workingTime hours holidays) c r = m * minute
  within_window : WithinWindow hours holidays r

theorem Rest.openTime_eq (h : Rest hours holidays w c s e) :
    openTime (workingTime hours holidays) c (midnightAfter c) = e - s :=
  openTime_eq_of_window h.from_cursor (Int.le_of_lt h.nonempty) (Int.le_of_lt h.within_day) h.working

/-- The day of the cursor, and what comes after it. -/
theorem Added.split (h : Added hours holidays (midnightAfter c) m r) :
    openTime (workingTime hours holidays) c (midnightAfter c) +
      openTime (workingTime hours holidays) (midnightAfter c) r = openTime (workingTime hours holidays) c r :=
  openTime_add (Int.le_of_lt (lt_midnightAfter c)) h.later

/-- **What the loop adds**: exactly the minutes from a whole minute on, and less than one minute more in any case. -/
theorem advance_spec : ∀ (n : ℕ) {c m : ℤ}, 0 ≤ m → advance hours holidays n c m = .ok r →
    Added hours holidays c m r
  | 0, c, m, hm, h => by cases h
  | n + 1, c, m, hm, h => by
    rcases advance_succ_iff.mp h with ⟨w, hwindow, hrest, -, hlater⟩ | ⟨w, s, e, hwindow, hrest, -, hmore, hlater⟩ |
      ⟨w, s, e, hwindow, hrest, hfits, -, hdue⟩
    · -- nothing of the day counts
      have hadded := advance_spec n hm hlater
      have hnone : openTime (workingTime hours holidays) c (midnightAfter c) = 0 :=
        openTime_eq_zero fun v hv hlt => (closed_of_none hwindow hrest hv hlt).1
      have hsplit := hadded.split
      have heq : openTime (workingTime hours holidays) c r =
          openTime (workingTime hours holidays) (midnightAfter c) r := by omega
      refine ⟨Int.le_trans (Int.le_of_lt (lt_midnightAfter c)) hadded.later, ?_, ?_, fun _ => ?_, hadded.within_window⟩
      · rw [heq]
        exact hadded.enough
      · rw [heq]
        exact hadded.under
      · rw [heq]
        exact hadded.whole (minute_dvd_midnightAfter c)
    · -- the whole minutes of the day count
      have h' := rest_of_some hwindow hrest
      have hadded := advance_spec n (by omega) hlater
      have hday := h'.openTime_eq
      have hsplit := hadded.split
      have hrest' := hadded.whole (minute_dvd_midnightAfter c)
      refine ⟨Int.le_trans (Int.le_of_lt (lt_midnightAfter c)) hadded.later, ?_, ?_, fun haligned => ?_,
        hadded.within_window⟩
      · rw [← hsplit, hday, hrest', minute_eq]
        omega
      · rw [← hsplit, hday, hrest', minute_eq]
        omega
      · have hstart : minute ∣ s := by
          rcases h'.starts with rfl | hs
          · exact haligned
          · exact hs
        have hwhole : minute ∣ e - s := dvd_sub h'.closes hstart
        rw [← hsplit, hday, hrest', minute_eq]
        rw [minute_eq] at hwhole
        omega
    · -- the minutes end in the day
      subst hdue
      have h' := rest_of_some hwindow hrest
      have hwithin : s ≤ s + m * minute ∧ s + m * minute ≤ e := by
        rw [minute_eq] at hfits ⊢
        omega
      have hcount : openTime (workingTime hours holidays) c (s + m * minute) = m * minute := by
        have hwindow' : ∀ v, c ≤ v → v < s + m * minute →
            (v ∈ workingTime hours holidays ↔ s ≤ v ∧ v < s + m * minute) := by
          intro v hv hlt
          rw [h'.working v hv (by have := h'.within_day; omega)]
          omega
        rw [openTime_eq_of_window h'.from_cursor hwithin.1 (Int.le_refl _) hwindow']
        omega
      refine ⟨Int.le_trans h'.from_cursor hwithin.1, ?_, ?_, fun _ => hcount, h'.within_window _ hwithin.1 hwithin.2⟩
      · rw [hcount]
      · rw [hcount, minute_eq]
        omega

/-! ## The loop composes and is monotone -/

/-- Rounds that are not needed do not matter. -/
theorem advance_mono_fuel : ∀ {n n' : ℕ} {c m : ℤ}, n ≤ n' → advance hours holidays n c m = .ok r →
    advance hours holidays n' c m = .ok r
  | 0, _, c, m, _, h => by cases h
  | n + 1, 0, c, m, hn, h => by omega
  | n + 1, n' + 1, c, m, hn, h => by
    rw [advance_succ_iff] at h ⊢
    rcases h with ⟨w, hwindow, hrest, hmidnight, hlater⟩ | ⟨w, s, e, hwindow, hrest, hmidnight, hmore, hlater⟩ |
      ⟨w, s, e, hwindow, hrest, hfits, hrange, hdue⟩
    · exact .closed w hwindow hrest hmidnight (advance_mono_fuel (Nat.le_of_succ_le_succ hn) hlater)
    · exact .full w s e hwindow hrest hmidnight hmore (advance_mono_fuel (Nat.le_of_succ_le_succ hn) hlater)
    · exact .last w s e hwindow hrest hfits hrange hdue

/-- The rest of the day after a number of minutes that it holds. -/
theorem Rest.after (h : Rest hours holidays w c s e) (hm : 0 ≤ m) (hfits : m ≤ (e - s) / minute) :
    c ≤ s + m * minute ∧ s + m * minute < midnightAfter c ∧
      restOfDay w (s + m * minute) = if s + m * minute < e then some (s + m * minute, e) else none := by
  have hfrom := h.from_cursor
  have hday := h.within_day
  rw [minute_eq] at hfits ⊢
  have hafter : c ≤ s + m * 60000000 := by omega
  have hbefore : s + m * 60000000 < midnightAfter c := by omega
  have hmax : max (s + m * 60000000) s = s + m * 60000000 := by omega
  refine ⟨hafter, hbefore, ?_⟩
  rw [h.later _ hafter hbefore, hmax]

/-- **The loop composes**: from where the first minutes end, the others end where all of them do. -/
theorem advance_add {b : ℤ} (hb : 1 ≤ b) : ∀ (n : ℕ) {c a : ℤ}, 0 ≤ a → inRange c = true →
    advance hours holidays n c (a + b) = .ok r →
      ∃ mid, advance hours holidays n c a = .ok mid ∧ advance hours holidays n mid b = .ok r
  | 0, c, a, ha, hc, h => by cases h
  | n + 1, c, a, ha, hc, h => by
    rcases advance_succ_iff.mp h with ⟨w, hwindow, hrest, hmidnight, hlater⟩ |
      ⟨w, s, e, hwindow, hrest, hmidnight, hmore, hlater⟩ | ⟨w, s, e, hwindow, hrest, hfits, hrange, hdue⟩
    · obtain ⟨mid, hmid, hrest'⟩ := advance_add hb n ha hmidnight hlater
      exact ⟨mid, advance_succ_iff.mpr (.closed w hwindow hrest hmidnight hmid),
        advance_mono_fuel (Nat.le_succ n) hrest'⟩
    · have h' := rest_of_some hwindow hrest
      rcases Int.lt_or_le ((e - s) / minute) a with hless | hfits
      · -- the first minutes use up the day too
        have heq : a + b - (e - s) / minute = a - (e - s) / minute + b := by omega
        rw [heq] at hlater
        obtain ⟨mid, hmid, hrest'⟩ := advance_add hb n (by omega) hmidnight hlater
        exact ⟨mid, advance_succ_iff.mpr (.full w s e hwindow hrest hmidnight hless hmid),
          advance_mono_fuel (Nat.le_succ n) hrest'⟩
      · -- the first minutes end in the day
        obtain ⟨hafter, hbefore, hmore'⟩ := h'.after ha hfits
        have hsame := sameDay hafter hbefore
        have hnext := midnightAfter_of_sameDay hsame
        have hrange : inRange (s + a * minute) = true := by
          rw [inRange_iff] at hc hmidnight ⊢
          omega
        refine ⟨s + a * minute, advance_succ_iff.mpr (.last w s e hwindow hrest hfits hrange rfl), ?_⟩
        rw [advance_succ_iff]
        rw [← hsame] at hwindow
        rw [← hnext] at hmidnight hlater
        split_ifs at hmore' with hopen
        · refine .full w _ e hwindow hmore' hmidnight ?_ ?_
          · rw [minute_eq] at hmore ⊢
            omega
          · have heq : b - (e - (s + a * minute)) / minute = a + b - (e - s) / minute := by
              rw [minute_eq]
              omega
            rw [heq]
            exact hlater
        · have heq : a + b - (e - s) / minute = b := by
            rw [minute_eq] at hfits hopen ⊢
            omega
          rw [heq] at hlater
          exact .closed w hwindow hmore' hmidnight hlater
    · -- all of the minutes end in the day
      have h' := rest_of_some hwindow hrest
      obtain ⟨hafter, hbefore, hmore⟩ := h'.after ha (by omega)
      have hsame := sameDay hafter hbefore
      have hmid : s + a * minute < e ∧ s + a * minute ≤ r := by
        rw [minute_eq] at hfits hdue ⊢
        omega
      have hrange' : inRange (s + a * minute) = true := by
        rw [inRange_iff] at hc hrange ⊢
        omega
      refine ⟨s + a * minute, advance_succ_iff.mpr (.last w s e hwindow hrest (by omega) hrange' rfl), ?_⟩
      rw [if_pos hmid.1] at hmore
      rw [advance_succ_iff]
      refine .last w _ e (hsame ▸ hwindow) hmore ?_ hrange ?_
      · rw [minute_eq] at hfits ⊢
        omega
      · rw [← hdue, Int.add_mul]
        omega

theorem Rest.last_lt (h : Rest hours holidays w c s e) (hfits : m ≤ (e - s) / minute) :
    s + m * minute < midnightAfter c := by
  have hday := h.within_day
  rw [minute_eq] at hfits ⊢
  omega

/-- Later in a closed day. -/
theorem advance_of_closed {c' m' r' : ℤ} (hwindow : window hours holidays (c / dayLength) = .ok w)
    (hrest : restOfDay w c = none) (hle : c ≤ c') (hlt : c' < midnightAfter c)
    (h : advance hours holidays (n + 1) c' m' = .ok r') : advance hours holidays n (midnightAfter c) m' = .ok r' := by
  have hclosed := (closed_of_none hwindow hrest hle hlt).2
  have hsame := sameDay hle hlt
  rw [← midnightAfter_of_sameDay hsame]
  rw [← hsame] at hwindow
  rcases advance_succ_iff.mp h with ⟨w', hwindow', -, -, hlater⟩ | ⟨w', s', e', hwindow', hrest', -⟩ |
    ⟨w', s', e', hwindow', hrest', -⟩
  · exact hlater
  · cases hwindow.symm.trans hwindow'
    cases hclosed.symm.trans hrest'
  · cases hwindow.symm.trans hwindow'
    cases hclosed.symm.trans hrest'

/-- Later in a day of which something is left: the next day follows, with what the day leaves, or the minutes end. -/
theorem Rest.advance_cases (hwindow : window hours holidays (c / dayLength) = .ok w) (h' : Rest hours holidays w c s e)
    {c' m' r' : ℤ} (hle : c ≤ c') (hlt : c' < midnightAfter c) (h : advance hours holidays (n + 1) c' m' = .ok r') :
    (e ≤ max c' s ∧ advance hours holidays n (midnightAfter c) m' = .ok r') ∨
      ((e - max c' s) / minute < m' ∧ max c' s < e ∧
        advance hours holidays n (midnightAfter c) (m' - (e - max c' s) / minute) = .ok r') ∨
      (m' ≤ (e - max c' s) / minute ∧ max c' s < e ∧ max c' s + m' * minute = r') := by
  have hrest := h'.later c' hle hlt
  have hsame := sameDay hle hlt
  rw [← midnightAfter_of_sameDay hsame]
  rw [← hsame] at hwindow
  rcases advance_succ_iff.mp h with ⟨w', hwindow', hrest', -, hlater⟩ |
    ⟨w', s', e', hwindow', hrest', -, hmore, hlater⟩ |
    ⟨w', s', e', hwindow', hrest', hfits, -, hdue⟩
  · cases hwindow.symm.trans hwindow'
    rw [hrest'] at hrest
    split_ifs at hrest with hopen
    exact .inl ⟨Int.not_lt.mp hopen, hlater⟩
  · cases hwindow.symm.trans hwindow'
    rw [hrest'] at hrest
    split_ifs at hrest with hopen
    cases hrest
    exact .inr (.inl ⟨hmore, hopen, hlater⟩)
  · cases hwindow.symm.trans hwindow'
    rw [hrest'] at hrest
    split_ifs at hrest with hopen
    cases hrest
    exact .inr (.inr ⟨hfits, hopen, hdue⟩)

/-- **The loop is monotone** in the cursor and in the minutes, which may be negative only if the cursors are one. -/
theorem advance_mono : ∀ (n n' : ℕ) {c c' m m' r r' : ℤ}, c ≤ c' → 0 ≤ m ∨ c = c' → m ≤ m' →
    advance hours holidays n c m = .ok r → advance hours holidays n' c' m' = .ok r' → r ≤ r'
  | 0, _, c, c', m, m', r, r', _, _, _, h, _ => by cases h
  | _ + 1, 0, c, c', m, m', r, r', _, _, _, _, h' => by cases h'
  | n + 1, n' + 1, c, c', m, m', r, r', hle, hsign, hminutes, h, h' => by
    rcases Int.lt_or_le c' (midnightAfter c) with hlt | hnext
    · -- both are in the same day
      rcases advance_succ_iff.mp h with ⟨w, hwindow, hrest, -, hlater⟩ | ⟨w, s, e, hwindow, hrest, -, hmore, hlater⟩ |
        ⟨w, s, e, hwindow, hrest, hfits, -, rfl⟩
      · have hlater' := advance_of_closed hwindow hrest hle hlt h'
        exact advance_mono n n' (Int.le_refl _) (.inr rfl) hminutes hlater hlater'
      · have hday := rest_of_some hwindow hrest
        have hpos := hday.nonempty
        rw [minute_eq] at hmore hlater
        rcases hday.advance_cases hwindow hle hlt h' with ⟨-, hlater'⟩ | ⟨-, -, hlater'⟩ | ⟨hfits', hopen, -⟩
        · exact advance_mono n n' (Int.le_refl _) (.inr rfl) (by omega) hlater hlater'
        · rw [minute_eq] at hlater'
          exact advance_mono n n' (Int.le_refl _) (.inr rfl) (by omega) hlater hlater'
        · rw [minute_eq] at hfits'
          omega
      · have hday := rest_of_some hwindow hrest
        have hpos := hday.nonempty
        have hfrom := hday.from_cursor
        have hlast := hday.last_lt hfits
        rcases hday.advance_cases hwindow hle hlt h' with ⟨hclosed, hlater'⟩ | ⟨hmore', hopen, hlater'⟩ |
          ⟨hfits', hopen, rfl⟩
        · have hafter := (advance_spec n' (by omega) hlater').later
          omega
        · have hafter := (advance_spec n' (by omega) hlater').later
          omega
        · rw [minute_eq]
          omega
    · -- the first is in an earlier day
      have hm : 0 ≤ m := by
        have := lt_midnightAfter c
        omega
      have hafter := (advance_spec _ (Int.le_trans hm hminutes) h').later
      rcases advance_succ_iff.mp h with ⟨w, -, -, -, hlater⟩ | ⟨w, s, e, hwindow, hrest, -, hmore, hlater⟩ |
        ⟨w, s, e, hwindow, hrest, hfits, -, rfl⟩
      · exact advance_mono n (n' + 1) hnext (.inl hm) hminutes hlater h'
      · have hpos := (rest_of_some hwindow hrest).nonempty
        rw [minute_eq] at hmore hlater
        exact advance_mono n (n' + 1) hnext (.inl (by omega)) (by omega) hlater h'
      · have hlast := (rest_of_some hwindow hrest).last_lt hfits
        omega

end Loop

/-! ## Zones without transitions -/

section Fixed

variable {zoneInfo : String → Except ZoneFault Zone} {timezoneName : String} {businessHours : Option Dict}
  {holidays : Option (Finset ℤ)} {base : ℤ}

/-- The instant has a `datetime` in UTC. -/
def HasUtc (zoneInfo : String → Except ZoneFault Zone) (instant : ℤ) : Prop :=
  ∃ wall, toLocal zoneInfo (.aware instant) "UTC" = .ok wall

theorem toLocal_fixed (hzone : tz zoneInfo timezoneName = .ok (Zone.fixed base)) {start wall : ℤ} :
    toLocal zoneInfo (.aware start) timezoneName = .ok wall ↔
      inRange start = true ∧ inRange wall = true ∧ start + base = wall := by
  unfold toLocal ensureUtc
  rw [hzone]
  constructor
  · intro h
    obtain ⟨instant, hinstant, h⟩ := bind_eq_ok.mp h
    obtain ⟨zone, hzone', h⟩ := bind_eq_ok.mp h
    cases hzone'
    obtain ⟨hstart, rfl⟩ := datetimeOf_eq_ok.mp hinstant
    rw [Zone.wall_fixed] at h
    obtain ⟨hwall, rfl⟩ := datetimeOf_eq_ok.mp h
    exact ⟨hstart, hwall, rfl⟩
  · rintro ⟨hstart, hwall, rfl⟩
    dsimp only
    rw [datetimeOf_of_inRange hstart]
    exact datetimeOf_of_inRange hwall

/-- Where there are no transitions, the loop follows the instants. -/
theorem addBusinessMinutes_fixed (hzone : tz zoneInfo timezoneName = .ok (Zone.fixed base))
    {start minutes maxDays due : ℤ} :
    addBusinessMinutes zoneInfo timezoneName businessHours holidays (.aware start) minutes maxDays = .ok due ↔
      (inRange start = true ∧ inRange (start + base) = true ∧ HasUtc zoneInfo start ∧ HasUtc zoneInfo due) ∧
        advance (hoursOf businessHours) (holidays.getD ∅) (maxDays * 4).toNat (start + base) minutes =
          .ok (due + base) := by
  unfold addBusinessMinutes
  rw [hzone]
  constructor
  · intro h
    obtain ⟨zone, hzone', h⟩ := bind_eq_ok.mp h
    cases hzone'
    obtain ⟨wall, hwall, h⟩ := bind_eq_ok.mp h
    obtain ⟨hstart, hrange, rfl⟩ := (toLocal_fixed hzone).mp (mapError_eq_ok.mp hwall)
    obtain ⟨due', hdue, h⟩ := bind_eq_ok.mp h
    obtain ⟨utc, hutc, h⟩ := bind_eq_ok.mp h
    obtain ⟨utc', hutc', h⟩ := bind_eq_ok.mp h
    cases h
    rw [Zone.read_fixed] at hutc' ⊢
    refine ⟨⟨hstart, hrange, ⟨utc, mapError_eq_ok.mp hutc⟩, ⟨utc', mapError_eq_ok.mp hutc'⟩⟩, ?_⟩
    rw [hdue, Int.sub_add_cancel]
  · rintro ⟨⟨hstart, hrange, ⟨utc, hutc⟩, utc', hutc'⟩, hdue⟩
    have hback : (Zone.fixed base).read false (due + base) = due := by
      rw [Zone.read_fixed]
      omega
    refine bind_eq_ok.mpr ⟨Zone.fixed base, rfl, bind_eq_ok.mpr ⟨start + base, ?_, ?_⟩⟩
    · exact mapError_eq_ok.mpr ((toLocal_fixed hzone).mpr ⟨hstart, hrange, rfl⟩)
    · refine bind_eq_ok.mpr ⟨due + base, hdue, bind_eq_ok.mpr ⟨utc, mapError_eq_ok.mpr hutc, ?_⟩⟩
      rw [hback]
      exact bind_eq_ok.mpr ⟨utc', mapError_eq_ok.mpr hutc', rfl⟩

/-- The minutes are added to the working time of a zone. -/
structure AddsExactly (zone : Zone) (hours : Dict) (holidays : Finset ℤ) (start minutes due : ℤ) : Prop where
  later : start ≤ due
  enough : minutes * minute ≤ openTime {u | zone.wall u ∈ workingTime hours holidays} start due
  under : openTime {u | zone.wall u ∈ workingTime hours holidays} start due < (minutes + 1) * minute
  whole : minute ∣ zone.wall start →
    openTime {u | zone.wall u ∈ workingTime hours holidays} start due = minutes * minute
  within_window : WithinWindow hours holidays (zone.wall due)

/-- **Business time is added exactly**: but for part of the minute in which it starts. -/
theorem business_minutes_exact (hzone : tz zoneInfo timezoneName = .ok (Zone.fixed base))
    {start minutes maxDays due : ℤ}
    (hminutes : 0 ≤ minutes)
    (h : addBusinessMinutes zoneInfo timezoneName businessHours holidays (.aware start) minutes maxDays = .ok due) :
    AddsExactly (Zone.fixed base) (hoursOf businessHours) (holidays.getD ∅) start minutes due := by
  have hadded := advance_spec _ hminutes ((addBusinessMinutes_fixed hzone).mp h).2
  have hclock := openTime_shift (workingTime (hoursOf businessHours) (holidays.getD ∅)) start due base
  refine ⟨Int.le_of_add_le_add_right hadded.later, ?_, ?_, fun haligned => ?_, hadded.within_window⟩
  · exact hclock ▸ hadded.enough
  · exact hclock ▸ hadded.under
  · exact hclock ▸ hadded.whole haligned

theorem inRange_of_advance {hours : Dict} {holidays : Finset ℤ} : ∀ {n : ℕ} {c m r : ℤ},
    advance hours holidays n c m = .ok r → inRange r = true
  | 0, c, m, r, h => by cases h
  | n + 1, c, m, r, h => by
    rcases advance_succ_iff.mp h with ⟨w, -, -, -, hlater⟩ | ⟨w, s, e, -, -, -, -, hlater⟩ |
      ⟨w, s, e, -, -, -, hrange, -⟩
    · exact inRange_of_advance hlater
    · exact inRange_of_advance hlater
    · exact hrange

theorem hasUtc_iff (hutc : zoneInfo "UTC" = .ok (Zone.fixed 0)) {instant : ℤ} :
    HasUtc zoneInfo instant ↔ inRange instant = true := by
  have hzone : tz zoneInfo "UTC" = .ok (Zone.fixed 0) := by
    unfold tz
    rw [if_neg (by decide), hutc]
  unfold HasUtc
  constructor
  · rintro ⟨wall, h⟩
    exact ((toLocal_fixed hzone).mp h).1
  · intro h
    exact ⟨instant, (toLocal_fixed hzone).mpr ⟨h, h, Int.add_zero instant⟩⟩

/-! ### A Friday evening before a holiday -/

def indianTime (name : String) : Except ZoneFault Zone := .ok (Zone.fixed (if name = "UTC" then 0 else 330 * minute))

/-- Half an hour of Friday is left, and the other half comes on Monday. -/
theorem business_minutes_exact_friday :
    AddsExactly (Zone.fixed (330 * minute)) defaultBusinessHours {738953} (738952 * dayLength + 750 * minute) 60
      (738955 * dayLength + 270 * minute) :=
  business_minutes_exact (show tz indianTime "Asia/Kolkata" = .ok (Zone.fixed (330 * minute)) from rfl) (by decide)
    (show addBusinessMinutes indianTime "Asia/Kolkata" none (some {738953})
      (.aware (738952 * dayLength + 750 * minute)) 60 = .ok (738955 * dayLength + 270 * minute) by decide +kernel)

/-! ## Several additions -/

/-- The escalation comes from the policy's minutes. -/
theorem SlaPolicy.escalation_some {policy : SlaPolicy} {after : ℤ → Except SlaError ℤ} {at' : ℤ}
    (h : policy.escalation after = .ok (some at')) :
    ∃ minutes, policy.escalateAfterMinutes = some minutes ∧ after minutes = .ok at' := by
  unfold SlaPolicy.escalation at h
  split at h
  · cases h
  · rename_i minutes hminutes
    split_ifs at h with hzero
    · cases h
    · cases hafter : after minutes with
      | error e =>
        rw [hafter] at h
        cases h
      | ok at'' =>
        rw [hafter] at h
        cases h
        exact ⟨minutes, hminutes, hafter⟩

/-- **Business time composes, and is monotone**: so a policy that escalates later than it is due does so. -/
theorem business_minutes_compose (hutc : zoneInfo "UTC" = .ok (Zone.fixed 0))
    (hzone : tz zoneInfo timezoneName = .ok (Zone.fixed base)) :
    (∀ start a b maxDays due, 0 ≤ a → 1 ≤ b →
      addBusinessMinutes zoneInfo timezoneName businessHours holidays start (a + b) maxDays = .ok due →
        ∃ mid, addBusinessMinutes zoneInfo timezoneName businessHours holidays start a maxDays = .ok mid ∧
          addBusinessMinutes zoneInfo timezoneName businessHours holidays (.aware mid) b maxDays = .ok due) ∧
    (∀ start later minutes more maxDays due due', start ≤ later → 0 ≤ minutes → minutes ≤ more →
      addBusinessMinutes zoneInfo timezoneName businessHours holidays (.aware start) minutes maxDays = .ok due →
        addBusinessMinutes zoneInfo timezoneName businessHours holidays (.aware later) more maxDays = .ok due' →
          due ≤ due') ∧
    ∀ policy startedAt state minutes at',
      openSla zoneInfo timezoneName businessHours holidays policy startedAt = .ok state →
        policy.escalateAfterMinutes = some minutes → policy.targetMinutes ≤ minutes → state.escalateAt = some at' →
          state.dueAt ≤ at' := by
  refine ⟨fun start a b maxDays due ha hb h => ?_,
    fun start later minutes more maxDays due due' hle hm hmore h h' => ?_,
    fun policy startedAt state minutes at' hopen hminutes hle hat => ?_⟩
  · cases start with
    | naive wall =>
      obtain ⟨zone, -, h⟩ := bind_eq_ok.mp h
      obtain ⟨cursor, hcursor, -⟩ := bind_eq_ok.mp h
      cases hcursor
    | aware start =>
      obtain ⟨⟨hstart, hwall, hutc', hutc''⟩, hdue⟩ := (addBusinessMinutes_fixed hzone).mp h
      obtain ⟨mid, hmid, hrest⟩ := advance_add hb _ ha hwall hdue
      have hafter := (advance_spec _ ha hmid).later
      have hbefore := (advance_spec _ (by omega) hrest).later
      have hwall' := inRange_of_advance hmid
      have hback : mid - base + base = mid := Int.sub_add_cancel mid base
      have hrange : inRange (mid - base) = true := by
        rw [hasUtc_iff hutc, inRange_iff] at hutc''
        rw [inRange_iff] at hstart ⊢
        omega
      have hmid' : HasUtc zoneInfo (mid - base) := (hasUtc_iff hutc).mpr hrange
      refine ⟨mid - base, (addBusinessMinutes_fixed hzone).mpr ⟨⟨hstart, hwall, hutc', hmid'⟩, ?_⟩,
        (addBusinessMinutes_fixed hzone).mpr ⟨⟨hrange, ?_, hmid', hutc''⟩, ?_⟩⟩
      · rw [hback]
        exact hmid
      · rw [hback]
        exact hwall'
      · rw [hback]
        exact hrest
  · obtain ⟨-, hdue⟩ := (addBusinessMinutes_fixed hzone).mp h
    obtain ⟨-, hdue'⟩ := (addBusinessMinutes_fixed hzone).mp h'
    exact Int.le_of_add_le_add_right
      (advance_mono _ _ (Int.add_le_add_right hle base) (.inl hm) hmore hdue hdue')
  · obtain ⟨due, hdue, hopen⟩ := bind_eq_ok.mp hopen
    obtain ⟨escalate, hescalate, hopen⟩ := bind_eq_ok.mp hopen
    cases hopen
    cases hat
    obtain ⟨minutes', hminutes', hat⟩ := SlaPolicy.escalation_some hescalate
    cases hminutes.symm.trans hminutes'
    dsimp only at hdue hat ⊢
    split_ifs at hdue hat with hbusiness
    · obtain ⟨-, hdue⟩ := (addBusinessMinutes_fixed hzone).mp hdue
      obtain ⟨-, hat⟩ := (addBusinessMinutes_fixed hzone).mp hat
      exact Int.le_of_add_le_add_right (advance_mono _ _ (Int.le_refl _) (.inr rfl) hle hdue hat)
    · obtain ⟨-, rfl⟩ := datetimeAt_eq_ok.mp hdue
      obtain ⟨-, rfl⟩ := datetimeAt_eq_ok.mp hat
      rw [minute_eq]
      omega

/-- The half hour that is left of Friday, and the other half from its end. -/
theorem business_minutes_compose_friday :
    (∃ mid, addBusinessMinutes indianTime "Asia/Kolkata" none (some {738953})
        (.aware (738952 * dayLength + 750 * minute)) 30 = .ok mid ∧
      addBusinessMinutes indianTime "Asia/Kolkata" none (some {738953}) (.aware mid) 30 =
        .ok (738955 * dayLength + 270 * minute)) ∧
      738952 * dayLength + 780 * minute ≤ 738955 * dayLength + 270 * minute := by
  have h := @business_minutes_compose indianTime "Asia/Kolkata" none (some {738953}) (330 * minute) rfl rfl
  refine ⟨h.1 _ 30 30 90 _ (by decide) (by decide) (by decide +kernel), ?_⟩
  exact h.2.1 (738952 * dayLength + 750 * minute) (738952 * dayLength + 750 * minute) 30 60 90 _ _
    (by decide) (by decide) (by decide) (by decide +kernel) (by decide +kernel)

end Fixed

/-! ## The last quarter -/

/-- How severe a status is while the case is open. -/
def SlaStatus.severity : SlaStatus → ℕ
  | .onTrack => 0
  | .atRisk => 1
  | .breached => 2
  | .escalated => 3
  | .met => 0

/-- The last quarter of the time allowed, in whole minutes and at least one. -/
def SlaState.lastQuarter (s : SlaState) : ℤ := max 1 ((s.dueAt - s.startedAt) / (4 * minute)) * minute

/-- The status gets worse with time, and warns in the last quarter of the time allowed. -/
structure WarnsInLastQuarter (s : SlaState) : Prop where
  mono : ∀ utcnow now later, now ≤ later → ∃ a b, s.status utcnow (some now) = .ok a ∧
    s.status utcnow (some later) = .ok b ∧ a.severity ≤ b.severity
  atRisk_iff : ∀ utcnow now,
    s.status utcnow (some now) = .ok .atRisk ↔ now ≤ s.dueAt ∧ s.dueAt - s.lastQuarter < now

section Warnings

variable {s : SlaState}

theorem status_eq (hopen : s.resolvedAt = none) {utcnow now : ℤ} : s.status utcnow (some now) =
    if s.dueAt < now then .ok (if s.escalateAt.any (now > ·) then .escalated else .breached)
    else if inRange s.threshold then .ok (if s.threshold < now then .atRisk else .onTrack)
    else .error (.time .overflowError) := by
  unfold SlaState.status
  rw [hopen]
  by_cases hlate : s.dueAt < now
  · rw [if_pos hlate]
    exact if_pos hlate
  · rw [if_neg hlate]
    refine (if_neg hlate).trans ?_
    unfold datetimeAt
    split_ifs with hrange hrisk
    · exact congrArg Except.ok (if_pos hrisk)
    · exact congrArg Except.ok (if_neg hrisk)
    · rfl

/-- The threshold is that of the last quarter, if the time allowed is less than a day. -/
theorem threshold_eq (hle : s.startedAt ≤ s.dueAt) (hday : s.dueAt - s.startedAt < dayLength) :
    s.threshold = s.dueAt - s.lastQuarter := by
  unfold SlaState.threshold SlaState.lastQuarter
  have hsecond : second = 1000000 := rfl
  rw [dayLength_eq] at hday ⊢
  rw [minute_eq, hsecond]
  omega

theorem past_mono {at' : Option ℤ} {now later : ℤ} (hle : now ≤ later) (h : at'.any (now > ·) = true) :
    at'.any (later > ·) = true := by
  cases at' with
  | none => cases h
  | some t =>
    rw [Option.any_some, decide_eq_true_iff] at h ⊢
    exact Int.lt_of_lt_of_le h hle

/-- While the case is open its status gets worse only. -/
theorem status_mono (hopen : s.resolvedAt = none) (hrange : inRange s.threshold = true) {utcnow now later : ℤ}
    (hle : now ≤ later) : ∃ a b, s.status utcnow (some now) = .ok a ∧ s.status utcnow (some later) = .ok b ∧
      a.severity ≤ b.severity := by
  rw [status_eq hopen, status_eq hopen, if_pos hrange, if_pos hrange]
  rcases Int.lt_or_le s.dueAt now with hlate | hdue
  · rw [if_pos hlate, if_pos (Int.lt_of_lt_of_le hlate hle)]
    refine ⟨_, _, rfl, rfl, ?_⟩
    by_cases hescalated : s.escalateAt.any (now > ·) = true
    · rw [if_pos hescalated, if_pos (past_mono hle hescalated)]
    · rw [if_neg hescalated]
      split_ifs <;> decide
  · rw [if_neg (Int.not_lt.mpr hdue)]
    rcases Int.lt_or_le s.dueAt later with hlate | hdue'
    · rw [if_pos hlate]
      refine ⟨_, _, rfl, rfl, ?_⟩
      split_ifs <;> decide
    · rw [if_neg (Int.not_lt.mpr hdue')]
      refine ⟨_, _, rfl, rfl, ?_⟩
      by_cases hrisk : s.threshold < now
      · rw [if_pos hrisk, if_pos (Int.lt_of_lt_of_le hrisk hle)]
      · rw [if_neg hrisk]
        exact Nat.zero_le _

theorem atRisk_iff (hopen : s.resolvedAt = none) {utcnow now : ℤ} :
    s.status utcnow (some now) = .ok .atRisk ↔ now ≤ s.dueAt ∧ inRange s.threshold = true ∧ s.threshold < now := by
  rw [status_eq hopen]
  split_ifs with hlate hescalated hrange hrisk
  · exact iff_of_false (fun h => by cases h) fun h => Int.not_le.mpr hlate h.1
  · exact iff_of_false (fun h => by cases h) fun h => Int.not_le.mpr hlate h.1
  · exact iff_of_true rfl ⟨Int.not_lt.mp hlate, hrange, hrisk⟩
  · exact iff_of_false (fun h => by cases h) fun h => hrisk h.2.2
  · exact iff_of_false (fun h => by cases h) fun h => hrange h.2.1

/-- **The warning comes in the last quarter** exactly if the time allowed is less than a day. -/
theorem warnings_iff (hopen : s.resolvedAt = none) (hstarted : inRange s.startedAt = true)
    (hdue : inRange s.dueAt = true) (hle : s.startedAt ≤ s.dueAt) :
    WarnsInLastQuarter s ↔ s.dueAt - s.startedAt < dayLength ∧ minute ≤ s.dueAt := by
  rw [inRange_iff] at hstarted hdue
  constructor
  · intro h
    have hatDue : s.dueAt ≤ s.dueAt ∧ s.dueAt - s.lastQuarter < s.dueAt := by
      unfold SlaState.lastQuarter
      rw [minute_eq]
      omega
    obtain ⟨-, hrange, -⟩ := (atRisk_iff hopen).mp ((h.atRisk_iff 0 _).mpr hatDue)
    rw [inRange_iff] at hrange
    refine ⟨?_, ?_⟩
    · -- of a longer time, the first moment of the last quarter is missed
      by_contra hlong
      have hfirst : s.dueAt - s.lastQuarter + 1 ≤ s.dueAt ∧
          s.dueAt - s.lastQuarter < s.dueAt - s.lastQuarter + 1 := by omega
      obtain ⟨-, -, hearly⟩ := (atRisk_iff hopen).mp ((h.atRisk_iff 0 _).mpr hfirst)
      unfold SlaState.threshold SlaState.lastQuarter at hearly
      have hsecond : second = 1000000 := rfl
      rw [dayLength_eq] at hlong hearly
      rw [minute_eq, hsecond] at hearly
      omega
    · unfold SlaState.threshold at hrange
      rw [minute_eq] at hrange ⊢
      omega
  · rintro ⟨hday, hminute⟩
    have hthreshold := threshold_eq hle hday
    have hrange : inRange s.threshold = true := by
      rw [hthreshold, inRange_iff]
      unfold SlaState.lastQuarter
      rw [minute_eq] at hminute ⊢
      omega
    refine ⟨fun utcnow now later h => status_mono hopen hrange h, fun utcnow now => ?_⟩
    rw [atRisk_iff hopen, hthreshold]
    rw [hthreshold] at hrange
    exact ⟨fun h => ⟨h.1, h.2.2⟩, fun h => ⟨h.1, hrange, h.2⟩⟩

end Warnings

/-- A case for which so much time is allowed. -/
def SlaState.allowing (time : ℤ) : SlaState where
  policy := "approval_response"
  startedAt := 738952 * dayLength
  dueAt := 738952 * dayLength + time

theorem warnings_iff_hour : WarnsInLastQuarter (.allowing (60 * minute)) :=
  (warnings_iff rfl (by decide) (by decide) (by decide)).mpr ⟨by decide, by decide⟩

/-- Ten minutes before two days end, nothing is at risk. -/
theorem twoDays_unwarned :
    (SlaState.allowing (2 * dayLength)).status 0 (some (738954 * dayLength - 10 * minute)) = .ok .onTrack ∧
      ¬WarnsInLastQuarter (.allowing (2 * dayLength)) := by
  refine ⟨by decide, fun h => ?_⟩
  have hrisk := (h.atRisk_iff 0 (738954 * dayLength - 10 * minute)).mpr ⟨by decide, by decide⟩
  exact absurd hrisk (by decide)

end RevenueOS.Crm
