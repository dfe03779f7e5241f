import RevenueOS.Lib.OrderBy
import RevenueOS.Shared.Timeutil
import Mathlib.Data.Finset.Basic
import Mathlib.Tactic.Ring

/-!
# RevenueOS.Crm.SlotGeneration — the slots of a day that may be offered

`compute_slots` (`domain/appointments/slots.py`).  `zone` is the zone of `timezone_name`, `moment` the instant of
`now`; days are numbered from the year 1, and the day 0 is a Monday.

* `offer_of_occurs`, `offer_of_skipped`: what a minute of a window is offered as.
* `slots_exact_iff`: the slots are those that may be booked, once each, exactly if no two windows of the day share one,
  the zone does not skip a start for a day or more, and no time that is computed leaves the years of a `datetime`.
-/

namespace RevenueOS.Crm.SlotGeneration

open RevenueOS.Lib RevenueOS.Shared

structure WorkingWindow where
  /-- 0 is Monday. -/
  dayOfWeek : ℤ
  startMinute : ℤ
  endMinute : ℤ
  start_nonneg : 0 ≤ startMinute
  end_le : endMinute ≤ 24 * 60

structure Busy where
  startAt : ℤ
  endAt : ℤ

structure SlotRules where
  durationMinutes : ℤ := 30
  bufferBeforeMinutes : ℤ := 0
  bufferAfterMinutes : ℤ := 0
  capacity : ℤ := 1
  granularityMinutes : ℤ := 15
  minNoticeMinutes : ℤ := 60
  maxAdvanceDays : ℤ := 60
  duration_pos : 0 < durationMinutes := by decide
  granularity_pos : 0 < granularityMinutes := by decide

structure Slot where
  startAt : ℤ
  endAt : ℤ
  remainingCapacity : ℤ
deriving DecidableEq

/-- `_overlaps`. -/
def overlaps (aStart aEnd bStart bEnd : ℤ) : Bool := aStart < bEnd && bStart < aEnd

section ComputeSlots

variable (zone : Zone) (day : ℤ) (windows : List WorkingWindow) (busy : List Busy) (rules : SlotRules)
  (holidays : Finset ℤ) (moment : ℤ)

def dayWindows : List WorkingWindow := windows.filter (·.dayOfWeek = day % 7)

/-- `earliest`. -/
def earliest : ℤ := moment + rules.minNoticeMinutes * minute

/-- A slot between its guards, if there is the notice and capacity is left. -/
def slotBetween (startAt endAt guardStart guardEnd : ℤ) : Option Slot :=
  if startAt ≥ earliest rules moment then
    let taken := busy.countP fun b => overlaps guardStart guardEnd b.startAt b.endAt
    let remaining := rules.capacity - taken
    if remaining > 0 then some { startAt := startAt, endAt := endAt, remainingCapacity := remaining } else none
  else none

/-- The slot from a start. -/
def slotAt (startAt : ℤ) : Except TimeError (Option Slot) := do
  let endAt ← datetimeOf (startAt + rules.durationMinutes * minute)
  let guardStart ← datetimeOf (startAt - rules.bufferBeforeMinutes * minute)
  let guardEnd ← datetimeOf (endAt + rules.bufferAfterMinutes * minute)
  .ok (slotBetween busy rules moment startAt endAt guardStart guardEnd)

/-- A round of the loop: the slot that starts at a minute of the day, if it is offered. -/
def offer (cursor : ℤ) : Except TimeError (Option Slot) := do
  let startLocal ← timeOfDay (cursor / 60) (cursor % 60)
  let startAt ← resolveLocalInstant zone (day * dayLength + startLocal)
  let back ← datetimeOf (zone.wall startAt)
  -- a local time that does not exist is skipped
  if back % dayLength ≠ startLocal then .ok none else slotAt busy rules moment startAt

/-- The `while` loop over a window. -/
def windowSlots (window : WorkingWindow) : ℕ → ℤ → Except TimeError (List Slot)
  | 0, _ => .ok []
  | n + 1, cursor =>
    if cursor + rules.durationMinutes ≤ window.endMinute then do
      let slot ← offer zone day busy rules moment cursor
      let rest ← windowSlots window n (cursor + rules.granularityMinutes)
      .ok (slot.toList ++ rest)
    else .ok []

/-- So many rounds are enough for the window. -/
def rounds (window : WorkingWindow) : ℕ := (window.endMinute - window.startMinute).toNat + 1

/-- What a `date` can hold. -/
def isDate (n : ℤ) : Bool := 0 ≤ n && n < 3652059

/-- The last day that is offered. -/
def lastDay : Except TimeError ℤ := do
  let today ← datetimeOf (zone.wall moment)
  let last := today / dayLength + rules.maxAdvanceDays
  if isDate last then .ok last else .error .overflowError

def computeSlots : Except TimeError (List Slot) :=
  if day ∈ holidays then .ok []
  else do
    let last ← lastDay zone rules moment
    if day > last then .ok []
    else do
      let _ ← datetimeOf (earliest rules moment)
      let slots ← (dayWindows day windows).mapM fun window =>
        windowSlots zone day busy rules moment window (rounds window) window.startMinute
      .ok ((OrderBy.asc Slot.startAt).sort slots.flatten)

/-! ## What may be booked -/

/-- A minute at which a slot of the window may start. -/
def Start (window : WorkingWindow) (m : ℤ) : Prop :=
  ∃ k : ℕ, m = window.startMinute + k * rules.granularityMinutes ∧ m + rules.durationMinutes ≤ window.endMinute

/-- The day is open for booking. -/
def DayOpen : Prop := day ∉ holidays ∧ day ≤ zone.wall moment / dayLength + rules.maxAdvanceDays

/-- How many of the busy intervals overlap the slot that starts then, with its buffers. -/
def overlapping (startAt : ℤ) : ℕ :=
  (busy.filter fun b => startAt - rules.bufferBeforeMinutes * minute < b.endAt ∧
    b.startAt < startAt + rules.durationMinutes * minute + rules.bufferAfterMinutes * minute).length

/-- A slot that may be booked: a minute that occurs twice stands for its later occurrence. -/
structure Bookable (slot : Slot) : Prop where
  dayOpen : DayOpen zone day rules holidays moment
  starts : ∃ window ∈ windows, window.dayOfWeek = day % 7 ∧ ∃ m, Start rules window m ∧
    IsGreatest {u | zone.wall u = day * dayLength + m * minute} slot.startAt
  notice : moment + rules.minNoticeMinutes * minute ≤ slot.startAt
  ends : slot.endAt = slot.startAt + rules.durationMinutes * minute
  remaining : slot.remainingCapacity = rules.capacity - overlapping busy rules slot.startAt
  free : 0 < slot.remainingCapacity

/-- The slots are those that may be booked, in order and once each. -/
def SlotsExact : Prop :=
  ∃ slots, computeSlots zone day windows busy rules holidays moment = .ok slots ∧
    slots.Pairwise (fun a b => a.startAt < b.startAt) ∧
      ∀ slot, slot ∈ slots ↔ Bookable zone day windows busy rules holidays moment slot

/-- There is the notice, and capacity is left, for a slot that starts then. -/
def Free (startAt : ℤ) : Prop :=
  moment + rules.minNoticeMinutes * minute ≤ startAt ∧ overlapping busy rules startAt < rules.capacity

/-- A minute that the zone skips is followed, within the day, by one that it does not, a whole number of quarters of an
hour later; if that is a whole day later, nothing is free then. -/
def SkipsPassed (m : ℤ) : Prop :=
  ¬zone.Occurs (day * dayLength + m * minute) →
    (∃ k : ℕ, 1 ≤ k ∧ k < 24 * 4 ∧ zone.Occurs (day * dayLength + m * minute + k * (15 * minute))) ∨
      (zone.Occurs ((day + 1) * dayLength + m * minute) ∧
        ∀ u, IsLeast {v | zone.wall v = (day + 1) * dayLength + m * minute} u → ¬Free busy rules moment u)

def AllPassed : Prop :=
  ∀ window ∈ dayWindows day windows, ∀ m, Start rules window m → SkipsPassed zone day busy rules moment m

/-- The end of a slot and its guards are in the years of a `datetime`. -/
structure SlotFits (startAt : ℤ) : Prop where
  endAt : inRange (startAt + rules.durationMinutes * minute) = true
  guardStart : inRange (startAt - rules.bufferBeforeMinutes * minute) = true
  guardEnd : inRange (startAt + rules.durationMinutes * minute + rules.bufferAfterMinutes * minute) = true

/-- So is all that is computed of a minute: the conversions of its local time, of the later occurrence, or of the
quarters of an hour up to the first that exists, and the slot from there. -/
structure StartFits (m : ℤ) : Prop where
  converts : Converts zone (day * dayLength + m * minute)
  later : zone.Occurs (day * dayLength + m * minute) →
    inRange (zone.read true (day * dayLength + m * minute)) = true ∧
      SlotFits rules (zone.read true (day * dayLength + m * minute))
  quarters : ¬zone.Occurs (day * dayLength + m * minute) → ∀ k : ℕ, 1 ≤ k → k ≤ 24 * 4 →
    (∀ j : ℕ, 1 ≤ j → j < k → ¬zone.Occurs (day * dayLength + m * minute + j * (15 * minute))) →
      Probes zone (day * dayLength + m * minute + k * (15 * minute))
  dayAfter : ¬zone.Occurs (day * dayLength + m * minute) →
    (∀ j : ℕ, 1 ≤ j → j < 24 * 4 → ¬zone.Occurs (day * dayLength + m * minute + j * (15 * minute))) →
      ∀ u, IsLeast {v | zone.wall v = (day + 1) * dayLength + m * minute} u → SlotFits rules u

def AllFit : Prop := ∀ window ∈ dayWindows day windows, ∀ m, Start rules window m → StartFits zone day rules m

/-- The days before the loop are in the years of a `datetime`. -/
def DaysFit : Prop :=
  inRange (zone.wall moment) = true ∧ isDate (zone.wall moment / dayLength + rules.maxAdvanceDays) = true

/-- No slot that is free starts at a minute of two windows. -/
def WindowsApart : Prop :=
  (dayWindows day windows).Pairwise fun a b => ∀ m, Start rules a m → Start rules b m →
    ∀ u, IsGreatest {v | zone.wall v = day * dayLength + m * minute} u → ¬Free busy rules moment u

end ComputeSlots

/-! ## What a minute is offered as -/

section Offers

variable {zone : Zone} {day : ℤ} {windows : List WorkingWindow} {busy : List Busy} {rules : SlotRules}
  {holidays : Finset ℤ} {moment m : ℤ}

theorem timeOfDay_minutes (hpos : 0 ≤ m) (hlt : m < 24 * 60) : timeOfDay (m / 60) (m % 60) = .ok (m * minute) := by
  have hint : (cInt (m / 60) && cInt (m % 60)) = true := by
    unfold cInt
    rw [Bool.and_eq_true, Bool.and_eq_true, Bool.and_eq_true, decide_eq_true_iff, decide_eq_true_iff,
      decide_eq_true_iff,
      decide_eq_true_iff]
    omega
  unfold timeOfDay
  rw [hint]
  have hwhole : m / 60 * 60 + m % 60 = m := by omega
  rw [if_neg (by decide), if_neg (by omega), if_neg (by omega), hwhole]

theorem Start.bounds {window : WorkingWindow} (h : Start rules window m) : 0 ≤ m ∧ m < 24 * 60 := by
  obtain ⟨k, hm, hend⟩ := h
  have hstart := window.start_nonneg
  have hlast := window.end_le
  have hduration := rules.duration_pos
  have hsteps : 0 ≤ k * rules.granularityMinutes :=
    Int.mul_nonneg (Int.natCast_nonneg k) (Int.le_of_lt rules.granularity_pos)
  omega

/-- The slot from a start, wherever its guards are. -/
def freeSlot (busy : List Busy) (rules : SlotRules) (moment startAt : ℤ) : Option Slot :=
  slotBetween busy rules moment startAt (startAt + rules.durationMinutes * minute)
    (startAt - rules.bufferBeforeMinutes * minute)
    (startAt + rules.durationMinutes * minute + rules.bufferAfterMinutes * minute)

theorem slotAt_eq_ok {startAt : ℤ} {offered : Option Slot} : slotAt busy rules moment startAt = .ok offered ↔
    SlotFits rules startAt ∧ offered = freeSlot busy rules moment startAt := by
  unfold slotAt
  simp only [bind_eq_ok, datetimeOf_eq_ok]
  constructor
  · rintro ⟨_, ⟨hend, rfl⟩, _, ⟨hstart, rfl⟩, _, ⟨hguard, rfl⟩, h⟩
    exact ⟨⟨hend, hstart, hguard⟩, (Except.ok.inj h).symm⟩
  · rintro ⟨⟨hend, hstart, hguard⟩, rfl⟩
    exact ⟨_, ⟨hend, rfl⟩, _, ⟨hstart, rfl⟩, _, ⟨hguard, rfl⟩, rfl⟩

/-- The slot of a minute that exists. -/
def slotOf (zone : Zone) (day : ℤ) (busy : List Busy) (rules : SlotRules) (moment m : ℤ) : Option Slot :=
  let w := day * dayLength + m * minute
  if zone.wall (zone.read false w) = w then freeSlot busy rules moment (zone.read true w) else none

theorem slotOf_of_occurs (h : zone.Occurs (day * dayLength + m * minute)) :
    slotOf zone day busy rules moment m = freeSlot busy rules moment (zone.read true (day * dayLength + m * minute)) :=
  if_pos (Zone.wall_read_iff.mpr h)

theorem slotOf_of_skipped (h : ¬zone.Occurs (day * dayLength + m * minute)) :
    slotOf zone day busy rules moment m = none :=
  if_neg fun hread => h (Zone.wall_read_iff.mp hread)

theorem offer_eq (hpos : 0 ≤ m) (hlt : m < 24 * 60) : offer zone day busy rules moment m =
    (resolveLocalInstant zone (day * dayLength + m * minute) >>= fun startAt =>
      datetimeOf (zone.wall startAt) >>= fun back =>
        if back % dayLength ≠ m * minute then .ok none else slotAt busy rules moment startAt) := by
  unfold offer
  rw [timeOfDay_minutes hpos hlt]
  rfl

theorem clock_mod (hpos : 0 ≤ m) (hlt : m < 24 * 60) : (day * dayLength + m * minute) % dayLength = m * minute := by
  rw [dayLength_eq, minute_eq]
  omega

/-- What a minute that exists is offered as. -/
theorem offer_of_occurs (hpos : 0 ≤ m) (hlt : m < 24 * 60) (h : zone.Occurs (day * dayLength + m * minute))
    {offered : Option Slot} : offer zone day busy rules moment m = .ok offered ↔
      StartFits zone day rules m ∧ offered = slotOf zone day busy rules moment m := by
  have hwall : zone.wall (zone.read true (day * dayLength + m * minute)) = day * dayLength + m * minute :=
    (Zone.last_read h).1.1
  have hsame : ¬(day * dayLength + m * minute) % dayLength ≠ m * minute := by
    rw [clock_mod hpos hlt]
    exact not_not.mpr rfl
  rw [offer_eq hpos hlt, slotOf_of_occurs h]
  simp only [bind_eq_ok, resolve_of_occurs h, datetimeOf_eq_ok]
  constructor
  · rintro ⟨_, ⟨⟨hconverts, hlater⟩, rfl⟩, _, ⟨-, rfl⟩, hoffer⟩
    rw [hwall, if_neg hsame] at hoffer
    obtain ⟨hfits, rfl⟩ := slotAt_eq_ok.mp hoffer
    exact ⟨⟨hconverts, fun _ => ⟨hlater, hfits⟩, fun hskipped => absurd h hskipped, fun hskipped => absurd h hskipped⟩,
      rfl⟩
  · rintro ⟨hstart, rfl⟩
    obtain ⟨hlater, hfits⟩ := hstart.later h
    have hback := hstart.converts.2
    rw [Zone.wall_read_iff.mpr h] at hback
    refine ⟨_, ⟨⟨hstart.converts, hlater⟩, rfl⟩, _, ⟨?_, rfl⟩, ?_⟩
    · rw [hwall]
      exact hback
    · rw [hwall, if_neg hsame]
      exact slotAt_eq_ok.mpr ⟨hfits, rfl⟩

theorem freeSlot_eq_some_iff {startAt : ℤ} {slot : Slot} : freeSlot busy rules moment startAt = some slot ↔
    slot.startAt = startAt ∧ moment + rules.minNoticeMinutes * minute ≤ slot.startAt ∧
      slot.endAt = slot.startAt + rules.durationMinutes * minute ∧
      slot.remainingCapacity = rules.capacity - overlapping busy rules slot.startAt ∧ 0 < slot.remainingCapacity := by
  have hcount : busy.countP (fun b => overlaps (startAt - rules.bufferBeforeMinutes * minute)
      (startAt + rules.durationMinutes * minute + rules.bufferAfterMinutes * minute) b.startAt b.endAt) =
        overlapping busy rules startAt := by
    rw [List.countP_eq_length_filter]
    refine congrArg List.length (List.filter_congr fun b _ => ?_)
    unfold overlaps
    rw [Bool.decide_and]
  unfold freeSlot slotBetween earliest
  dsimp only
  rw [hcount]
  constructor
  · intro h
    split_ifs at h with hnotice hfree
    cases h
    exact ⟨rfl, hnotice, rfl, rfl, hfree⟩
  · rintro ⟨rfl, hnotice, hends, hremaining, hfree⟩
    rw [if_pos hnotice, ← hremaining, if_pos hfree, ← hends]

theorem freeSlot_eq_none_iff {startAt : ℤ} : freeSlot busy rules moment startAt = none ↔
    ¬Free busy rules moment startAt := by
  rw [Option.eq_none_iff_forall_ne_some]
  constructor
  · rintro h ⟨hnotice, hfree⟩
    let slot : Slot := ⟨startAt, startAt + rules.durationMinutes * minute,
      rules.capacity - overlapping busy rules startAt⟩
    exact h slot (freeSlot_eq_some_iff.mpr ⟨rfl, hnotice, rfl, rfl, Int.sub_pos_of_lt hfree⟩)
  · intro h slot hslot
    obtain ⟨rfl, hnotice, hends, hremaining, hfree⟩ := freeSlot_eq_some_iff.mp hslot
    rw [hremaining] at hfree
    exact h ⟨hnotice, Int.lt_of_sub_pos hfree⟩

/-- What a skipped minute is offered as: the slot of the first quarter that exists, if that has the same time. -/
theorem offer_of_skipped (hpos : 0 ≤ m) (hlt : m < 24 * 60) (h : ¬zone.Occurs (day * dayLength + m * minute))
    {offered : Option Slot} : offer zone day busy rules moment m = .ok offered ↔
      Converts zone (day * dayLength + m * minute) ∧ ∃ k : ℕ, 1 ≤ k ∧ k ≤ 24 * 4 ∧
        (∀ j : ℕ, 1 ≤ j → j < k → ¬zone.Occurs (day * dayLength + m * minute + j * (15 * minute))) ∧
        (∀ j : ℕ, 1 ≤ j → j ≤ k → Probes zone (day * dayLength + m * minute + j * (15 * minute))) ∧
        zone.Occurs (day * dayLength + m * minute + k * (15 * minute)) ∧
        if k = 24 * 4 then
          SlotFits rules (zone.read false (day * dayLength + m * minute + k * (15 * minute))) ∧
            offered = freeSlot busy rules moment (zone.read false (day * dayLength + m * minute + k * (15 * minute)))
        else offered = none := by
  have hclock : ∀ k : ℕ, 1 ≤ k → k ≤ 24 * 4 →
      zone.Occurs (day * dayLength + m * minute + k * (15 * minute)) →
        (zone.wall (zone.read false (day * dayLength + m * minute + k * (15 * minute))) % dayLength = m * minute ↔
          k = 24 * 4) := by
    intro k hk hn hoccurs
    rw [Zone.wall_read_iff.mpr hoccurs, dayLength_eq, minute_eq]
    omega
  rw [offer_eq hpos hlt]
  simp only [bind_eq_ok, resolve_of_skipped h, datetimeOf_eq_ok]
  constructor
  · rintro ⟨u, ⟨hconverts, hu⟩, _, ⟨-, rfl⟩, hoffer⟩
    obtain ⟨k, hk, hn, hskipped, hprobes, hoccurs, rfl⟩ := nextValid_eq_ok_iff.mp hu
    refine ⟨hconverts, k, hk, hn, hskipped, hprobes, hoccurs, ?_⟩
    split_ifs at hoffer with hsame
    · rw [if_neg fun hlast => hsame ((hclock k hk hn hoccurs).mpr hlast)]
      exact (Except.ok.inj hoffer).symm
    · rw [if_pos ((hclock k hk hn hoccurs).mp (not_not.mp hsame))]
      exact slotAt_eq_ok.mp hoffer
  · rintro ⟨hconverts, k, hk, hn, hskipped, hprobes, hoccurs, hoffered⟩
    refine ⟨_, ⟨hconverts, nextValid_eq_ok_iff.mpr ⟨k, hk, hn, hskipped, hprobes, hoccurs, rfl⟩⟩, _,
      ⟨(hprobes k hk (Nat.le_refl k)).2.2, rfl⟩, ?_⟩
    split_ifs at hoffered with hlast
    · rw [if_neg (not_not.mpr ((hclock k hk hn hoccurs).mpr hlast))]
      exact slotAt_eq_ok.mpr hoffered
    · rw [if_pos fun hsame => hlast ((hclock k hk hn hoccurs).mp hsame), hoffered]

theorem dayAfter_eq : day * dayLength + m * minute + (24 * 4 : ℕ) * (15 * minute) =
    (day + 1) * dayLength + m * minute := by
  have hday : dayLength = (24 * 4 : ℕ) * (15 * minute) := rfl
  rw [Int.add_mul, Int.one_mul, ← hday]
  omega

/-- A skipped minute is not offered exactly if another one is in time, or nothing is free. -/
theorem offer_none_iff (hpos : 0 ≤ m) (hlt : m < 24 * 60) (h : ¬zone.Occurs (day * dayLength + m * minute)) :
    offer zone day busy rules moment m = .ok none ↔
      SkipsPassed zone day busy rules moment m ∧ StartFits zone day rules m := by
  rw [offer_of_skipped hpos hlt h]
  constructor
  · rintro ⟨hconverts, k, hk, hn, hskipped, hprobes, hoccurs, hnone⟩
    have hlast : ∀ {n : ℕ}, 1 ≤ k → (∀ j : ℕ, 1 ≤ j → j < n →
        ¬zone.Occurs (day * dayLength + m * minute + j * (15 * minute))) → n ≤ k :=
      fun hk hbefore => Nat.not_lt.mp fun hlt => hbefore k hk hlt hoccurs
    refine ⟨fun _ => ?_, hconverts, fun hoccurs => absurd hoccurs h,
      fun _ n hpos _ hbefore => hprobes n hpos (hlast hk hbefore), fun _ hbefore u hu => ?_⟩
    · split_ifs at hnone with hday
      · rw [hday, dayAfter_eq] at hnone hoccurs
        refine .inr ⟨hoccurs, fun u hu => ?_⟩
        rw [← freeSlot_eq_none_iff, hu.unique (Zone.first_read hoccurs), hnone.2]
      · exact .inl ⟨k, hk, by omega, hoccurs⟩
    · have hday : k = 24 * 4 := Nat.le_antisymm hn (hlast hk hbefore)
      rw [if_pos hday, hday, dayAfter_eq] at hnone
      rw [hday, dayAfter_eq] at hoccurs
      rw [hu.unique (Zone.first_read hoccurs)]
      exact hnone.1
  · rintro ⟨hpassed, hfits⟩
    have hfirst : ∃ k : ℕ, 1 ≤ k ∧ zone.Occurs (day * dayLength + m * minute + k * (15 * minute)) := by
      rcases hpassed h with ⟨k, hk, -, hoccurs⟩ | ⟨hoccurs, -⟩
      · exact ⟨k, hk, hoccurs⟩
      · exact ⟨24 * 4, by decide, dayAfter_eq ▸ hoccurs⟩
    classical
    obtain ⟨hk, hoccurs⟩ := Nat.find_spec hfirst
    have hleast : ∀ j : ℕ, 1 ≤ j → zone.Occurs (day * dayLength + m * minute + j * (15 * minute)) →
        Nat.find hfirst ≤ j := fun j hj hoccurs => Nat.find_min' hfirst ⟨hj, hoccurs⟩
    have hbefore : ∀ j : ℕ, 1 ≤ j → j < Nat.find hfirst →
        ¬zone.Occurs (day * dayLength + m * minute + j * (15 * minute)) :=
      fun j hj hlt hoccurs => absurd (hleast j hj hoccurs) (Nat.not_le.mpr hlt)
    have hn : Nat.find hfirst ≤ 24 * 4 := by
      rcases hpassed h with ⟨k, hk, hn, hoccurs⟩ | ⟨hoccurs, -⟩
      · exact Nat.le_trans (hleast k hk hoccurs) (Nat.le_of_lt hn)
      · exact hleast (24 * 4) (by decide) (dayAfter_eq ▸ hoccurs)
    refine ⟨hfits.converts, Nat.find hfirst, hk, hn, hbefore, fun j hj hle => ?_, hoccurs, ?_⟩
    · exact hfits.quarters h j hj (Nat.le_trans hle hn) fun i hi hlt => hbefore i hi (Nat.lt_of_lt_of_le hlt hle)
    · split_ifs with hlast
      · rw [hlast] at hbefore
        rcases hpassed h with ⟨k, hk, hn, hoccurs⟩ | ⟨-, hnone⟩
        · exact absurd hoccurs (hbefore k hk hn)
        · rw [hlast, dayAfter_eq] at hoccurs ⊢
          have hread := Zone.first_read hoccurs
          exact ⟨hfits.dayAfter h hbefore _ hread, (freeSlot_eq_none_iff.mpr (hnone _ hread)).symm⟩
      · rfl

/-- If it is offered, its slot starts a day later. -/
theorem wall_of_offer_skipped (hpos : 0 ≤ m) (hlt : m < 24 * 60) (h : ¬zone.Occurs (day * dayLength + m * minute))
    {slot : Slot} (hoffer : offer zone day busy rules moment m = .ok (some slot)) :
    zone.wall slot.startAt = (day + 1) * dayLength + m * minute := by
  obtain ⟨-, k, -, -, -, -, hoccurs, hslot⟩ := (offer_of_skipped hpos hlt h).mp hoffer
  split_ifs at hslot with hlast
  rw [hlast, dayAfter_eq] at hslot hoccurs
  rw [(freeSlot_eq_some_iff.mp hslot.2.symm).1]
  exact Zone.wall_read_iff.mpr hoccurs

/-- **Every minute is offered as the slot it has** exactly if the zone does not skip it for long, and all that is
computed of it is in the years of a `datetime`. -/
theorem offer_slotOf_iff (hpos : 0 ≤ m) (hlt : m < 24 * 60) :
    offer zone day busy rules moment m = .ok (slotOf zone day busy rules moment m) ↔
      SkipsPassed zone day busy rules moment m ∧ StartFits zone day rules m := by
  by_cases h : zone.Occurs (day * dayLength + m * minute)
  · rw [offer_of_occurs hpos hlt h, and_iff_left rfl]
    exact (and_iff_right fun hskipped => absurd h hskipped).symm
  · rw [slotOf_of_skipped h]
    exact offer_none_iff hpos hlt h

/-- Different minutes have different slots. -/
theorem slotOf_injective {m' : ℤ} {slot : Slot} (h : slotOf zone day busy rules moment m = some slot)
    (h' : slotOf zone day busy rules moment m' = some slot) : m = m' := by
  have hwall : ∀ {m : ℤ}, slotOf zone day busy rules moment m = some slot →
      zone.wall slot.startAt = day * dayLength + m * minute := by
    intro m h
    by_cases hoccurs : zone.Occurs (day * dayLength + m * minute)
    · rw [slotOf_of_occurs hoccurs] at h
      rw [(freeSlot_eq_some_iff.mp h).1]
      exact (Zone.last_read hoccurs).1.1
    · rw [slotOf_of_skipped hoccurs] at h
      cases h
  have hsame := (hwall h).symm.trans (hwall h')
  rw [minute_eq] at hsame
  omega

end Offers

/-! ## The loop over a window -/

section Loop

variable {zone : Zone} {day : ℤ} {busy : List Busy} {rules : SlotRules} {moment m : ℤ} {window : WorkingWindow}

/-- The minutes at which the loop arrives. -/
def starts (rules : SlotRules) (window : WorkingWindow) : ℕ → ℤ → List ℤ
  | 0, _ => []
  | n + 1, cursor =>
    if cursor + rules.durationMinutes ≤ window.endMinute then
      cursor :: starts rules window n (cursor + rules.granularityMinutes)
    else []

theorem mem_starts_iff : ∀ {n : ℕ} {cursor : ℤ}, m ∈ starts rules window n cursor ↔
    ∃ k : ℕ, k < n ∧ m = cursor + k * rules.granularityMinutes ∧ m + rules.durationMinutes ≤ window.endMinute
  | 0, cursor => iff_of_false List.not_mem_nil fun ⟨k, hk, _⟩ => Nat.not_lt_zero k hk
  | n + 1, cursor => by
    have hstep := rules.granularity_pos
    have hnext : ∀ k : ℕ, cursor + rules.granularityMinutes + k * rules.granularityMinutes =
        cursor + (k + 1 : ℕ) * rules.granularityMinutes := by
      intro k
      push_cast
      ring
    unfold starts
    split_ifs with hfits
    · rw [List.mem_cons, mem_starts_iff]
      constructor
      · rintro (rfl | ⟨k, hk, rfl, hend⟩)
        · exact ⟨0, by omega, by push_cast; ring, hfits⟩
        · exact ⟨k + 1, by omega, hnext k, hend⟩
      · rintro ⟨k, hk, rfl, hend⟩
        cases k with
        | zero =>
          left
          push_cast
          ring
        | succ k => exact .inr ⟨k, by omega, (hnext k).symm, hend⟩
    · refine iff_of_false List.not_mem_nil ?_
      rintro ⟨k, -, rfl, hend⟩
      have hsteps : 0 ≤ k * rules.granularityMinutes := Int.mul_nonneg (Int.natCast_nonneg k) (Int.le_of_lt hstep)
      omega

theorem mem_starts_rounds : m ∈ starts rules window (rounds window) window.startMinute ↔ Start rules window m := by
  rw [mem_starts_iff]
  constructor
  · rintro ⟨k, -, hm, hend⟩
    exact ⟨k, hm, hend⟩
  · rintro ⟨k, hm, hend⟩
    refine ⟨k, ?_, hm, hend⟩
    have hduration := rules.duration_pos
    have hsteps : (k : ℤ) * 1 ≤ k * rules.granularityMinutes :=
      Int.mul_le_mul_of_nonneg_left rules.granularity_pos (Int.natCast_nonneg k)
    unfold rounds
    omega

theorem nodup_starts : ∀ {n : ℕ} {cursor : ℤ}, (starts rules window n cursor).Nodup
  | 0, cursor => List.nodup_nil
  | n + 1, cursor => by
    unfold starts
    split_ifs with hfits
    · refine List.nodup_cons.mpr ⟨fun hmem => ?_, nodup_starts⟩
      obtain ⟨k, -, heq, -⟩ := mem_starts_iff.mp hmem
      have hstep := rules.granularity_pos
      have hsteps : 0 ≤ k * rules.granularityMinutes := Int.mul_nonneg (Int.natCast_nonneg k) (Int.le_of_lt hstep)
      omega
    · exact List.nodup_nil

/-- The loop returns what it is offered. -/
theorem windowSlots_of_offers {f : ℤ → Option Slot} : ∀ {n : ℕ} {cursor : ℤ},
    (∀ m ∈ starts rules window n cursor, offer zone day busy rules moment m = .ok (f m)) →
      windowSlots zone day busy rules moment window n cursor = .ok ((starts rules window n cursor).filterMap f)
  | 0, cursor, h => rfl
  | n + 1, cursor, h => by
    unfold windowSlots
    unfold starts at h ⊢
    split_ifs at h ⊢ with hfits
    · rw [h cursor List.mem_cons_self]
      have hrest := windowSlots_of_offers fun m hm => h m (List.mem_cons_of_mem _ hm)
      refine bind_eq_ok.mpr ⟨f cursor, rfl, bind_eq_ok.mpr ⟨_, hrest, ?_⟩⟩
      rw [List.filterMap_cons]
      cases f cursor <;> rfl
    · rfl

/-- If the loop returns, so does each round, and its slot is among those returned. -/
theorem offer_of_windowSlots : ∀ {n : ℕ} {cursor : ℤ} {slots : List Slot},
    windowSlots zone day busy rules moment window n cursor = .ok slots → ∀ m ∈ starts rules window n cursor,
      ∃ offered, offer zone day busy rules moment m = .ok offered ∧ ∀ slot ∈ offered, slot ∈ slots
  | 0, cursor, slots, h, m, hm => by cases hm
  | n + 1, cursor, slots, h, m, hm => by
    unfold windowSlots at h
    unfold starts at hm
    split_ifs at h hm with hfits
    · obtain ⟨offered, hoffer, h⟩ := bind_eq_ok.mp h
      obtain ⟨rest, hrest, h⟩ := bind_eq_ok.mp h
      cases h
      rcases List.mem_cons.mp hm with rfl | hm
      · exact ⟨offered, hoffer, fun slot hslot => List.mem_append_left _ (Option.mem_toList.mpr hslot)⟩
      · obtain ⟨offered', hoffer', hmem⟩ := offer_of_windowSlots hrest m hm
        exact ⟨offered', hoffer', fun slot hslot => List.mem_append_right _ (hmem slot hslot)⟩
    · cases hm

end Loop

/-! ## The slots of a day -/

section Day

variable {zone : Zone} {day : ℤ} {windows : List WorkingWindow} {busy : List Busy} {rules : SlotRules}
  {holidays : Finset ℤ} {moment : ℤ}

/-- The slots of a window. -/
def slotsOf (zone : Zone) (day : ℤ) (busy : List Busy) (rules : SlotRules) (moment : ℤ) (window : WorkingWindow) :
    List Slot :=
  (starts rules window (rounds window) window.startMinute).filterMap (slotOf zone day busy rules moment)

theorem mem_slotsOf_iff {window : WorkingWindow} {slot : Slot} : slot ∈ slotsOf zone day busy rules moment window ↔
    ∃ m, Start rules window m ∧ slotOf zone day busy rules moment m = some slot := by
  unfold slotsOf
  rw [List.mem_filterMap]
  exact exists_congr fun m => and_congr_left fun _ => mem_starts_rounds

theorem nodup_slotsOf (window : WorkingWindow) : (slotsOf zone day busy rules moment window).Nodup :=
  nodup_starts.filterMap fun _ _ _ h h' => slotOf_injective h h'

theorem lastDay_eq_ok {last : ℤ} : lastDay zone rules moment = .ok last ↔
    DaysFit zone rules moment ∧ last = zone.wall moment / dayLength + rules.maxAdvanceDays := by
  unfold lastDay DaysFit
  simp only [bind_eq_ok, datetimeOf_eq_ok]
  constructor
  · rintro ⟨_, ⟨htoday, rfl⟩, h⟩
    split_ifs at h with hdate
    exact ⟨⟨htoday, hdate⟩, (Except.ok.inj h).symm⟩
  · rintro ⟨⟨htoday, hdate⟩, rfl⟩
    exact ⟨_, ⟨htoday, rfl⟩, if_pos hdate⟩

/-- A day that is no holiday, but too late. -/
theorem computeSlots_of_late (hholiday : day ∉ holidays)
    (hlate : zone.wall moment / dayLength + rules.maxAdvanceDays < day) {slots : List Slot} :
    computeSlots zone day windows busy rules holidays moment = .ok slots ↔
      DaysFit zone rules moment ∧ slots = [] := by
  unfold computeSlots
  rw [if_neg hholiday]
  simp only [bind_eq_ok, lastDay_eq_ok]
  constructor
  · rintro ⟨_, ⟨hdays, rfl⟩, h⟩
    rw [if_pos hlate] at h
    exact ⟨hdays, (Except.ok.inj h).symm⟩
  · rintro ⟨hdays, rfl⟩
    exact ⟨_, ⟨hdays, rfl⟩, if_pos hlate⟩

theorem computeSlots_of_open (hopen : DayOpen zone day rules holidays moment) {slots : List Slot} :
    computeSlots zone day windows busy rules holidays moment = .ok slots ↔
      DaysFit zone rules moment ∧ inRange (earliest rules moment) = true ∧
        ∃ lists, ((dayWindows day windows).mapM fun window =>
            windowSlots zone day busy rules moment window (rounds window) window.startMinute) = .ok lists ∧
          slots = (OrderBy.asc Slot.startAt).sort lists.flatten := by
  unfold computeSlots
  rw [if_neg hopen.1]
  simp only [bind_eq_ok, lastDay_eq_ok]
  constructor
  · rintro ⟨_, ⟨hdays, rfl⟩, h⟩
    rw [if_neg (Int.not_lt.mpr hopen.2)] at h
    obtain ⟨_, hearliest, h⟩ := bind_eq_ok.mp h
    obtain ⟨lists, hlists, h⟩ := bind_eq_ok.mp h
    exact ⟨hdays, (datetimeOf_eq_ok.mp hearliest).1, lists, hlists, (Except.ok.inj h).symm⟩
  · rintro ⟨hdays, hearliest, lists, hlists, rfl⟩
    refine ⟨_, ⟨hdays, rfl⟩, ?_⟩
    rw [if_neg (Int.not_lt.mpr hopen.2)]
    exact bind_eq_ok.mpr ⟨_, datetimeOf_of_inRange hearliest, bind_eq_ok.mpr ⟨lists, hlists, rfl⟩⟩

theorem windowSlots_of_passed (hpassed : AllPassed zone day windows busy rules moment)
    (hfit : AllFit zone day windows rules) :
    ((dayWindows day windows).mapM fun window =>
      windowSlots zone day busy rules moment window (rounds window) window.startMinute) =
        .ok ((dayWindows day windows).map (slotsOf zone day busy rules moment)) := by
  refine mapM_eq_ok_map fun window hwindow => windowSlots_of_offers fun m hm => ?_
  have hstart := mem_starts_rounds.mp hm
  exact (offer_slotOf_iff hstart.bounds.1 hstart.bounds.2).mpr
    ⟨hpassed window hwindow m hstart, hfit window hwindow m hstart⟩

theorem mem_dayWindows {window : WorkingWindow} :
    window ∈ dayWindows day windows ↔ window ∈ windows ∧ window.dayOfWeek = day % 7 := by
  unfold dayWindows
  rw [List.mem_filter, decide_eq_true_iff]

theorem slotOf_eq_some_iff {m : ℤ} {slot : Slot} : slotOf zone day busy rules moment m = some slot ↔
    IsGreatest {u | zone.wall u = day * dayLength + m * minute} slot.startAt ∧
      freeSlot busy rules moment slot.startAt = some slot := by
  constructor
  · intro h
    by_cases hoccurs : zone.Occurs (day * dayLength + m * minute)
    · rw [slotOf_of_occurs hoccurs] at h
      have hstart := (freeSlot_eq_some_iff.mp h).1
      rw [← hstart] at h
      exact ⟨hstart ▸ (Zone.last_read hoccurs).1, h⟩
    · rw [slotOf_of_skipped hoccurs] at h
      cases h
  · rintro ⟨hlast, h⟩
    have hoccurs : zone.Occurs (day * dayLength + m * minute) := ⟨slot.startAt, hlast.1⟩
    rw [slotOf_of_occurs hoccurs, ← hlast.unique (Zone.last_read hoccurs).1]
    exact h

/-- The slots of the minutes that exist are those that may be booked. -/
theorem mem_slots_iff_bookable (hopen : DayOpen zone day rules holidays moment) {slot : Slot} :
    slot ∈ (dayWindows day windows).flatMap (slotsOf zone day busy rules moment) ↔
      Bookable zone day windows busy rules holidays moment slot := by
  rw [List.mem_flatMap]
  constructor
  · rintro ⟨window, hwindow, hslot⟩
    obtain ⟨hmem, hday⟩ := mem_dayWindows.mp hwindow
    obtain ⟨m, hstart, hslot⟩ := mem_slotsOf_iff.mp hslot
    obtain ⟨hlast, hslot⟩ := slotOf_eq_some_iff.mp hslot
    obtain ⟨-, hnotice, hends, hremaining, hfree⟩ := freeSlot_eq_some_iff.mp hslot
    exact ⟨hopen, ⟨window, hmem, hday, m, hstart, hlast⟩, hnotice, hends, hremaining, hfree⟩
  · rintro ⟨-, ⟨window, hmem, hday, m, hstart, hlast⟩, hnotice, hends, hremaining, hfree⟩
    refine ⟨window, mem_dayWindows.mpr ⟨hmem, hday⟩, mem_slotsOf_iff.mpr ⟨m, hstart, ?_⟩⟩
    exact slotOf_eq_some_iff.mpr ⟨hlast, freeSlot_eq_some_iff.mpr ⟨rfl, hnotice, hends, hremaining, hfree⟩⟩

/-- A slot is known by its start. -/
theorem eq_of_startAt {slot slot' : Slot}
    (h : slot ∈ (dayWindows day windows).flatMap (slotsOf zone day busy rules moment))
    (h' : slot' ∈ (dayWindows day windows).flatMap (slotsOf zone day busy rules moment))
    (hsame : slot.startAt = slot'.startAt) : slot = slot' := by
  have hslot : ∀ {slot : Slot}, slot ∈ (dayWindows day windows).flatMap (slotsOf zone day busy rules moment) →
      freeSlot busy rules moment slot.startAt = some slot := by
    intro slot h
    obtain ⟨window, -, h⟩ := List.mem_flatMap.mp h
    obtain ⟨m, -, h⟩ := mem_slotsOf_iff.mp h
    exact (slotOf_eq_some_iff.mp h).2
  have heq := (hslot h).symm.trans (hsame ▸ hslot h')
  exact Option.some.inj heq

/-- Two windows share no slot exactly if nothing is free at the minutes they share. -/
theorem disjoint_slotsOf_iff {a b : WorkingWindow} :
    List.Disjoint (slotsOf zone day busy rules moment a) (slotsOf zone day busy rules moment b) ↔
      ∀ m, Start rules a m → Start rules b m →
        ∀ u, IsGreatest {v | zone.wall v = day * dayLength + m * minute} u → ¬Free busy rules moment u := by
  constructor
  · intro h m ha hb u hu
    rw [← freeSlot_eq_none_iff]
    by_contra hsome
    obtain ⟨slot, hslot⟩ := Option.ne_none_iff_exists'.mp hsome
    have hstart : slot.startAt = u := (freeSlot_eq_some_iff.mp hslot).1
    have hm : slotOf zone day busy rules moment m = some slot :=
      slotOf_eq_some_iff.mpr ⟨hstart ▸ hu, hstart ▸ hslot⟩
    exact h (mem_slotsOf_iff.mpr ⟨m, ha, hm⟩) (mem_slotsOf_iff.mpr ⟨m, hb, hm⟩)
  · intro h slot ha hb
    obtain ⟨m, ha, hslot⟩ := mem_slotsOf_iff.mp ha
    obtain ⟨m', hb, hslot'⟩ := mem_slotsOf_iff.mp hb
    cases slotOf_injective hslot hslot'
    obtain ⟨hlast, hslot⟩ := slotOf_eq_some_iff.mp hslot
    rw [freeSlot_eq_none_iff.mpr (h m ha hb _ hlast)] at hslot
    cases hslot

/-- The starts differ exactly if the windows are apart. -/
theorem nodup_slots_iff :
    (((dayWindows day windows).flatMap (slotsOf zone day busy rules moment)).map Slot.startAt).Nodup ↔
      WindowsApart zone day windows busy rules moment := by
  have hstarts : (((dayWindows day windows).flatMap (slotsOf zone day busy rules moment)).map Slot.startAt).Nodup ↔
      ((dayWindows day windows).flatMap (slotsOf zone day busy rules moment)).Nodup :=
    ⟨List.Nodup.of_map _, fun h => h.map_on fun _ ha _ hb => eq_of_startAt ha hb⟩
  rw [hstarts, List.nodup_flatMap]
  constructor
  · exact fun h => h.2.imp fun hdisjoint => disjoint_slotsOf_iff.mp hdisjoint
  · exact fun h => ⟨fun window _ => nodup_slotsOf window, h.imp fun happart => disjoint_slotsOf_iff.mpr happart⟩

/-- If the day's slots are computed and can all be booked, nothing is skipped for long. -/
theorem passed_of_exact (hopen : DayOpen zone day rules holidays moment)
    (h : SlotsExact zone day windows busy rules holidays moment) {window : WorkingWindow}
    (hwindow : window ∈ dayWindows day windows) {m : ℤ} (hstart : Start rules window m) :
    SkipsPassed zone day busy rules moment m ∧ StartFits zone day rules m := by
  obtain ⟨hpos, hlt⟩ := hstart.bounds
  obtain ⟨slots, hslots, -, hbookable⟩ := h
  obtain ⟨-, -, lists, hlists, rfl⟩ := (computeSlots_of_open hopen).mp hslots
  obtain ⟨list, hlist, hloop⟩ := mem_of_forall₂_left (mapM_eq_ok hlists) hwindow
  obtain ⟨offered, hoffer, hmem⟩ := offer_of_windowSlots hloop m (mem_starts_rounds.mpr hstart)
  by_cases hoccurs : zone.Occurs (day * dayLength + m * minute)
  · exact ⟨fun hskipped => absurd hoccurs hskipped, ((offer_of_occurs hpos hlt hoccurs).mp hoffer).1⟩
  · cases offered with
    | none => exact (offer_none_iff hpos hlt hoccurs).mp hoffer
    | some slot =>
      -- the slot starts on the next day
      have hslot : slot ∈ (OrderBy.asc Slot.startAt).sort lists.flatten :=
        ((OrderBy.asc Slot.startAt).perm_sort _).mem_iff.mpr (List.mem_flatten.mpr ⟨list, hlist, hmem slot rfl⟩)
      obtain ⟨window', -, -, m', hstart', hlast, -⟩ := ((hbookable slot).mp hslot).starts
      have hwall : zone.wall slot.startAt = day * dayLength + m' * minute := hlast
      have hnext := wall_of_offer_skipped hpos hlt hoccurs hoffer
      have hbounds := hstart'.bounds
      rw [dayLength_eq, minute_eq] at hwall hnext
      omega

/-- **The slots are those that may be booked, once each**, exactly if the days are in the years of a `datetime`, and the
day is closed, or its windows are apart, the zone skips none of their starts for long, and all times are in those
years. -/
theorem slots_exact_iff (zone : Zone) (day : ℤ) (windows : List WorkingWindow) (busy : List Busy) (rules : SlotRules)
    (holidays : Finset ℤ) (moment : ℤ) : SlotsExact zone day windows busy rules holidays moment ↔
      (day ∉ holidays → DaysFit zone rules moment) ∧
        (DayOpen zone day rules holidays moment →
          (WindowsApart zone day windows busy rules moment ∧ AllPassed zone day windows busy rules moment) ∧
            inRange (earliest rules moment) = true ∧ AllFit zone day windows rules) := by
  by_cases hopen : DayOpen zone day rules holidays moment
  · constructor
    · intro h
      have hpassed : AllPassed zone day windows busy rules moment :=
        fun window hwindow m hstart => (passed_of_exact hopen h hwindow hstart).1
      have hfit : AllFit zone day windows rules :=
        fun window hwindow m hstart => (passed_of_exact hopen h hwindow hstart).2
      obtain ⟨slots, hslots, hsorted, -⟩ := h
      obtain ⟨hdays, hearliest, lists, hlists, rfl⟩ := (computeSlots_of_open hopen).mp hslots
      obtain rfl := Except.ok.inj ((windowSlots_of_passed hpassed hfit).symm.trans hlists)
      rw [← List.flatMap_def] at hsorted
      exact ⟨fun _ => hdays, fun _ =>
        ⟨⟨nodup_slots_iff.mp (OrderBy.pairwise_lt_sort_iff.mp hsorted), hpassed⟩, hearliest, hfit⟩⟩
    · rintro ⟨hdays, h⟩
      obtain ⟨⟨hapart, hpassed⟩, hearliest, hfit⟩ := h hopen
      have hslots := (computeSlots_of_open hopen).mpr
        ⟨hdays hopen.1, hearliest, _, windowSlots_of_passed hpassed hfit, rfl⟩
      refine ⟨_, hslots, ?_, fun slot => ?_⟩
      · rw [← List.flatMap_def]
        exact OrderBy.pairwise_lt_sort_iff.mpr (nodup_slots_iff.mpr hapart)
      · rw [((OrderBy.asc Slot.startAt).perm_sort _).mem_iff, ← List.flatMap_def]
        exact mem_slots_iff_bookable hopen
  · have hempty : computeSlots zone day windows busy rules holidays moment = .ok [] →
        SlotsExact zone day windows busy rules holidays moment := fun hslots =>
      ⟨[], hslots, List.Pairwise.nil, fun slot => iff_of_false List.not_mem_nil fun hslot => hopen hslot.dayOpen⟩
    rw [and_iff_left fun h => absurd h hopen]
    by_cases hholiday : day ∈ holidays
    · refine iff_of_true (hempty ?_) fun h => absurd hholiday h
      unfold computeSlots
      rw [if_pos hholiday]
    · have hlate : zone.wall moment / dayLength + rules.maxAdvanceDays < day :=
        Int.not_le.mp fun hle => hopen ⟨hholiday, hle⟩
      constructor
      · rintro ⟨slots, hslots, -⟩ -
        exact ((computeSlots_of_late hholiday hlate).mp hslots).1
      · exact fun h => hempty ((computeSlots_of_late hholiday hlate).mpr ⟨h hholiday, rfl⟩)

end Day

/-- The hour from nine to ten on a Monday. -/
def monday : WorkingWindow where
  dayOfWeek := 0
  startMinute := 9 * 60
  endMinute := 10 * 60
  start_nonneg := by decide
  end_le := by decide

/-- If the hour is given twice, so is each of its slots. -/
theorem slots_twice :
    computeSlots (Zone.fixed 0) 738955 [monday, monday] [] {} ∅ (738950 * dayLength) =
        .ok ([540, 540, 555, 555, 570, 570].map fun m =>
          ⟨738955 * dayLength + m * minute, 738955 * dayLength + (m + 30) * minute, 1⟩) ∧
      ¬SlotsExact (Zone.fixed 0) 738955 [monday, monday] [] {} ∅ (738950 * dayLength) := by
  have hslots : computeSlots (Zone.fixed 0) 738955 [monday, monday] [] {} ∅ (738950 * dayLength) =
      .ok ([540, 540, 555, 555, 570, 570].map fun m =>
        ⟨738955 * dayLength + m * minute, 738955 * dayLength + (m + 30) * minute, 1⟩) := by decide
  refine ⟨hslots, ?_⟩
  rintro ⟨slots, hsame, hsorted, -⟩
  rw [hslots] at hsame
  cases hsame
  exact absurd hsorted (by decide)

end RevenueOS.Crm.SlotGeneration
