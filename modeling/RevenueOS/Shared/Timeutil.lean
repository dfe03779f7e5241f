import RevenueOS.Lib.Except
import RevenueOS.Lib.Zones
import RevenueOS.Py.Text
import Mathlib.Algebra.Group.Int.Defs

/-!
# RevenueOS.Shared.Timeutil — instants and local times

`ensure_utc`, `tz`, `to_local` and `resolve_local_instant` (`shared/utils/timeutil.py`), and the times of day that
`_hhmm` and `_parse_hhmm` read.  Instants and local times count microseconds from the year 1.

* `resolve_iff`: where the conversions stay in the years of a `datetime`, a local time that a zone skips is resolved to
  the end of its gap exactly if the gap ends a whole number of quarters of an hour later, and a day later at most; the
  others are resolved in any case.
* `local_times_resolve_iff`: so the local times of a day are resolved in order exactly if this holds for all of them.

`ZoneInfo` is a parameter.  A local time is read with the offset before a transition (`fold=0`) or after it (`fold=1`)
where the transition repeats or skips it.
-/

namespace RevenueOS.Shared

open RevenueOS.Py RevenueOS.Lib

/-! ## Time zones -/

/-- Why `ZoneInfo` has no zone for a key. -/
inductive ZoneFault where
  /-- `ZoneInfoNotFoundError`. -/
  | notFound
  /-- A key that is refused. -/
  | refused
deriving DecidableEq

inductive TimeError where
  | valueError (message : String)
  | overflowError
  | zoneError
deriving DecidableEq

/-- `DEFAULT_TZ`. -/
def defaultTz : String := "Asia/Kolkata"

def minute : ℤ := 60000000

def dayLength : ℤ := 86400000000

theorem minute_eq : minute = 60000000 := rfl

theorem dayLength_eq : dayLength = 86400000000 := rfl

/-- What a `datetime` can hold: the years 1 to 9999. -/
def inRange (t : ℤ) : Bool := 0 ≤ t && t < 3652059 * dayLength

theorem inRange_iff {t : ℤ} : inRange t = true ↔ 0 ≤ t ∧ t < 3652059 * dayLength := by
  unfold inRange
  rw [Bool.and_eq_true, decide_eq_true_iff, decide_eq_true_iff]

/-- A result of arithmetic on a `datetime`. -/
def datetimeOf (t : ℤ) : Except TimeError ℤ := if inRange t then .ok t else .error .overflowError

theorem datetimeOf_eq_ok {t u : ℤ} : datetimeOf t = .ok u ↔ inRange t = true ∧ t = u := by
  unfold datetimeOf
  split_ifs with h
  · simp [h]
  · simp [h]

theorem datetimeOf_of_inRange {t : ℤ} (h : inRange t = true) : datetimeOf t = .ok t := if_pos h

inductive Datetime where
  | naive (wall : ℤ)
  | aware (instant : ℤ)
deriving DecidableEq

def ensureUtc : Datetime → Except TimeError ℤ
  | .naive _ => .error (.valueError "naive datetime is not permitted; instants must be timezone aware")
  | .aware instant => datetimeOf instant

section Zones

variable (zoneInfo : String → Except ZoneFault Zone)

def tz (name : String) : Except TimeError Zone :=
  match zoneInfo (if name = "" then defaultTz else name) with
  | .ok zone => .ok zone
  | .error .refused => .error .zoneError
  | .error .notFound =>
    match zoneInfo defaultTz with
    | .ok zone => .ok zone
    | .error _ => .error .zoneError

/-- The local time of an instant. -/
def toLocal (value : Datetime) (tzName : String) : Except TimeError ℤ := do
  let instant ← ensureUtc value
  let zone ← tz zoneInfo tzName
  datetimeOf (zone.wall instant)

end Zones

/-! ## Times of day -/

/-- A C `int`. -/
def cInt (n : ℤ) : Bool := -2 ^ 31 ≤ n && n < 2 ^ 31

/-- `time(hour, minute)`, as the time since midnight. -/
def timeOfDay (hour minutes : ℤ) : Except TimeError ℤ :=
  if !(cInt hour && cInt minutes) then .error .overflowError
  else if hour < 0 ∨ 23 < hour then .error (.valueError "hour must be in 0..23")
  else if minutes < 0 ∨ 59 < minutes then .error (.valueError "minute must be in 0..59")
  else .ok ((hour * 60 + minutes) * minute)

/-- `int(text)`. -/
def intOf (text : String) : Except TimeError ℤ :=
  match parseInt? text with
  | some n => .ok n
  | none => .error (.valueError "invalid literal for int() with base 10")

/-- `int(minute or 0)`. -/
def minutesOf (text : String) : Except TimeError ℤ := if text = "" then .ok 0 else intOf text

/-- The time of day that a text `hh:mm` or `hh` gives. -/
def timeOfText (value : String) : Except TimeError ℤ := do
  let hour := beforeFirst value ":"
  let minutes := String.ofList (value.toList.drop (hour.length + 1))
  let hour ← intOf hour
  let minutes ← minutesOf minutes
  timeOfDay hour minutes

/-- It is a whole number of minutes, and within the day. -/
theorem timeOfText_minutes {value : String} {time : ℤ} (h : timeOfText value = .ok time) :
    ∃ k : ℤ, 0 ≤ k ∧ k < 24 * 60 ∧ time = k * minute := by
  obtain ⟨hour, -, h⟩ := bind_eq_ok.mp h
  obtain ⟨minutes, -, h⟩ := bind_eq_ok.mp h
  unfold timeOfDay at h
  split_ifs at h with hint hhour hminutes
  cases h
  exact ⟨hour * 60 + minutes, by omega, by omega, rfl⟩

/-! ## `resolve_local_instant` -/

variable {zone : Zone}

/-- The loop over the quarters of an hour after a local time. -/
def nextValid (zone : Zone) : ℕ → ℤ → Except TimeError ℤ
  | 0, _ => .error (.valueError "could not resolve a valid local instant")
  | n + 1, probe => do
    let probe ← datetimeOf (probe + 15 * minute)
    let moved ← datetimeOf (zone.read false probe)
    let back ← datetimeOf (zone.wall moved)
    if back = probe then .ok moved else nextValid zone n probe

def resolveLocalInstant (zone : Zone) (naive : ℤ) : Except TimeError ℤ := do
  let candidate ← datetimeOf (zone.read false naive)
  let back ← datetimeOf (zone.wall candidate)
  if back ≠ naive then nextValid zone (24 * 4) naive
  else if zone.offsetAtWall false naive ≠ zone.offsetAtWall true naive then datetimeOf (zone.read true naive)
  else .ok candidate

theorem quarter_eq : 15 * minute = 900000000 := rfl

/-- A local time is converted to an instant, and the instant back, within the years of a `datetime`. -/
def Converts (zone : Zone) (w : ℤ) : Prop :=
  inRange (zone.read false w) = true ∧ inRange (zone.wall (zone.read false w)) = true

/-- So is a quarter of an hour, which is in those years itself. -/
def Probes (zone : Zone) (w : ℤ) : Prop := inRange w = true ∧ Converts zone w

/-- One round of the loop. -/
theorem nextValid_succ {n : ℕ} {w u : ℤ} : nextValid zone (n + 1) w = .ok u ↔ Probes zone (w + 15 * minute) ∧
    (if zone.wall (zone.read false (w + 15 * minute)) = w + 15 * minute then zone.read false (w + 15 * minute) = u
      else nextValid zone n (w + 15 * minute) = .ok u) := by
  rw [nextValid]
  simp only [bind_eq_ok, datetimeOf_eq_ok]
  constructor
  · rintro ⟨_, ⟨hprobe, rfl⟩, _, ⟨hmoved, rfl⟩, _, ⟨hback, rfl⟩, h⟩
    refine ⟨⟨hprobe, hmoved, hback⟩, ?_⟩
    split_ifs at h ⊢
    · exact Except.ok.inj h
    · exact h
  · rintro ⟨⟨hprobe, hmoved, hback⟩, h⟩
    refine ⟨_, ⟨hprobe, rfl⟩, _, ⟨hmoved, rfl⟩, _, ⟨hback, rfl⟩, ?_⟩
    split_ifs at h ⊢
    · rw [h]
    · exact h

/-- The loop finds the first of the quarters at which a local time exists, if it can convert those up to it. -/
theorem nextValid_eq_ok_iff {u : ℤ} : ∀ {n : ℕ} {w : ℤ}, nextValid zone n w = .ok u ↔
    ∃ k : ℕ, 1 ≤ k ∧ k ≤ n ∧ (∀ j : ℕ, 1 ≤ j → j < k → ¬zone.Occurs (w + j * (15 * minute))) ∧
      (∀ j : ℕ, 1 ≤ j → j ≤ k → Probes zone (w + j * (15 * minute))) ∧
      zone.Occurs (w + k * (15 * minute)) ∧ u = zone.read false (w + k * (15 * minute))
  | 0, w => by
    refine iff_of_false (fun h => by cases h) ?_
    rintro ⟨k, hk, hn, -⟩
    omega
  | n + 1, w => by
    have hnext : ∀ j : ℕ, w + 15 * minute + j * (15 * minute) = w + (j + 1 : ℕ) * (15 * minute) := by
      intro j
      rw [quarter_eq]
      push_cast
      omega
    have hone : w + (1 : ℕ) * (15 * minute) = w + 15 * minute := by
      rw [quarter_eq]
      omega
    have hlater : ∀ {P : ℤ → Prop} {k : ℕ}, P (w + 15 * minute) →
        (∀ j : ℕ, 1 ≤ j → j < k → P (w + 15 * minute + j * (15 * minute))) →
          ∀ j : ℕ, 1 ≤ j → j < k + 1 → P (w + j * (15 * minute)) := by
      intro P k hfirst hrest j hj hlt
      rcases Nat.eq_or_lt_of_le hj with rfl | hmore
      · exact hone.symm ▸ hfirst
      · obtain ⟨i, rfl⟩ : ∃ i, j = i + 1 := ⟨j - 1, by omega⟩
        exact hnext i ▸ hrest i (by omega) (by omega)
    rw [nextValid_succ]
    by_cases hoccurs : zone.Occurs (w + 15 * minute)
    · rw [if_pos (Zone.wall_read_iff.mpr hoccurs)]
      constructor
      · rintro ⟨hprobes, rfl⟩
        refine ⟨1, Nat.le_refl 1, by omega, fun j hj hlt => by omega, fun j hj hle => ?_, hone.symm ▸ hoccurs,
          by rw [hone]⟩
        obtain rfl : j = 1 := by omega
        exact hone.symm ▸ hprobes
      · rintro ⟨k, hk, -, hskipped, hprobes, -, rfl⟩
        have hfirst : k = 1 := by
          by_contra hne
          exact hskipped 1 (Nat.le_refl 1) (by omega) (hone.symm ▸ hoccurs)
        subst hfirst
        exact ⟨hone ▸ hprobes 1 (Nat.le_refl 1) (Nat.le_refl 1), by rw [hone]⟩
    · rw [if_neg fun hread => hoccurs (Zone.wall_read_iff.mp hread), nextValid_eq_ok_iff]
      constructor
      · rintro ⟨hprobe, k, hk, hn, hskipped, hprobes, hoccurs', rfl⟩
        rw [hnext k] at hoccurs' ⊢
        refine ⟨k + 1, by omega, by omega, @hlater (fun v => ¬zone.Occurs v) k hoccurs hskipped, fun j hj hle => ?_,
          hoccurs', rfl⟩
        exact @hlater (Probes zone) (k + 1) hprobe (fun i hi hlt => hprobes i hi (by omega)) j hj (by omega)
      · rintro ⟨k, hk, hn, hskipped, hprobes, hoccurs', rfl⟩
        obtain ⟨i, rfl⟩ : ∃ i, k = i + 1 := ⟨k - 1, by omega⟩
        have hpos : 1 ≤ i := by
          by_contra hzero
          have hi : i = 0 := by omega
          subst hi
          exact hoccurs (hone ▸ hoccurs')
        rw [← hnext i] at hoccurs' ⊢
        refine ⟨hone ▸ hprobes 1 (Nat.le_refl 1) hk, i, hpos, by omega, fun j hj hlt => ?_, fun j hj hle => ?_,
          hoccurs', rfl⟩
        · rw [hnext j]
          exact hskipped (j + 1) (by omega) (by omega)
        · rw [hnext j]
          exact hprobes (j + 1) (by omega) (by omega)

/-- The loop finds the end of the gap exactly if a quarter falls on it, and it can convert the quarters up to it. -/
theorem nextValid_gapEnd_iff {n : ℕ} {w t : ℤ} (h : ¬zone.Occurs w) (ht : IsLeast {v | w < zone.wall v} t) :
    nextValid zone n w = .ok t ↔ (15 * minute ∣ zone.wall t - w ∧ zone.wall t - w ≤ n * (15 * minute)) ∧
      ∀ j : ℕ, 1 ≤ j → w + j * (15 * minute) ≤ zone.wall t → Probes zone (w + j * (15 * minute)) := by
  have hpast : w < zone.wall t := ht.1
  rw [nextValid_eq_ok_iff, quarter_eq]
  constructor
  · rintro ⟨k, hk, hn, -, hprobes, hoccurs, hread⟩
    have hwall : zone.wall t = w + k * 900000000 := by
      rw [hread]
      exact Zone.wall_read_iff.mpr hoccurs
    refine ⟨by omega, fun j hj hle => hprobes j hj ?_⟩
    omega
  · rintro ⟨⟨⟨q, hq⟩, hbound⟩, hprobes⟩
    obtain ⟨k, rfl⟩ : ∃ k : ℕ, q = k := ⟨q.toNat, by omega⟩
    have hend : w + k * 900000000 = zone.wall t := by omega
    refine ⟨k, by omega, by omega, fun j hj hlt => ?_, fun j hj hle => hprobes j hj (by omega), ?_, ?_⟩
    · -- the quarters before it are in the gap too
      exact (Zone.gap_rest h ht (by omega) (by omega)).1
    · rw [hend]
      exact ⟨t, rfl⟩
    · rw [hend, Zone.read_wall_gapEnd h ht]

/-- If the zone skips the local time, its gap ends a whole number of quarters of an hour later, and a day at most. -/
def QuarterAligned (zone : Zone) (w : ℤ) : Prop :=
  ¬zone.Occurs w → ∀ t, IsLeast {v | w < zone.wall v} t →
    15 * minute ∣ zone.wall t - w ∧ zone.wall t - w ≤ 24 * 60 * minute

/-- What the resolution of a local time converts stays in the years of a `datetime`: the local time itself, its later
occurrence, or the quarters of an hour up to the end of its gap. -/
structure InYears (zone : Zone) (w : ℤ) : Prop where
  converts : Converts zone w
  later : zone.Occurs w → inRange (zone.read true w) = true
  quarters : ¬zone.Occurs w → ∀ t, IsLeast {v | w < zone.wall v} t →
    ∀ j : ℕ, 1 ≤ j → w + j * (15 * minute) ≤ zone.wall t → Probes zone (w + j * (15 * minute))

/-- The local time is resolved to the instant that it stands for. -/
def ResolvedExactly (zone : Zone) (w : ℤ) : Prop := ∃ u, resolveLocalInstant zone w = .ok u ∧ zone.Resolves w u

theorem resolve_of_occurs {w u : ℤ} (h : zone.Occurs w) : resolveLocalInstant zone w = .ok u ↔
    (Converts zone w ∧ inRange (zone.read true w) = true) ∧ u = zone.read true w := by
  have hwall := Zone.wall_read_iff.mpr h
  unfold resolveLocalInstant
  simp only [bind_eq_ok, datetimeOf_eq_ok]
  constructor
  · rintro ⟨_, ⟨hread, rfl⟩, _, ⟨hback, rfl⟩, hresolved⟩
    rw [if_neg (not_not.mpr hwall)] at hresolved
    split_ifs at hresolved with hsame
    · obtain ⟨hlater, heq⟩ := datetimeOf_eq_ok.mp hresolved
      exact ⟨⟨⟨hread, hback⟩, hlater⟩, heq.symm⟩
    · have heq := Zone.read_eq_iff.mpr (not_not.mp hsame)
      exact ⟨⟨⟨hread, hback⟩, heq ▸ hread⟩, heq ▸ (Except.ok.inj hresolved).symm⟩
  · rintro ⟨⟨⟨hread, hback⟩, hlater⟩, rfl⟩
    refine ⟨_, ⟨hread, rfl⟩, _, ⟨hback, rfl⟩, ?_⟩
    rw [if_neg (not_not.mpr hwall)]
    split_ifs with hsame
    · exact datetimeOf_of_inRange hlater
    · rw [Zone.read_eq_iff.mpr (not_not.mp hsame)]

theorem resolve_of_skipped {w u : ℤ} (h : ¬zone.Occurs w) : resolveLocalInstant zone w = .ok u ↔
    Converts zone w ∧ nextValid zone (24 * 4) w = .ok u := by
  have hwall : zone.wall (zone.read false w) ≠ w := fun hread => h (Zone.wall_read_iff.mp hread)
  unfold resolveLocalInstant
  simp only [bind_eq_ok, datetimeOf_eq_ok]
  constructor
  · rintro ⟨_, ⟨hread, rfl⟩, _, ⟨hback, rfl⟩, hresolved⟩
    rw [if_pos hwall] at hresolved
    exact ⟨⟨hread, hback⟩, hresolved⟩
  · rintro ⟨⟨hread, hback⟩, hresolved⟩
    refine ⟨_, ⟨hread, rfl⟩, _, ⟨hback, rfl⟩, ?_⟩
    rw [if_pos hwall]
    exact hresolved

/-- **A local time is resolved exactly** if its conversions stay in the years of a `datetime`, and it exists or its gap
ends at one of the quarters of an hour after it. -/
theorem resolve_iff {w : ℤ} : ResolvedExactly zone w ↔ QuarterAligned zone w ∧ InYears zone w := by
  unfold ResolvedExactly
  by_cases h : zone.Occurs w
  · have hresolves : zone.Resolves w (zone.read true w) :=
      ⟨fun _ => (Zone.last_read h).1, fun hskipped => absurd h hskipped⟩
    constructor
    · rintro ⟨u, hu, -⟩
      obtain ⟨⟨hconverts, hlater⟩, -⟩ := (resolve_of_occurs h).mp hu
      exact ⟨fun hskipped => absurd h hskipped, hconverts, fun _ => hlater, fun hskipped => absurd h hskipped⟩
    · rintro ⟨-, hyears⟩
      exact ⟨_, (resolve_of_occurs h).mpr ⟨⟨hyears.converts, hyears.later h⟩, rfl⟩, hresolves⟩
  · obtain ⟨t, ht⟩ := zone.exists_resolves w
    have hend := ht.gapEnd h
    have hhours : ((24 * 4 : ℕ) : ℤ) * (15 * minute) = 24 * 60 * minute := rfl
    constructor
    · rintro ⟨u, hu, hresolves⟩
      rw [hresolves.unique ht] at hu
      obtain ⟨hconverts, hfound⟩ := (resolve_of_skipped h).mp hu
      obtain ⟨haligned, hprobes⟩ := (nextValid_gapEnd_iff h hend).mp hfound
      rw [hhours] at haligned
      exact ⟨fun _ t' ht' => hend.unique ht' ▸ haligned, hconverts, fun hoccurs => absurd hoccurs h,
        fun _ t' ht' => hend.unique ht' ▸ hprobes⟩
    · rintro ⟨haligned, hyears⟩
      refine ⟨t, (resolve_of_skipped h).mpr ⟨hyears.converts, (nextValid_gapEnd_iff h hend).mpr ⟨?_, ?_⟩⟩, ht⟩
      · rw [hhours]
        exact haligned h t hend
      · exact hyears.quarters h t hend

/-! ## The local times of a day -/

/-- The local times of a day are resolved to the instants they stand for, and in order. -/
structure DayResolved (zone : Zone) (day : ℤ) : Prop where
  exact_times : ∀ at', 0 ≤ at' → at' < dayLength → ResolvedExactly zone (day * dayLength + at')
  ordered : ∀ at' later, 0 ≤ at' → at' ≤ later → later < dayLength → ∀ u u',
    resolveLocalInstant zone (day * dayLength + at') = .ok u →
      resolveLocalInstant zone (day * dayLength + later) = .ok u' → u ≤ u'

/-- **Local times are resolved exactly** where no gap ends between the quarters of an hour after them and no conversion
leaves the years of a `datetime`; and so are those of a day, in order, if this holds for all of them. -/
theorem local_times_resolve_iff (zone : Zone) :
    (∀ w, ResolvedExactly zone w ↔ QuarterAligned zone w ∧ InYears zone w) ∧
      ∀ day, DayResolved zone day ↔ ∀ at', 0 ≤ at' → at' < dayLength →
        QuarterAligned zone (day * dayLength + at') ∧ InYears zone (day * dayLength + at') := by
  refine ⟨fun w => resolve_iff, fun day =>
    ⟨fun h at' hat hlt => resolve_iff.mp (h.exact_times at' hat hlt), fun h => ?_⟩⟩
  refine ⟨fun at' hat hlt => resolve_iff.mpr (h at' hat hlt), fun at' later hat hle hlt u u' hu hu' => ?_⟩
  obtain ⟨v, hv, hresolves⟩ := resolve_iff.mpr (h at' hat (by omega))
  obtain ⟨v', hv', hresolves'⟩ := resolve_iff.mpr (h later (by omega) hlt)
  rw [hu] at hv
  rw [hu'] at hv'
  cases hv
  cases hv'
  exact hresolves.mono hresolves' (by omega)

/-! ## Ten minutes before three -/

def newYork : Zone where
  base := -5 * 60 * minute
  transitions := [(738954 * dayLength + 7 * 60 * minute, -4 * 60 * minute),
    (739192 * dayLength + 6 * 60 * minute, -5 * 60 * minute)]
  separated := by decide

/-- On the day the clock is put forward from two to three, ten minutes before three comes after three. -/
theorem springForward_out_of_order :
    resolveLocalInstant newYork (738954 * dayLength + 170 * minute) =
        .ok (738954 * dayLength + (7 * 60 + 5) * minute) ∧
      resolveLocalInstant newYork (738954 * dayLength + 180 * minute) = .ok (738954 * dayLength + 7 * 60 * minute) ∧
        ¬ DayResolved newYork 738954 := by
  have hearly : resolveLocalInstant newYork (738954 * dayLength + 170 * minute) =
      .ok (738954 * dayLength + (7 * 60 + 5) * minute) := by decide
  have hlate : resolveLocalInstant newYork (738954 * dayLength + 180 * minute) =
      .ok (738954 * dayLength + 7 * 60 * minute) := by decide
  refine ⟨hearly, hlate, fun h => ?_⟩
  exact absurd (h.ordered (170 * minute) (180 * minute) (by decide) (by decide) (by decide) _ _ hearly hlate)
    (by decide)

end RevenueOS.Shared
