import Mathlib.Data.Nat.Find
import Mathlib.Order.Monotone.Basic
import Mathlib.Tactic.IntervalCases

/-!
# RevenueOS.Lib.Calendar — periods of days

Days are numbered from 0.  A `Timeline` cuts them into periods, of which the period `k` begins at `start k`; `period n`
is the one that holds the day `n`.  `days` and `months` are two of them: the day 0 is the first day of the year 1 of the
Gregorian calendar, the month 0 its first month.

* `period_eq_iff`, `eq_of_overlap`: periods are told apart by any day they hold.
* `monthStart_succ`: the months follow each other.  `monthOf` finds the month of a day among the months of two years.
-/

namespace RevenueOS.Lib

structure Timeline where
  start : ℕ → ℕ
  start_zero : start 0 = 0
  start_lt : ∀ k, start k < start (k + 1)

namespace Timeline

variable (T : Timeline)

theorem start_strictMono : StrictMono T.start := strictMono_nat_of_lt_succ T.start_lt

theorem le_start : ∀ k, k ≤ T.start k
  | 0 => Nat.zero_le _
  | k + 1 => by
    have := T.start_lt k
    have := le_start k
    omega

/-- The period that holds a day. -/
def period (n : ℕ) : ℕ := Nat.findGreatest (fun k => T.start k ≤ n) n

theorem start_period_le (n : ℕ) : T.start (T.period n) ≤ n :=
  Nat.findGreatest_spec (P := fun k => T.start k ≤ n) (Nat.zero_le n) (by rw [T.start_zero]; exact Nat.zero_le n)

theorem lt_start_period_succ (n : ℕ) : n < T.start (T.period n + 1) := by
  by_contra h
  have hle : T.start (T.period n + 1) ≤ n := Nat.le_of_not_lt h
  have hbound : T.period n + 1 ≤ n := le_trans (T.le_start _) hle
  have hgreatest : T.period n + 1 ≤ T.period n :=
    Nat.le_findGreatest (P := fun k => T.start k ≤ n) hbound hle
  omega

/-- Two periods with a common day are one. -/
theorem eq_of_overlap {j k : ℕ} (hjk : T.start j < T.start (k + 1)) (hkj : T.start k < T.start (j + 1)) : j = k := by
  have hj := T.start_strictMono.lt_iff_lt.mp hjk
  have hk := T.start_strictMono.lt_iff_lt.mp hkj
  omega

theorem period_eq_iff {n k : ℕ} : T.period n = k ↔ T.start k ≤ n ∧ n < T.start (k + 1) := by
  constructor
  · rintro rfl
    exact ⟨T.start_period_le n, T.lt_start_period_succ n⟩
  · rintro ⟨hle, hlt⟩
    exact T.eq_of_overlap (lt_of_le_of_lt (T.start_period_le n) hlt) (lt_of_le_of_lt hle (T.lt_start_period_succ n))

theorem period_start (k : ℕ) : T.period (T.start k) = k := T.period_eq_iff.mpr ⟨le_rfl, T.start_lt k⟩

end Timeline

/-- Each day is a period. -/
def days : Timeline := ⟨fun k => k, rfl, fun _ => Nat.lt_succ_self _⟩

theorem period_days (n : ℕ) : days.period n = n := days.period_start n

/-! ## The months of the Gregorian calendar -/

def isLeap (year : ℕ) : Bool := year % 4 = 0 && (year % 100 ≠ 0 || year % 400 = 0)

/-- The year of a month. -/
def yearOf (k : ℕ) : ℕ := k / 12 + 1

/-- The days before the first of January that follows `y` years. -/
def daysBeforeYear (y : ℕ) : ℕ := y * 365 + y / 4 - y / 100 + y / 400

/-- The days of a year before a month of it, from 0 to 11. -/
def daysBeforeMonth (leap : Bool) : ℕ → ℕ
  | 0 => 0
  | 1 => 31
  | m + 2 => [59, 90, 120, 151, 181, 212, 243, 273, 304, 334].getD m 0 + if leap then 1 else 0

/-- The length of a month, from 0 to 11. -/
def daysInMonth (leap : Bool) (m : ℕ) : ℕ :=
  if m = 1 then (if leap then 29 else 28) else if m = 3 ∨ m = 5 ∨ m = 8 ∨ m = 10 then 30 else 31

/-- The first day of a month. -/
def monthStart (k : ℕ) : ℕ := daysBeforeYear (k / 12) + daysBeforeMonth (isLeap (yearOf k)) (k % 12)

def monthLength (k : ℕ) : ℕ := daysInMonth (isLeap (yearOf k)) (k % 12)

theorem daysInMonth_bounds (leap : Bool) (m : ℕ) : 28 ≤ daysInMonth leap m ∧ daysInMonth leap m ≤ 31 := by
  unfold daysInMonth
  split_ifs <;> omega

/-- Within a year, a month follows the days of the month before it. -/
theorem daysBeforeMonth_succ (leap : Bool) {m : ℕ} (h : m < 11) :
    daysBeforeMonth leap (m + 1) = daysBeforeMonth leap m + daysInMonth leap m := by
  cases leap <;> interval_cases m <;> rfl

/-- December is the end of a year. -/
theorem daysBeforeMonth_december (leap : Bool) :
    daysBeforeMonth leap 11 + daysInMonth leap 11 = 365 + if leap then 1 else 0 := by
  cases leap <;> rfl

/-- A leap day moves the years that follow. -/
theorem daysBeforeYear_succ (y : ℕ) :
    daysBeforeYear (y + 1) = daysBeforeYear y + 365 + if isLeap (y + 1) then 1 else 0 := by
  have hleap : isLeap (y + 1) = true ↔ 4 ∣ y + 1 ∧ (¬ 100 ∣ y + 1 ∨ 400 ∣ y + 1) := by
    simp [isLeap, Nat.dvd_iff_mod_eq_zero]
  have hfour : 100 ∣ y + 1 → 4 ∣ y + 1 := dvd_trans (by decide)
  have hcentury : 400 ∣ y + 1 → 100 ∣ y + 1 := dvd_trans (by decide)
  have hle : y / 100 ≤ y / 4 := Nat.div_le_div_left (by decide) (by decide)
  unfold daysBeforeYear
  rw [Nat.succ_div, Nat.succ_div, Nat.succ_div, if_congr hleap rfl rfl]
  generalize y / 4 = q, y / 100 = c, y / 400 = f at *
  by_cases h4 : 4 ∣ y + 1
  · by_cases h100 : 100 ∣ y + 1
    · by_cases h400 : 400 ∣ y + 1
      · simp only [h4, h100, h400, if_true, or_true, and_true]
        omega
      · simp only [h4, h100, h400, if_true, if_false, not_true_eq_false, or_false, and_false]
        omega
    · simp only [h4, h100, mt hcentury h100, if_true, if_false, not_false_eq_true, true_or, and_true]
      omega
  · simp only [h4, mt hfour h4, mt hcentury (mt hfour h4), if_false, false_and]
    omega

/-- **The months follow each other.** -/
theorem monthStart_succ (k : ℕ) : monthStart (k + 1) = monthStart k + monthLength k := by
  unfold monthStart monthLength yearOf
  by_cases h : k % 12 = 11
  · have hdiv : (k + 1) / 12 = k / 12 + 1 := by omega
    have hmod : (k + 1) % 12 = 0 := by omega
    have hyear := daysBeforeYear_succ (k / 12)
    have hend := daysBeforeMonth_december (isLeap (k / 12 + 1))
    rw [hdiv, hmod, h]
    show daysBeforeYear (k / 12 + 1) + 0 = _
    omega
  · have hdiv : (k + 1) / 12 = k / 12 := by omega
    have hmod : (k + 1) % 12 = k % 12 + 1 := by omega
    rw [hdiv, hmod, daysBeforeMonth_succ _ (by omega)]
    omega

theorem monthLength_bounds (k : ℕ) : 28 ≤ monthLength k ∧ monthLength k ≤ 31 := daysInMonth_bounds _ _

def months : Timeline where
  start := monthStart
  start_zero := rfl
  start_lt k := by
    have := monthLength_bounds k
    rw [monthStart_succ]
    omega

theorem le_daysBeforeYear (y : ℕ) : y * 365 ≤ daysBeforeYear y := by
  have hle : y / 100 ≤ y / 4 := Nat.div_le_div_left (by decide) (by decide)
  unfold daysBeforeYear
  omega

/-- The month that holds a day. -/
def monthOf (n : ℕ) : ℕ := Nat.findGreatest (fun k => monthStart k ≤ n) (12 * (n / 365 + 2))

theorem monthOf_eq (n : ℕ) : monthOf n = months.period n := by
  refine (months.period_eq_iff.mpr ⟨?_, ?_⟩).symm
  · exact Nat.findGreatest_spec (P := fun k => monthStart k ≤ n) (Nat.zero_le _) (Nat.zero_le n)
  · by_contra h
    have hle : monthStart (monthOf n + 1) ≤ n := Nat.le_of_not_lt h
    have hyears : (monthOf n + 1) / 12 * 365 ≤ n :=
      le_trans (le_trans (le_daysBeforeYear _) (Nat.le_add_right _ _)) hle
    have hgreatest : monthOf n + 1 ≤ monthOf n :=
      Nat.le_findGreatest (P := fun k => monthStart k ≤ n) (by omega) hle
    omega

end RevenueOS.Lib
