import Mathlib.Data.List.Sort
import Mathlib.Data.Int.Order.Basic

/-!
# RevenueOS.Lib.SlidingWindow — logs that keep a limit in a sliding window

A log holds times, the latest first.  It is paced if each of its times found fewer than `limit` times in the window
before it.

* `Paced.interval_le`: then no interval of the window's length holds more than `limit` times, wherever it lies.
-/

namespace RevenueOS.Lib

/-- How many times of a log are later than one. -/
def since (t : ℤ) (log : List ℤ) : ℕ := log.countP (t < ·)

/-- Each time finds fewer than `limit` in the window before it. -/
def Paced (limit : ℕ) (window : ℤ) : List ℤ → Prop
  | [] => True
  | t :: log => since (t - window) log < limit ∧ Paced limit window log

variable {limit : ℕ} {window a : ℤ} {log : List ℤ}

theorem since_cons (a t : ℤ) (log : List ℤ) : since a (t :: log) = since a log + if a < t then 1 else 0 := by
  unfold since
  rw [List.countP_cons]
  simp only [decide_eq_true_eq]

/-- The times of an interval that ends with the latest of them are in the window before it. -/
theorem countP_le_since {p : ℤ → Bool} (h : ∀ t ∈ log, p t = true → a < t) : log.countP p ≤ since a log := by
  unfold since
  exact List.countP_mono_left fun t ht hp => decide_eq_true (h t ht hp)

/-- **No interval holds more than the limit**: times no two of which are a window apart. -/
theorem Paced.interval_le {p : ℤ → Bool} (hspan : ∀ t t', p t = true → p t' = true → t - window < t') :
    ∀ {log : List ℤ}, log.Pairwise (· ≥ ·) → Paced limit window log → log.countP p ≤ limit
  | [], _, _ => Nat.zero_le limit
  | t :: log, horder, hpaced => by
    have hrest := Paced.interval_le hspan (List.pairwise_cons.mp horder).2 hpaced.2
    by_cases hp : p t = true
    · have hwindow : log.countP p ≤ since (t - window) log := countP_le_since fun t' _ hp' => hspan t t' hp hp'
      have hfew := hpaced.1
      rw [List.countP_cons_of_pos hp]
      omega
    · rw [List.countP_cons_of_neg hp]
      exact hrest

/-- So does none that ends now. -/
theorem Paced.since_le {now : ℤ} (horder : log.Pairwise (· ≥ ·)) (hpaced : Paced limit window log)
    (hpast : ∀ t ∈ log, t ≤ now) : since (now - window) log ≤ limit := by
  have hle := Paced.interval_le (p := fun t => decide (now - window < t) && decide (t ≤ now)) (fun t t' ht ht' => by
    simp only [Bool.and_eq_true, decide_eq_true_eq] at ht ht'
    omega) horder hpaced
  have hsame : since (now - window) log = log.countP fun t => decide (now - window < t) && decide (t ≤ now) := by
    refine List.countP_congr fun t ht => ?_
    have := hpast t ht
    simp only [Bool.and_eq_true, decide_eq_true_eq]
    omega
  omega

end RevenueOS.Lib
