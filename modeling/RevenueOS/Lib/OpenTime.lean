import Mathlib.Data.Set.Card
import Mathlib.Order.Interval.Set.Disjoint
import Mathlib.Data.Int.Interval
import Mathlib.Data.Int.ConditionallyCompleteOrder

/-!
# RevenueOS.Lib.OpenTime — how long a set of times lasts between two of them

Times are integers: units of the clock.  `openTime hours s t` counts those of `hours` from `s` until `t`.

* `openTime_add`: what lasts from `s` to `t` and from `t` to `u` lasts from `s` to `u`.
* `openTime_eq_of_window`: where the set is an interval, it lasts as long as the two have in common.
-/

namespace RevenueOS.Lib

/-- How much of the time from `s` until `t` is in `hours`. -/
noncomputable def openTime (hours : Set ℤ) (s t : ℤ) : ℤ := (hours ∩ Set.Ico s t).ncard

variable {hours : Set ℤ} {s t u : ℤ}

theorem finite_open (hours : Set ℤ) (s t : ℤ) : (hours ∩ Set.Ico s t).Finite :=
  (Set.finite_Ico s t).subset Set.inter_subset_right

/-- **Additivity.** -/
theorem openTime_add (hst : s ≤ t) (htu : t ≤ u) : openTime hours s t + openTime hours t u = openTime hours s u := by
  have hlater : Disjoint (Set.Ico s t) (Set.Ico t u) := Set.Ico_disjoint_Ico_same
  have hdisjoint : Disjoint (hours ∩ Set.Ico s t) (hours ∩ Set.Ico t u) :=
    hlater.mono Set.inter_subset_right Set.inter_subset_right
  unfold openTime
  rw [← Set.Ico_union_Ico_eq_Ico hst htu, Set.inter_union_distrib_left,
    Set.ncard_union_eq hdisjoint (finite_open hours s t) (finite_open hours t u)]
  exact (Nat.cast_add _ _).symm

/-- Where the set is the interval from `open'` until `close`, it lasts as long as that. -/
theorem openTime_eq_of_window {open' close : ℤ} (hopen : s ≤ open') (hle : open' ≤ close) (hclose : close ≤ t)
    (h : ∀ v, s ≤ v → v < t → (v ∈ hours ↔ open' ≤ v ∧ v < close)) : openTime hours s t = close - open' := by
  have heq : hours ∩ Set.Ico s t = Finset.Ico open' close := by
    ext v
    rw [Set.mem_inter_iff, Set.mem_Ico, Finset.mem_coe, Finset.mem_Ico]
    constructor
    · rintro ⟨hv, hs, ht⟩
      exact (h v hs ht).mp hv
    · rintro ⟨hv, hv'⟩
      have hs : s ≤ v := by omega
      have ht : v < t := by omega
      exact ⟨(h v hs ht).mpr ⟨hv, hv'⟩, hs, ht⟩
  unfold openTime
  rw [heq, Set.ncard_coe_finset, Int.card_Ico]
  omega

theorem openTime_eq_zero (h : ∀ v, s ≤ v → v < t → v ∉ hours) : openTime hours s t = 0 := by
  have heq : hours ∩ Set.Ico s t = ∅ := by
    refine Set.eq_empty_iff_forall_notMem.mpr ?_
    rintro v ⟨hv, hs, ht⟩
    exact h v hs ht hv
  unfold openTime
  rw [heq, Set.ncard_empty]
  rfl

/-- A clock that is set ahead counts the same. -/
theorem openTime_shift (hours : Set ℤ) (s t d : ℤ) :
    openTime {v | v + d ∈ hours} s t = openTime hours (s + d) (t + d) := by
  have hinj : Function.Injective fun v : ℤ => v + d := add_left_injective d
  have himage : (fun v => v + d) '' ({v | v + d ∈ hours} ∩ Set.Ico s t) = hours ∩ Set.Ico (s + d) (t + d) := by
    ext v
    constructor
    · rintro ⟨u, ⟨hu, hs, ht⟩, rfl⟩
      exact ⟨hu, Int.add_le_add_right hs d, Int.add_lt_add_right ht d⟩
    · rintro ⟨hv, hs, ht⟩
      refine ⟨v - d, ⟨?_, Int.le_sub_right_of_add_le hs, Int.sub_right_lt_of_lt_add ht⟩, Int.sub_add_cancel v d⟩
      have hback : v - d + d = v := Int.sub_add_cancel v d
      change v - d + d ∈ hours
      rwa [hback]
  unfold openTime
  rw [← himage, Set.ncard_image_of_injective _ hinj]

end RevenueOS.Lib
