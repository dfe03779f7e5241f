import Mathlib.Data.Int.CardIntervalMod
import Mathlib.Data.List.GetD
import Mathlib.Data.List.Nodup

/-!
# RevenueOS.Lib.Rotation — taking turns

Turns go round a list from any cursor, which need not be an index of the list.  After any number of turns two members
have had the same number, or one of them has had one more (`count_rotation`).
-/

namespace RevenueOS.Lib

variable {α : Type}

/-- Whose turn it is. -/
def turnAt (l : List α) (d : α) (cursor : ℤ) : α := l.getD (cursor % l.length).toNat d

/-- The next `k` turns. -/
def rotation (l : List α) (d : α) (cursor : ℤ) (k : ℕ) : List α :=
  (List.range k).map fun i : ℕ => turnAt l d (cursor + i)

theorem turnAt_mod (l : List α) (d : α) (cursor : ℤ) (i : ℤ) :
    turnAt l d (cursor % l.length + i) = turnAt l d (cursor + i) := by
  unfold turnAt
  rw [Int.emod_add_emod]

/-- The first turn, and the turns from the next cursor. -/
theorem rotation_succ (l : List α) (d : α) (cursor : ℤ) (k : ℕ) :
    rotation l d cursor (k + 1) = turnAt l d cursor :: rotation l d ((cursor + 1) % l.length) k := by
  unfold rotation
  rw [List.range_succ_eq_map, List.map_cons, List.map_map]
  congr 1
  · rw [Nat.cast_zero, add_zero]
  · refine List.map_congr_left fun i _ => ?_
    have hnext : cursor + ((i + 1 : ℕ) : ℤ) = cursor + 1 + i := by
      push_cast
      omega
    rw [turnAt_mod, ← hnext]
    rfl

theorem countP_range (p : ℕ → Prop) [DecidablePred p] (k : ℕ) :
    (List.range k).countP (fun i => decide (p i)) = Nat.count p k := by
  induction k with
  | zero => rfl
  | succ k ih =>
    rw [List.range_succ, List.countP_append, ih, Nat.count_succ, List.countP_singleton]
    simp only [decide_eq_true_eq]

/-- A member has the turn whenever the cursor comes to its index. -/
theorem turnAt_eq_iff {l : List α} (hnodup : l.Nodup) (d : α) {j : ℕ} (hj : j < l.length) (cursor : ℤ) :
    turnAt l d cursor = l[j] ↔ cursor % l.length = j := by
  have hpos : (0 : ℤ) < l.length := by omega
  have hlow := Int.emod_nonneg cursor hpos.ne'
  have hhigh := Int.emod_lt_of_pos cursor hpos
  have hindex : (cursor % l.length).toNat < l.length := by omega
  unfold turnAt
  rw [List.getD_eq_getElem _ _ hindex, hnodup.getElem_inj_iff]
  omega

variable [DecidableEq α]

/-- The turns of a member, by its index. -/
theorem count_rotation_eq {l : List α} (hnodup : l.Nodup) (d : α) (cursor : ℤ) (k : ℕ) {j : ℕ} (hj : j < l.length) :
    ∃ v : ℕ, (rotation l d cursor k).count l[j] = k / l.length + if v < k % l.length then 1 else 0 := by
  have hpos : 0 < l.length := by omega
  generalize hshift : ((j - cursor) % l.length).toNat = v
  have hmod : (v : ℤ) = (j - cursor) % l.length := by
    have hnonneg := Int.emod_nonneg (j - cursor) (show (l.length : ℤ) ≠ 0 by omega)
    omega
  have hv : (j : ℤ) - cursor ≡ v [ZMOD l.length] := by
    rw [hmod]
    exact (Int.mod_modEq _ _).symm
  have hiff : ∀ i : ℕ, turnAt l d (cursor + i) = l[j] ↔ i ≡ v [MOD l.length] := by
    intro i
    have hindex : (cursor + i) % l.length = j ↔ cursor + i ≡ j [ZMOD l.length] := by
      rw [Int.ModEq, Int.emod_eq_of_lt (Int.natCast_nonneg j) (by omega)]
    rw [turnAt_eq_iff hnodup d hj, hindex, ← Int.natCast_modEq_iff]
    constructor
    · intro h
      have hsub := h.sub_right cursor
      rw [add_sub_cancel_left] at hsub
      exact hsub.trans hv
    · intro h
      have hadd := (h.trans hv.symm).add_left cursor
      rwa [add_sub_cancel] at hadd
  refine ⟨v % l.length, ?_⟩
  rw [← Nat.count_modEq_card k hpos v, ← countP_range, List.count_eq_countP, rotation, List.countP_map]
  refine List.countP_congr fun i _ => ?_
  rw [Function.comp_apply, beq_iff_eq, decide_eq_true_eq, hiff i]

/-- **Turns are fair**, after any number of them. -/
theorem count_rotation {l : List α} (hnodup : l.Nodup) (d : α) (cursor : ℤ) (k : ℕ) {s t : α}
    (hs : s ∈ l) (ht : t ∈ l) :
    (rotation l d cursor k).count s ≤ (rotation l d cursor k).count t + 1 := by
  obtain ⟨i, hi, rfl⟩ := List.getElem_of_mem hs
  obtain ⟨j, hj, rfl⟩ := List.getElem_of_mem ht
  obtain ⟨v, hv⟩ := count_rotation_eq hnodup d cursor k hi
  obtain ⟨w, hw⟩ := count_rotation_eq hnodup d cursor k hj
  rw [hv, hw]
  split_ifs <;> omega

end RevenueOS.Lib
