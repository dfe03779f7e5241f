import Mathlib.Logic.Relation
import Mathlib.Logic.Function.Basic

/-!
# RevenueOS.Lib.Pointers — chains of parent pointers

Every node has at most one pointer.  A chain ends when it reaches a node without one; then it has no cycle.

* `ends_update_iff`: setting one pointer keeps every chain ending exactly if the new target does not lead back.
-/

namespace RevenueOS.Lib

open Relation

variable {α : Type} {next : α → Option α}

/-- The pointer of `a` is to `b`. -/
def Points (next : α → Option α) (a b : α) : Prop := next a = some b

/-- The chain from `a` reaches a node without a pointer. -/
def Ends (next : α → Option α) (a : α) : Prop := ∃ root, ReflTransGen (Points next) a root ∧ next root = none

/-- A chain that ends passes through every node it reaches only once. -/
theorem Ends.not_cycle {a : α} (h : Ends next a) : ¬TransGen (Points next) a a := by
  obtain ⟨root, hpath, hroot⟩ := h
  induction hpath using ReflTransGen.head_induction_on with
  | refl =>
    intro hcycle
    obtain ⟨b, hb, -⟩ := TransGen.head'_iff.mp hcycle
    rw [Points, hroot] at hb
    cases hb
  | head hab hpath ih =>
    rename_i a b
    intro hcycle
    obtain ⟨c, hac, hca⟩ := TransGen.head'_iff.mp hcycle
    obtain rfl := Option.some.inj (hac.symm.trans hab)
    exact ih (TransGen.tail'_iff.mpr ⟨a, hca, hab⟩)

variable [DecidableEq α] {a b : α}

/-- A path to `a` does not use the pointer of `a`. -/
theorem reflTransGen_update {x : α} (h : ReflTransGen (Points next) x a) (target : Option α) :
    ReflTransGen (Points (Function.update next a target)) x a := by
  induction h using ReflTransGen.head_induction_on with
  | refl => exact .refl
  | head hxy hpath ih =>
    rename_i x y
    by_cases hx : x = a
    · rw [hx]
    · refine .head ?_ ih
      rw [Points, Function.update_of_ne hx]
      exact hxy

/-- A chain that does not reach `a` is not changed by the pointer of `a`. -/
theorem Ends.update_of_not_reaches {x : α} (h : Ends next x) (target : Option α)
    (hx : ¬ReflTransGen (Points next) x a) : Ends (Function.update next a target) x := by
  obtain ⟨root, hpath, hroot⟩ := h
  induction hpath using ReflTransGen.head_induction_on with
  | refl =>
    have hne : root ≠ a := by
      rintro rfl
      exact hx .refl
    exact ⟨root, .refl, by rw [Function.update_of_ne hne, hroot]⟩
  | head hxy hpath ih =>
    rename_i x y
    have hne : x ≠ a := by
      rintro rfl
      exact hx .refl
    obtain ⟨root', hpath', hroot'⟩ := ih fun hy => hx (.head hxy hy)
    refine ⟨root', .head ?_ hpath', hroot'⟩
    rw [Points, Function.update_of_ne hne]
    exact hxy

/-- **Setting one pointer** keeps every chain ending exactly if the new target does not lead back. -/
theorem ends_update_iff (h : ∀ x, Ends next x) :
    (∀ x, Ends (Function.update next a (some b)) x) ↔ ¬ReflTransGen (Points next) b a := by
  have hpointer : Points (Function.update next a (some b)) a b := by
    rw [Points, Function.update_self]
  constructor
  · intro hends hback
    exact (hends a).not_cycle (.head' hpointer (reflTransGen_update hback (some b)))
  · intro hback x
    by_cases hx : ReflTransGen (Points next) x a
    · -- through `a`, the chain goes on from `b`
      obtain ⟨root, hpath, hroot⟩ := (h b).update_of_not_reaches (some b) hback
      exact ⟨root, (reflTransGen_update hx (some b)).trans (.head hpointer hpath), hroot⟩
    · exact (h x).update_of_not_reaches (some b) hx

end RevenueOS.Lib
