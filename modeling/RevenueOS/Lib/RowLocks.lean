import Mathlib.Logic.Function.Basic

/-!
# RevenueOS.Lib.RowLocks — locks that transactions hold on rows

A row is locked by one transaction at most, until that transaction ends.

* `Holds.eq`: two transactions never hold one row.
* `holds_take_of_available`, `holds_release_of_ne`: what one transaction does takes no lock from another.
-/

namespace RevenueOS.Lib

variable {κ τ : Type} [DecidableEq κ] [DecidableEq τ]

structure RowLocks (κ τ : Type) where
  holder : κ → Option τ

namespace RowLocks

variable (l : RowLocks κ τ) {t t' : τ} {k k' : κ}

def empty : RowLocks κ τ := ⟨fun _ => none⟩

def Holds (t : τ) (k : κ) : Prop := l.holder k = some t

instance (t : τ) (k : κ) : Decidable (l.Holds t k) := inferInstanceAs (Decidable (_ = _))

/-- Nobody else holds the row. -/
def available (t : τ) (k : κ) : Bool :=
  match l.holder k with
  | none => true
  | some t' => t' == t

/-- `t` locks a row, if there is one. -/
def take (t : τ) : Option κ → RowLocks κ τ
  | none => l
  | some k => ⟨Function.update l.holder k (some t)⟩

/-- `t` ends. -/
def release (t : τ) : RowLocks κ τ := ⟨fun k => if l.holder k = some t then none else l.holder k⟩

variable {l}

omit [DecidableEq κ] [DecidableEq τ] in
theorem Holds.eq (h : l.Holds t k) (h' : l.Holds t' k) : t = t' := Option.some.inj (h.symm.trans h')

omit [DecidableEq τ] in
theorem holds_take (t : τ) (k : κ) : (l.take t (some k)).Holds t k := by
  show Function.update l.holder k (some t) k = some t
  rw [Function.update_self]

omit [DecidableEq τ] in
/-- A transaction keeps the locks it has. -/
theorem Holds.take (h : l.Holds t k) (row : Option κ) : (l.take t row).Holds t k := by
  cases row with
  | none => exact h
  | some k' =>
    by_cases hk : k = k'
    · subst hk
      exact holds_take t k
    · exact (Function.update_of_ne hk _ _).trans h

/-- Nobody loses a lock to one who takes what is available. -/
theorem holds_take_of_available (h : l.Holds t' k) (hne : t' ≠ t) {row : Option κ}
    (hrow : ∀ k ∈ row, l.available t k = true) : (l.take t row).Holds t' k := by
  cases row with
  | none => exact h
  | some k' =>
    have hk : k ≠ k' := by
      rintro rfl
      have havailable := hrow k rfl
      unfold available at havailable
      rw [h] at havailable
      exact hne (beq_iff_eq.mp havailable)
    exact (Function.update_of_ne hk _ _).trans h

omit [DecidableEq κ] in
/-- Nobody loses a lock to one who ends. -/
theorem holds_release_of_ne (h : l.Holds t' k) (hne : t' ≠ t) : (l.release t).Holds t' k := by
  have hother : l.holder k ≠ some t := fun heq => hne (Option.some.inj (h.symm.trans heq))
  exact (if_neg hother).trans h

end RowLocks

end RevenueOS.Lib
