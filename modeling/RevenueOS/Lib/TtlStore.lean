import Mathlib.Data.List.Basic
import Mathlib.Logic.Function.Basic

/-!
# RevenueOS.Lib.TtlStore — a key store whose entries expire

Only the presence of a key is kept.  An entry is live until the clock reaches its expiry; expiry needs no
step of its own, since every read goes through `live`.
-/

namespace RevenueOS.Lib

structure TtlStore (κ : Type) where
  now : ℕ
  expiry : κ → Option ℕ

namespace TtlStore

variable {κ : Type}

def empty : TtlStore κ := ⟨0, fun _ => none⟩

def live (s : TtlStore κ) (k : κ) : Bool :=
  match s.expiry k with
  | some e => decide (s.now < e)
  | none => false

def elapse (s : TtlStore κ) (d : ℕ) : TtlStore κ := { s with now := s.now + d }

theorem live_iff {s : TtlStore κ} {k : κ} : s.live k = true ↔ ∃ e, s.expiry k = some e ∧ s.now < e := by
  unfold live
  cases s.expiry k <;> simp

/-- Time never revives a key. -/
theorem live_of_live_elapse {s : TtlStore κ} {k : κ} {d : ℕ} (h : (s.elapse d).live k = true) :
    s.live k = true := by
  rw [live_iff] at h ⊢
  obtain ⟨e, he, hlt⟩ := h
  refine ⟨e, he, ?_⟩
  change s.now + d < e at hlt
  omega

section Writes

variable [DecidableEq κ]

def set (s : TtlStore κ) (k : κ) (ttl : ℕ) : TtlStore κ :=
  { s with expiry := Function.update s.expiry k (some (s.now + ttl)) }

def delete (s : TtlStore κ) (k : κ) : TtlStore κ := { s with expiry := Function.update s.expiry k none }

variable {s : TtlStore κ} {k k' : κ} {ttl : ℕ}

@[simp] theorem now_set : (s.set k ttl).now = s.now := rfl

@[simp] theorem expiry_set_self : (s.set k ttl).expiry k = some (s.now + ttl) := by simp [set]

@[simp] theorem expiry_set_of_ne (h : k' ≠ k) : (s.set k ttl).expiry k' = s.expiry k' := by simp [set, h]

theorem live_set_self (h : 0 < ttl) : (s.set k ttl).live k = true := by
  rw [live_iff]
  exact ⟨_, expiry_set_self, by simpa using h⟩

theorem live_set_of_ne (h : k' ≠ k) : (s.set k ttl).live k' = s.live k' := by
  unfold live
  rw [expiry_set_of_ne h]
  rfl

/-- Setting a key never ends another's life. -/
theorem live_set (h : s.live k' = true) (hpos : 0 < ttl) : (s.set k ttl).live k' = true := by
  by_cases hk : k' = k
  · subst hk
    exact live_set_self hpos
  · rw [live_set_of_ne hk]
    exact h

@[simp] theorem live_delete_self : (s.delete k).live k = false := by simp [live, delete]

theorem live_delete_of_ne (h : k' ≠ k) : (s.delete k).live k' = s.live k' := by
  unfold live
  rw [show (s.delete k).expiry k' = s.expiry k' by simp [delete, h]]
  rfl

/-- Deleting a key never revives one. -/
theorem live_of_live_delete (h : (s.delete k).live k' = true) : s.live k' = true := by
  by_cases hk : k' = k
  · subst hk
    simp at h
  · rwa [live_delete_of_ne hk] at h

end Writes

end TtlStore

end RevenueOS.Lib
