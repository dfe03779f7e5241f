import Mathlib.Data.List.Basic

/-!
# RevenueOS.Lib.Slots — pools of processes kept as lists

A process keeps its index for the whole run: it is started by appending and moved by setting its slot.
-/

namespace RevenueOS.Lib

variable {α : Type} {l : List α} {a b : α} {j k : ℕ}

/-- A slot after one of them was set. -/
theorem getElem?_set_cases (h : (l.set k a)[j]? = some b) : j = k ∧ b = a ∨ j ≠ k ∧ l[j]? = some b := by
  by_cases hj : j = k
  · subst hj
    rw [List.getElem?_set_self'] at h
    obtain ⟨_, -, rfl⟩ := Option.map_eq_some_iff.mp h
    exact Or.inl ⟨rfl, rfl⟩
  · rw [List.getElem?_set_ne (Ne.symm hj)] at h
    exact Or.inr ⟨hj, h⟩

/-- A slot after a process was added. -/
theorem getElem?_concat_cases (h : (l ++ [a])[j]? = some b) : b = a ∨ l[j]? = some b := by
  rcases Nat.lt_or_ge j l.length with hlt | hge
  · rw [List.getElem?_append_left hlt] at h
    exact Or.inr h
  · rw [List.getElem?_append_right hge] at h
    exact Or.inl (List.mem_singleton.mp (List.mem_of_getElem? h))

/-- A slot holds one process. -/
theorem getElem?_ne_of_some (h : l[k]? = some a) (hne : a ≠ b) : l[k]? ≠ some b := by
  rw [h]
  exact fun heq => hne (Option.some.inj heq)

/-- The process of a set slot, when there was one. -/
theorem getElem?_set_of_some (h : l[k]? = some b) : (l.set k a)[k]? = some a := by
  rw [List.getElem?_set_self', h]
  rfl

theorem getElem?_concat_of_some (h : l[k]? = some b) : (l ++ [a])[k]? = some b := by
  obtain ⟨hlt, -⟩ := List.getElem?_eq_some_iff.mp h
  rw [List.getElem?_append_left hlt, h]

/-- The process that was added is the only one without a property that all others have. -/
theorem eq_of_getElem?_concat {P : α → Prop} (h : ∀ c ∈ l, P c) (hk : (l ++ [a])[k]? = some b) (hb : ¬P b) :
    k = l.length ∧ b = a := by
  rcases Nat.lt_or_ge k l.length with hlt | hge
  · rw [List.getElem?_append_left hlt] at hk
    exact absurd (h b (List.mem_of_getElem? hk)) hb
  · have hlt : k < (l ++ [a]).length := (List.getElem?_eq_some_iff.mp hk).1
    rw [List.length_append, List.length_singleton] at hlt
    rw [List.getElem?_append_right hge] at hk
    exact ⟨by omega, List.mem_singleton.mp (List.mem_of_getElem? hk)⟩

/-- What holds of all processes, after one of them was set. -/
theorem forall_mem_set {P : α → Prop} (h : ∀ c ∈ l, P c) (ha : P a) : ∀ c ∈ l.set k a, P c := by
  intro c hc
  rcases List.mem_or_eq_of_mem_set hc with hmem | rfl
  · exact h c hmem
  · exact ha

/-- What holds of all processes, after one was added. -/
theorem forall_mem_concat {P : α → Prop} (h : ∀ c ∈ l, P c) (ha : P a) : ∀ c ∈ l ++ [a], P c :=
  List.forall_mem_append.mpr ⟨h, List.forall_mem_singleton.mpr ha⟩

/-- How many processes meet a condition, after one of them was set. -/
theorem countP_set_of_some {p : α → Bool} (h : l[k]? = some b) :
    (l.set k a).countP p + (if p b then 1 else 0) = l.countP p + (if p a then 1 else 0) := by
  obtain ⟨hlt, rfl⟩ := List.getElem?_eq_some_iff.mp h
  rw [List.countP_set hlt]
  by_cases hp : p l[k] = true
  · have hpos : 0 < l.countP p := List.countP_pos_iff.mpr ⟨_, List.getElem_mem hlt, hp⟩
    rw [if_pos hp]
    omega
  · rw [if_neg hp]
    omega

end RevenueOS.Lib
