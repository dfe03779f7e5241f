import Mathlib.Data.List.Basic

/-!
# RevenueOS.Lib.Journal — numbered journals of moves

A journal is a list of moves, each with its number.  `IsPath` says that the moves are moves of a relation and
join up; `Numbered` that the numbers are `1, 2, ..` without a gap.  Both survive a new entry that starts where
the last one ended and takes the largest number plus one.
-/

namespace RevenueOS.Lib

variable {α : Type} {R : α → α → Prop}

/-- The moves lead from `a` to `b`, each one from where the last ended. -/
def IsPath (R : α → α → Prop) : α → List (α × α) → α → Prop
  | a, [], b => a = b
  | a, (x, y) :: moves, b => a = x ∧ R x y ∧ IsPath R y moves b

theorem isPath_concat_iff {x y c : α} : ∀ {moves : List (α × α)} {a : α},
    IsPath R a (moves ++ [(x, y)]) c ↔ IsPath R a moves x ∧ R x y ∧ y = c
  | [], _ => Iff.rfl
  | (_, _) :: _, _ => by
    rw [List.cons_append, IsPath, IsPath, isPath_concat_iff, and_assoc, and_assoc]

/-- A path has one end. -/
theorem IsPath.end_unique {b c : α} : ∀ {moves : List (α × α)} {a : α}, IsPath R a moves b → IsPath R a moves c →
    b = c
  | [], _, hb, hc => Eq.trans (Eq.symm hb) hc
  | _ :: _, _, ⟨_, _, hb⟩, ⟨_, _, hc⟩ => hb.end_unique hc

/-- `1, 2, .., n`. -/
def Numbered (ns : List ℕ) : Prop := ns = List.range' 1 ns.length

theorem foldl_max_range' (n : ℕ) : (List.range' 1 n).foldl max 0 = n := by
  induction n with
  | zero => rfl
  | succ n ih =>
    rw [List.range'_1_concat, List.foldl_append, ih]
    change max n (1 + n) = n + 1
    omega

theorem Numbered.concat {ns : List ℕ} (h : Numbered ns) : Numbered (ns ++ [ns.foldl max 0 + 1]) := by
  have hmax : ns.foldl max 0 = ns.length := by
    rw [h, foldl_max_range', List.length_range']
  unfold Numbered
  rw [hmax, List.length_append, List.length_singleton, List.range'_1_concat, ← h, Nat.add_comm]

end RevenueOS.Lib
