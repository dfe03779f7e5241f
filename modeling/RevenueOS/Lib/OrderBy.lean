import Mathlib.Data.List.Sort

/-!
# RevenueOS.Lib.OrderBy — the order of a query

An `OrderBy` compares rows by some of their columns.  Rows with equal columns are left in any order by it, and
`thenBy` compares them by a second one.

* `sort`: the rows in the order.
* `sort_filter`: a condition may be put before or after the sort, when the order tells all rows apart.
-/

namespace RevenueOS.Lib

structure OrderBy (α : Type) where
  /-- The first row may stand before the second. -/
  le : α → α → Bool
  total : ∀ a b, le a b = true ∨ le b a = true
  trans : ∀ {a b c}, le a b = true → le b c = true → le a c = true

namespace OrderBy

variable {α κ : Type} [LinearOrder κ]

/-- No order. -/
def unordered : OrderBy α := ⟨fun _ _ => true, fun _ _ => .inl rfl, fun _ _ => rfl⟩

def asc (column : α → κ) : OrderBy α where
  le a b := column a ≤ column b
  total a b := by simpa using le_total (column a) (column b)
  trans hab hbc := by simpa using le_trans (of_decide_eq_true hab) (of_decide_eq_true hbc)

def desc (column : α → κ) : OrderBy α where
  le a b := column b ≤ column a
  total a b := by simpa using le_total (column b) (column a)
  trans hab hbc := by simpa using le_trans (of_decide_eq_true hbc) (of_decide_eq_true hab)

/-- The rows without a value stand last. -/
def nullsLast (o : OrderBy κ) (column : α → Option κ) : OrderBy α where
  le a b :=
    match column a, column b with
    | _, none => true
    | none, some _ => false
    | some x, some y => o.le x y
  total a b := by
    cases column a with
    | none => exact Or.inr (by cases column b <;> rfl)
    | some x =>
      cases column b with
      | none => exact Or.inl rfl
      | some y => exact o.total x y
  trans {a b c} hab hbc := by
    revert hab hbc
    cases column a with
    | none => cases column b <;> cases column c <;> simp
    | some x =>
      cases column b with
      | none => cases column c <;> simp
      | some y =>
        cases column c with
        | none => simp
        | some z => exact o.trans

/-- The second order among the rows that the first leaves equal. -/
def thenBy (o p : OrderBy α) : OrderBy α where
  le a b := o.le a b && (!o.le b a || p.le a b)
  total a b := by
    rcases o.total a b with hab | hba
    · cases hba : o.le b a with
      | false => exact Or.inl (by simp [hab])
      | true => simpa [hab] using p.total a b
    · cases hab : o.le a b with
      | false => exact Or.inr (by simp [hba])
      | true => simpa [hba] using p.total a b
  trans {a b c} hab hbc := by
    simp only [Bool.and_eq_true, Bool.or_eq_true, Bool.not_eq_true'] at hab hbc ⊢
    obtain ⟨hab, hab'⟩ := hab
    obtain ⟨hbc, hbc'⟩ := hbc
    refine ⟨o.trans hab hbc, ?_⟩
    cases hca : o.le c a with
    | false => exact Or.inl rfl
    | true =>
      rw [o.trans hbc hca] at hab'
      rw [o.trans hca hab] at hbc'
      exact Or.inr (p.trans (hab'.resolve_left Bool.noConfusion) (hbc'.resolve_left Bool.noConfusion))

/-- The rows in the order. -/
def sort (o : OrderBy α) (rows : List α) : List α := rows.insertionSort fun a b => o.le a b = true

variable (o : OrderBy α) (rows : List α)

theorem perm_sort : (o.sort rows).Perm rows := List.perm_insertionSort _ rows

theorem pairwise_sort : (o.sort rows).Pairwise fun a b => o.le a b = true := by
  have : Std.Total fun a b => o.le a b = true := ⟨o.total⟩
  have : IsTrans α fun a b => o.le a b = true := ⟨fun _ _ _ => o.trans⟩
  exact List.pairwise_insertionSort _ rows

/-- Only one list of these rows is in the order, when it tells all of them apart. -/
theorem sort_eq {o : OrderBy α} {rows sorted : List α}
    (happart : ∀ a ∈ rows, ∀ b ∈ rows, o.le a b = true → o.le b a = true → a = b) (hperm : sorted.Perm rows)
    (hsorted : sorted.Pairwise fun a b => o.le a b = true) : o.sort rows = sorted := by
  refine List.Perm.eq_of_pairwise (fun a b ha hb hab hba => ?_) (o.pairwise_sort rows) hsorted
    ((o.perm_sort rows).trans hperm.symm)
  exact happart a ((o.perm_sort rows).mem_iff.mp ha) b (hperm.mem_iff.mp hb) hab hba

theorem sort_filter {o : OrderBy α} {rows : List α}
    (happart : ∀ a ∈ rows, ∀ b ∈ rows, o.le a b = true → o.le b a = true → a = b) (p : α → Bool) :
    o.sort (rows.filter p) = (o.sort rows).filter p := by
  refine sort_eq (fun a ha b hb => ?_) ((o.perm_sort rows).filter p) ((o.pairwise_sort rows).filter p)
  exact happart a (List.mem_of_mem_filter ha) b (List.mem_of_mem_filter hb)

/-- Sorted by a column, the rows are strictly in order exactly if it tells them apart. -/
theorem pairwise_lt_sort_iff {column : α → κ} {rows : List α} :
    ((asc column).sort rows).Pairwise (fun a b => column a < column b) ↔ (rows.map column).Nodup := by
  have hperm := ((asc column).perm_sort rows).map column
  rw [← hperm.nodup_iff, List.Nodup, List.pairwise_map]
  constructor
  · exact fun h => h.imp fun hlt => hlt.ne
  · intro h
    refine ((asc column).pairwise_sort rows).imp₂ (fun a b hle hne => ?_) h
    exact lt_of_le_of_ne (of_decide_eq_true hle) hne

end OrderBy

end RevenueOS.Lib
