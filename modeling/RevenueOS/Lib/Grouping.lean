import RevenueOS.Lib.Table
import Mathlib.Algebra.BigOperators.Group.List.Basic
import Mathlib.Data.List.Dedup
import Mathlib.Algebra.Ring.Nat

/-!
# RevenueOS.Lib.Grouping — sums over the groups and the joins of a query

`groupRows` gathers the rows of a list by a key, and `leftJoin` pairs each row with the rows of another list that it
refers to, or with none.

* `sum_groupRows`: the sums of the groups make up that of the rows.
* `sum_leftJoin`: if the keys of the left rows differ, each row on the right that refers to one of them counts once.
-/

namespace RevenueOS.Lib

variable {Row Other κ M : Type} [DecidableEq κ] [AddCommMonoid M]

/-! ## `GROUP BY` -/

/-- The rows of each key. -/
def groupRows (key : Row → κ) (rows : List Row) : List (κ × List Row) :=
  (rows.map key).dedup.map fun k => (k, rows.filter (key · = k))

variable {key : Row → κ} {rows : List Row}

theorem mem_groupRows {group : κ × List Row} (h : group ∈ groupRows key rows) :
    group.1 ∈ rows.map key ∧ group.2 = rows.filter (key · = group.1) := by
  obtain ⟨k, hk, rfl⟩ := List.mem_map.mp h
  exact ⟨List.mem_dedup.mp hk, rfl⟩

theorem keys_groupRows (key : Row → κ) (rows : List Row) : (groupRows key rows).map Prod.fst =
    (rows.map key).dedup := by
  unfold groupRows
  rw [List.map_map]
  exact List.map_id _

/-- A group has a row. -/
theorem length_group_pos {group : κ × List Row} (h : group ∈ groupRows key rows) : 0 < group.2.length := by
  obtain ⟨hk, hrows⟩ := mem_groupRows h
  obtain ⟨row, hrow, hkey⟩ := List.mem_map.mp hk
  rw [hrows]
  exact List.length_pos_of_mem (List.mem_filter.mpr ⟨hrow, decide_eq_true hkey⟩)

/-- A row counts at its own key only. -/
theorem sum_map_ite_eq {keys : List κ} (hkeys : keys.Nodup) (k : κ) (x : M) :
    (keys.map fun k' => if k = k' then x else 0).sum = if k ∈ keys then x else 0 := by
  induction keys with
  | nil => rfl
  | cons k' keys ih =>
    obtain ⟨hfresh, hkeys⟩ := List.nodup_cons.mp hkeys
    rw [List.map_cons, List.sum_cons, ih hkeys]
    by_cases heq : k = k'
    · subst heq
      rw [if_pos rfl, if_neg hfresh, if_pos List.mem_cons_self, add_zero]
    · rw [if_neg heq, zero_add]
      by_cases hmem : k ∈ keys
      · rw [if_pos hmem, if_pos (List.mem_cons_of_mem _ hmem)]
      · rw [if_neg hmem, if_neg fun h => (List.mem_cons.mp h).elim heq hmem]

/-- The rows that refer to one of some keys are counted key by key. -/
theorem sum_by_key {keys : List κ} (hkeys : keys.Nodup) (key : Row → κ) (amount : Row → M) : ∀ rows : List Row,
    (keys.map fun k => ((rows.filter (key · = k)).map amount).sum).sum =
      ((rows.filter (key · ∈ keys)).map amount).sum
  | [] => by
    induction keys with
    | nil => rfl
    | cons k keys ih =>
      rw [List.map_cons, List.sum_cons, ih (List.nodup_cons.mp hkeys).2]
      exact add_zero _
  | row :: rows => by
    have hsplit : ∀ k, (((row :: rows).filter (key · = k)).map amount).sum =
        (if key row = k then amount row else 0) + ((rows.filter (key · = k)).map amount).sum := by
      intro k
      by_cases h : key row = k
      · rw [List.filter_cons_of_pos (by simpa using h), List.map_cons, List.sum_cons, if_pos h]
      · rw [List.filter_cons_of_neg (by simpa using h), if_neg h, zero_add]
    rw [List.map_congr_left fun k _ => hsplit k, List.sum_map_add, sum_map_ite_eq hkeys,
      sum_by_key hkeys key amount rows]
    by_cases h : key row ∈ keys
    · rw [if_pos h, List.filter_cons_of_pos (by simpa using h), List.map_cons, List.sum_cons]
    · rw [if_neg h, List.filter_cons_of_neg (by simpa using h), zero_add]

/-- **The sums of the groups** make up that of the rows. -/
theorem sum_groupRows (key : Row → κ) (amount : Row → M) (rows : List Row) :
    ((groupRows key rows).map fun group => (group.2.map amount).sum).sum = (rows.map amount).sum := by
  have hall : rows.filter (key · ∈ (rows.map key).dedup) = rows := by
    refine List.filter_eq_self.mpr fun row hrow => decide_eq_true ?_
    exact List.mem_dedup.mpr (List.mem_map_of_mem hrow)
  unfold groupRows
  rw [List.map_map]
  refine (sum_by_key (List.nodup_dedup _) key amount rows).trans ?_
  rw [hall]

/-! ## `LEFT JOIN` -/

/-- Each row with the rows that refer to its key, or with none. -/
def leftJoin (key : Row → κ) (ref : Other → κ) (rows : List Row) (others : List Other) : List (Row × Option Other) :=
  rows.flatMap fun row =>
    match others.filter (ref · = key row) with
    | [] => [(row, none)]
    | matched => matched.map fun other => (row, some other)

/-- **A joined row counts once**, if the keys differ. -/
theorem sum_leftJoin {ref : Other → κ} {others : List Other} (hkeys : (rows.map key).Nodup) (amount : Other → M) :
    ((leftJoin key ref rows others).map fun pair => pair.2.elim 0 amount).sum =
      ((others.filter (ref · ∈ rows.map key)).map amount).sum := by
  have hrow : ∀ row, (((match others.filter (ref · = key row) with
      | [] => [(row, none)]
      | matched => matched.map fun other => (row, some other)) : List (Row × Option Other)).map
        fun pair => pair.2.elim 0 amount).sum = ((others.filter (ref · = key row)).map amount).sum := by
    intro row
    cases others.filter (ref · = key row) with
    | nil => exact add_zero _
    | cons other matched =>
      dsimp only
      rw [List.map_map]
      rfl
  rw [← sum_by_key hkeys ref amount others]
  unfold leftJoin
  rw [List.map_flatMap, List.flatMap_def, List.sum_flatten, List.map_map, List.map_map]
  refine congrArg List.sum (List.map_congr_left fun row _ => ?_)
  exact hrow row

/-! ## `INSERT .. ON CONFLICT DO UPDATE` -/

section Upserts

variable {key : Row → κ} (figure : Row → ℕ)

/-- What a table's rows add up to. -/
def Table.sum (t : Table key) : ℕ := (t.rows.map figure).sum

variable {t : Table key} {row old : Row} {rows : List Row}

theorem Table.sum_upsert_of_none (h : t.find? (key row) = none) : (t.upsert row).sum figure =
    t.sum figure + figure row := by
  unfold Table.sum
  rw [Table.rows_upsert_of_none h, List.map_append, List.sum_append, List.map_singleton, List.sum_singleton]

/-- What is replaced does not count any more. -/
theorem Table.sum_upsert_of_some (h : t.find? (key row) = some old) :
    (t.upsert row).sum figure + figure old = t.sum figure + figure row := by
  obtain ⟨before, after, hrows, hupsert⟩ := Table.rows_upsert_of_some h
  unfold Table.sum
  rw [hupsert, hrows, List.map_append, List.map_append, List.sum_append, List.sum_append, List.map_cons, List.map_cons,
    List.sum_cons, List.sum_cons]
  omega

theorem Table.sum_upsert_le (t : Table key) (row : Row) : (t.upsert row).sum figure ≤ t.sum figure + figure row := by
  cases h : t.find? (key row) with
  | none => exact Nat.le_of_eq (sum_upsert_of_none figure h)
  | some old =>
    have := sum_upsert_of_some figure h
    omega

theorem Table.sum_upsertAll_le : ∀ (rows : List Row) (t : Table key),
    (t.upsertAll rows).sum figure ≤ t.sum figure + (rows.map figure).sum
  | [], t => Nat.le_refl _
  | row :: rows, t => by
    have hrest := sum_upsertAll_le rows (t.upsert row)
    have hrow := sum_upsert_le figure t row
    rw [upsertAll, List.foldl_cons, List.map_cons, List.sum_cons]
    unfold upsertAll at hrest
    omega

/-- If a row is replaced that counts, the sum is less than that of all rows. -/
theorem Table.sum_upsertAll_lt : ∀ {rows : List Row} {t : Table key}, row ∈ rows → t.find? (key row) = some old →
    0 < figure old → (t.upsertAll rows).sum figure < t.sum figure + (rows.map figure).sum
  | first :: rows, t, hrow, hold, hpos => by
    have hrest := sum_upsertAll_le figure rows (t.upsert first)
    rw [upsertAll, List.foldl_cons, List.map_cons, List.sum_cons]
    unfold upsertAll at hrest
    by_cases hsame : key row = key first
    · have := sum_upsert_of_some figure (hsame ▸ hold)
      omega
    · have hrow : row ∈ rows := by
        rcases List.mem_cons.mp hrow with rfl | hrow
        · exact absurd rfl hsame
        · exact hrow
      have hlt := sum_upsertAll_lt hrow ((find?_upsert_of_ne t hsame).trans hold) hpos
      have hfirst := sum_upsert_le figure t first
      unfold upsertAll at hlt
      omega

/-- **Rows that are all new count in full**, if their keys differ. -/
theorem Table.sum_upsertAll : ∀ {rows : List Row} {t : Table key}, (rows.map key).Nodup →
    (∀ row ∈ rows, t.find? (key row) = none) → (t.upsertAll rows).sum figure = t.sum figure + (rows.map figure).sum
  | [], t, _, _ => rfl
  | row :: rows, t, hkeys, hfresh => by
    rw [List.map_cons, List.nodup_cons] at hkeys
    have hlater : ∀ row' ∈ rows, (t.upsert row).find? (key row') = none := by
      intro row' hrow'
      rw [find?_upsert_of_ne t fun hsame => hkeys.1 (hsame ▸ List.mem_map_of_mem hrow')]
      exact hfresh row' (List.mem_cons_of_mem _ hrow')
    have hrest := sum_upsertAll hkeys.2 hlater
    rw [upsertAll, List.foldl_cons, List.map_cons, List.sum_cons]
    unfold upsertAll at hrest
    rw [hrest, sum_upsert_of_none figure (hfresh row List.mem_cons_self), Nat.add_assoc]

/-- **Only then**, if each of them counts. -/
theorem Table.nodup_of_sum_upsertAll : ∀ {rows : List Row} {t : Table key}, (∀ row ∈ rows, 0 < figure row) →
    (t.upsertAll rows).sum figure = t.sum figure + (rows.map figure).sum → (rows.map key).Nodup
  | [], t, _, _ => List.nodup_nil
  | row :: rows, t, hpos, hsum => by
    rw [upsertAll, List.foldl_cons, List.map_cons, List.sum_cons] at hsum
    have hrest := sum_upsertAll_le figure rows (t.upsert row)
    have hrow := sum_upsert_le figure t row
    unfold upsertAll at hrest
    have hlater : ((t.upsert row).upsertAll rows).sum figure = (t.upsert row).sum figure + (rows.map figure).sum := by
      unfold upsertAll
      omega
    rw [List.map_cons, List.nodup_cons]
    refine ⟨fun hmem => ?_, nodup_of_sum_upsertAll (fun row' h => hpos row' (List.mem_cons_of_mem _ h)) hlater⟩
    obtain ⟨row', hrow', hsame⟩ := List.mem_map.mp hmem
    have hlt := sum_upsertAll_lt figure hrow' (hsame.symm ▸ find?_upsert_self t row) (hpos row List.mem_cons_self)
    omega

end Upserts

end RevenueOS.Lib
