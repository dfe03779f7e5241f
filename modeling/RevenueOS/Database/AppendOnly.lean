import RevenueOS.Database.RowSecurity

/-!
# RevenueOS.Database.AppendOnly — what the append-only trigger keeps

`APPEND_ONLY_TABLES` and `append_only_trigger` (`infrastructure/database/ddl.py`), on a table that sessions of any
kind use at the same time.

* `appendOnly_extends`: the committed rows are never changed, removed or reordered; new ones come after them, each under
  a key of its own.
-/

namespace RevenueOS.Database

open RevenueOS.Lib

section

variable {ι τ γ : Type} [DecidableEq ι]

section Statement

variable {acc : Access ι τ γ} {s : Settings τ} {rows : List (Row ι τ γ)} {others : Elsewhere ι}

/-- What a statement can write to an append-only table. -/
theorem execute_of_appendOnly (happend : acc.appendOnly = true) {st : Statement ι τ γ}
    {writes : List (Write (Row ι τ γ) ι)} {locks : List ι} {result : List (Row ι τ γ)}
    (h : execute acc s rows others st = .ok writes locks result) :
    writes = [] ∨ ∃ row : Row ι τ γ, writes = [.put row] ∧ row.id ∉ others.written ∧ row.id ∉ rows.map (·.id) := by
  cases st with
  | select query =>
    obtain ⟨rfl, -, -⟩ := Effect.ok.inj h
    exact .inl rfl
  | selectForUpdate cond =>
    simp only [execute] at h
    split_ifs at h
    obtain ⟨rfl, -, -⟩ := Effect.ok.inj h
    exact .inl rfl
  | insert row onConflictDoNothing =>
    simp only [execute] at h
    split_ifs at h with hcheck hwritten hdup hignore
    · obtain ⟨rfl, -, -⟩ := Effect.ok.inj h
      exact .inl rfl
    · obtain ⟨rfl, -, -⟩ := Effect.ok.inj h
      exact .inr ⟨row, rfl, hwritten, hdup⟩
  | update cond assign =>
    simp only [execute, happend, Bool.true_and] at h
    split_ifs at h with hheld hnone hcheck
    obtain ⟨rfl, -, -⟩ := Effect.ok.inj h
    rw [Bool.not_eq_true, Bool.not_eq_false', List.isEmpty_iff] at hnone
    exact .inl (by rw [hnone]; rfl)
  | delete cond =>
    simp only [execute, happend, Bool.true_and] at h
    split_ifs at h with hheld hnone
    obtain ⟨rfl, -, -⟩ := Effect.ok.inj h
    rw [Bool.not_eq_true, Bool.not_eq_false', List.isEmpty_iff] at hnone
    exact .inl (by rw [hnone]; rfl)

end Statement

/-- Open transactions have only new rows, under keys that nobody else has. -/
structure Db.OnlyInserts (s : Db ι τ γ) : Prop where
  fresh : s.ForallTxn fun x => Write.Fresh (·.id) s.rows x.writes
  apart : ∀ i j c d x y, i ≠ j → s.txn? i = some (c, x) → s.txn? j = some (d, y) →
    ∀ w ∈ x.writes, ∀ v ∈ y.writes, w.target (·.id) ≠ v.target (·.id)

section Step

variable {acc : Access ι τ γ} {s s' : Db ι τ γ} {a : DbAction ι τ γ} {o : Outcome ι τ γ}

omit [DecidableEq ι] in
/-- A transaction of a pool in which one connection has been replaced. -/
theorem txn?_set {rows : List (Row ι τ γ)} {i j : ℕ} {c d : Connection ι τ γ} {y : Transaction ι τ γ}
    (h : (⟨rows, s.pool.set i c⟩ : Db ι τ γ).txn? j = some (d, y)) :
    j = i ∧ c.txn = some y ∨ j ≠ i ∧ s.txn? j = some (d, y) := by
  obtain ⟨hd, hy⟩ := txn?_eq_some.mp h
  by_cases hij : j = i
  · subst hij
    have hc : c = d := by
      have hd' : (s.pool.set j c)[j]? = some d := hd
      have hlt := (List.getElem?_eq_some_iff.mp hd').1
      rw [List.getElem?_set_self (by simpa using hlt)] at hd'
      exact Option.some.inj hd'
    exact .inl ⟨rfl, hc ▸ hy⟩
  · refine .inr ⟨hij, txn?_eq_some.mpr ⟨?_, hy⟩⟩
    rw [← List.getElem?_set_ne (Ne.symm hij)]
    exact hd

omit [DecidableEq ι] in
theorem mem_written_elsewhere {i j : ℕ} (hij : i ≠ j) {d : Connection ι τ γ} {y : Transaction ι τ γ}
    (hy : s.txn? j = some (d, y)) {w : Write (Row ι τ γ) ι} (hw : w ∈ y.writes) :
    w.target (·.id) ∈ (elsewhere s.pool i).written := by
  obtain ⟨hd, hy⟩ := txn?_eq_some.mp hy
  have hmem : d ∈ s.pool.eraseIdx i := List.mem_eraseIdx_iff_getElem?.mpr ⟨j, Ne.symm hij, hd⟩
  exact List.mem_flatMap.mpr ⟨y, List.mem_filterMap.mpr ⟨d, hmem, hy⟩, List.mem_map_of_mem hw⟩

omit [DecidableEq ι] in
/-- One connection is replaced, and the others find their keys still free. -/
theorem Db.OnlyInserts.set (hs : s.OnlyInserts) {rows : List (Row ι τ γ)} {i : ℕ} {c : Connection ι τ γ}
    (hrows : ∀ j d z, i ≠ j → s.txn? j = some (d, z) → Write.Fresh (·.id) rows z.writes)
    (hc : ∀ y, c.txn = some y → Write.Fresh (·.id) rows y.writes ∧ ∀ j d z, i ≠ j → s.txn? j = some (d, z) →
      ∀ w ∈ y.writes, ∀ v ∈ z.writes, w.target (·.id) ≠ v.target (·.id)) :
    (⟨rows, s.pool.set i c⟩ : Db ι τ γ).OnlyInserts := by
  constructor
  · intro d hd y hy
    obtain ⟨j, hj⟩ := List.mem_iff_getElem?.mp hd
    rcases txn?_set (txn?_eq_some.mpr ⟨hj, hy⟩) with ⟨-, hy⟩ | ⟨hne, hy⟩
    · exact (hc y hy).1
    · exact hrows j d y (Ne.symm hne) hy
  · intro j k d e y z hjk hy hz w hw v hv
    rcases txn?_set hy with ⟨hj, hy⟩ | ⟨hj, hy⟩
    · rcases txn?_set hz with ⟨hk, -⟩ | ⟨hk, hz⟩
      · exact absurd (hj.trans hk.symm) hjk
      · exact (hc y hy).2 k e z (Ne.symm hk) hz w hw v hv
    · rcases txn?_set hz with ⟨hk, hz⟩ | ⟨hk, hz⟩
      · exact ((hc z hz).2 j d y (Ne.symm hj) hy v hv w hw).symm
      · exact hs.apart j k d e y z hjk hy hz w hw v hv

theorem Db.OnlyInserts.step (hs : s.OnlyInserts) (happend : acc.appendOnly = true) (h : s.step acc a = some (s', o)) :
    s'.OnlyInserts ∧ s.rows <+: s'.rows := by
  have hrows : ∀ i j d z, i ≠ j → s.txn? j = some (d, z) → Write.Fresh (·.id) s.rows z.writes :=
    fun _ _ _ _ _ hz => hs.fresh.of_txn? hz
  cases a with
  | opens i k =>
    simp only [Db.step] at h
    split at h
    · obtain ⟨rfl, -⟩ := Prod.mk.inj (Option.some.inj h)
      refine ⟨hs.set (hrows i) fun y hy => ?_, List.prefix_refl _⟩
      obtain rfl := Option.some.inj hy
      exact ⟨.nil _, fun _ _ _ _ _ w hw => absurd hw List.not_mem_nil⟩
    · cases h
  | bindTenant i t | bindPlatformContext i reason =>
    obtain ⟨⟨c, x⟩, hx, h⟩ := Option.map_eq_some_iff.mp h
    obtain ⟨rfl, -⟩ := Prod.mk.inj h
    refine ⟨hs.set (hrows i) fun y hy => ?_, List.prefix_refl _⟩
    obtain rfl := Option.some.inj hy
    have hfresh : Write.Fresh (·.id) s.rows x.writes := hs.fresh.of_txn? hx
    exact ⟨hfresh, fun j d z hij hz => hs.apart i j c d x z hij hx hz⟩
  | run i st nested =>
    obtain ⟨⟨c, x⟩, hx, h⟩ := Option.map_eq_some_iff.mp h
    have hfresh : Write.Fresh (·.id) s.rows x.writes := hs.fresh.of_txn? hx
    dsimp only at h
    split at h
    · rename_i writes locks result hok
      obtain ⟨rfl, -⟩ := Prod.mk.inj h
      refine ⟨hs.set (hrows i) fun y hy => ?_, List.prefix_refl _⟩
      obtain rfl := Option.some.inj hy
      rcases execute_of_appendOnly happend hok with rfl | ⟨row, rfl, hwritten, hnew⟩
      · rw [List.append_nil]
        exact ⟨hfresh, fun j d z hij hz => hs.apart i j c d x z hij hx hz⟩
      · refine ⟨hfresh.concat hnew, fun j d z hij hz w hw v hv => ?_⟩
        rcases List.mem_append.mp hw with hw | hw
        · exact hs.apart i j c d x z hij hx hz w hw v hv
        · obtain rfl := List.mem_singleton.mp hw
          intro heq
          have hkey : row.id = v.target (·.id) := heq
          exact hwritten (hkey ▸ mem_written_elsewhere hij hz hv)
    · obtain ⟨rfl, -⟩ := Prod.mk.inj h
      exact ⟨hs, List.prefix_refl _⟩
    · obtain ⟨rfl, -⟩ := Prod.mk.inj h
      cases nested with
      | true => exact ⟨hs, List.prefix_refl _⟩
      | false => exact ⟨hs.set (hrows i) (by simp), List.prefix_refl _⟩
  | commit i =>
    obtain ⟨⟨c, x⟩, hx, h⟩ := Option.map_eq_some_iff.mp h
    obtain ⟨rfl, -⟩ := Prod.mk.inj h
    have hfresh : Write.Fresh (·.id) s.rows x.writes := hs.fresh.of_txn? hx
    refine ⟨hs.set ?_ (by simp), Write.prefix_applyAll hfresh⟩
    intro j d z hij hz
    exact hfresh.applyAll (hs.fresh.of_txn? hz) (hs.apart i j c d x z hij hx hz)
  | rollback i =>
    obtain ⟨⟨c, x⟩, hx, h⟩ := Option.map_eq_some_iff.mp h
    obtain ⟨rfl, -⟩ := Prod.mk.inj h
    exact ⟨hs.set (hrows i) (by simp), List.prefix_refl _⟩

theorem prefix_of_run (happend : acc.appendOnly = true) : ∀ {acts : List (DbAction ι τ γ)} {s s' : Db ι τ γ}
    {outs : List (Outcome ι τ γ)}, s.OnlyInserts → s.run acc acts = some (s', outs) → s.rows <+: s'.rows
  | [], s, s', outs, _, h => by
    obtain ⟨rfl, -⟩ := Prod.mk.inj (Option.some.inj h)
    exact List.prefix_refl _
  | a :: acts, s, s', outs, hs, h => by
    obtain ⟨⟨s₁, o⟩, hstep, h⟩ := Option.bind_eq_some_iff.mp h
    obtain ⟨⟨s₂, os⟩, hrun, h⟩ := Option.map_eq_some_iff.mp h
    obtain ⟨rfl, -⟩ := Prod.mk.inj h
    obtain ⟨hs₁, hprefix⟩ := hs.step happend hstep
    exact hprefix.trans (prefix_of_run happend hs₁ hrun)

end Step

variable [DecidableEq τ]

/-- Whatever is run on an append-only table and by whom, the rows that are there stay, first and in order. -/
theorem appendOnly_extends {t : TableDef ι τ γ} (happend : t.appendOnly = true) {rows : List (Row ι τ γ)} {n : ℕ}
    {acts : List (DbAction ι τ γ)} {s' : Db ι τ γ} {outs : List (Outcome ι τ γ)}
    (hrun : (Db.start rows n).run t.access acts = some (s', outs)) : rows <+: s'.rows := by
  have hnone : (Db.start rows n).ForallTxn fun _ => False := .start rows n
  exact @prefix_of_run ι τ γ _ t.access happend acts _ _ outs
    ⟨.start rows n, fun i j c d x y _ hx => (hnone.of_txn? hx).elim⟩ hrun

end

/-- Two tenants write to one table: the one tries to change what is there, the other adds a row. -/
def overwriteAndAdd : List (DbAction ℕ ℕ ℕ) :=
  [.opens 0 (.tenant 0), .opens 1 (.tenant 1), .run 0 (.update (fun _ _ => true) (fun _ => (some 0, 8))) false,
    .run 1 (.insert ⟨1, some 1, 9⟩ false) false, .commit 1]

theorem consent_records_extended : ∃ s' outs,
    (Db.start [⟨0, some 0, 7⟩] 2).run (installed "audit" "consent_records" fun _ => false).access overwriteAndAdd =
      some (s', outs) ∧ [⟨0, some 0, 7⟩] <+: s'.rows := by
  refine ⟨_, _, rfl, ?_⟩
  exact @appendOnly_extends ℕ ℕ ℕ _ _ (installed "audit" "consent_records" fun _ => false) rfl _ 2 overwriteAndAdd _ _ rfl

end RevenueOS.Database
