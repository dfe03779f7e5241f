import Mathlib.Data.List.InsertIdx
import RevenueOS.Database.RowSecurity

/-!
# RevenueOS.Database.TenantRuns — a tenant is alone in the shared table

Sessions of many tenants, of the platform and of nobody, interleaved statement by statement over one table.

* `tenant_alone`: whatever the others do, the statements of one tenant have the results, and its rows the contents,
  that they have on a table which holds that tenant's rows only and has no policies.
* `unbound_leave`: rows are changed in sessions that bind their tenant, and in no others, also where a lookup policy
  shows them to the platform.
* `appendOnly_extends`: an append-only table only grows at its end.
-/

namespace RevenueOS.Database

open RevenueOS.Lib

/-! ## The table as one tenant has it -/

section View

variable {ι τ γ : Type} (part : ι → Bool)

def Elsewhere.view (others : Elsewhere ι) : Elsewhere ι := ⟨others.written.filter part, others.held.filter part⟩

def Transaction.view (x : Transaction ι τ γ) : Transaction ι τ γ :=
  { x with writes := x.writes.filter (fun w => part (w.target (·.id))), locks := x.locks.filter part }

def Connection.view (c : Connection ι τ γ) : Connection ι τ γ := { c with txn := c.txn.map (·.view part) }

/-- The rows under some of the keys, and what open transactions have written and locked of them. -/
def Db.view (s : Db ι τ γ) : Db ι τ γ := ⟨s.rows.filter (fun r => part r.id), s.pool.map (·.view part)⟩

variable {part} {s : Db ι τ γ} {i : ℕ} {c : Connection ι τ γ} {x : Transaction ι τ γ}

theorem txn?_view : (s.view part).txn? i = (s.txn? i).map fun (c, x) => (c.view part, x.view part) := by
  show ((s.pool.map _)[i]?.bind _) = _
  unfold Db.txn?
  rw [List.getElem?_map]
  cases s.pool[i]? with
  | none => rfl
  | some d =>
    obtain ⟨settings, _ | y⟩ := d
    · rfl
    · rfl

theorem seen_view [DecidableEq ι] : (s.view part).seen (x.view part) = (s.seen x).filter (fun r => part r.id) :=
  (Write.applyAll_filter part x.writes s.rows).symm

theorem elsewhere_view : elsewhere (s.view part).pool i = (elsewhere s.pool i).view part := by
  have htxns : ((s.view part).pool.eraseIdx i).filterMap (·.txn) =
      ((s.pool.eraseIdx i).filterMap (·.txn)).map (·.view part) := by
    show ((s.pool.map _).eraseIdx i).filterMap _ = _
    rw [List.eraseIdx_map, List.filterMap_map, List.map_filterMap]
    rfl
  unfold elsewhere Elsewhere.view
  rw [htxns]
  simp only [List.flatMap_map, List.filter_flatMap]
  congr 2
  funext y
  show (y.writes.filter _).map _ = _
  rw [List.filter_map]
  rfl

theorem setTxn_view : (s.setTxn i c x).view part = (s.view part).setTxn i (c.view part) (x.view part) := by
  unfold Db.setTxn Db.view
  simp only [List.map_set]
  rfl

theorem endTxn_view : (s.endTxn i x).view part = (s.view part).endTxn i (x.view part) := by
  unfold Db.endTxn Db.view
  simp only [List.map_set]
  rfl

end View

section

variable {ι τ γ : Type}

/-! ## What the policies come to -/

theorem passes_unownedUnbound (s : Settings τ) (row : Row ι τ γ) :
    passes (unownedUnbound s row) = decide (row.tenantId = none ∧ s.tenant = none) := by
  unfold unownedUnbound
  cases row.tenantId <;> cases s.tenant <;> simp [sqlAnd, passes]

/-- Without a platform context the later policies pass nothing. -/
theorem lookups_pass_nothing (t : TableDef ι τ γ) {s : Settings τ} (hctx : t.lookups = [] ∨ s.context = "")
    (covers : Command → Bool) (row : Row ι τ γ) :
    (t.lookups.any fun p => covers p.command && passes (p.usingExpr s row)) = false ∧
      (t.lookups.any fun p => covers p.command && passes (p.checkExpr s row)) = false := by
  rcases hctx with hnil | hctx
  · simp [hnil]
  · constructor
    · apply List.any_eq_false.mpr
      intro p _
      simp [(p.needsContext s row hctx).1]
    · apply List.any_eq_false.mpr
      intro p _
      simp [(p.needsContext s row hctx).2]

/-- The rows that the policies let be written, before and after, are those of the tenants in `W`. -/
structure Access.WritesIn (acc : Access ι τ γ) (s : Settings τ) (W : Option τ → Prop) : Prop where
  updates : ∀ row, acc.updates s row = true → W row.tenantId
  deletes : ∀ row, acc.deletes s row = true → W row.tenantId
  insertCheck : ∀ row, acc.insertCheck s row = true → W row.tenantId
  updateCheck : ∀ row, acc.updateCheck s row = true → W row.tenantId

/-- The policies show nothing. -/
structure Access.Denies (acc : Access ι τ γ) (s : Settings τ) : Prop where
  reads : ∀ row, acc.reads s row = false
  updates : ∀ row, acc.updates s row = false
  deletes : ∀ row, acc.deletes s row = false
  insertCheck : ∀ row, acc.insertCheck s row = false
  updateCheck : ∀ row, acc.updateCheck s row = false

theorem Access.Denies.writesIn {acc : Access ι τ γ} {s : Settings τ} (h : acc.Denies s) :
    acc.WritesIn s (fun _ => False) :=
  ⟨fun row hr => Bool.false_ne_true ((h.updates row).symm.trans hr),
    fun row hr => Bool.false_ne_true ((h.deletes row).symm.trans hr),
    fun row hr => Bool.false_ne_true ((h.insertCheck row).symm.trans hr),
    fun row hr => Bool.false_ne_true ((h.updateCheck row).symm.trans hr)⟩

variable [DecidableEq τ]

/-- The policies show the rows of `T`, and let only these be written. -/
structure Access.Confines (acc : Access ι τ γ) (s : Settings τ) (T : Option τ) : Prop where
  reads : ∀ row, acc.reads s row = decide (row.tenantId = T)
  updates : ∀ row, acc.updates s row = decide (row.tenantId = T)
  deletes : ∀ row, acc.deletes s row = decide (row.tenantId = T)
  insertCheck : ∀ row, acc.insertCheck s row = decide (row.tenantId = T)
  updateCheck : ∀ row, acc.updateCheck s row = decide (row.tenantId = T)

theorem Access.Confines.writesIn {acc : Access ι τ γ} {s : Settings τ} {T : Option τ} (h : acc.Confines s T) :
    acc.WritesIn s (· = T) :=
  ⟨fun row hr => of_decide_eq_true (h.updates row ▸ hr), fun row hr => of_decide_eq_true (h.deletes row ▸ hr),
    fun row hr => of_decide_eq_true (h.insertCheck row ▸ hr), fun row hr => of_decide_eq_true (h.updateCheck row ▸ hr)⟩

/-- A table of one tenant only, without policies: all that is checked is that its rows are that tenant's. -/
def solo (T : Option τ) (appendOnly : Bool) : Access ι τ γ where
  reads _ _ := true
  updates _ _ := true
  deletes _ _ := true
  insertCheck _ row := decide (row.tenantId = T)
  updateCheck _ row := decide (row.tenantId = T)
  appendOnly := appendOnly

/-- Whose rows a session works on, if on anybody's: unbound sessions have the rows without a tenant, where there are
such. -/
def TableDef.scope (t : TableDef ι τ γ) (s : Settings τ) : Option (Option τ) :=
  if t.isolation = .tenant then s.tenant.map some else some s.tenant

theorem passes_tenantMatches (s : Settings τ) (row : Row ι τ γ) :
    passes (tenantMatches s row) = decide (row.tenantId = s.tenant ∧ s.tenant.isSome = true) := by
  unfold tenantMatches
  cases row.tenantId <;> cases s.tenant <;> simp [sqlEq, passes]

/-- The rows that the isolation policy passes are those of the tenant, as long as no platform context widens it. -/
theorem passes_expression {template : Template} {s : Settings τ}
    (h : template = .platformMaintenance → s.context = "") (row : Row ι τ γ) :
    passes (template.expression s row) =
      decide (row.tenantId = s.tenant ∧ (template = .tenant → s.tenant.isSome = true)) := by
  cases template with
  | tenant => simp [Template.expression, passes_tenantMatches]
  | nullable =>
    simp only [Template.expression, passes_or, passes_tenantMatches, passes_unownedUnbound]
    cases row.tenantId <;> cases s.tenant <;> simp
  | platformMaintenance =>
    simp only [Template.expression, passes_or, passes_tenantMatches, passes_unownedUnbound, h rfl, passes_some]
    cases row.tenantId <;> cases s.tenant <;> simp

/-- The policies of a table for one command: the isolation policy, or a later one that covers the command. -/
theorem any_policies (t : TableDef ι τ γ) (covers : Command → Bool) (hall : covers .all = true)
    (e : Policy ι τ γ → Settings τ → Row ι τ γ → Option Bool) (s : Settings τ) (row : Row ι τ γ) :
    (t.policies.any fun p => covers p.command && passes (e p s row)) =
      (passes (e (tenantIsolation t.isolation) s row) ||
        t.lookups.any fun p => covers p.command && passes (e p.toPolicy s row)) := by
  have hcommand : (tenantIsolation t.isolation : Policy ι τ γ).command = .all := rfl
  simp [TableDef.policies, hcommand, hall, Function.comp_def]

/-- Nothing widens what the session sees. -/
def TableDef.Ordinary (t : TableDef ι τ γ) (s : Settings τ) : Prop :=
  s.context = "" ∨ (t.lookups = [] ∧ t.isolation ≠ .platformMaintenance)

/-- The row is the bound tenant's, or nobody's in a session that may see such rows. -/
def TableDef.own (t : TableDef ι τ γ) (s : Settings τ) (row : Row ι τ γ) : Bool :=
  decide (row.tenantId = s.tenant ∧ (t.isolation = .tenant → s.tenant.isSome = true))

section Ordinary

variable {t : TableDef ι τ γ} {s : Settings τ} (hord : t.Ordinary s)
include hord

theorem any_using_of_ordinary {covers : Command → Bool} (hall : covers .all = true) (row : Row ι τ γ) :
    (t.policies.any fun p => covers p.command && passes (p.usingExpr s row)) = t.own s row := by
  have hlookups : t.lookups = [] ∨ s.context = "" := hord.symm.imp_left And.left
  have hmaintenance : t.isolation = .platformMaintenance → s.context = "" :=
    fun h => hord.resolve_right fun h' => h'.2 h
  rw [any_policies t covers hall (fun p => p.usingExpr) s row, (lookups_pass_nothing t hlookups covers row).1,
    Bool.or_false]
  exact passes_expression hmaintenance row

theorem any_check_of_ordinary {covers : Command → Bool} (hall : covers .all = true) (row : Row ι τ γ) :
    (t.policies.any fun p => covers p.command && passes (p.checkExpr s row)) = t.own s row := by
  have hlookups : t.lookups = [] ∨ s.context = "" := hord.symm.imp_left And.left
  have hmaintenance : t.isolation = .platformMaintenance → s.context = "" :=
    fun h => hord.resolve_right fun h' => h'.2 h
  rw [any_policies t covers hall (fun p => p.checkExpr) s row, (lookups_pass_nothing t hlookups covers row).2,
    Bool.or_false]
  exact passes_expression hmaintenance row

theorem access_of_ordinary (row : Row ι τ γ) :
    t.access.reads s row = t.own s row ∧ t.access.updates s row = t.own s row ∧
      t.access.deletes s row = t.own s row ∧ t.access.insertCheck s row = t.own s row ∧
      t.access.updateCheck s row = t.own s row := by
  have hreads := @any_using_of_ordinary ι τ γ _ t s hord (fun c => decide (c ≠ .update)) rfl row
  have hwrites := @any_using_of_ordinary ι τ γ _ t s hord (fun c => decide (c ≠ .select)) rfl row
  have hall := @any_using_of_ordinary ι τ γ _ t s hord (fun c => decide (c = .all)) rfl row
  have hinsert := @any_check_of_ordinary ι τ γ _ t s hord (fun c => decide (c = .all)) rfl row
  have hupdate := @any_check_of_ordinary ι τ γ _ t s hord (fun c => decide (c ≠ .select)) rfl row
  refine ⟨hreads, ?_, ?_, hinsert, ?_⟩
  · show (_ && _) = _
    rw [hreads, hwrites, Bool.and_self]
  · show (_ && _) = _
    rw [hreads, hall, Bool.and_self]
  · show (_ && _) = _
    rw [hreads, hupdate, Bool.and_self]

theorem confines_of_scope {T : Option τ} (hscope : t.scope s = some T) : t.access.Confines s T := by
  have hown : ∀ row, t.own s row = decide (row.tenantId = T) := by
    intro row
    unfold TableDef.scope at hscope
    unfold TableDef.own
    split_ifs at hscope with htenant
    · obtain ⟨u, hu, rfl⟩ := Option.map_eq_some_iff.mp hscope
      simp [hu]
    · simp [htenant, Option.some.inj hscope]
  exact ⟨fun row => (access_of_ordinary hord row).1.trans (hown row),
    fun row => (access_of_ordinary hord row).2.1.trans (hown row),
    fun row => (access_of_ordinary hord row).2.2.1.trans (hown row),
    fun row => (access_of_ordinary hord row).2.2.2.1.trans (hown row),
    fun row => (access_of_ordinary hord row).2.2.2.2.trans (hown row)⟩

theorem denies_of_scope (hscope : t.scope s = none) : t.access.Denies s := by
  have hown : ∀ row, t.own s row = false := by
    intro row
    unfold TableDef.scope at hscope
    unfold TableDef.own
    split_ifs at hscope with htenant
    have hunbound : s.tenant = none := Option.map_eq_none_iff.mp hscope
    simp [htenant, hunbound]
  exact ⟨fun row => (access_of_ordinary hord row).1.trans (hown row),
    fun row => (access_of_ordinary hord row).2.1.trans (hown row),
    fun row => (access_of_ordinary hord row).2.2.1.trans (hown row),
    fun row => (access_of_ordinary hord row).2.2.2.1.trans (hown row),
    fun row => (access_of_ordinary hord row).2.2.2.2.trans (hown row)⟩

end Ordinary

/-- A table that the platform may look up but not maintain. -/
def TableDef.LookupsOnly (t : TableDef ι τ γ) : Prop :=
  t.isolation ≠ .platformMaintenance ∧ ∀ p ∈ t.lookups, p.command = .select

/-- All tables are such, but for the three that the platform writes to. -/
theorem installed_lookupsOnly {schema table : String} (live : γ → Bool)
    (h : table ∉ ["dead_letters", "provider_webhook_events", "workflow_executions"]) :
    (installed schema table live : TableDef ι τ γ).LookupsOnly := by
  simp only [List.mem_cons, List.not_mem_nil, or_false, not_or] at h
  obtain ⟨hdead, hevents, hexecutions⟩ := h
  constructor
  · show templateFor table ≠ .platformMaintenance
    unfold templateFor
    split_ifs <;> simp_all
  · show ∀ p ∈ lookupsFor live table, _
    unfold lookupsFor
    split_ifs <;> simp [authLookup, publicSurfaceLookup, contextLookup, Policy.lookup]

/-- What no session writes, with a platform context or without: rows of a tenant that it has not bound. -/
theorem ownWrites {t : TableDef ι τ γ} {s : Settings τ} (h : t.Ordinary s ∨ t.LookupsOnly) :
    t.access.WritesIn s (· = s.tenant) := by
  rcases h with hord | ⟨hmaintenance, hselect⟩
  · have hown : ∀ row, t.own s row = true → row.tenantId = s.tenant := fun row h => (of_decide_eq_true h).1
    exact ⟨fun row h => hown row ((access_of_ordinary hord row).2.1 ▸ h),
      fun row h => hown row ((access_of_ordinary hord row).2.2.1 ▸ h),
      fun row h => hown row ((access_of_ordinary hord row).2.2.2.1 ▸ h),
      fun row h => hown row ((access_of_ordinary hord row).2.2.2.2 ▸ h)⟩
  · have hown : ∀ (row : Row ι τ γ), passes (t.isolation.expression s row) = true → row.tenantId = s.tenant := by
      intro row h
      rw [passes_expression (fun h => absurd h hmaintenance)] at h
      exact (of_decide_eq_true h).1
    have hwrites : ∀ (covers : Command → Bool) (e : Policy ι τ γ → Settings τ → Row ι τ γ → Option Bool) row,
        covers .all = true → covers .select = false → e (tenantIsolation t.isolation) s row = t.isolation.expression s row →
        (t.policies.any fun p => covers p.command && passes (e p s row)) = true → row.tenantId = s.tenant := by
      intro covers e row hall hsel he h
      rw [any_policies t covers hall e s row, Bool.or_eq_true, he] at h
      rcases h with h | h
      · exact hown row h
      · obtain ⟨p, hp, h⟩ := List.any_eq_true.mp h
        rw [hselect p hp, hsel] at h
        cases h
    constructor
    · intro row h
      exact hwrites (fun c => decide (c ≠ .select)) (·.usingExpr) row rfl rfl rfl (Bool.and_eq_true_iff.mp h).2
    · intro row h
      exact hwrites (fun c => decide (c = .all)) (·.usingExpr) row rfl rfl rfl (Bool.and_eq_true_iff.mp h).2
    · intro row h
      exact hwrites (fun c => decide (c = .all)) (·.checkExpr) row rfl rfl rfl h
    · intro row h
      exact hwrites (fun c => decide (c ≠ .select)) (·.checkExpr) row rfl rfl rfl (Bool.and_eq_true_iff.mp h).2

/-! ## One statement -/

section Statement

variable (home : ι → Option τ) (T : Option τ)

/-- The keys of one tenant. -/
def keysOf (k : ι) : Bool := decide (home k = T)

/-- Every row has a key of its own tenant. -/
def Owned (rows : List (Row ι τ γ)) : Prop := ∀ r ∈ rows, r.tenantId = home r.id

/-- A new row has a key of its own tenant: keys are drawn at random, and no two tenants draw the same. -/
def Statement.Keyed : Statement ι τ γ → Prop
  | .insert row _ => row.tenantId = home row.id
  | _ => True

end Statement

variable [DecidableEq ι] {home : ι → Option τ} {T : Option τ}

omit [DecidableEq τ] in
theorem any_held_filter {part : ι → Bool} {held : List ι} {targets : List (Row ι τ γ)}
    (h : ∀ r ∈ targets, part r.id = true) :
    (targets.any fun r => decide (r.id ∈ held.filter part)) = targets.any fun r => decide (r.id ∈ held) := by
  rw [Bool.eq_iff_iff, List.any_eq_true, List.any_eq_true]
  refine exists_congr fun r => and_congr_right fun hr => ?_
  simp [List.mem_filter, h r hr]

section Execute

variable {acc : Access ι τ γ} {s : Settings τ} {rows : List (Row ι τ γ)} {others : Elsewhere ι}

omit [DecidableEq ι] in
/-- The rows that a predicate for one tenant's rows picks are among the rows of that tenant. -/
theorem filter_owned (howned : Owned home rows) {visible : Row ι τ γ → Bool}
    (hvisible : ∀ row, visible row = decide (row.tenantId = T)) (cond : Row ι τ γ → Bool) :
    rows.filter (fun r => visible r && cond r) = (rows.filter (fun r => keysOf home T r.id)).filter cond := by
  rw [List.filter_filter]
  apply List.filter_congr
  intro r hr
  rw [hvisible, howned r hr, Bool.and_comm]
  rfl

/-- A statement of one tenant, on the table of all and on its own. -/
theorem execute_of_confines (howned : Owned home rows) (hc : acc.Confines s T) {st : Statement ι τ γ}
    (hst : st.Keyed home) :
    execute (solo T acc.appendOnly) s (rows.filter (fun r => keysOf home T r.id)) (others.view (keysOf home T)) st =
      execute acc s rows others st := by
  have hseen : rows.filter (acc.reads s) = rows.filter (fun r => keysOf home T r.id) := by
    have h := filter_owned howned hc.reads (fun _ => true)
    simpa using h
  have hall : ∀ rows : List (Row ι τ γ), rows.filter ((solo T acc.appendOnly).reads s) = rows :=
    fun rows => List.filter_eq_self.mpr fun _ _ => rfl
  -- A command picks the same rows from both tables, and they are held by others in the one if in the other.
  have htargets : ∀ (visible : Row ι τ γ → Bool), (∀ row, visible row = decide (row.tenantId = T)) →
      ∀ cond : Row ι τ γ → Bool, ∃ targets, rows.filter (fun r => visible r && cond r) = targets ∧
        (rows.filter (fun r => keysOf home T r.id)).filter (fun r => true && cond r) = targets ∧
        (targets.any fun r => decide (r.id ∈ (others.view (keysOf home T)).held)) =
          targets.any fun r => decide (r.id ∈ others.held) := by
    intro visible hvisible cond
    refine ⟨_, filter_owned howned hvisible cond, by simp only [Bool.true_and], any_held_filter fun r hr => ?_⟩
    have h := (List.mem_filter.mp hr).1
    exact (List.mem_filter.mp h).2
  cases st with
  | select query => simp only [execute, hseen, hall]
  | selectForUpdate cond =>
    obtain ⟨targets, hshared, halone, hheld⟩ :=
      htargets (acc.updates s) hc.updates (cond (rows.filter fun r => keysOf home T r.id))
    simp only [execute, hseen, hall, hshared]
    simp only [solo, halone, hheld]
  | update cond assign =>
    obtain ⟨targets, hshared, halone, hheld⟩ :=
      htargets (acc.updates s) hc.updates (cond (rows.filter fun r => keysOf home T r.id))
    simp only [execute, hseen, hall, hshared, hc.updateCheck]
    simp only [solo, halone, hheld]
  | delete cond =>
    obtain ⟨targets, hshared, halone, hheld⟩ :=
      htargets (acc.deletes s) hc.deletes (cond (rows.filter fun r => keysOf home T r.id))
    simp only [execute, hseen, hall, hshared]
    simp only [solo, halone, hheld]
  | insert row onConflictDoNothing =>
    have hkeyed : row.tenantId = home row.id := hst
    by_cases htenant : row.tenantId = T
    · have hpart : keysOf home T row.id = true := decide_eq_true (hkeyed ▸ htenant)
      have hwritten : row.id ∈ (others.view (keysOf home T)).written ↔ row.id ∈ others.written := by
        show row.id ∈ others.written.filter _ ↔ _
        rw [List.mem_filter, and_iff_left hpart]
      simp only [execute, hc.insertCheck, solo, hwritten, Write.mem_keys_filter (keysOf home T) hpart]
    · simp [execute, hc.insertCheck, solo, htenant]

omit [DecidableEq τ] in
/-- The rows and keys that a statement writes and locks, and what it leaves in the rows. -/
theorem execute_writesIn (howned : Owned home rows) {W : Option τ → Prop} (hw : acc.WritesIn s W)
    {st : Statement ι τ γ} (hst : st.Keyed home) {writes : List (Write (Row ι τ γ) ι)} {locks : List ι}
    {result : List (Row ι τ γ)} (h : execute acc s rows others st = .ok writes locks result) :
    (∀ w ∈ writes, W (home (w.target (·.id))) ∧ ∀ r, w = .put r → W r.tenantId) ∧ ∀ k ∈ locks, W (home k) := by
  have htargets : ∀ {visible : Row ι τ γ → Bool} {cond : Row ι τ γ → Bool},
      (∀ row, visible row = true → W row.tenantId) →
      ∀ r ∈ rows.filter (fun r => visible r && cond r), W (home r.id) := by
    intro visible cond hvisible r hr
    obtain ⟨hr, hv⟩ := List.mem_filter.mp hr
    exact howned r hr ▸ hvisible r (Bool.and_eq_true_iff.mp hv).1
  cases st with
  | select query =>
    obtain ⟨rfl, rfl, rfl⟩ := Effect.ok.inj h
    exact ⟨fun w hw => absurd hw List.not_mem_nil, fun k hk => absurd hk List.not_mem_nil⟩
  | selectForUpdate cond =>
    simp only [execute] at h
    split_ifs at h
    obtain ⟨rfl, rfl, rfl⟩ := Effect.ok.inj h
    refine ⟨fun w hw => absurd hw List.not_mem_nil, fun k hk => ?_⟩
    obtain ⟨r, hr, rfl⟩ := List.mem_map.mp hk
    exact htargets hw.updates r hr
  | insert row onConflictDoNothing =>
    simp only [execute] at h
    split_ifs at h with hcheck hwait hdup hignore
    · obtain ⟨rfl, rfl, rfl⟩ := Effect.ok.inj h
      exact ⟨fun w hw => absurd hw List.not_mem_nil, fun k hk => absurd hk List.not_mem_nil⟩
    · obtain ⟨rfl, rfl, rfl⟩ := Effect.ok.inj h
      have hrow : W row.tenantId := hw.insertCheck row (by simpa using hcheck)
      have hkeyed : row.tenantId = home row.id := hst
      constructor
      · intro w hw
        obtain rfl := List.mem_singleton.mp hw
        refine ⟨hkeyed ▸ hrow, fun r hr => ?_⟩
        obtain rfl := Write.put.inj hr
        exact hrow
      · intro k hk
        obtain rfl := List.mem_singleton.mp hk
        exact hkeyed ▸ hrow
  | update cond assign =>
    simp only [execute] at h
    split_ifs at h with hwait happend hcheck
    obtain ⟨rfl, rfl, rfl⟩ := Effect.ok.inj h
    constructor
    · intro w hw'
      obtain ⟨r, hr, rfl⟩ := List.mem_map.mp hw'
      refine ⟨htargets hw.updates r hr, fun r' hr' => ?_⟩
      obtain rfl := Write.put.inj hr'
      have hpass := List.any_eq_false.mp (Bool.not_eq_true _ ▸ hcheck) r hr
      exact hw.updateCheck _ (by simpa using hpass)
    · intro k hk
      obtain ⟨r, hr, rfl⟩ := List.mem_map.mp hk
      exact htargets hw.updates r hr
  | delete cond =>
    simp only [execute] at h
    split_ifs at h with hwait happend
    obtain ⟨rfl, rfl, rfl⟩ := Effect.ok.inj h
    constructor
    · intro w hw'
      obtain ⟨r, hr, rfl⟩ := List.mem_map.mp hw'
      exact ⟨htargets hw.deletes r hr, fun r' hr' => nomatch hr'⟩
    · intro k hk
      obtain ⟨r, hr, rfl⟩ := List.mem_map.mp hk
      exact htargets hw.deletes r hr

end Execute

/-! ## Keys and contexts through a run -/

/-- A new row has a key of its own tenant. -/
def DbAction.Keyed (home : ι → Option τ) : DbAction ι τ γ → Prop
  | .run _ st _ => st.Keyed home
  | _ => True

/-- No platform context is bound. -/
def DbAction.NoContext : DbAction ι τ γ → Prop
  | .opens _ (.platform _) => False
  | .bindPlatformContext _ _ => False
  | _ => True

/-- Every row, committed or pending, has a key of its own tenant. -/
structure Db.KeysOwned (home : ι → Option τ) (s : Db ι τ γ) : Prop where
  rows : Owned home s.rows
  pending : s.ForallTxn fun x => ∀ r, .put r ∈ x.writes → r.tenantId = home r.id

/-- No connection has a platform context, in a transaction or outside. -/
structure Db.NoContext (s : Db ι τ γ) : Prop where
  idle : ∀ c ∈ s.pool, c.settings.context = ""
  txns : s.ForallTxn fun x => x.settings.context = ""

section Step

variable {acc : Access ι τ γ} {s s' : Db ι τ γ} {a : DbAction ι τ γ} {o : Outcome ι τ γ} {i : ℕ}
  {c : Connection ι τ γ} {x : Transaction ι τ γ}

omit [DecidableEq τ] in
theorem Db.KeysOwned.seen (hs : s.KeysOwned home) (hx : s.txn? i = some (c, x)) : Owned home (s.seen x) := by
  intro r hr
  rcases Write.mem_applyAll hr with hr | hr
  · exact hs.rows r hr
  · exact hs.pending.of_txn? hx r hr

omit [DecidableEq τ] in
theorem Db.KeysOwned.step (hs : s.KeysOwned home) (ha : a.Keyed home)
    (hw : s.ForallTxn fun x => acc.WritesIn x.settings (· = x.settings.tenant)) (h : s.step acc a = some (s', o)) :
    s'.KeysOwned home := by
  constructor
  · rcases rows_step h with heq | ⟨i, c, x, -, hx, heq⟩
    · exact heq ▸ hs.rows
    · exact heq ▸ hs.seen hx
  · refine hs.pending.step h ?_ ?_ ?_ ?_
    · exact fun i k _ c _ r hr => absurd hr List.not_mem_nil
    · exact fun i t _ x hx => hx
    · exact fun i reason _ x hx => hx
    · intro i st nested ha' c x hx hpending writes locks result hok r hr
      subst ha'
      rcases List.mem_append.mp hr with hr | hr
      · exact hpending r hr
      · have hwrites := (execute_writesIn (hs.seen hx) (hw.of_txn? hx) ha hok).1 (.put r) hr
        exact (hwrites.2 r rfl).trans hwrites.1.symm

omit [DecidableEq τ] in
theorem Db.NoContext.step (hs : s.NoContext) (ha : a.NoContext) (h : s.step acc a = some (s', o)) :
    s'.NoContext := by
  constructor
  · exact idle_step (fun settings => settings.context = "") Settings.context_ended hs.idle h
  · refine hs.txns.step h ?_ ?_ ?_ ?_
    · intro i k ha' c hc
      subst ha'
      cases k with
      | tenant t => exact hs.idle c hc
      | platform reason => exact ha.elim
      | unscoped => exact hs.idle c hc
    · exact fun i t _ x hx => hx
    · intro i reason ha'
      subst ha'
      exact ha.elim
    · exact fun i st nested _ c x _ hx writes locks result _ => hx

end Step

/-! ## What one tenant notices of a step -/

section Notice

variable {acc acc' : Access ι τ γ} {s s' : Db ι τ γ} {o : Outcome ι τ γ} {i : ℕ} {c : Connection ι τ γ}
  {x : Transaction ι τ γ} {st : Statement ι τ γ} {nested : Bool}

omit [DecidableEq τ] in
/-- The end of a transaction, and its beginning, are the same for every part of the table. -/
theorem step_view {part : ι → Bool} {a : DbAction ι τ γ} (ha : ∀ i st nested, a ≠ .run i st nested)
    (h : s.step acc a = some (s', o)) : (s.view part).step acc' a = some (s'.view part, o) := by
  cases a with
  | run i st nested => exact absurd rfl (ha i st nested)
  | opens i k =>
    simp only [Db.step] at h
    split at h
    · rename_i settings hi
      obtain ⟨rfl, rfl⟩ := Prod.mk.inj (Option.some.inj h)
      have hi' : (s.view part).pool[i]? = some ⟨settings, none⟩ := by
        show (s.pool.map _)[i]? = _
        rw [List.getElem?_map, hi]
        rfl
      simp only [Db.step, hi']
      unfold Db.view
      simp only [List.map_set]
      rfl
    · cases h
  | bindTenant i t | bindPlatformContext i reason =>
    obtain ⟨⟨c, x⟩, hx, h⟩ := Option.map_eq_some_iff.mp h
    obtain ⟨rfl, rfl⟩ := Prod.mk.inj h
    simp only [Db.step, txn?_view, hx, Option.map_some, setTxn_view]
    rfl
  | commit i =>
    obtain ⟨⟨c, x⟩, hx, h⟩ := Option.map_eq_some_iff.mp h
    obtain ⟨rfl, rfl⟩ := Prod.mk.inj h
    simp only [Db.step, txn?_view, hx, Option.map_some, seen_view, ← endTxn_view]
    rfl
  | rollback i =>
    obtain ⟨⟨c, x⟩, hx, h⟩ := Option.map_eq_some_iff.mp h
    obtain ⟨rfl, rfl⟩ := Prod.mk.inj h
    simp only [Db.step, txn?_view, hx, Option.map_some, endTxn_view]

omit [DecidableEq ι] [DecidableEq τ] in
theorem extend_view {part : ι → Bool} (writes : List (Write (Row ι τ γ) ι)) (locks : List ι) :
    ({ x with writes := x.writes ++ writes, locks := x.locks ++ locks } : Transaction ι τ γ).view part =
      { x.view part with
        writes := (x.view part).writes ++ writes.filter (fun w => part (w.target (·.id))),
        locks := (x.view part).locks ++ locks.filter part } := by
  simp [Transaction.view, List.filter_append]

/-- A tenant's own statement. -/
theorem run_view_of_confines (hs : s.KeysOwned home) (hx : s.txn? i = some (c, x))
    (hc : acc.Confines x.settings T) (hst : st.Keyed home) (h : s.step acc (.run i st nested) = some (s', o)) :
    (s.view (keysOf home T)).step (solo T acc.appendOnly) (.run i st nested) = some (s'.view (keysOf home T), o) := by
  have hexec : execute (solo T acc.appendOnly) (x.view (keysOf home T)).settings
      ((s.view (keysOf home T)).seen (x.view (keysOf home T))) (elsewhere (s.view (keysOf home T)).pool i) st =
      execute acc x.settings (s.seen x) (elsewhere s.pool i) st := by
    rw [seen_view, elsewhere_view]
    exact execute_of_confines (hs.seen hx) hc hst
  obtain ⟨⟨c', x'⟩, hx', h⟩ := Option.map_eq_some_iff.mp h
  obtain ⟨rfl, rfl⟩ := Prod.mk.inj (Option.some.inj (hx.symm.trans hx'))
  simp only [Db.step, txn?_view, hx, Option.map_some, hexec]
  dsimp only at h
  split at h
  · rename_i writes locks result hok
    obtain ⟨rfl, rfl⟩ := Prod.mk.inj h
    obtain ⟨hw, hl⟩ := execute_writesIn (hs.seen hx) hc.writesIn hst hok
    have hwrites : writes.filter (fun w => keysOf home T (w.target (·.id))) = writes :=
      List.filter_eq_self.mpr fun w hmem => decide_eq_true (hw w hmem).1
    have hlocks : locks.filter (keysOf home T) = locks :=
      List.filter_eq_self.mpr fun k hmem => decide_eq_true (hl k hmem)
    rw [setTxn_view, extend_view, hwrites, hlocks]
  · obtain ⟨rfl, rfl⟩ := Prod.mk.inj h
    rfl
  · obtain ⟨rfl, rfl⟩ := Prod.mk.inj h
    cases nested with
    | true => rfl
    | false => simp [endTxn_view]

/-- A statement of somebody else's: at most, the transaction fails. -/
theorem run_view_of_other (hs : s.KeysOwned home) (hx : s.txn? i = some (c, x)) {W : Option τ → Prop}
    (hw : acc.WritesIn x.settings W) (hT : ¬ W T) (hst : st.Keyed home)
    (h : s.step acc (.run i st nested) = some (s', o)) :
    (o.isFailed && !nested) = false ∧ s'.view (keysOf home T) = s.view (keysOf home T) ∨
      (o.isFailed && !nested) = true ∧
        (s.view (keysOf home T)).step acc' (.rollback i) = some (s'.view (keysOf home T), .done) := by
  obtain ⟨⟨c', x'⟩, hx', h⟩ := Option.map_eq_some_iff.mp h
  obtain ⟨rfl, rfl⟩ := Prod.mk.inj (Option.some.inj (hx.symm.trans hx'))
  dsimp only at h
  split at h
  · rename_i writes locks result hok
    obtain ⟨rfl, rfl⟩ := Prod.mk.inj h
    obtain ⟨hwrites, hlocks⟩ := execute_writesIn (hs.seen hx) hw hst hok
    have hnone : writes.filter (fun w => keysOf home T (w.target (·.id))) = [] :=
      List.filter_eq_nil_iff.mpr fun w hmem hkey => hT (of_decide_eq_true hkey ▸ (hwrites w hmem).1)
    have hnone' : locks.filter (keysOf home T) = [] :=
      List.filter_eq_nil_iff.mpr fun k hmem hkey => hT (of_decide_eq_true hkey ▸ hlocks k hmem)
    refine .inl ⟨rfl, ?_⟩
    rw [setTxn_view, extend_view, hnone, hnone', List.append_nil, List.append_nil]
    exact setTxn_self (by rw [txn?_view, hx, Option.map_some])
  · obtain ⟨rfl, rfl⟩ := Prod.mk.inj h
    exact .inl ⟨rfl, rfl⟩
  · obtain ⟨rfl, rfl⟩ := Prod.mk.inj h
    cases nested with
    | true => exact .inl ⟨rfl, rfl⟩
    | false =>
      refine .inr ⟨rfl, ?_⟩
      simp [Db.step, txn?_view, hx, endTxn_view]

/-- What a tenant notices of a step: its own statements, and that transactions begin and end, which one of somebody
else's may do by failing. -/
def heard (t : TableDef ι τ γ) (T : Option τ) (s : Db ι τ γ) (a : DbAction ι τ γ) (o : Outcome ι τ γ) :
    Option (DbAction ι τ γ × Outcome ι τ γ) :=
  match a with
  | .run i _ nested =>
    if ((s.txn? i).bind fun (_, x) => t.scope x.settings) = some T then some (a, o)
    else if o.isFailed && !nested then some (.rollback i, .done)
    else none
  | _ => some (a, o)

end Notice

/-! ## Runs -/

section Runs

variable {t : TableDef ι τ γ} {s s' : Db ι τ γ} {outs : List (Outcome ι τ γ)}

/-- What a tenant notices of a run. -/
def heardAlong (t : TableDef ι τ γ) (T : Option τ) : Db ι τ γ → List (DbAction ι τ γ) →
    List (DbAction ι τ γ × Outcome ι τ γ)
  | _, [] => []
  | s, a :: acts =>
    match s.step t.access a with
    | none => []
    | some (s₁, o) => (heard t T s a o).toList ++ heardAlong t T s₁ acts

/-- No platform context counts for the table, or there is none. -/
def TableDef.Closed (t : TableDef ι τ γ) : Prop := t.lookups = [] ∧ t.isolation ≠ .platformMaintenance

omit [DecidableEq ι] [DecidableEq τ] in
theorem ordinary_of_noContext (h : t.Closed ∨ s.NoContext) : s.ForallTxn fun x => t.Ordinary x.settings := by
  rcases h with h | h
  · exact fun _ _ _ _ => .inr h
  · exact fun c hc x hx => .inl (h.txns c hc x hx)

/-- A step of the shared table is a step of the tenant's own, or none of it. -/
theorem step_alone (hs : s.KeysOwned home) (hord : s.ForallTxn fun x => t.Ordinary x.settings) {a : DbAction ι τ γ}
    (ha : a.Keyed home) {o : Outcome ι τ γ} (h : s.step t.access a = some (s', o)) :
    (s.view (keysOf home T)).run (solo T t.appendOnly) ((heard t T s a o).toList.map (·.1)) =
      some (s'.view (keysOf home T), (heard t T s a o).toList.map (·.2)) := by
  have hone : ∀ {b : DbAction ι τ γ} {o' : Outcome ι τ γ},
      (s.view (keysOf home T)).step (solo T t.appendOnly) b = some (s'.view (keysOf home T), o') →
      (s.view (keysOf home T)).run (solo T t.appendOnly) [b] = some (s'.view (keysOf home T), [o']) := by
    intro b o' h
    simp only [Db.run, h, Option.bind_some, Option.map_some]
  cases a with
  | run i st nested =>
    obtain ⟨⟨c, x⟩, hx, -⟩ := Option.map_eq_some_iff.mp h
    have hord := hord.of_txn? hx
    by_cases hscope : t.scope x.settings = some T
    · have hheard : heard t T s (.run i st nested) o = some (.run i st nested, o) := by
        simp [heard, hx, hscope]
      rw [hheard]
      exact hone (run_view_of_confines hs hx (confines_of_scope hord hscope) ha h)
    · have hother : (o.isFailed && !nested) = false ∧ s'.view (keysOf home T) = s.view (keysOf home T) ∨
          (o.isFailed && !nested) = true ∧ (s.view (keysOf home T)).step (solo T t.appendOnly) (.rollback i) =
            some (s'.view (keysOf home T), .done) := by
        cases hU : t.scope x.settings with
        | none => exact run_view_of_other hs hx (denies_of_scope hord hU).writesIn id ha h
        | some U =>
          refine run_view_of_other hs hx (confines_of_scope hord hU).writesIn ?_ ha h
          rintro rfl
          exact hscope hU
      rcases hother with ⟨hfailed, hview⟩ | ⟨hfailed, hroll⟩
      · have hheard : heard t T s (.run i st nested) o = none := by
          simp only [heard, hx, Option.bind_some, hscope, if_false, hfailed, Bool.false_eq_true]
        rw [hheard, hview]
        rfl
      · have hheard : heard t T s (.run i st nested) o = some (.rollback i, .done) := by
          simp only [heard, hx, Option.bind_some, hscope, if_false, hfailed, if_true]
        rw [hheard]
        exact hone hroll
  | opens i k | bindTenant i u | bindPlatformContext i reason | commit i | rollback i =>
    exact hone (step_view (by simp) h)

omit [DecidableEq τ] in
theorem run_append {acc : Access ι τ γ} : ∀ {as bs : List (DbAction ι τ γ)} {s s₁ s₂ : Db ι τ γ}
    {os ps : List (Outcome ι τ γ)}, s.run acc as = some (s₁, os) → s₁.run acc bs = some (s₂, ps) →
      s.run acc (as ++ bs) = some (s₂, os ++ ps)
  | [], bs, s, s₁, s₂, os, ps, h, h' => by
    obtain ⟨rfl, rfl⟩ := Prod.mk.inj (Option.some.inj h)
    exact h'
  | a :: as, bs, s, s₁, s₂, os, ps, h, h' => by
    obtain ⟨⟨s₀, o⟩, hstep, h⟩ := Option.bind_eq_some_iff.mp h
    obtain ⟨⟨s₁', os'⟩, hrun, h⟩ := Option.map_eq_some_iff.mp h
    obtain ⟨rfl, rfl⟩ := Prod.mk.inj h
    simp only [List.cons_append, Db.run, hstep, Option.bind_some, run_append hrun h', Option.map_some]

/-- A run of the shared table is, for each tenant, a run of a table of its own. -/
theorem run_alone : ∀ {acts : List (DbAction ι τ γ)} {s s' : Db ι τ γ} {outs : List (Outcome ι τ γ)},
    s.KeysOwned home → (t.Closed ∨ s.NoContext) → (∀ a ∈ acts, a.Keyed home) →
    (t.Closed ∨ ∀ a ∈ acts, a.NoContext) → s.run t.access acts = some (s', outs) →
    (s.view (keysOf home T)).run (solo T t.appendOnly) ((heardAlong t T s acts).map (·.1)) =
      some (s'.view (keysOf home T), (heardAlong t T s acts).map (·.2))
  | [], s, s', outs, _, _, _, _, h => by
    obtain ⟨rfl, -⟩ := Prod.mk.inj (Option.some.inj h)
    rfl
  | a :: acts, s, s', outs, hs, hctx, hkeyed, hacts, h => by
    obtain ⟨⟨s₁, o⟩, hstep, h⟩ := Option.bind_eq_some_iff.mp h
    obtain ⟨⟨s₂, os⟩, hrun, h⟩ := Option.map_eq_some_iff.mp h
    obtain ⟨rfl, -⟩ := Prod.mk.inj h
    have hord := ordinary_of_noContext hctx
    have ha := hkeyed a List.mem_cons_self
    have hs₁ : s₁.KeysOwned home :=
      hs.step ha (fun c hc x hx => ownWrites (.inl (hord c hc x hx))) hstep
    have hctx₁ : t.Closed ∨ s₁.NoContext := by
      rcases hctx with h | h
      · exact .inl h
      · rcases hacts with h' | h'
        · exact .inl h'
        · exact .inr (h.step (h' a List.mem_cons_self) hstep)
    have hfirst := @step_alone ι τ γ _ _ home T t s s₁ hs hord a ha o hstep
    have hrest := run_alone hs₁ hctx₁ (fun b hb => hkeyed b (List.mem_cons_of_mem a hb))
      (hacts.imp_right fun h b hb => h b (List.mem_cons_of_mem a hb)) hrun
    simp only [heardAlong, hstep, List.map_append]
    exact run_append hfirst hrest

omit [DecidableEq ι] [DecidableEq τ] in
theorem start_keysOwned {rows : List (Row ι τ γ)} (n : ℕ) (h : Owned home rows) : (Db.start rows n).KeysOwned home :=
  ⟨h, .start rows n⟩

omit [DecidableEq ι] [DecidableEq τ] in
theorem start_noContext (rows : List (Row ι τ γ)) (n : ℕ) : (Db.start rows n).NoContext :=
  ⟨Db.idle_start rows n (Q := fun settings => settings.context = "") rfl, .start rows n⟩

/-- Whatever the sessions of others do in between, a tenant's statements and rows are those of a table that holds that
tenant's rows only and has no policies. -/
theorem tenant_alone {rows : List (Row ι τ γ)} {n : ℕ} {acts : List (DbAction ι τ γ)} (hrows : Owned home rows)
    (hkeyed : ∀ a ∈ acts, a.Keyed home)
    (hcontext : (t.lookups = [] ∧ t.isolation ≠ .platformMaintenance) ∨ ∀ a ∈ acts, a.NoContext)
    (hrun : (Db.start rows n).run t.access acts = some (s', outs)) (T : Option τ) :
    (Db.start (rows.filter fun r => keysOf home T r.id) n).run (solo T t.appendOnly)
        ((heardAlong t T (Db.start rows n) acts).map (·.1)) =
      some (s'.view (keysOf home T), (heardAlong t T (Db.start rows n) acts).map (·.2)) := by
  have hstart : (Db.start rows n).view (keysOf home T) = Db.start (rows.filter fun r => keysOf home T r.id) n := by
    unfold Db.start Db.view
    rw [List.map_replicate]
    rfl
  rw [← hstart]
  exact run_alone (start_keysOwned n hrows) (.inr (start_noContext rows n)) hkeyed hcontext hrun

/-- Two tenants at once: the one inserts while the other changes everything that it can see. -/
def insertAndUpdate : List (DbAction ℕ ℕ ℕ) :=
  [.opens 0 (.tenant 0), .opens 1 (.tenant 1), .run 0 (.insert ⟨2, some 0, 1⟩ false) false,
    .run 1 (.update (fun _ _ => true) (fun row => (row.tenantId, 0))) false, .commit 0, .commit 1]

theorem tenant_alone_interleaved : ∃ s' outs,
    (Db.start [⟨0, some 0, 7⟩, ⟨1, some 1, 5⟩] 2).run (installed "app" "leads" fun _ => false).access insertAndUpdate =
      some (s', outs) ∧
      (Db.start [⟨1, some 1, 5⟩] 2).run (solo (some 1) false)
          [.opens 0 (.tenant 0), .opens 1 (.tenant 1),
            .run 1 (.update (fun _ _ => true) (fun row => (row.tenantId, 0))) false, .commit 0, .commit 1] =
        some (s'.view (keysOf (fun k => some (k % 2)) (some 1)),
          [.done, .done, .rows [⟨1, some 1, 0⟩], .done, .done]) := by
  refine ⟨_, _, rfl, ?_⟩
  exact @tenant_alone ℕ ℕ ℕ _ _ (fun k => some (k % 2)) (installed "app" "leads" fun _ => false) _ _
    [⟨0, some 0, 7⟩, ⟨1, some 1, 5⟩] 2 insertAndUpdate (by unfold Owned; decide)
    (by simp [insertAndUpdate, DbAction.Keyed, Statement.Keyed]) (.inl ⟨rfl, by decide⟩) rfl (some 1)

/-! ### Sessions that bind another tenant, or none -/

def DbAction.Binds (u : τ) : DbAction ι τ γ → Prop
  | .opens _ (.tenant v) => v = u
  | .bindTenant _ v => v = u
  | _ => False

/-- No connection is bound to the tenant, and no transaction has written under its keys. -/
structure Db.LeavesAlone (home : ι → Option τ) (u : τ) (s : Db ι τ γ) : Prop where
  idle : ∀ c ∈ s.pool, c.settings.tenant = none
  txns : s.ForallTxn fun x => x.settings.tenant ≠ some u ∧ ∀ w ∈ x.writes, home (w.target (·.id)) ≠ some u

omit [DecidableEq τ] in
theorem Db.LeavesAlone.step {acc : Access ι τ γ} {u : τ} (hs : s.LeavesAlone home u) (hkeys : s.KeysOwned home)
    (hw : s.ForallTxn fun x => acc.WritesIn x.settings (· = x.settings.tenant)) {a : DbAction ι τ γ}
    (hkeyed : a.Keyed home) (ha : ¬ a.Binds u) {o : Outcome ι τ γ} (h : s.step acc a = some (s', o)) :
    s'.LeavesAlone home u := by
  refine ⟨idle_step (fun settings => settings.tenant = none) Settings.tenant_ended hs.idle h, hs.txns.step h ?_ ?_ ?_ ?_⟩
  · intro i k ha' c hc
    subst ha'
    have hidle : c.settings.tenant ≠ some u := by simp [hs.idle c hc]
    refine ⟨?_, fun w hw => absurd hw List.not_mem_nil⟩
    cases k with
    | tenant t => exact fun h => ha (Option.some.inj h)
    | platform reason => exact hidle
    | unscoped => exact hidle
  · intro i t ha' x hx
    subst ha'
    exact ⟨fun h => ha (Option.some.inj h), hx.2⟩
  · exact fun i reason _ x hx => hx
  · intro i st nested ha' c x hx hleaves writes locks result hok
    subst ha'
    refine ⟨hleaves.1, fun w hmem => ?_⟩
    rcases List.mem_append.mp hmem with hmem | hmem
    · exact hleaves.2 w hmem
    · have htenant := ((execute_writesIn (hkeys.seen hx) (hw.of_txn? hx) hkeyed hok).1 w hmem).1
      exact htenant ▸ hleaves.1

theorem Db.LeavesAlone.rows {acc : Access ι τ γ} {u : τ} (hs : s.LeavesAlone home u) {a : DbAction ι τ γ}
    {o : Outcome ι τ γ} (h : s.step acc a = some (s', o)) :
    (s'.rows.filter fun r => keysOf home (some u) r.id) = s.rows.filter fun r => keysOf home (some u) r.id := by
  rcases rows_step h with heq | ⟨i, c, x, -, hx, heq⟩
  · rw [heq]
  · have hnone : x.writes.filter (fun w => keysOf home (some u) (w.target (·.id))) = [] :=
      List.filter_eq_nil_iff.mpr fun w hmem hkey => (hs.txns.of_txn? hx).2 w hmem (of_decide_eq_true hkey)
    rw [heq]
    show (Write.applyAll (·.id) s.rows x.writes).filter _ = _
    rw [Write.applyAll_filter (keysOf home (some u)) x.writes s.rows, hnone, Write.applyAll_nil]

theorem run_leaves {u : τ} : ∀ {acts : List (DbAction ι τ γ)} {s s' : Db ι τ γ} {outs : List (Outcome ι τ γ)},
    s.KeysOwned home → s.LeavesAlone home u → (t.LookupsOnly ∨ s.NoContext) → (∀ a ∈ acts, a.Keyed home) →
    (t.LookupsOnly ∨ ∀ a ∈ acts, a.NoContext) → (∀ a ∈ acts, ¬ a.Binds u) →
    s.run t.access acts = some (s', outs) →
    (s'.rows.filter fun r => keysOf home (some u) r.id) = s.rows.filter fun r => keysOf home (some u) r.id
  | [], s, s', outs, _, _, _, _, _, _, h => by
    obtain ⟨rfl, -⟩ := Prod.mk.inj (Option.some.inj h)
    rfl
  | a :: acts, s, s', outs, hs, hleaves, hctx, hkeyed, hacts, hbinds, h => by
    obtain ⟨⟨s₁, o⟩, hstep, h⟩ := Option.bind_eq_some_iff.mp h
    obtain ⟨⟨s₂, os⟩, hrun, h⟩ := Option.map_eq_some_iff.mp h
    obtain ⟨rfl, -⟩ := Prod.mk.inj h
    have ha := hkeyed a List.mem_cons_self
    have hw : s.ForallTxn fun x => t.access.WritesIn x.settings (· = x.settings.tenant) := by
      intro c hc x hx
      exact ownWrites (hctx.symm.imp_left fun h => .inl (h.txns c hc x hx))
    have hctx₁ : t.LookupsOnly ∨ s₁.NoContext := by
      rcases hctx with h | h
      · exact .inl h
      · rcases hacts with h' | h'
        · exact .inl h'
        · exact .inr (h.step (h' a List.mem_cons_self) hstep)
    rw [← hleaves.rows hstep]
    exact run_leaves (hs.step ha hw hstep) (hleaves.step hs hw ha (hbinds a List.mem_cons_self) hstep) hctx₁
      (fun b hb => hkeyed b (List.mem_cons_of_mem a hb))
      (hacts.imp_right fun h b hb => h b (List.mem_cons_of_mem a hb))
      (fun b hb => hbinds b (List.mem_cons_of_mem a hb)) hrun

/-- The rows of a tenant change in sessions that bind it, and in no others: not in those of other tenants, and not in
those of the platform either, whatever the lookup policies show them. -/
theorem unbound_leave {rows : List (Row ι τ γ)} {n : ℕ} {acts : List (DbAction ι τ γ)} (hrows : Owned home rows)
    (hkeyed : ∀ a ∈ acts, a.Keyed home) (hcontext : t.LookupsOnly ∨ ∀ a ∈ acts, a.NoContext) {u : τ}
    (hbinds : ∀ a ∈ acts, ¬ a.Binds u) (hrun : (Db.start rows n).run t.access acts = some (s', outs)) :
    (s'.rows.filter fun r => keysOf home (some u) r.id) = rows.filter fun r => keysOf home (some u) r.id := by
  have hleaves : (Db.start rows n).LeavesAlone home u :=
    ⟨Db.idle_start rows n (Q := fun settings => settings.tenant = none) rfl, .start rows n⟩
  exact run_leaves (start_keysOwned n hrows) hleaves (.inr (start_noContext rows n)) hkeyed hcontext hbinds hrun

/-- A sign-in looks a user up across tenants, and tries to change what it finds. -/
def lookUpAndUpdate : List (DbAction ℕ ℕ ℕ) :=
  [.opens 0 (.platform "auth_lookup"), .run 0 (.select id) false,
    .run 0 (.update (fun _ _ => true) (fun row => (row.tenantId, 0))) false, .commit 0]

theorem users_left_by_lookup : ∃ s',
    (Db.start [⟨0, some 0, 7⟩] 1).run (installed "app" "users" fun _ => false).access lookUpAndUpdate =
      some (s', [.done, .rows [⟨0, some 0, 7⟩], .rows [], .done]) ∧
      (s'.rows.filter fun r => keysOf (fun _ => some 0) (some 0) r.id) = [⟨0, some 0, 7⟩] := by
  refine ⟨_, rfl, ?_⟩
  exact @unbound_leave ℕ ℕ ℕ _ _ (fun _ => some 0) (installed "app" "users" fun _ => false) _ _
    [⟨0, some 0, 7⟩] 1 lookUpAndUpdate (by unfold Owned; decide)
    (by simp [lookUpAndUpdate, DbAction.Keyed, Statement.Keyed])
    (.inl (installed_lookupsOnly (fun _ => false) (by decide))) 0 (by simp [lookUpAndUpdate, DbAction.Binds]) rfl

end Runs

end

end RevenueOS.Database
