import RevenueOS.Lib.Trace
import RevenueOS.Lib.WriteSet

/-!
# RevenueOS.Database.RowSecurity — sessions over one table with row level security

The policy templates of `infrastructure/database/ddl.py`, the policies that later migrations add to single tables, and
what `infrastructure/database/session.py` binds before it hands out a session.  The table belongs to all tenants;
sessions of any number of connections run statements on it in any order.

* `Db.step`: one step of a session, or of the pool that hands it out.
* `PlatformPolicy`: what each of the later policies has in common.
* `Db.ForallTxn.step`: what a step leaves true of every open transaction.

A statement is taken at once: it waits as a whole for rows that another transaction holds.  Constraints are left out,
but for the primary key; so are savepoints, but for one around a single statement.  A tenant id is bound as the id, not
as its text.
-/

namespace RevenueOS.Database

open RevenueOS.Lib

/-! ## Three truth values -/

/-- `a = b`. -/
def sqlEq {α : Type} [DecidableEq α] : Option α → Option α → Option Bool
  | some a, some b => some (decide (a = b))
  | _, _ => none

/-- `a OR b`. -/
def sqlOr : Option Bool → Option Bool → Option Bool
  | some true, _ => some true
  | _, some true => some true
  | some false, some false => some false
  | _, _ => none

/-- `a AND b`. -/
def sqlAnd : Option Bool → Option Bool → Option Bool
  | some false, _ => some false
  | _, some false => some false
  | some true, some true => some true
  | _, _ => none

/-- A row passes if the expression is true: not false, and not unknown. -/
def passes (v : Option Bool) : Bool := v == some true

@[simp] theorem passes_some (b : Bool) : passes (some b) = b := by cases b <;> rfl

@[simp] theorem passes_or (a b : Option Bool) : passes (sqlOr a b) = (passes a || passes b) := by
  rcases a with _ | _ | _ <;> rcases b with _ | _ | _ <;> rfl

@[simp] theorem passes_and (a b : Option Bool) : passes (sqlAnd a b) = (passes a && passes b) := by
  rcases a with _ | _ | _ <;> rcases b with _ | _ | _ <;> rfl

/-! ## Rows and what a session has bound -/

section

variable {ι τ γ : Type}

structure Row (ι τ γ : Type) where
  id : ι
  tenantId : Option τ
  columns : γ
deriving DecidableEq

/-- `app.tenant_id` and `app.platform_context` as `current_setting(.., true)` reads them: NULL on a connection that
has never bound them, the empty string after a transaction that did. -/
structure Settings (τ : Type) where
  tenantId : Option (Option τ)
  platformContext : Option String
deriving DecidableEq

namespace Settings

/-- `NULLIF(current_setting('app.tenant_id', true), '')::uuid`. -/
def tenant (s : Settings τ) : Option τ := s.tenantId.join

/-- `coalesce(current_setting('app.platform_context', true), '')`. -/
def context (s : Settings τ) : String := s.platformContext.getD ""

/-- What is left when the transaction ends: the bindings were local to it. -/
def ended (s : Settings τ) : Settings τ :=
  ⟨s.tenantId.map fun _ => none, s.platformContext.map fun _ => ""⟩

@[simp] theorem tenant_ended (s : Settings τ) : s.ended.tenant = none := by
  obtain ⟨_ | t, c⟩ := s <;> rfl

@[simp] theorem context_ended (s : Settings τ) : s.ended.context = "" := by
  obtain ⟨t, _ | c⟩ := s <;> rfl

end Settings

/-! ## Policies -/

inductive Command where
  | all
  | select
  | update
deriving DecidableEq

/-- A permissive policy. -/
structure Policy (ι τ γ : Type) where
  command : Command
  usingExpr : Settings τ → Row ι τ γ → Option Bool
  checkExpr : Settings τ → Row ι τ γ → Option Bool

/-- A policy with one expression for both. -/
def Policy.both (command : Command) (e : Settings τ → Row ι τ γ → Option Bool) : Policy ι τ γ := ⟨command, e, e⟩

/-- A `FOR SELECT` policy, which never lets a row be written. -/
def Policy.lookup (e : Settings τ → Row ι τ γ → Option Bool) : Policy ι τ γ := ⟨.select, e, fun _ _ => some false⟩

/-- `tenant_id IS NULL AND coalesce(current_setting('app.tenant_id', true), '') = ''`. -/
def unownedUnbound (s : Settings τ) (row : Row ι τ γ) : Option Bool :=
  sqlAnd (some row.tenantId.isNone) (some s.tenant.isNone)

/-- `current_setting('app.platform_context', true) = name`. -/
def inContext (name : String) (s : Settings τ) : Option Bool := sqlEq s.platformContext (some name)

theorem passes_inContext {name : String} (hname : name ≠ "") {s : Settings τ} (h : s.context = "") :
    passes (inContext name s) = false := by
  obtain ⟨t, _ | c⟩ := s
  · rfl
  · have hc : c = "" := h
    simp [inContext, sqlEq, hc, hname.symm]

section

variable [DecidableEq τ]

def tenantMatches (s : Settings τ) (row : Row ι τ γ) : Option Bool := sqlEq row.tenantId s.tenant

/-- `RLS_POLICY_TEMPLATE`, `RLS_NULLABLE_TEMPLATE` and `RLS_PLATFORM_MAINTENANCE_TEMPLATE`. -/
inductive Template where
  | tenant
  | nullable
  | platformMaintenance
deriving DecidableEq

def Template.expression : Template → Settings τ → Row ι τ γ → Option Bool
  | .tenant, s, row => tenantMatches s row
  | .nullable, s, row => sqlOr (tenantMatches s row) (unownedUnbound s row)
  | .platformMaintenance, s, row =>
    sqlOr (sqlOr (tenantMatches s row) (unownedUnbound s row)) (some (decide (s.context ≠ "")))

/-- The policy `tenant_isolation`. -/
def tenantIsolation (template : Template) : Policy ι τ γ := .both .all template.expression

/-- `NULLABLE_TENANT_TABLES` and `PLATFORM_MAINTAINED`, and `_template_for` over them
(`0005_nullif_tenant_guc_cast.py`). -/
def templateFor (table : String) : Template :=
  if table ∈ ["dead_letters"] then .platformMaintenance
  else if table ∈ ["reconciliation_runs", "provider_webhook_events", "dead_letters", "audit_logs"] then .nullable
  else .tenant

/-- A policy that passes no row without a platform context. -/
structure PlatformPolicy (ι τ γ : Type) extends Policy ι τ γ where
  needsContext : ∀ s row, s.context = "" → passes (usingExpr s row) = false ∧ passes (checkExpr s row) = false

/-- `auth_lookup`, on `users` and `refresh_tokens`. -/
def authLookup : PlatformPolicy ι τ γ where
  toPolicy := .lookup fun s _ => some (decide (s.context ≠ ""))
  needsContext := by
    intro s _ h
    simp [Policy.lookup, h]

/-- `public_surface_lookup`, on `forms` and `webchat_widgets`, by the column that says that the row is public. -/
def publicSurfaceLookup (live : γ → Bool) : PlatformPolicy ι τ γ where
  toPolicy := .lookup fun s row => sqlAnd (some (live row.columns)) (some (decide (s.context ≠ "")))
  needsContext := by
    intro s _ h
    simp [Policy.lookup, h]

/-- A lookup in one named context: `verified_razorpay_lookup`, `verified_razorpay_event_lookup`,
`webhook_delivery_sweep` and `workflow_scheduler_select`. -/
def contextLookup (name : String) (hname : name ≠ "") : PlatformPolicy ι τ γ where
  toPolicy := .lookup fun s _ => inContext name s
  needsContext := by
    intro s _ h
    exact ⟨passes_inContext hname h, rfl⟩

/-- `workflow_scheduler_update`, on `workflow_executions`. -/
def workflowSchedulerUpdate : PlatformPolicy ι τ γ where
  toPolicy := .both .update fun s _ => inContext "workflow_scheduler" s
  needsContext := by
    intro s _ h
    exact ⟨passes_inContext (by decide) h, passes_inContext (by decide) h⟩

/-- `verified_razorpay_event_rebind`, on `provider_webhook_events`. -/
def verifiedRazorpayEventRebind (verifiedContext : String) (hname : verifiedContext ≠ "") :
    PlatformPolicy ι τ γ where
  toPolicy := ⟨.update, fun s row => sqlAnd (some row.tenantId.isNone) (inContext verifiedContext s),
    fun s row => sqlAnd (tenantMatches s row) (inContext verifiedContext s)⟩
  needsContext := by
    intro s _ h
    simp [passes_inContext hname h]

/-- What the migrations and the templates make of one table. -/
structure TableDef (ι τ γ : Type) where
  isolation : Template
  lookups : List (PlatformPolicy ι τ γ)
  appendOnly : Bool

def TableDef.policies (t : TableDef ι τ γ) : List (Policy ι τ γ) :=
  tenantIsolation t.isolation :: t.lookups.map (·.toPolicy)

/-- The lookup policies of a table, by the migrations that add them; `live` is its column for a public row. -/
def lookupsFor (live : γ → Bool) (table : String) : List (PlatformPolicy ι τ γ) :=
  if table ∈ ["users", "refresh_tokens"] then [authLookup]
  else if table ∈ ["forms", "webchat_widgets"] then [publicSurfaceLookup live]
  else if table = "payments" then [contextLookup "verified_razorpay_webhook" (by decide)]
  else if table = "provider_webhook_events" then
    [contextLookup "verified_razorpay_webhook" (by decide),
      verifiedRazorpayEventRebind "verified_razorpay_webhook" (by decide)]
  else if table = "outbound_webhook_deliveries" then [contextLookup "webhook_delivery_sweep" (by decide)]
  else if table = "workflow_executions" then
    [contextLookup "workflow_scheduler" (by decide), workflowSchedulerUpdate]
  else []

/-- `APPEND_ONLY_TABLES`. -/
def appendOnlyTables : List (String × String) :=
  [("audit", "audit_logs"), ("audit", "consent_records"), ("app", "activities"), ("app", "payment_transitions"),
    ("app", "lead_source_events")]

/-- A tenant-owned table after all migrations. -/
def installed (schema table : String) (live : γ → Bool) : TableDef ι τ γ :=
  ⟨templateFor table, lookupsFor live table, decide ((schema, table) ∈ appendOnlyTables)⟩

/-! ## What the policies let a command see and write -/

/-- The rows that a command sees and those that it may leave. -/
structure Access (ι τ γ : Type) where
  reads : Settings τ → Row ι τ γ → Bool
  updates : Settings τ → Row ι τ γ → Bool
  deletes : Settings τ → Row ι τ γ → Bool
  insertCheck : Settings τ → Row ι τ γ → Bool
  updateCheck : Settings τ → Row ι τ γ → Bool
  /-- The trigger `reject_mutation`. -/
  appendOnly : Bool

/-- Permissive policies are joined by OR.  A command other than INSERT reads its rows, so that they pass the policies
for SELECT too, before and after. -/
def TableDef.access (t : TableDef ι τ γ) : Access ι τ γ where
  reads s row := t.policies.any fun p => decide (p.command ≠ .update) && passes (p.usingExpr s row)
  updates s row := (t.policies.any fun p => decide (p.command ≠ .update) && passes (p.usingExpr s row)) &&
    t.policies.any fun p => decide (p.command ≠ .select) && passes (p.usingExpr s row)
  deletes s row := (t.policies.any fun p => decide (p.command ≠ .update) && passes (p.usingExpr s row)) &&
    t.policies.any fun p => decide (p.command = .all) && passes (p.usingExpr s row)
  insertCheck s row := t.policies.any fun p => decide (p.command = .all) && passes (p.checkExpr s row)
  updateCheck s row := (t.policies.any fun p => decide (p.command ≠ .update) && passes (p.usingExpr s row)) &&
    t.policies.any fun p => decide (p.command ≠ .select) && passes (p.checkExpr s row)
  appendOnly := t.appendOnly

end

/-! ## Statements -/

inductive Statement (ι τ γ : Type) where
  | select (query : List (Row ι τ γ) → List (Row ι τ γ))
  | selectForUpdate (cond : List (Row ι τ γ) → Row ι τ γ → Bool)
  | insert (row : Row ι τ γ) (onConflictDoNothing : Bool)
  | update (cond : List (Row ι τ γ) → Row ι τ γ → Bool) (assign : Row ι τ γ → Option τ × γ)
  | delete (cond : List (Row ι τ γ) → Row ι τ γ → Bool)

/-- A row that the policies do not let in, a primary key that is taken, or a change to an append-only table. -/
inductive SqlError where
  | violation
  | duplicateKey
  | appendOnly
deriving DecidableEq

/-- What the session gets. -/
inductive Outcome (ι τ γ : Type) where
  | rows (rs : List (Row ι τ γ))
  | waiting
  | failed (e : SqlError)
  | done
deriving DecidableEq

def Outcome.isFailed : Outcome ι τ γ → Bool
  | .failed _ => true
  | _ => false

/-- What a statement comes to: writes and locks of the transaction, waiting for another one, or an error. -/
inductive Effect (ι τ γ : Type) where
  | ok (writes : List (Write (Row ι τ γ) ι)) (locks : List ι) (result : List (Row ι τ γ))
  | wait
  | error (e : SqlError)
deriving DecidableEq

/-- What other open transactions have written, and what they have locked. -/
structure Elsewhere (ι : Type) where
  written : List ι
  held : List ι

/-- The row that an UPDATE leaves. -/
def updated (assign : Row ι τ γ → Option τ × γ) (row : Row ι τ γ) : Row ι τ γ := ⟨row.id, (assign row).1, (assign row).2⟩

variable [DecidableEq ι]

/-- A statement on what its transaction sees: the committed rows with its own writes. -/
def execute (acc : Access ι τ γ) (s : Settings τ) (rows : List (Row ι τ γ)) (others : Elsewhere ι) :
    Statement ι τ γ → Effect ι τ γ
  | .select query => .ok [] [] (query (rows.filter (acc.reads s)))
  | .selectForUpdate cond =>
    let targets := rows.filter (fun r => acc.updates s r && cond (rows.filter (acc.reads s)) r)
    if targets.any (fun r => decide (r.id ∈ others.held)) then .wait
    else .ok [] (targets.map (·.id)) targets
  | .insert row onConflictDoNothing =>
    if acc.insertCheck s row = false then .error .violation
    else if row.id ∈ others.written then .wait
    else if row.id ∈ rows.map (·.id) then
      if onConflictDoNothing then .ok [] [] [] else .error .duplicateKey
    else .ok [.put row] [row.id] [row]
  | .update cond assign =>
    let targets := rows.filter (fun r => acc.updates s r && cond (rows.filter (acc.reads s)) r)
    if targets.any (fun r => decide (r.id ∈ others.held)) then .wait
    else if acc.appendOnly && !targets.isEmpty then .error .appendOnly
    else if targets.any (fun r => !acc.updateCheck s (updated assign r)) then .error .violation
    else .ok (targets.map fun r => .put (updated assign r)) (targets.map (·.id)) (targets.map (updated assign))
  | .delete cond =>
    let targets := rows.filter (fun r => acc.deletes s r && cond (rows.filter (acc.reads s)) r)
    if targets.any (fun r => decide (r.id ∈ others.held)) then .wait
    else if acc.appendOnly && !targets.isEmpty then .error .appendOnly
    else .ok (targets.map fun r => .remove r.id) (targets.map (·.id)) targets

/-! ## Connections and transactions -/

structure Transaction (ι τ γ : Type) where
  settings : Settings τ
  writes : List (Write (Row ι τ γ) ι)
  locks : List ι

/-- A connection of the pool: what it has outside of transactions, and the transaction of the session that holds it. -/
structure Connection (ι τ γ : Type) where
  settings : Settings τ
  txn : Option (Transaction ι τ γ)

structure Db (ι τ γ : Type) where
  rows : List (Row ι τ γ)
  pool : List (Connection ι τ γ)

/-- `tenant_session` or a unit of work with a tenant, `platform_session`, and `unscoped_session`. -/
inductive Opening (τ : Type) where
  | tenant (t : τ)
  | platform (reason : String)
  | unscoped

inductive DbAction (ι τ γ : Type) where
  | opens (i : ℕ) (k : Opening τ)
  /-- `bind_tenant` in an open transaction. -/
  | bindTenant (i : ℕ) (t : τ)
  /-- `bind_platform_context` in an open transaction. -/
  | bindPlatformContext (i : ℕ) (reason : String)
  /-- A statement, in a savepoint of its own or not. -/
  | run (i : ℕ) (st : Statement ι τ γ) (nested : Bool)
  | commit (i : ℕ)
  | rollback (i : ℕ)

namespace Settings

def bindTenant (s : Settings τ) (t : τ) : Settings τ := { s with tenantId := some (some t) }

def bindPlatformContext (s : Settings τ) (reason : String) : Settings τ := { s with platformContext := some reason }

def opened (s : Settings τ) : Opening τ → Settings τ
  | .tenant t => s.bindTenant t
  | .platform reason => s.bindPlatformContext reason
  | .unscoped => s

end Settings

/-- The connection when its transaction has ended. -/
def Transaction.ended (x : Transaction ι τ γ) : Connection ι τ γ := ⟨x.settings.ended, none⟩

omit [DecidableEq ι] in
@[simp] theorem Transaction.txn_ended (x : Transaction ι τ γ) : x.ended.txn = none := rfl

/-- What the transactions of the connections other than the `i`th have written and locked. -/
def elsewhere (pool : List (Connection ι τ γ)) (i : ℕ) : Elsewhere ι :=
  let txns := (pool.eraseIdx i).filterMap (·.txn)
  ⟨txns.flatMap fun x => x.writes.map (Write.target (·.id)), txns.flatMap (·.locks)⟩

namespace Db

variable (acc : Access ι τ γ) (s : Db ι τ γ)

/-- The `i`th connection and its transaction. -/
def txn? (i : ℕ) : Option (Connection ι τ γ × Transaction ι τ γ) :=
  s.pool[i]?.bind fun c => c.txn.map fun x => (c, x)

/-- What a transaction sees of the whole table. -/
def seen (x : Transaction ι τ γ) : List (Row ι τ γ) := Write.applyAll (·.id) s.rows x.writes

def setTxn (i : ℕ) (c : Connection ι τ γ) (x : Transaction ι τ γ) : Db ι τ γ :=
  { s with pool := s.pool.set i { c with txn := some x } }

def endTxn (i : ℕ) (x : Transaction ι τ γ) : Db ι τ γ := { s with pool := s.pool.set i x.ended }

/-- The step of a connection, if it can take it: a session opens on an idle connection, and everything else is of an
open one.  An error ends the transaction, unless it stays in its savepoint. -/
def step : DbAction ι τ γ → Option (Db ι τ γ × Outcome ι τ γ)
  | .opens i k =>
    match s.pool[i]? with
    | some ⟨settings, none⟩ => some ({ s with pool := s.pool.set i ⟨settings, some ⟨settings.opened k, [], []⟩⟩ }, .done)
    | _ => none
  | .bindTenant i t =>
    (s.txn? i).map fun (c, x) => (s.setTxn i c { x with settings := x.settings.bindTenant t }, .done)
  | .bindPlatformContext i reason =>
    (s.txn? i).map fun (c, x) => (s.setTxn i c { x with settings := x.settings.bindPlatformContext reason }, .done)
  | .run i st nested =>
    (s.txn? i).map fun (c, x) =>
      match execute acc x.settings (s.seen x) (elsewhere s.pool i) st with
      | .ok writes locks result =>
        (s.setTxn i c { x with writes := x.writes ++ writes, locks := x.locks ++ locks }, .rows result)
      | .wait => (s, .waiting)
      | .error e => (if nested then s else s.endTxn i x, .failed e)
  | .commit i => (s.txn? i).map fun (_, x) => ({ s.endTxn i x with rows := s.seen x }, .done)
  | .rollback i => (s.txn? i).map fun (_, x) => (s.endTxn i x, .done)

/-- A run, in which every step can be taken. -/
def run : Db ι τ γ → List (DbAction ι τ γ) → Option (Db ι τ γ × List (Outcome ι τ γ))
  | s, [] => some (s, [])
  | s, a :: acts => (s.step acc a).bind fun (s₁, o) => (run s₁ acts).map fun (s', os) => (s', o :: os)

/-- A pool of `n` connections that nobody has used yet. -/
def start (rows : List (Row ι τ γ)) (n : ℕ) : Db ι τ γ := ⟨rows, List.replicate n ⟨⟨none, none⟩, none⟩⟩

end Db

/-! ## Steps -/

omit [DecidableEq ι] in
theorem txn?_eq_some {s : Db ι τ γ} {i : ℕ} {c : Connection ι τ γ} {x : Transaction ι τ γ} :
    s.txn? i = some (c, x) ↔ s.pool[i]? = some c ∧ c.txn = some x := by
  unfold Db.txn?
  rw [Option.bind_eq_some_iff]
  constructor
  · rintro ⟨d, hd, h⟩
    obtain ⟨y, hy, h⟩ := Option.map_eq_some_iff.mp h
    obtain ⟨rfl, rfl⟩ := Prod.mk.inj h
    exact ⟨hd, hy⟩
  · rintro ⟨hc, hx⟩
    exact ⟨c, hc, by rw [hx, Option.map_some]⟩

omit [DecidableEq ι] in
theorem setTxn_self {s : Db ι τ γ} {i : ℕ} {c : Connection ι τ γ} {x : Transaction ι τ γ}
    (h : s.txn? i = some (c, x)) : s.setTxn i c x = s := by
  obtain ⟨hc, hx⟩ := txn?_eq_some.mp h
  have hconn : ({ c with txn := some x } : Connection ι τ γ) = c := by rw [← hx]
  obtain ⟨hi, hget⟩ := List.getElem?_eq_some_iff.mp hc
  have hpool : s.pool.set i c = s.pool := by rw [← hget, List.set_getElem_self]
  show ({ s with pool := s.pool.set i { c with txn := some x } } : Db ι τ γ) = s
  rw [hconn, hpool]

def Db.ForallTxn (P : Transaction ι τ γ → Prop) (s : Db ι τ γ) : Prop := ∀ c ∈ s.pool, ∀ x, c.txn = some x → P x

section Step

variable {acc : Access ι τ γ} {s s' : Db ι τ γ} {a : DbAction ι τ γ} {o : Outcome ι τ γ}
  {P : Transaction ι τ γ → Prop}

omit [DecidableEq ι] in
theorem Db.ForallTxn.start (rows : List (Row ι τ γ)) (n : ℕ) : (Db.start rows n).ForallTxn P := by
  intro c hc x hx
  obtain rfl := List.eq_of_mem_replicate hc
  cases hx

omit [DecidableEq ι] in
/-- What is true of the settings of a new connection is true of all of them at the start. -/
theorem Db.idle_start (rows : List (Row ι τ γ)) (n : ℕ) {Q : Settings τ → Prop} (hnew : Q ⟨none, none⟩) :
    ∀ c ∈ (Db.start rows n).pool, Q c.settings := by
  intro c hc
  obtain rfl := List.eq_of_mem_replicate hc
  exact hnew

omit [DecidableEq ι] in
theorem Db.ForallTxn.of_txn? (hs : s.ForallTxn P) {i : ℕ} {c : Connection ι τ γ} {x : Transaction ι τ γ}
    (h : s.txn? i = some (c, x)) : P x :=
  hs c (List.mem_of_getElem? (txn?_eq_some.mp h).1) x (txn?_eq_some.mp h).2

omit [DecidableEq ι] in
theorem Db.ForallTxn.set (hs : s.ForallTxn P) {i : ℕ} {c : Connection ι τ γ} (hc : ∀ x, c.txn = some x → P x)
    {rows : List (Row ι τ γ)} : (⟨rows, s.pool.set i c⟩ : Db ι τ γ).ForallTxn P := by
  intro d hd x hx
  rcases List.mem_or_eq_of_mem_set hd with hd | rfl
  · exact hs d hd x hx
  · exact hc x hx

omit [DecidableEq ι] in
theorem Db.ForallTxn.setTxn (hs : s.ForallTxn P) {i : ℕ} {c : Connection ι τ γ} {x : Transaction ι τ γ} (hx : P x) :
    (s.setTxn i c x).ForallTxn P := by
  apply hs.set
  intro y hy
  obtain rfl := Option.some.inj hy
  exact hx

omit [DecidableEq ι] in
theorem Db.ForallTxn.endTxn (hs : s.ForallTxn P) {i : ℕ} {x : Transaction ι τ γ} : (s.endTxn i x).ForallTxn P :=
  hs.set (by simp)

/-- What a step leaves true of every open transaction. -/
theorem Db.ForallTxn.step (hs : s.ForallTxn P) (h : s.step acc a = some (s', o))
    (hopens : ∀ i k, a = .opens i k → ∀ c ∈ s.pool, P ⟨c.settings.opened k, [], []⟩)
    (htenant : ∀ i t, a = .bindTenant i t → ∀ x, P x → P { x with settings := x.settings.bindTenant t })
    (hcontext : ∀ i reason, a = .bindPlatformContext i reason →
      ∀ x, P x → P { x with settings := x.settings.bindPlatformContext reason })
    (hrun : ∀ i st nested, a = .run i st nested → ∀ c x, s.txn? i = some (c, x) → P x → ∀ writes locks result,
      execute acc x.settings (s.seen x) (elsewhere s.pool i) st = .ok writes locks result →
      P { x with writes := x.writes ++ writes, locks := x.locks ++ locks }) :
    s'.ForallTxn P := by
  cases a with
  | opens i k =>
    simp only [Db.step] at h
    split at h
    · rename_i settings hi
      obtain ⟨rfl, -⟩ := Prod.mk.inj (Option.some.inj h)
      apply hs.set
      intro y hy
      obtain rfl := Option.some.inj hy
      exact hopens i k rfl _ (List.mem_of_getElem? hi)
    · cases h
  | bindTenant i t =>
    obtain ⟨⟨c, x⟩, hx, h⟩ := Option.map_eq_some_iff.mp h
    obtain ⟨rfl, -⟩ := Prod.mk.inj h
    exact hs.setTxn (htenant i t rfl x (hs.of_txn? hx))
  | bindPlatformContext i reason =>
    obtain ⟨⟨c, x⟩, hx, h⟩ := Option.map_eq_some_iff.mp h
    obtain ⟨rfl, -⟩ := Prod.mk.inj h
    exact hs.setTxn (hcontext i reason rfl x (hs.of_txn? hx))
  | run i st nested =>
    obtain ⟨⟨c, x⟩, hx, h⟩ := Option.map_eq_some_iff.mp h
    dsimp only at h
    split at h
    · rename_i writes locks result hok
      obtain ⟨rfl, -⟩ := Prod.mk.inj h
      exact hs.setTxn (hrun i st nested rfl c x hx (hs.of_txn? hx) writes locks result hok)
    · obtain ⟨rfl, -⟩ := Prod.mk.inj h
      exact hs
    · obtain ⟨rfl, -⟩ := Prod.mk.inj h
      split
      · exact hs
      · exact hs.endTxn
  | commit i =>
    obtain ⟨⟨c, x⟩, hx, h⟩ := Option.map_eq_some_iff.mp h
    obtain ⟨rfl, -⟩ := Prod.mk.inj h
    exact hs.set (by simp)
  | rollback i =>
    obtain ⟨⟨c, x⟩, hx, h⟩ := Option.map_eq_some_iff.mp h
    obtain ⟨rfl, -⟩ := Prod.mk.inj h
    exact hs.endTxn

/-- The committed rows change in a commit only. -/
theorem rows_step (h : s.step acc a = some (s', o)) :
    s'.rows = s.rows ∨ ∃ i c x, a = .commit i ∧ s.txn? i = some (c, x) ∧ s'.rows = s.seen x := by
  cases a with
  | opens i k =>
    simp only [Db.step] at h
    split at h
    · obtain ⟨rfl, -⟩ := Prod.mk.inj (Option.some.inj h)
      exact .inl rfl
    · cases h
  | commit i =>
    obtain ⟨⟨c, x⟩, hx, h⟩ := Option.map_eq_some_iff.mp h
    obtain ⟨rfl, -⟩ := Prod.mk.inj h
    exact .inr ⟨i, c, x, rfl, hx, rfl⟩
  | run i st nested =>
    obtain ⟨⟨c, x⟩, hx, h⟩ := Option.map_eq_some_iff.mp h
    dsimp only at h
    split at h
    · obtain ⟨rfl, -⟩ := Prod.mk.inj h
      exact .inl rfl
    · obtain ⟨rfl, -⟩ := Prod.mk.inj h
      exact .inl rfl
    · obtain ⟨rfl, -⟩ := Prod.mk.inj h
      cases nested <;> exact .inl rfl
  | bindTenant i t | bindPlatformContext i reason | rollback i =>
    obtain ⟨⟨c, x⟩, hx, h⟩ := Option.map_eq_some_iff.mp h
    obtain ⟨rfl, -⟩ := Prod.mk.inj h
    exact .inl rfl

/-- What a connection has outside of its transactions is what it had, or what a transaction has left. -/
theorem idle_step (Q : Settings τ → Prop) (hended : ∀ settings : Settings τ, Q settings.ended)
    (hs : ∀ c ∈ s.pool, Q c.settings) (h : s.step acc a = some (s', o)) : ∀ c ∈ s'.pool, Q c.settings := by
  have hset : ∀ (i : ℕ) (c : Connection ι τ γ), Q c.settings → ∀ d ∈ s.pool.set i c, Q d.settings := by
    intro i c hc d hd
    rcases List.mem_or_eq_of_mem_set hd with hd | rfl
    · exact hs d hd
    · exact hc
  have hheld : ∀ {i : ℕ} {c : Connection ι τ γ} {x : Transaction ι τ γ}, s.txn? i = some (c, x) → Q c.settings :=
    fun hx => hs _ (List.mem_of_getElem? (txn?_eq_some.mp hx).1)
  cases a with
  | opens i k =>
    simp only [Db.step] at h
    split at h
    · rename_i settings hi
      obtain ⟨rfl, -⟩ := Prod.mk.inj (Option.some.inj h)
      exact hset i _ (show Q settings from hs _ (List.mem_of_getElem? hi))
    · cases h
  | run i st nested =>
    obtain ⟨⟨c, x⟩, hx, h⟩ := Option.map_eq_some_iff.mp h
    dsimp only at h
    split at h
    · obtain ⟨rfl, -⟩ := Prod.mk.inj h
      exact hset i _ (show Q c.settings from hheld hx)
    · obtain ⟨rfl, -⟩ := Prod.mk.inj h
      exact hs
    · obtain ⟨rfl, -⟩ := Prod.mk.inj h
      cases nested with
      | true => exact hs
      | false => exact hset i _ (hended x.settings)
  | bindTenant i t | bindPlatformContext i reason =>
    obtain ⟨⟨c, x⟩, hx, h⟩ := Option.map_eq_some_iff.mp h
    obtain ⟨rfl, -⟩ := Prod.mk.inj h
    exact hset i _ (show Q c.settings from hheld hx)
  | commit i | rollback i =>
    obtain ⟨⟨c, x⟩, hx, h⟩ := Option.map_eq_some_iff.mp h
    obtain ⟨rfl, -⟩ := Prod.mk.inj h
    exact hset i _ (hended x.settings)

end Step

end

end RevenueOS.Database
