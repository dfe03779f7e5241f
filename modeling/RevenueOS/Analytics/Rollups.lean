import RevenueOS.Crm.Deals
import RevenueOS.Crm.Listing
import RevenueOS.Payments.StateMachine
import RevenueOS.Workflows.Executor

/-!
# RevenueOS.Analytics.Rollups — the revenue of a day, asked for and materialised

`AnalyticsService.dashboard` and `RollupService.refresh_day` (`application/analytics/service.py`), as far as they
report revenue, with `local_day_bounds` (`shared/utils/timeutil.py`).

* `setDays_isOk`: the daily series is written exactly if each index lies in the range that is shown.
* `total_eq_iff`: two sums over the rows of one table agree exactly if they agree off their common rows.
* `dashboard_agrees_iff`: the block of the dashboard and the row of the day agree exactly if `Reconciles` holds.
  `earlierDeal_differs` is an open deal of the day before, which the dashboard drops.

`ZoneInfo` is a parameter.  The figures of leads, appointments, conversations and service levels are left out, up to
the daily series of leads, which can fail; so are the rollups of leads and conversations.
-/

namespace RevenueOS.Analytics

open RevenueOS.Lib RevenueOS.Workflows RevenueOS.Crm RevenueOS.Payments

/-! ## `local_day_bounds` -/

/-- The instant at which each day of a zone begins, where a `datetime` can hold it. -/
abbrev Zone := ℤ → Option Instant

inductive ZoneFault where
  /-- `ZoneInfoNotFoundError`. -/
  | notFound
  /-- A key that `ZoneInfo` refuses. -/
  | refused
deriving DecidableEq

inductive ReportError where
  | validationError (message : String)
  | zoneError
  | overflowError
  /-- A value that its column cannot hold. -/
  | dataError
  /-- `days[key]` of a day that is not in the range. -/
  | keyError (day : ℤ)
deriving DecidableEq

/-- `DEFAULT_TZ`. -/
def defaultTz : String := "Asia/Kolkata"

section Zones

variable (zoneInfo : String → Except ZoneFault Zone)

def tz (name : String) : Except ReportError Zone :=
  match zoneInfo (if name = "" then defaultTz else name) with
  | .ok zone => .ok zone
  | .error .refused => .error .zoneError
  | .error .notFound =>
    match zoneInfo defaultTz with
    | .ok zone => .ok zone
    | .error _ => .error .zoneError

/-- The half-open interval that covers a local day. -/
def localDayBounds (day : ℤ) (timezone : String) : Except ReportError (Instant × Instant) := do
  let zone ← tz zoneInfo timezone
  match zone day, zone (day + 1) with
  | some start, some stop => .ok (start, stop)
  | _, _ => .error .overflowError

end Zones

/-! ## The tables -/

structure LeadRow where
  tenantId : Uuid
  createdAt : Instant
  deletedAt : Option Instant
  branchId : Option Uuid
  teamId : Option Uuid
  assigneeId : Option Uuid

structure DealRow where
  id : Uuid
  tenantId : Uuid
  status : DealStatus
  amountMinor : ℕ
  createdAt : Instant
  closedAt : Option Instant
  deletedAt : Option Instant
  branchId : Option Uuid
  teamId : Option Uuid
  assigneeId : Option Uuid

structure PaymentRow where
  id : Uuid
  tenantId : Uuid
  dealId : Option Uuid
  status : PaymentStatus
  amountMinor : ℕ
  amount_positive : 0 < amountMinor
  createdAt : Instant
  capturedAt : Option Instant

structure RefundRow where
  tenantId : Uuid
  paymentId : Uuid
  amountMinor : ℕ
  amount_positive : 0 < amountMinor
  createdAt : Instant

/-- The six figures of revenue. -/
@[ext]
structure RevenueBlock where
  dealsWon : ℕ
  dealsLost : ℕ
  wonAmountMinor : ℕ
  pipelineAmountMinor : ℕ
  paymentsCapturedMinor : ℕ
  refundsMinor : ℕ
deriving DecidableEq

structure DailyRevenueRollup where
  tenantId : Uuid
  day : ℤ
  revenue : RevenueBlock

/-- `tenant_day`. -/
def DailyRevenueRollup.key (row : DailyRevenueRollup) : Uuid × ℤ := (row.tenantId, row.day)

structure Store where
  leads : List LeadRow
  deals : List DealRow
  payments : List PaymentRow
  refunds : List RefundRow
  rollups : Table DailyRevenueRollup.key

/-- What a session of a tenant can read. -/
def Store.tenantSession (db : Store) (tenant : Uuid) : Store where
  leads := db.leads.filter (·.tenantId = tenant)
  deals := db.deals.filter (·.tenantId = tenant)
  payments := db.payments.filter (·.tenantId = tenant)
  refunds := db.refunds.filter (·.tenantId = tenant)
  rollups := db.rollups

def leadColumns : ScopeColumns LeadRow :=
  ⟨(·.tenantId), (·.deletedAt.isSome), some (·.branchId), some (·.teamId), some (·.assigneeId)⟩

def dealColumns : ScopeColumns DealRow :=
  ⟨(·.tenantId), (·.deletedAt.isSome), some (·.branchId), some (·.teamId), some (·.assigneeId)⟩

/-! ## Conditions and sums -/

/-- `start <= t < stop`. -/
def within (start stop t : Instant) : Bool := start ≤ t && t < stop

/-- `coalesce(sum(amount), 0)` over the rows of a condition. -/
def total {Row : Type} (amount : Row → ℕ) (p : Row → Bool) (rows : List Row) : ℕ := ((rows.filter p).map amount).sum

/-- `status in ("captured", "refunded")`. -/
def PaymentRow.taken (p : PaymentRow) : Bool := p.status = .captured || p.status = .refunded

/-! ## `dashboard` -/

/-- The date that a deal counts at: won and lost deals at their end, the others at their beginning. -/
def DealRow.date (d : DealRow) : Option Instant :=
  if d.status = .won ∨ d.status = .lost then d.closedAt else some d.createdAt

/-- `int(extract("epoch", t - start) / 86400)`. -/
def bucket (start t : Instant) : ℤ := (t - start) / 86400000000

/-- One entry of the daily series. -/
structure DayPoint where
  day : ℤ
  leads : ℕ
  wonAmountMinor : ℕ
deriving DecidableEq

structure Dashboard where
  revenue : RevenueBlock
  days : List DayPoint

/-- `MAX_REPORT_DAYS`. -/
def maxReportDays : ℤ := 366

/-- `_validate_range`. -/
def validateRange (startDay endDay : ℤ) : Except ReportError Unit :=
  if endDay < startDay then .error (.validationError "The end date must be on or after the start date.")
  else if endDay - startDay ≥ maxReportDays then
    .error (.validationError "A report may cover at most 366 days.")
  else .ok ()

/-- `_zero_days`. -/
def zeroDays (startDay endDay : ℤ) : List DayPoint :=
  (List.range (endDay - startDay + 1).toNat).map fun k => ⟨startDay + k, 0, 0⟩

/-- `GROUP BY index`. -/
def groupBy {Row : Type} (index : Row → ℤ) (figure : List Row → ℕ) (rows : List Row) : List (ℤ × ℕ) :=
  (rows.map index).dedup.map fun i => (i, figure (rows.filter (index · = i)))

/-- `days[key][..] = value` for the rows of a grouped query. -/
def setDays (startDay : ℤ) (write : ℕ → DayPoint → DayPoint) :
    List (ℤ × ℕ) → List DayPoint → Except ReportError (List DayPoint)
  | [], days => .ok days
  | (index, value) :: rest, days =>
    if days.any (·.day = startDay + index) then
      setDays startDay write rest (days.map fun p => if p.day = startDay + index then write value p else p)
    else .error (.keyError (startDay + index))

def setLeads (value : ℕ) (p : DayPoint) : DayPoint := { p with leads := value }

def setWonAmount (value : ℕ) (p : DayPoint) : DayPoint := { p with wonAmountMinor := value }

/-- The figures of revenue between two instants, in the scope of a user. -/
def dashboardRevenue (session : Store) (user : Crm.Principal) (start stop : Instant) : RevenueBlock :=
  let dealScope := session.deals.filter (scopedQuery dealColumns user)
  let dated := dealScope.filter fun d => d.date.any (within start stop)
  let ofScopedDeal (p : PaymentRow) : Bool := p.dealId.any fun id => (dealScope.map (·.id)).contains id
  let paymentFilter (p : PaymentRow) : Bool :=
    p.tenantId = user.tenantId && within start stop p.createdAt && (user.scope = .global || ofScopedDeal p)
  let refundFilter (r : RefundRow) : Bool :=
    r.tenantId = user.tenantId && within start stop r.createdAt &&
      (user.scope = .global ||
        session.payments.any fun p => p.id = r.paymentId && p.tenantId = user.tenantId && ofScopedDeal p)
  { dealsWon := dated.countP (·.status = .won)
    dealsLost := dated.countP (·.status = .lost)
    wonAmountMinor := total (·.amountMinor) (·.status = .won) dated
    pipelineAmountMinor := total (·.amountMinor) (·.status = .open) dated
    paymentsCapturedMinor := total (·.amountMinor) (fun p => paymentFilter p && p.taken) session.payments
    refundsMinor := total (·.amountMinor) refundFilter session.refunds }

/-- The leads by the day they were created on. -/
def leadDays (session : Store) (user : Crm.Principal) (start stop : Instant) : List (ℤ × ℕ) :=
  groupBy (bucket start ·.createdAt) List.length
    (session.leads.filter fun l => scopedQuery leadColumns user l && within start stop l.createdAt)

/-- The won amounts by the day the deals were closed on. -/
def revenueDays (session : Store) (user : Crm.Principal) (start stop : Instant) : List (ℤ × ℕ) :=
  groupBy (fun d => bucket start (d.closedAt.getD start)) (fun rows => (rows.map (·.amountMinor)).sum)
    (session.deals.filter fun d =>
      scopedQuery dealColumns user d && d.status = .won && d.closedAt.any (within start stop))

section Reports

variable (zoneInfo : String → Except ZoneFault Zone)

def dashboard (db : Store) (user : Crm.Principal) (startDay endDay : ℤ) (timezone : String) :
    Except ReportError Dashboard := do
  validateRange startDay endDay
  let (start, _) ← localDayBounds zoneInfo startDay timezone
  let (_, stop) ← localDayBounds zoneInfo endDay timezone
  let session := db.tenantSession user.tenantId
  let days := zeroDays startDay endDay
  let days ← setDays startDay setLeads (leadDays session user start stop) days
  let days ← setDays startDay setWonAmount (revenueDays session user start stop) days
  .ok ⟨dashboardRevenue session user start stop, days⟩

/-! ## `refresh_day` -/

/-- The figures of revenue that are materialised, from the rows that a session can read. -/
def rollupRevenue (session : Store) (start stop : Instant) : RevenueBlock :=
  let deals := session.deals.filter (·.deletedAt = none)
  { dealsWon := deals.countP fun d => d.status = .won && d.closedAt.any (within start stop)
    dealsLost := deals.countP fun d => d.status = .lost && d.closedAt.any (within start stop)
    wonAmountMinor := total (·.amountMinor) (fun d => d.status = .won && d.closedAt.any (within start stop)) deals
    pipelineAmountMinor := total (·.amountMinor) (·.status = .open) deals
    paymentsCapturedMinor :=
      total (·.amountMinor) (fun p => p.capturedAt.any (within start stop) && p.taken) session.payments
    refundsMinor := total (·.amountMinor) (within start stop ·.createdAt) session.refunds }

/-- What the columns hold: `Integer` counts and `BigInteger` amounts. -/
def RevenueBlock.fits (b : RevenueBlock) : Bool :=
  b.dealsWon < 2 ^ 31 && b.dealsLost < 2 ^ 31 && b.wonAmountMinor < 2 ^ 63 && b.pipelineAmountMinor < 2 ^ 63 &&
    b.paymentsCapturedMinor < 2 ^ 63 && b.refundsMinor < 2 ^ 63

def refreshDay (db : Store) (tenant : Uuid) (day : ℤ) (timezone : String) : Except ReportError Store := do
  let (start, stop) ← localDayBounds zoneInfo day timezone
  let revenue := rollupRevenue (db.tenantSession tenant) start stop
  if revenue.fits then
    .ok { db with rollups := (db.rollups.delete (tenant, day)).upsert ⟨tenant, day, revenue⟩ }
  else .error .dataError

end Reports

/-! ## Sums over conditions -/

section Totals

variable {Row : Type} {amount : Row → ℕ} {p q : Row → Bool} {rows : List Row}

@[simp] theorem total_nil : total amount p [] = 0 := rfl

theorem total_cons (r : Row) : total amount p (r :: rows) = (if p r then amount r else 0) + total amount p rows := by
  unfold total
  by_cases h : p r <;> simp [h]

theorem total_filter : total amount p (rows.filter q) = total amount (fun r => q r && p r) rows := by
  unfold total
  rw [List.filter_filter]
  simp only [Bool.and_comm]

theorem total_congr (h : ∀ r ∈ rows, p r = q r) : total amount p rows = total amount q rows := by
  unfold total
  rw [List.filter_congr h]

/-- A sum is split by a second condition. -/
theorem total_split (amount : Row → ℕ) (p q : Row → Bool) (rows : List Row) :
    total amount p rows = total amount (fun r => p r && q r) rows + total amount (fun r => p r && !q r) rows := by
  induction rows with
  | nil => rfl
  | cons r rows ih =>
    simp only [total_cons]
    cases hp : p r <;> cases hq : q r <;> simp <;> omega

/-- **Sums agree** exactly if they agree off the common rows. -/
theorem total_eq_iff : total amount p rows = total amount q rows ↔
    total amount (fun r => p r && !q r) rows = total amount (fun r => q r && !p r) rows := by
  have hp := total_split amount p q rows
  have hq := total_split amount q p rows
  have hcomm : total amount (fun r => p r && q r) rows = total amount (fun r => q r && p r) rows :=
    total_congr fun r _ => Bool.and_comm _ _
  omega

theorem total_eq_zero_iff : total amount p rows = 0 ↔ ∀ r ∈ rows, p r → amount r = 0 := by
  induction rows with
  | nil => simp
  | cons r rows ih =>
    rw [total_cons, Nat.add_eq_zero_iff, ih, List.forall_mem_cons]
    by_cases h : p r <;> simp [h]

end Totals

/-! ## The daily series -/

theorem day_setLeads (value : ℕ) (p : DayPoint) : (setLeads value p).day = p.day := rfl

theorem day_setWonAmount (value : ℕ) (p : DayPoint) : (setWonAmount value p).day = p.day := rfl

/-- The days of a series stay when values are written. -/
theorem map_day_write {write : ℕ → DayPoint → DayPoint} (hw : ∀ value p, (write value p).day = p.day)
    (key : ℤ) (value : ℕ) (days : List DayPoint) :
    (days.map fun p => if p.day = key then write value p else p).map (·.day) = days.map (·.day) := by
  rw [List.map_map]
  refine List.map_congr_left fun p _ => ?_
  show (if p.day = key then write value p else p).day = p.day
  split_ifs
  · exact hw value p
  · rfl

theorem setDays_days {write : ℕ → DayPoint → DayPoint} (hw : ∀ value p, (write value p).day = p.day) {startDay : ℤ}
    {days' : List DayPoint} : ∀ {rows : List (ℤ × ℕ)} {days : List DayPoint},
      setDays startDay write rows days = .ok days' → days'.map (·.day) = days.map (·.day)
  | [], _, h => by
    obtain rfl := Except.ok.inj h
    rfl
  | (index, value) :: rest, days, h => by
    unfold setDays at h
    split_ifs at h
    rw [setDays_days hw h, map_day_write hw]

/-- The daily series is written exactly if it has each day. -/
theorem setDays_isOk {write : ℕ → DayPoint → DayPoint} (hw : ∀ value p, (write value p).day = p.day) (startDay : ℤ) :
    ∀ (rows : List (ℤ × ℕ)) (days : List DayPoint),
      (∃ days', setDays startDay write rows days = .ok days') ↔ ∀ row ∈ rows, startDay + row.1 ∈ days.map (·.day)
  | [], days => by simp [setDays]
  | (index, value) :: rest, days => by
    unfold setDays
    by_cases hany : days.any (·.day = startDay + index) = true
    · rw [if_pos hany]
      have hmem : startDay + index ∈ days.map (·.day) := by simpa using hany
      have hstep := setDays_isOk hw startDay rest
        (days.map fun p => if p.day = startDay + index then write value p else p)
      rw [map_day_write hw] at hstep
      rw [hstep, List.forall_mem_cons]
      exact ⟨fun h => ⟨hmem, h⟩, fun h => h.2⟩
    · rw [if_neg hany]
      have hmem : startDay + index ∉ days.map (·.day) := by simpa using hany
      rw [List.forall_mem_cons]
      exact ⟨fun ⟨_, h⟩ => (by cases h), fun h => absurd h.1 hmem⟩

theorem map_day_zeroDays (day : ℤ) : (zeroDays day day).map (·.day) = [day] := by
  simp [zeroDays]

/-! ## One day -/

/-- What a report to the whole tenant shows of a row that can be deleted. -/
theorem scopedQuery_global {Row : Type} {columns : ScopeColumns Row} {user : Crm.Principal} (hscope : user.scope = .global)
    (row : Row) : scopedQuery columns user row = (columns.tenantId row = user.tenantId && !columns.deleted row) := by
  unfold scopedQuery
  rw [hscope, Bool.and_true]

/-- A payment of a tenant that was taken, created between two instants and not captured between them. -/
def PaymentRow.createdOnly (tenant : Uuid) (start stop : Instant) (p : PaymentRow) : Bool :=
  p.tenantId = tenant && p.taken && within start stop p.createdAt && !p.capturedAt.any (within start stop)

/-- A payment of a tenant that was taken, captured between two instants and not created between them. -/
def PaymentRow.capturedOnly (tenant : Uuid) (start stop : Instant) (p : PaymentRow) : Bool :=
  p.tenantId = tenant && p.taken && p.capturedAt.any (within start stop) && !within start stop p.createdAt

/-- No lead was created in a 25th hour of a day. -/
def EarlyLeads (db : Store) (tenant : Uuid) (start stop : Instant) : Prop :=
  ∀ l ∈ db.leads, l.tenantId = tenant → l.deletedAt = none → within start stop l.createdAt →
    l.createdAt < start + 86400000000

/-- No deal was won in a 25th hour of a day. -/
def EarlyWins (db : Store) (tenant : Uuid) (start stop : Instant) : Prop :=
  ∀ d ∈ db.deals, d.tenantId = tenant → d.deletedAt = none → d.status = .won → ∀ t, d.closedAt = some t →
    within start stop t → t < start + 86400000000

/-- The open deals that were not created on a day have no amount. -/
def OpenOnDay (db : Store) (tenant : Uuid) (start stop : Instant) : Prop :=
  ∀ d ∈ db.deals, d.tenantId = tenant → d.deletedAt = none → d.status = .open → ¬ within start stop d.createdAt →
    d.amountMinor = 0

/-- The payments that are created on a day or captured on it, and not both, have the same sum. -/
def PaymentsBalance (db : Store) (tenant : Uuid) (start stop : Instant) : Prop :=
  total (·.amountMinor) (PaymentRow.createdOnly tenant start stop) db.payments =
    total (·.amountMinor) (PaymentRow.capturedOnly tenant start stop) db.payments

/-- The condition under which the reports of a day agree; `start` and `stop` are the bounds of the day. -/
structure Reconciles (db : Store) (tenant : Uuid) (start stop : Instant) : Prop where
  leads : EarlyLeads db tenant start stop
  won : EarlyWins db tenant start stop
  pipeline : OpenOnDay db tenant start stop
  payments : PaymentsBalance db tenant start stop

section Day

variable {db : Store} {user : Crm.Principal} {start stop : Instant}

/-- A deal that was won or lost is dated by its end. -/
theorem date_of_closed {d : DealRow} (h : d.status = .won ∨ d.status = .lost) : d.date = d.closedAt := if_pos h

theorem date_of_open {d : DealRow} (h : d.status = .open) : d.date = some d.createdAt := by
  unfold DealRow.date
  rw [h]
  rfl

/-- The deals of a tenant that were not deleted. -/
def liveDeals (db : Store) (tenant : Uuid) : List DealRow :=
  db.deals.filter fun d => d.tenantId = tenant && d.deletedAt = none

/-- A dashboard for the tenant and the rollup read the same deals. -/
theorem scoped_deals (hscope : user.scope = .global) :
    (db.tenantSession user.tenantId).deals.filter (scopedQuery dealColumns user) = liveDeals db user.tenantId := by
  show (db.deals.filter _).filter _ = _
  rw [List.filter_filter]
  refine List.filter_congr fun d _ => ?_
  rw [scopedQuery_global hscope]
  by_cases htenant : d.tenantId = user.tenantId <;> cases hdeleted : d.deletedAt <;>
    simp [dealColumns, htenant, hdeleted]

theorem undeleted_deals (tenant : Uuid) :
    (db.tenantSession tenant).deals.filter (·.deletedAt = none) = liveDeals db tenant := by
  show (db.deals.filter _).filter _ = _
  rw [List.filter_filter]
  exact List.filter_congr fun d _ => Bool.and_comm _ _

/-- A closed status is dated alike. -/
theorem closed_dated {status : DealStatus} (hs : status = .won ∨ status = .lost) (d : DealRow) :
    (d.date.any (within start stop) && decide (d.status = status)) =
      (decide (d.status = status) && d.closedAt.any (within start stop)) := by
  by_cases h : d.status = status
  · rw [date_of_closed (h ▸ hs), Bool.and_comm]
  · simp [h]

/-- A closed status is counted alike. -/
theorem countP_closed {status : DealStatus} (hs : status = .won ∨ status = .lost) (deals : List DealRow) :
    (deals.filter fun d => d.date.any (within start stop)).countP (·.status = status) =
      deals.countP fun d => d.status = status && d.closedAt.any (within start stop) := by
  rw [List.countP_filter]
  refine List.countP_congr fun d _ => ?_
  rw [← closed_dated hs, Bool.and_comm]

/-- The won amount is summed alike. -/
theorem total_won (deals : List DealRow) :
    total (·.amountMinor) (·.status = .won) (deals.filter fun d => d.date.any (within start stop)) =
      total (·.amountMinor) (fun d => d.status = .won && d.closedAt.any (within start stop)) deals := by
  rw [total_filter]
  exact total_congr fun d _ => closed_dated (Or.inl rfl) d

/-- The pipeline is summed alike exactly if the open deals of other days have no amount. -/
theorem total_pipeline_iff (deals : List DealRow) :
    total (·.amountMinor) (·.status = .open) (deals.filter fun d => d.date.any (within start stop)) =
        total (·.amountMinor) (·.status = .open) deals ↔
      ∀ d ∈ deals, d.status = .open → ¬ within start stop d.createdAt → d.amountMinor = 0 := by
  have hdated : total (·.amountMinor) (·.status = .open) (deals.filter fun d => d.date.any (within start stop)) =
      total (·.amountMinor) (fun d : DealRow => d.status = .open && within start stop d.createdAt) deals := by
    rw [total_filter]
    refine total_congr fun d _ => ?_
    by_cases h : d.status = .open
    · simp [h, date_of_open h]
    · simp [h]
  have hsplit := total_split (·.amountMinor) (fun d : DealRow => d.status = .open)
    (fun d => within start stop d.createdAt) deals
  have hzero : total (·.amountMinor) (fun d : DealRow => d.status = .open && !within start stop d.createdAt) deals = 0 ↔
      ∀ d ∈ deals, d.status = .open → ¬ within start stop d.createdAt → d.amountMinor = 0 := by
    rw [total_eq_zero_iff]
    simp
  rw [hdated, ← hzero]
  omega

/-- The payments are summed alike exactly if those of two days have the same sum. -/
theorem total_payments_iff (hscope : user.scope = .global) :
    (dashboardRevenue (db.tenantSession user.tenantId) user start stop).paymentsCapturedMinor =
        (rollupRevenue (db.tenantSession user.tenantId) start stop).paymentsCapturedMinor ↔
      PaymentsBalance db user.tenantId start stop := by
  unfold PaymentsBalance
  show total _ _ (db.payments.filter _) = total _ _ (db.payments.filter _) ↔ _
  rw [total_filter, total_filter, total_eq_iff, hscope]
  refine Eq.congr (total_congr fun p _ => ?_) (total_congr fun p _ => ?_)
  · by_cases htenant : p.tenantId = user.tenantId <;> cases htaken : p.taken <;>
      simp [PaymentRow.createdOnly, htenant, htaken]
  · by_cases htenant : p.tenantId = user.tenantId <;> cases htaken : p.taken <;>
      simp [PaymentRow.capturedOnly, htenant, htaken]

/-- The refunds are summed alike. -/
theorem total_refunds (hscope : user.scope = .global) :
    (dashboardRevenue (db.tenantSession user.tenantId) user start stop).refundsMinor =
      (rollupRevenue (db.tenantSession user.tenantId) start stop).refundsMinor := by
  show total _ _ (db.refunds.filter _) = total _ _ (db.refunds.filter _)
  rw [total_filter, total_filter, hscope]
  refine total_congr fun r _ => ?_
  by_cases h : r.tenantId = user.tenantId <;> simp [h]

/-- Of the figures of a day, the pipeline and the payments can differ. -/
theorem revenue_eq_iff (hscope : user.scope = .global) :
    dashboardRevenue (db.tenantSession user.tenantId) user start stop =
      rollupRevenue (db.tenantSession user.tenantId) start stop ↔
    OpenOnDay db user.tenantId start stop ∧ PaymentsBalance db user.tenantId start stop := by
  have hlive : ∀ d, d ∈ liveDeals db user.tenantId ↔ d ∈ db.deals ∧ d.tenantId = user.tenantId ∧ d.deletedAt = none := by
    simp [liveDeals]
  have hpipeline : (dashboardRevenue (db.tenantSession user.tenantId) user start stop).pipelineAmountMinor =
        (rollupRevenue (db.tenantSession user.tenantId) start stop).pipelineAmountMinor ↔
      OpenOnDay db user.tenantId start stop := by
    simp only [OpenOnDay, dashboardRevenue, rollupRevenue, scoped_deals hscope, undeleted_deals, total_pipeline_iff,
      hlive, and_imp]
  have hwon : (dashboardRevenue (db.tenantSession user.tenantId) user start stop).dealsWon =
      (rollupRevenue (db.tenantSession user.tenantId) start stop).dealsWon := by
    simp only [dashboardRevenue, rollupRevenue, scoped_deals hscope, undeleted_deals, countP_closed (Or.inl rfl)]
  have hlost : (dashboardRevenue (db.tenantSession user.tenantId) user start stop).dealsLost =
      (rollupRevenue (db.tenantSession user.tenantId) start stop).dealsLost := by
    simp only [dashboardRevenue, rollupRevenue, scoped_deals hscope, undeleted_deals, countP_closed (Or.inr rfl)]
  have hamount : (dashboardRevenue (db.tenantSession user.tenantId) user start stop).wonAmountMinor =
      (rollupRevenue (db.tenantSession user.tenantId) start stop).wonAmountMinor := by
    simp only [dashboardRevenue, rollupRevenue, scoped_deals hscope, undeleted_deals, total_won]
  rw [← hpipeline, ← total_payments_iff hscope, RevenueBlock.ext_iff]
  constructor
  · rintro ⟨-, -, -, hp, hc, -⟩
    exact ⟨hp, hc⟩
  · rintro ⟨hp, hc⟩
    exact ⟨hwon, hlost, hamount, hp, hc, total_refunds hscope⟩

/-! ## The reports of a day -/

section Reports

variable {zoneInfo : String → Except ZoneFault Zone} {day : ℤ} {timezone : String}

/-- A grouped query of one day is written to the series exactly if no row lies in a 25th hour. -/
theorem setDays_groupBy_isOk {Row : Type} {write : ℕ → DayPoint → DayPoint}
    (hw : ∀ value p, (write value p).day = p.day) {index : Row → ℤ} {figure : List Row → ℕ} {rows : List Row}
    {days : List DayPoint} (hdays : days.map (·.day) = [day]) :
    (∃ days', setDays day write (groupBy index figure rows) days = .ok days') ↔ ∀ r ∈ rows, index r = 0 := by
  rw [setDays_isOk hw, hdays]
  simp [groupBy]

/-- The first 24 hours are the bucket 0. -/
theorem bucket_eq_zero_iff {t : Instant} (h : start ≤ t) : bucket start t = 0 ↔ t < start + 86400000000 := by
  have hdiv : ∀ a b : ℤ, a ≤ b → ((b - a) / 86400000000 = 0 ↔ b < a + 86400000000) := by
    intro a b hab
    omega
  exact hdiv start t h

/-- A refresh materialises the figures of its tenant and day, and nothing else. -/
theorem refreshDay_ok {db' : Store} {tenant : Uuid} (hb : localDayBounds zoneInfo day timezone = .ok (start, stop))
    (hr : refreshDay zoneInfo db tenant day timezone = .ok db') :
    db'.rollups.find? (tenant, day) = some ⟨tenant, day, rollupRevenue (db.tenantSession tenant) start stop⟩ ∧
      (∀ key, key ≠ (tenant, day) → db'.rollups.find? key = db.rollups.find? key) ∧
      db' = { db with rollups := db'.rollups } := by
  unfold refreshDay at hr
  rw [hb] at hr
  replace hr := eq_of_ite_ok hr
  subst hr
  refine ⟨Table.find?_upsert_self _ (⟨tenant, day, _⟩ : DailyRevenueRollup), fun key hkey => ?_, rfl⟩
  have hne : key ≠ DailyRevenueRollup.key ⟨tenant, day, rollupRevenue (db.tenantSession tenant) start stop⟩ := hkey
  exact (Table.find?_upsert_of_ne _ hne).trans (Table.find?_delete_of_ne _ hkey)

/-- The leads of a day are written to its series exactly if none was created in a 25th hour. -/
theorem leadDays_zero_iff (hscope : user.scope = .global) :
    (∀ l ∈ (db.tenantSession user.tenantId).leads.filter fun l =>
      scopedQuery leadColumns user l && within start stop l.createdAt, bucket start l.createdAt = 0) ↔
    EarlyLeads db user.tenantId start stop := by
  have hwithin : ∀ l : LeadRow, within start stop l.createdAt → (bucket start l.createdAt = 0 ↔
      l.createdAt < start + 86400000000) := by
    intro l hl
    exact bucket_eq_zero_iff (of_decide_eq_true (Bool.and_eq_true_iff.mp hl).1)
  constructor
  · intro h l hl htenant hdeleted hl'
    refine (hwithin l hl').mp (h l ?_)
    simp [Store.tenantSession, scopedQuery_global hscope, leadColumns, hl, htenant, hdeleted, hl']
  · intro h l hl
    simp only [Store.tenantSession, scopedQuery_global hscope, leadColumns, List.mem_filter, Bool.and_eq_true,
      decide_eq_true_eq, Bool.not_eq_true', Option.isSome_eq_false_iff, Option.isNone_iff_eq_none] at hl
    obtain ⟨⟨hl, -⟩, ⟨htenant, hdeleted⟩, hl'⟩ := hl
    exact (hwithin l hl').mpr (h l hl htenant hdeleted hl')

/-- The won amounts of a day are written to its series exactly if no deal was won in a 25th hour. -/
theorem revenueDays_zero_iff (hscope : user.scope = .global) :
    (∀ d ∈ (db.tenantSession user.tenantId).deals.filter fun d =>
      scopedQuery dealColumns user d && d.status = .won && d.closedAt.any (within start stop),
      bucket start (d.closedAt.getD start) = 0) ↔
    EarlyWins db user.tenantId start stop := by
  have hwithin : ∀ t, within start stop t → (bucket start t = 0 ↔ t < start + 86400000000) := by
    intro t ht
    exact bucket_eq_zero_iff (of_decide_eq_true (Bool.and_eq_true_iff.mp ht).1)
  constructor
  · intro h d hd htenant hdeleted hwon t hclosed ht
    refine (hwithin t ht).mp ?_
    have hzero := h d (by
      simp [Store.tenantSession, scopedQuery_global hscope, dealColumns, hd, htenant, hdeleted, hwon, hclosed, ht])
    rwa [hclosed] at hzero
  · intro h d hd
    simp only [Store.tenantSession, scopedQuery_global hscope, dealColumns, List.mem_filter, Bool.and_eq_true,
      decide_eq_true_eq, Bool.not_eq_true', Option.isSome_eq_false_iff, Option.isNone_iff_eq_none] at hd
    obtain ⟨⟨hd, -⟩, ⟨⟨htenant, hdeleted⟩, hwon⟩, hclosed⟩ := hd
    obtain ⟨t, ht, ht'⟩ := Option.any_eq_true _ _ |>.mp hclosed
    rw [ht]
    exact (hwithin t ht').mpr (h d hd htenant hdeleted hwon t ht ht')

/-- A range of one day passes its check. -/
theorem dashboard_eq (hb : localDayBounds zoneInfo day timezone = .ok (start, stop)) :
    dashboard zoneInfo db user day day timezone =
      (setDays day setLeads (leadDays (db.tenantSession user.tenantId) user start stop) (zeroDays day day) >>= fun days =>
        setDays day setWonAmount (revenueDays (db.tenantSession user.tenantId) user start stop) days >>= fun days =>
          .ok ⟨dashboardRevenue (db.tenantSession user.tenantId) user start stop, days⟩) := by
  have hvalid : validateRange day day = .ok () := by
    unfold validateRange maxReportDays
    rw [if_neg (lt_irrefl day), if_neg (by omega)]
  unfold dashboard
  rw [hvalid, hb]
  rfl

/-- The dashboard of one day for the tenant. -/
theorem dashboard_one_day (hscope : user.scope = .global) (hb : localDayBounds zoneInfo day timezone = .ok (start, stop))
    (block : RevenueBlock) :
    (∃ report, dashboard zoneInfo db user day day timezone = .ok report ∧ report.revenue = block) ↔
      dashboardRevenue (db.tenantSession user.tenantId) user start stop = block ∧
        EarlyLeads db user.tenantId start stop ∧ EarlyWins db user.tenantId start stop := by
  have hdays : (zeroDays day day).map (·.day) = [day] := map_day_zeroDays day
  rw [← leadDays_zero_iff hscope, ← revenueDays_zero_iff hscope]
  constructor
  · rintro ⟨report, hreport, hblock⟩
    rw [dashboard_eq hb] at hreport
    obtain ⟨days, hleads, hreport⟩ := bind_eq_ok.mp hreport
    obtain ⟨days', hwon, hreport⟩ := bind_eq_ok.mp hreport
    obtain rfl := Except.ok.inj hreport
    refine ⟨hblock, (setDays_groupBy_isOk day_setLeads hdays).mp ⟨days, hleads⟩, ?_⟩
    exact (setDays_groupBy_isOk day_setWonAmount ((setDays_days day_setLeads hleads).trans hdays)).mp ⟨days', hwon⟩
  · rintro ⟨hblock, hleads, hwon⟩
    obtain ⟨days, hleads⟩ := (setDays_groupBy_isOk day_setLeads hdays).mpr hleads
    obtain ⟨days', hwon⟩ :=
      (setDays_groupBy_isOk day_setWonAmount ((setDays_days day_setLeads hleads).trans hdays)).mpr hwon
    refine ⟨⟨_, days'⟩, ?_, hblock⟩
    rw [dashboard_eq hb]
    refine bind_eq_ok.mpr ⟨days, hleads, ?_⟩
    exact bind_eq_ok.mpr ⟨days', hwon, rfl⟩

/-- **The dashboard agrees** with the row of the day exactly if `Reconciles` holds. -/
theorem dashboard_agrees_iff {db' : Store} (hscope : user.scope = .global)
    (hb : localDayBounds zoneInfo day timezone = .ok (start, stop))
    (hr : refreshDay zoneInfo db user.tenantId day timezone = .ok db') :
    (∃ row, db'.rollups.find? (user.tenantId, day) = some row ∧
      ∃ report, dashboard zoneInfo db user day day timezone = .ok report ∧ report.revenue = row.revenue) ↔
    Reconciles db user.tenantId start stop := by
  rw [(refreshDay_ok hb hr).1]
  simp only [Option.some.injEq, exists_eq_left', dashboard_one_day hscope hb, revenue_eq_iff hscope]
  constructor
  · rintro ⟨⟨hpipeline, hpayments⟩, hleads, hwon⟩
    exact ⟨hleads, hwon, hpipeline, hpayments⟩
  · intro h
    exact ⟨⟨h.pipeline, h.payments⟩, h.leads, h.won⟩

end Reports

end Day

/-! ## Two days of a tenant -/

/-- A zone without offset. -/
def utcZones : String → Except ZoneFault Zone := fun _ => .ok fun day => some (day * 86400000000)

def reader : Crm.Principal := ⟨sampleUuid 't', sampleUuid 'u', .global, [], []⟩

/-- An open deal, and a payment that is captured within the hour; both of the day 20000. -/
def dealOf (createdAt : Instant) : Store where
  leads := []
  deals := [⟨sampleUuid 'd', sampleUuid 't', .open, 250000, createdAt, none, none, none, none, none⟩]
  payments := [⟨sampleUuid 'p', sampleUuid 't', none, .captured, 99900, by decide, 20000 * 86400000000 + 5,
    some (20000 * 86400000000 + 7)⟩]
  refunds := []
  rollups := .empty

/-- What the day 20000 shows of it. -/
def refreshed (createdAt : Instant) : Store :=
  { dealOf createdAt with
    rollups := (Table.empty.delete (sampleUuid 't', 20000)).upsert ⟨sampleUuid 't', 20000, ⟨0, 0, 0, 250000, 99900, 0⟩⟩ }

theorem dashboard_agrees_of_day :
    ∃ row, (refreshed (20000 * 86400000000)).rollups.find? (sampleUuid 't', 20000) = some row ∧
      ∃ report, dashboard utcZones (dealOf (20000 * 86400000000)) reader 20000 20000 "UTC" = .ok report ∧
        report.revenue = row.revenue := by
  have hday : Reconciles (dealOf (20000 * 86400000000)) reader.tenantId (20000 * 86400000000) (20001 * 86400000000) :=
    { leads := by simp [EarlyLeads, dealOf]
      won := by simp [EarlyWins, dealOf]
      pipeline := by simp [OpenOnDay, dealOf, within]
      payments := rfl }
  have hrefresh : refreshDay utcZones (dealOf (20000 * 86400000000)) reader.tenantId 20000 "UTC" =
      .ok (refreshed (20000 * 86400000000)) := rfl
  exact (dashboard_agrees_iff rfl rfl hrefresh).mpr hday

/-- **A deal of the day before** is missing in the pipeline that the dashboard shows for the day. -/
theorem earlierDeal_differs :
    refreshDay utcZones (dealOf (19999 * 86400000000)) (sampleUuid 't') 20000 "UTC" =
        .ok (refreshed (19999 * 86400000000)) ∧
      (refreshed (19999 * 86400000000)).rollups.find? (sampleUuid 't', 20000) =
        some ⟨sampleUuid 't', 20000, ⟨0, 0, 0, 250000, 99900, 0⟩⟩ ∧
      (dashboard utcZones (dealOf (19999 * 86400000000)) reader 20000 20000 "UTC").map (·.revenue) =
        .ok ⟨0, 0, 0, 0, 99900, 0⟩ := by
  refine ⟨rfl, rfl, rfl⟩

end RevenueOS.Analytics
