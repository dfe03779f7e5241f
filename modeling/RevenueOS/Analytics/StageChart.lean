import RevenueOS.Analytics.Rollups
import RevenueOS.Lib.Grouping
import RevenueOS.Lib.OrderBy

/-!
# RevenueOS.Analytics.StageChart — the pipeline by stage

`pipeline_by_stage` of `AnalyticsService.dashboard` (`application/analytics/service.py`), next to the figures of
revenue.

* `sum_stageRows`: the chart adds up to the deals that stand in a stage that is not lost, whatever their status and
date.
* `chart_agrees_iff`: that is the pipeline exactly if the deals that only one of them counts have the same sum.
-/

namespace RevenueOS.Analytics

open RevenueOS.Lib RevenueOS.Workflows RevenueOS.Crm

structure StageRow where
  id : Uuid
  tenantId : Uuid
  name : String
  position : ℤ
  isLost : Bool

structure StagedDealRow extends DealRow where
  stageId : Uuid

/-- The tables of the reports, with the stages and those of the deals. -/
structure Board where
  store : Store
  deals : List StagedDealRow
  stages : Table StageRow.id
  deals_eq : store.deals = deals.map (·.toDealRow)

/-- One bar of the chart. -/
structure StageBar where
  stage : String
  position : ℤ
  amountMinor : ℕ
  dealCount : ℕ
deriving DecidableEq

structure StagedDashboard extends Dashboard where
  pipelineByStage : List StageBar

/-- The deals of the scope of a user. -/
def visible (user : Crm.Principal) (d : StagedDealRow) : Bool := scopedQuery dealColumns user d.toDealRow

/-- The stages of the tenant that are not lost. -/
def Board.openStages (board : Board) (user : Crm.Principal) : List StageRow :=
  board.stages.rows.filter fun s => s.tenantId = user.tenantId && !s.isLost

/-- `pipeline_by_stage`. -/
def Board.stageRows (board : Board) (user : Crm.Principal) : List StageBar :=
  let dealScope := (board.deals.filter (·.tenantId = user.tenantId)).filter (visible user)
  let joined := leftJoin StageRow.id StagedDealRow.stageId (board.openStages user) dealScope
  let groups := groupRows (fun pair => (pair.1.name, pair.1.position)) joined
  (OrderBy.asc StageBar.position).sort (groups.map fun group =>
    { stage := group.1.1
      position := group.1.2
      amountMinor := (group.2.map fun pair => pair.2.elim 0 fun d => d.amountMinor).sum
      dealCount := group.2.countP (·.2.isSome) })

section Reports

variable (zoneInfo : String → Except ZoneFault Zone)

def stagedDashboard (board : Board) (user : Crm.Principal) (startDay endDay : ℤ) (timezone : String) :
    Except ReportError StagedDashboard := do
  let report ← dashboard zoneInfo board.store user startDay endDay timezone
  .ok { toDashboard := report, pipelineByStage := board.stageRows user }

end Reports

/-! ## What the chart adds up to -/

/-- The deal is visible and stands in a stage of the chart. -/
def Board.charts (board : Board) (user : Crm.Principal) (d : StagedDealRow) : Bool :=
  visible user d && (board.openStages user).any (·.id = d.stageId)

/-- The deal is visible, open and created between two instants. -/
def inPipeline (user : Crm.Principal) (start stop : Instant) (d : StagedDealRow) : Bool :=
  visible user d && d.status = .open && within start stop d.createdAt

section Chart

variable {board : Board} {user : Crm.Principal} {start stop : Instant}

theorem tenant_of_visible {d : StagedDealRow} (h : visible user d = true) : d.tenantId = user.tenantId := by
  unfold visible scopedQuery at h
  rw [Bool.and_eq_true, Bool.and_eq_true] at h
  exact of_decide_eq_true h.1.1

/-- What a session can read holds all that is visible. -/
theorem filter_visible (deals : List StagedDealRow) :
    (deals.filter (·.tenantId = user.tenantId)).filter (visible user) = deals.filter (visible user) := by
  rw [List.filter_filter]
  refine List.filter_congr fun d _ => ?_
  by_cases h : visible user d = true
  · rw [h, decide_eq_true (tenant_of_visible h)]
    rfl
  · rw [Bool.not_eq_true] at h
    rw [h]
    rfl

theorem nodup_openStages (board : Board) (user : Crm.Principal) : ((board.openStages user).map StageRow.id).Nodup :=
  board.stages.keys_nodup.sublist (List.filter_sublist.map StageRow.id)

/-- **The chart adds up** to the deals that stand in its stages. -/
theorem sum_stageRows (board : Board) (user : Crm.Principal) :
    ((board.stageRows user).map StageBar.amountMinor).sum = total (·.amountMinor) (board.charts user) board.deals := by
  unfold Board.stageRows
  dsimp only
  rw [((OrderBy.perm_sort _ _).map StageBar.amountMinor).sum_eq, List.map_map]
  have hgroups := sum_groupRows (fun pair : StageRow × Option StagedDealRow => (pair.1.name, pair.1.position))
    (fun pair => pair.2.elim (0 : ℕ) fun d => d.amountMinor)
    (leftJoin StageRow.id StagedDealRow.stageId (board.openStages user)
      ((board.deals.filter (·.tenantId = user.tenantId)).filter (visible user)))
  refine hgroups.trans ?_
  rw [sum_leftJoin (nodup_openStages board user), filter_visible, List.filter_filter]
  unfold total
  refine congrArg (fun rows : List StagedDealRow => (rows.map fun d => d.amountMinor).sum)
    (List.filter_congr fun d _ => ?_)
  unfold Board.charts
  rw [Bool.and_comm]
  congr 1
  rw [Bool.eq_iff_iff, decide_eq_true_iff, List.mem_map, List.any_eq_true]
  exact exists_congr fun s => and_congr_right fun _ => decide_eq_true_iff.symm

theorem total_map {Row Row' : Type} (f : Row' → Row) (amount : Row → ℕ) (p : Row → Bool) (rows : List Row') :
    total amount p (rows.map f) = total (fun r => amount (f r)) (fun r => p (f r)) rows := by
  unfold total
  rw [List.filter_map, List.map_map]
  rfl

/-- The pipeline adds up to the open deals that were created in the range. -/
theorem pipeline_eq (board : Board) (user : Crm.Principal) (start stop : Instant) :
    (dashboardRevenue (board.store.tenantSession user.tenantId) user start stop).pipelineAmountMinor =
      total (·.amountMinor) (inPipeline user start stop) board.deals := by
  unfold dashboardRevenue Store.tenantSession
  dsimp only
  rw [board.deals_eq, total_filter, total_filter, total_filter, total_map]
  refine total_congr fun d _ => ?_
  unfold inPipeline
  by_cases hvisible : visible user d = true
  · have hscoped : scopedQuery dealColumns user d.toDealRow = true := hvisible
    rw [hvisible, hscoped, decide_eq_true (tenant_of_visible hvisible)]
    by_cases hopen : d.status = .open
    · rw [date_of_open hopen, decide_eq_true hopen]
      simp
    · simp [hopen]
  · have hscoped : scopedQuery dealColumns user d.toDealRow = false := Bool.eq_false_iff.mpr hvisible
    rw [Bool.not_eq_true] at hvisible
    rw [hvisible, hscoped]
    simp

section Reports

variable {zoneInfo : String → Except ZoneFault Zone} {startDay endDay : ℤ} {timezone : String} {next last : Instant}
  {report : StagedDashboard}

theorem stagedDashboard_ok (hstart : localDayBounds zoneInfo startDay timezone = .ok (start, next))
    (hstop : localDayBounds zoneInfo endDay timezone = .ok (last, stop))
    (h : stagedDashboard zoneInfo board user startDay endDay timezone = .ok report) :
    report.revenue = dashboardRevenue (board.store.tenantSession user.tenantId) user start stop ∧
      report.pipelineByStage = board.stageRows user := by
  obtain ⟨report', hreport, h⟩ := bind_eq_ok.mp h
  cases h
  obtain ⟨-, -, hreport⟩ := bind_eq_ok.mp hreport
  rw [hstart, hstop] at hreport
  obtain ⟨_, heq, hreport⟩ := bind_eq_ok.mp hreport
  cases heq
  obtain ⟨_, heq, hreport⟩ := bind_eq_ok.mp hreport
  cases heq
  obtain ⟨days, -, hreport⟩ := bind_eq_ok.mp hreport
  obtain ⟨days', -, hreport⟩ := bind_eq_ok.mp hreport
  cases hreport
  exact ⟨rfl, rfl⟩

/-- The chart and the pipeline have the same sum. -/
def ChartAgrees (report : StagedDashboard) : Prop :=
  (report.pipelineByStage.map StageBar.amountMinor).sum = report.revenue.pipelineAmountMinor

/-- **The chart agrees with the pipeline** exactly if the deals that only one of them counts have the same sum; where
the chart counts all of the pipeline, if it counts nothing else that has an amount. -/
theorem chart_agrees_iff (hstart : localDayBounds zoneInfo startDay timezone = .ok (start, next))
    (hstop : localDayBounds zoneInfo endDay timezone = .ok (last, stop))
    (h : stagedDashboard zoneInfo board user startDay endDay timezone = .ok report) :
    (ChartAgrees report ↔
      total (·.amountMinor) (fun d => board.charts user d && !inPipeline user start stop d) board.deals =
        total (·.amountMinor) (fun d => inPipeline user start stop d && !board.charts user d) board.deals) ∧
    ((∀ d ∈ board.deals, inPipeline user start stop d → board.charts user d) →
      (ChartAgrees report ↔
        ∀ d ∈ board.deals, board.charts user d → ¬inPipeline user start stop d → d.amountMinor = 0)) := by
  obtain ⟨hrevenue, hchart⟩ := stagedDashboard_ok hstart hstop h
  have hagrees : ChartAgrees report ↔
      total (·.amountMinor) (fun d => board.charts user d && !inPipeline user start stop d) board.deals =
        total (·.amountMinor) (fun d => inPipeline user start stop d && !board.charts user d) board.deals := by
    unfold ChartAgrees
    rw [hrevenue, hchart, sum_stageRows, pipeline_eq]
    exact total_eq_iff
  refine ⟨hagrees, fun hall => ?_⟩
  have hnone : total (·.amountMinor) (fun d => inPipeline user start stop d && !board.charts user d) board.deals =
    0 := by
    refine total_eq_zero_iff.mpr fun d hd hstray => ?_
    rw [Bool.and_eq_true, Bool.not_eq_true'] at hstray
    exact absurd (hall d hd hstray.1) (by simp [hstray.2])
  rw [hagrees, hnone, total_eq_zero_iff]
  refine forall₂_congr fun d _ => ?_
  rw [Bool.and_eq_true, Bool.not_eq_true', Bool.not_eq_true, and_imp]

end Reports

end Chart

/-! ## A board of one deal -/

/-- A deal of the day 20000 that stands in a stage of the chart. -/
def boardOf (status : DealStatus) (closedAt : Option Instant) : Board where
  store := ⟨[],
    [⟨sampleUuid 'd', sampleUuid 't', status, 250000, 20000 * 86400000000, closedAt, none, none, none, none⟩],
    [], [], .empty⟩
  deals := [⟨⟨sampleUuid 'd', sampleUuid 't', status, 250000, 20000 * 86400000000, closedAt, none, none, none, none⟩,
    sampleUuid 's'⟩]
  stages := ⟨[⟨sampleUuid 's', sampleUuid 't', "Proposal", 1, false⟩], List.nodup_singleton _⟩
  deals_eq := rfl

/-- What the dashboard of the day shows of it. -/
def shown (revenue : RevenueBlock) (wonAmountMinor : ℕ) : StagedDashboard :=
  ⟨⟨revenue, [⟨20000, 0, wonAmountMinor⟩]⟩, [⟨"Proposal", 1, 250000, 1⟩]⟩

theorem openDeal_agrees : ChartAgrees (shown ⟨0, 0, 0, 250000, 0, 0⟩ 0) := by
  have hreport : stagedDashboard utcZones (boardOf .open none) reader 20000 20000 "UTC" =
      .ok (shown ⟨0, 0, 0, 250000, 0, 0⟩ 0) := rfl
  exact (chart_agrees_iff rfl rfl hreport).1.mpr rfl

/-- **A deal that is won** stays on the chart, and leaves the pipeline. -/
theorem wonDeal_disagrees :
    stagedDashboard utcZones (boardOf .won (some (20000 * 86400000000))) reader 20000 20000 "UTC" =
        .ok (shown ⟨1, 0, 250000, 0, 0, 0⟩ 250000) ∧
      ¬ChartAgrees (shown ⟨1, 0, 250000, 0, 0, 0⟩ 250000) := by
  refine ⟨rfl, fun h => ?_⟩
  have heq : 250000 = 0 := h
  cases heq

end RevenueOS.Analytics
