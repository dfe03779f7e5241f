import RevenueOS.Analytics.LeadRollups
import RevenueOS.Shared.Timeutil

/-!
# RevenueOS.Analytics.DailySeries — the days of a range, in a zone whose offset changes

The daily series of `AnalyticsService.dashboard` over a zone of `Lib.Zone`.  Elapsed days are counted from the start of
the range: the day of an instant is that of its local time at the offset with which the range starts.

* `setDays_eq`: the series that grouped figures are written to.
* `daily_series_faithful_iff`: it counts each lead on its own day exactly if `OneOffset` holds.
* `oneOffset_fixed`: that is so in a zone without transitions.
-/

namespace RevenueOS.Analytics

open RevenueOS.Lib RevenueOS.Workflows RevenueOS.Crm

/-- `datetime.combine(day, time.min, tzinfo=zone).astimezone(UTC)`; days count from the year 1. -/
def dayStarts (z : Lib.Zone) : Zone := fun day =>
  let start := z.read false (day * 86400000000)
  if Shared.inRange (day * 86400000000) && Shared.inRange start then some start else none

/-- The calendar day of an instant. -/
def localDay (z : Lib.Zone) (t : Instant) : ℤ := z.wall t / 86400000000

/-- Its day at the offset with which a day starts. -/
def dayAtStart (z : Lib.Zone) (startDay : ℤ) (t : Instant) : ℤ :=
  (t + z.offsetAtWall false (startDay * 86400000000)) / 86400000000

/-! ## What is written -/

section Writing

variable {Row : Type} {write : ℕ → DayPoint → DayPoint} {startDay : ℤ}

/-- Figures with distinct indices are written each to its day. -/
theorem setDays_eq (hw : ∀ value p, (write value p).day = p.day) {days' : List DayPoint} :
    ∀ {rows : List (ℤ × ℕ)} {days : List DayPoint}, (rows.map Prod.fst).Nodup →
      setDays startDay write rows days = .ok days' →
        days' = days.map fun p => (rows.lookup (p.day - startDay)).elim p (write · p)
  | [], days, _, h => by
    obtain rfl := Except.ok.inj h
    exact (List.map_id days).symm
  | (index, value) :: rest, days, hrows, h => by
    obtain ⟨hfresh, hrest⟩ := List.nodup_cons.mp hrows
    unfold setDays at h
    split_ifs at h
    rw [setDays_eq hw hrest h, List.map_map]
    refine List.map_congr_left fun p _ => ?_
    rw [Function.comp_apply, List.lookup_cons]
    by_cases hday : p.day = startDay + index
    · have hindex : p.day - startDay = index := by omega
      have hnone : rest.lookup index = none := by
        refine List.lookup_eq_none_iff.mpr fun row hrow => ?_
        rw [bne_iff_ne]
        exact fun heq => hfresh (List.mem_map.mpr ⟨row, hrow, heq.symm⟩)
      rw [if_pos hday, hw, hindex, hnone, beq_self_eq_true]
      rfl
    · have hindex : (p.day - startDay == index) = false := by
        rw [beq_eq_false_iff_ne]
        omega
      rw [if_neg hday, hindex]

theorem nodup_groupBy (index : Row → ℤ) (figure : List Row → ℕ) (rows : List Row) :
    ((groupBy index figure rows).map Prod.fst).Nodup := by
  unfold groupBy
  rw [List.map_map]
  exact (List.map_id _).symm ▸ List.nodup_dedup _

/-- The figure of an index counts its rows. -/
theorem lookup_groupBy (index : Row → ℤ) (rows : List Row) (i : ℤ) :
    ((groupBy index List.length rows).lookup i).getD 0 = rows.countP (index · = i) := by
  unfold groupBy
  by_cases hi : i ∈ (rows.map index).dedup
  · rw [List.lookup_graph _ hi, Option.getD_some, List.countP_eq_length_filter]
  · have hnone : ((rows.map index).dedup.map fun i => (i, (rows.filter (index · = i)).length)).lookup i = none := by
      refine List.lookup_eq_none_iff.mpr fun row hrow => ?_
      obtain ⟨j, hj, rfl⟩ := List.mem_map.mp hrow
      rw [bne_iff_ne]
      exact fun heq => hi (heq ▸ hj)
    rw [hnone, Option.getD_none, eq_comm, List.countP_eq_zero]
    intro r hr heq
    exact hi (List.mem_dedup.mpr (of_decide_eq_true heq ▸ List.mem_map_of_mem hr))

theorem leads_elim_setLeads (value : Option ℕ) (p : DayPoint) :
    (value.elim p (setLeads · p)).leads = value.getD p.leads := by
  cases value with
  | none => rfl
  | some n => rfl

theorem day_elim {write : ℕ → DayPoint → DayPoint} (hw : ∀ value p, (write value p).day = p.day) (value : Option ℕ)
    (p : DayPoint) : (value.elim p (write · p)).day = p.day := by
  cases value with
  | none => rfl
  | some n => exact hw n p

theorem leads_elim_setWonAmount (value : Option ℕ) (p : DayPoint) :
    (value.elim p (setWonAmount · p)).leads = p.leads := by
  cases value with
  | none => rfl
  | some n => rfl

theorem leads_zeroDays {endDay : ℤ} {p : DayPoint} (h : p ∈ zeroDays startDay endDay) : p.leads = 0 := by
  obtain ⟨k, -, rfl⟩ := List.mem_map.mp h
  rfl

theorem days_zeroDays (startDay endDay : ℤ) : (zeroDays startDay endDay).map (·.day) =
    (List.range (endDay - startDay + 1).toNat).map fun k : ℕ => startDay + k := by
  unfold zeroDays
  rw [List.map_map, List.bind_eq_flatMap, List.map_flatMap, List.map_eq_flatMap]
  rfl

theorem mem_zeroDays {endDay day : ℤ} : day ∈ (zeroDays startDay endDay).map (·.day) ↔
    startDay ≤ day ∧ day ≤ endDay := by
  rw [days_zeroDays, List.mem_map]
  constructor
  · rintro ⟨k, hk, rfl⟩
    have hk := List.mem_range.mp hk
    omega
  · rintro ⟨hlow, hhigh⟩
    exact ⟨(day - startDay).toNat, List.mem_range.mpr (by omega), by omega⟩

theorem nodup_zeroDays (startDay endDay : ℤ) : ((zeroDays startDay endDay).map (·.day)).Nodup := by
  rw [days_zeroDays]
  refine (List.nodup_map_iff fun j k h => ?_).mpr List.nodup_range
  have h : startDay + (j : ℤ) = startDay + k := h
  omega

end Writing

/-! ## The series of a range -/

/-- The leads that a user is shown, created between two instants. -/
def shownLeads (db : Store) (user : Crm.Principal) (start stop : Instant) : List LeadRow :=
  db.leads.filter fun l => scopedQuery leadColumns user l && within start stop l.createdAt

/-- The deals that they won between them. -/
def shownWins (db : Store) (user : Crm.Principal) (start stop : Instant) : List DealRow :=
  db.deals.filter fun d => scopedQuery dealColumns user d && d.status = .won && d.closedAt.any (within start stop)

section Range

variable {zoneInfo : String → Except ZoneFault Zone} {db : Store} {user : Crm.Principal} {startDay endDay : ℤ}
  {start stop : Instant} {timezone : String} {report : Dashboard}

/-- A session of the tenant has all that a user can be shown. -/
theorem leadDays_session : leadDays (db.tenantSession user.tenantId) user start stop =
    groupBy (bucket start ·.createdAt) List.length (shownLeads db user start stop) := by
  unfold leadDays shownLeads Store.tenantSession
  rw [List.filter_filter]
  congr 1
  refine List.filter_congr fun l _ => ?_
  unfold scopedQuery leadColumns
  by_cases h : l.tenantId = user.tenantId <;> simp [h]

theorem revenueDays_session : revenueDays (db.tenantSession user.tenantId) user start stop =
    groupBy (fun d => bucket start (d.closedAt.getD start)) (fun rows => (rows.map (·.amountMinor)).sum)
      (shownWins db user start stop) := by
  unfold revenueDays shownWins Store.tenantSession
  rw [List.filter_filter]
  congr 1
  refine List.filter_congr fun d _ => ?_
  unfold scopedQuery dealColumns
  by_cases h : d.tenantId = user.tenantId <;> simp [h]

theorem forall_groupBy {Row : Type} {index : Row → ℤ} {figure : List Row → ℕ} {rows : List Row} {P : ℤ → Prop} :
    (∀ group ∈ groupBy index figure rows, P group.1) ↔ ∀ r ∈ rows, P (index r) := by
  simp [groupBy]

/-- A dashboard is made of its series. -/
theorem dashboard_eq_ok_iff (hrange : validateRange startDay endDay = .ok ())
    (hstart : ∃ next, localDayBounds zoneInfo startDay timezone = .ok (start, next))
    (hstop : ∃ last, localDayBounds zoneInfo endDay timezone = .ok (last, stop)) :
    dashboard zoneInfo db user startDay endDay timezone = .ok report ↔
      ∃ days, setDays startDay setLeads (leadDays (db.tenantSession user.tenantId) user start stop)
          (zeroDays startDay endDay) = .ok days ∧
        setDays startDay setWonAmount (revenueDays (db.tenantSession user.tenantId) user start stop) days =
          .ok report.days ∧
        report.revenue = dashboardRevenue (db.tenantSession user.tenantId) user start stop := by
  obtain ⟨next, hstart⟩ := hstart
  obtain ⟨last, hstop⟩ := hstop
  unfold dashboard
  rw [hrange, hstart, hstop]
  show (setDays startDay setLeads (leadDays (db.tenantSession user.tenantId) user start stop)
      (zeroDays startDay endDay) >>= fun days =>
    setDays startDay setWonAmount (revenueDays (db.tenantSession user.tenantId) user start stop) days >>= fun days' =>
      .ok ⟨dashboardRevenue (db.tenantSession user.tenantId) user start stop, days'⟩) = .ok report ↔ _
  rw [bind_eq_ok]
  refine exists_congr fun days => and_congr_right fun _ => ?_
  rw [bind_eq_ok]
  constructor
  · rintro ⟨days', hwon, h⟩
    obtain rfl := Except.ok.inj h
    exact ⟨hwon, rfl⟩
  · rintro ⟨hwon, hrevenue⟩
    exact ⟨report.days, hwon, by rw [← hrevenue]⟩

variable (hrange : validateRange startDay endDay = .ok ())
  (hstart : ∃ next, localDayBounds zoneInfo startDay timezone = .ok (start, next))
  (hstop : ∃ last, localDayBounds zoneInfo endDay timezone = .ok (last, stop))
include hrange hstart hstop

/-- It is made exactly if each lead and each won deal falls on one of its days. -/
theorem dashboard_isOk_iff :
    (∃ report, dashboard zoneInfo db user startDay endDay timezone = .ok report) ↔
      (∀ l ∈ shownLeads db user start stop, startDay ≤ startDay + bucket start l.createdAt ∧
        startDay + bucket start l.createdAt ≤ endDay) ∧
      ∀ d ∈ shownWins db user start stop, startDay ≤ startDay + bucket start (d.closedAt.getD start) ∧
        startDay + bucket start (d.closedAt.getD start) ≤ endDay := by
  have hleads : (∃ days, setDays startDay setLeads (leadDays (db.tenantSession user.tenantId) user start stop)
      (zeroDays startDay endDay) = .ok days) ↔ ∀ l ∈ shownLeads db user start stop,
        startDay ≤ startDay + bucket start l.createdAt ∧ startDay + bucket start l.createdAt ≤ endDay := by
    simp only [setDays_isOk day_setLeads, mem_zeroDays, leadDays_session]
    exact forall_groupBy (P := fun i => startDay ≤ startDay + i ∧ startDay + i ≤ endDay)
  have hwins : ∀ days : List DayPoint, days.map (·.day) = (zeroDays startDay endDay).map (·.day) →
      ((∃ days', setDays startDay setWonAmount (revenueDays (db.tenantSession user.tenantId) user start stop) days =
        .ok days') ↔ ∀ d ∈ shownWins db user start stop, startDay ≤ startDay + bucket start (d.closedAt.getD start) ∧
          startDay + bucket start (d.closedAt.getD start) ≤ endDay) := by
    intro days hdays
    simp only [setDays_isOk day_setWonAmount, hdays, mem_zeroDays, revenueDays_session]
    exact forall_groupBy (P := fun i => startDay ≤ startDay + i ∧ startDay + i ≤ endDay)
  rw [← hleads]
  constructor
  · rintro ⟨report, hreport⟩
    obtain ⟨days, hdays, hwon, -⟩ := (dashboard_eq_ok_iff hrange hstart hstop).mp hreport
    exact ⟨⟨days, hdays⟩, (hwins days (setDays_days day_setLeads hdays)).mp ⟨_, hwon⟩⟩
  · rintro ⟨⟨days, hdays⟩, hwon⟩
    obtain ⟨days', hwon⟩ := (hwins days (setDays_days day_setLeads hdays)).mpr hwon
    exact ⟨⟨_, days'⟩, (dashboard_eq_ok_iff hrange hstart hstop).mpr ⟨days, hdays, hwon, rfl⟩⟩

/-- Its days are those of the range, and a day shows the leads of its index. -/
theorem dashboard_days (h : dashboard zoneInfo db user startDay endDay timezone = .ok report) :
    report.days.map (·.day) = (zeroDays startDay endDay).map (·.day) ∧
      ∀ p ∈ report.days, p.leads =
        (shownLeads db user start stop).countP fun l => bucket start l.createdAt = p.day - startDay := by
  obtain ⟨days, hdays, hwon, -⟩ := (dashboard_eq_ok_iff hrange hstart hstop).mp h
  refine ⟨(setDays_days day_setWonAmount hwon).trans (setDays_days day_setLeads hdays), fun p hp => ?_⟩
  rw [leadDays_session] at hdays
  rw [revenueDays_session] at hwon
  rw [setDays_eq day_setWonAmount (nodup_groupBy _ _ _) hwon,
    setDays_eq day_setLeads (nodup_groupBy _ _ _) hdays, List.map_map] at hp
  obtain ⟨zero, hzero, rfl⟩ := List.mem_map.mp hp
  rw [Function.comp_apply, leads_elim_setWonAmount, leads_elim_setLeads, leads_zeroDays hzero,
    day_elim day_setWonAmount, day_elim day_setLeads, lookup_groupBy]

end Range

/-! ## A range of local days -/

section Local

variable (z : Lib.Zone) (db : Store) (user : Crm.Principal) (startDay endDay : ℤ)

/-- The start of a range of days, and its end. -/
def rangeStart : Instant := z.read false (startDay * 86400000000)

def rangeStop : Instant := z.read false ((endDay + 1) * 86400000000)

/-- The series counts each lead that the user is shown on its own day, and no other. -/
structure CountsLeads (leads : List LeadRow) (report : Dashboard) : Prop where
  sum : (report.days.map (·.leads)).sum = leads.countP fun l =>
    scopedQuery leadColumns user l && startDay ≤ localDay z l.createdAt && localDay z l.createdAt ≤ endDay
  days : ∀ p ∈ report.days, p.leads = leads.countP fun l =>
    scopedQuery leadColumns user l && localDay z l.createdAt = p.day

/-- The series is faithful to the leads, and to every part of them. -/
def SeriesFaithful (timezone : String) : Prop :=
  ∀ part : LeadRow → Bool, ∃ report,
    dashboard (fun _ => .ok (dayStarts z)) { db with leads := db.leads.filter part } user startDay endDay timezone =
        .ok report ∧
      CountsLeads z user startDay endDay (db.leads.filter part) report

/-- The offset with which the range starts gives each instant of the range its day. -/
structure OneOffset : Prop where
  dates : ∀ day ∈ [startDay, startDay + 1, endDay, endDay + 1], (dayStarts z day).isSome = true
  leads : ∀ l ∈ db.leads, scopedQuery leadColumns user l = true →
    within (rangeStart z startDay) (rangeStop z endDay) l.createdAt = true ∨
      startDay ≤ localDay z l.createdAt ∧ localDay z l.createdAt ≤ endDay →
    within (rangeStart z startDay) (rangeStop z endDay) l.createdAt = true ∧
      dayAtStart z startDay l.createdAt = localDay z l.createdAt ∧ localDay z l.createdAt ≤ endDay
  wins : ∀ d ∈ db.deals, scopedQuery dealColumns user d = true → d.status = .won → ∀ t, d.closedAt = some t →
    within (rangeStart z startDay) (rangeStop z endDay) t = true → dayAtStart z startDay t ≤ endDay

end Local

section Local

variable {z : Lib.Zone} {db : Store} {user : Crm.Principal} {startDay endDay : ℤ} {timezone : String}

theorem dayStarts_eq_some {day : ℤ} {start : Instant} (h : dayStarts z day = some start) :
    start = z.read false (day * 86400000000) := by
  unfold dayStarts at h
  dsimp only at h
  split_ifs at h
  exact (Option.some.inj h).symm

theorem localDayBounds_isOk {day : ℤ} :
    (∃ bounds, localDayBounds (fun _ => .ok (dayStarts z)) day timezone = .ok bounds) ↔
      (dayStarts z day).isSome = true ∧ (dayStarts z (day + 1)).isSome = true := by
  have hzone : tz (fun _ => .ok (dayStarts z)) timezone = .ok (dayStarts z) := rfl
  unfold localDayBounds
  simp only [hzone, bind, Except.bind]
  cases dayStarts z day with
  | none => simp
  | some start =>
    cases dayStarts z (day + 1) with
    | none => simp
    | some stop => simp

theorem localDayBounds_eq {day : ℤ} {bounds : Instant × Instant}
    (h : localDayBounds (fun _ => .ok (dayStarts z)) day timezone = .ok bounds) :
    bounds = (rangeStart z day, rangeStop z day) := by
  have hzone : tz (fun _ => .ok (dayStarts z)) timezone = .ok (dayStarts z) := rfl
  unfold localDayBounds at h
  simp only [hzone, bind, Except.bind] at h
  cases hstart : dayStarts z day with
  | none =>
    rw [hstart] at h
    cases h
  | some start =>
    cases hstop : dayStarts z (day + 1) with
    | none =>
      rw [hstart, hstop] at h
      cases h
    | some stop =>
      rw [hstart, hstop] at h
      obtain rfl := Except.ok.inj h
      rw [dayStarts_eq_some hstart, dayStarts_eq_some hstop]
      rfl

/-- Elapsed days give the day at the offset with which the range starts. -/
theorem add_bucket (t : Instant) : startDay + bucket (rangeStart z startDay) t = dayAtStart z startDay t := by
  have hdiv : ∀ day offset t : ℤ,
      day + (t - (day * 86400000000 - offset)) / 86400000000 = (t + offset) / 86400000000 := by
    intro day offset t
    omega
  exact hdiv startDay _ t

theorem le_dayAtStart {t : Instant} (h : within (rangeStart z startDay) (rangeStop z endDay) t = true) :
    startDay ≤ dayAtStart z startDay t := by
  have hle : rangeStart z startDay ≤ t := of_decide_eq_true (Bool.and_eq_true_iff.mp h).1
  have hdiv : ∀ day offset t : ℤ, day * 86400000000 - offset ≤ t → day ≤ (t + offset) / 86400000000 := by
    intro day offset t ht
    omega
  exact hdiv startDay _ t hle

/-- The leads of distinct days add up. -/
theorem sum_localDays {days : List ℤ} (hdays : days.Nodup) (leads : List LeadRow) :
    (days.map fun day => leads.countP fun l => scopedQuery leadColumns user l && localDay z l.createdAt = day).sum =
      leads.countP fun l => scopedQuery leadColumns user l && localDay z l.createdAt ∈ days := by
  have hcount : ∀ p : LeadRow → Bool, leads.countP (fun l => scopedQuery leadColumns user l && p l) =
      (((leads.filter (scopedQuery leadColumns user)).filter p).map fun _ => 1).sum := by
    intro p
    rw [List.map_const', List.sum_replicate_nat, Nat.mul_one, List.filter_filter, List.countP_eq_length_filter]
    simp only [Bool.and_comm]
  simp only [hcount]
  exact sum_by_key hdays (fun l : LeadRow => localDay z l.createdAt) (fun _ => 1) _

/-- The bounds of a range that is shown. -/
theorem bounds_of_dates
    (hdates : ∀ day ∈ [startDay, startDay + 1, endDay, endDay + 1], (dayStarts z day).isSome = true) :
    (∃ next, localDayBounds (fun _ => .ok (dayStarts z)) startDay timezone = .ok (rangeStart z startDay, next)) ∧
      ∃ last, localDayBounds (fun _ => .ok (dayStarts z)) endDay timezone = .ok (last, rangeStop z endDay) := by
  obtain ⟨bounds, hbounds⟩ := (@localDayBounds_isOk z timezone _).mpr
    ⟨hdates startDay (by simp), hdates (startDay + 1) (by simp)⟩
  obtain ⟨bounds', hbounds'⟩ := (@localDayBounds_isOk z timezone _).mpr
    ⟨hdates endDay (by simp), hdates (endDay + 1) (by simp)⟩
  exact ⟨⟨_, localDayBounds_eq hbounds ▸ hbounds⟩, ⟨_, localDayBounds_eq hbounds' ▸ hbounds'⟩⟩

section Range

variable (hrange : validateRange startDay endDay = .ok ())
include hrange

theorem dates_of_dashboard {report : Dashboard}
    (h : dashboard (fun _ => .ok (dayStarts z)) db user startDay endDay timezone = .ok report) :
    ∀ day ∈ [startDay, startDay + 1, endDay, endDay + 1], (dayStarts z day).isSome = true := by
  unfold dashboard at h
  rw [hrange] at h
  obtain ⟨-, -, h⟩ := bind_eq_ok.mp h
  obtain ⟨bounds, hbounds, h⟩ := bind_eq_ok.mp h
  obtain ⟨bounds', hbounds', -⟩ := bind_eq_ok.mp h
  have hstart := localDayBounds_isOk.mp ⟨bounds, hbounds⟩
  have hstop := localDayBounds_isOk.mp ⟨bounds', hbounds'⟩
  simp only [List.mem_cons, List.not_mem_nil, or_false]
  rintro day (rfl | rfl | rfl | rfl)
  · exact hstart.1
  · exact hstart.2
  · exact hstop.1
  · exact hstop.2

theorem OneOffset.faithful (h : OneOffset z db user startDay endDay) :
    SeriesFaithful z db user startDay endDay timezone := by
  intro part
  obtain ⟨hstart, hstop⟩ := @bounds_of_dates z startDay endDay timezone h.dates
  have hok : ∃ report, dashboard (fun _ => .ok (dayStarts z)) { db with leads := db.leads.filter part } user startDay
      endDay timezone = .ok report :=
    (dashboard_isOk_iff hrange hstart hstop).mpr ⟨fun l hl => ?_, fun d hd => ?_⟩
  · obtain ⟨report, hreport⟩ := hok
    obtain ⟨hdays, hleads⟩ := dashboard_days hrange hstart hstop hreport
    have hcount : ∀ p ∈ report.days, p.leads = (db.leads.filter part).countP fun l =>
        scopedQuery leadColumns user l && localDay z l.createdAt = p.day := by
      intro p hp
      have hday := mem_zeroDays.mp (hdays ▸ List.mem_map_of_mem hp)
      rw [hleads p hp]
      unfold shownLeads
      rw [List.countP_filter]
      refine List.countP_congr fun l hl => ?_
      have hlead := h.leads l (List.mem_filter.mp hl).1
      have hindex : startDay + bucket (rangeStart z startDay) l.createdAt = dayAtStart z startDay l.createdAt :=
        add_bucket l.createdAt
      rw [Bool.and_eq_true, Bool.and_eq_true, Bool.and_eq_true, decide_eq_true_iff, decide_eq_true_iff]
      constructor
      · rintro ⟨hbucket, hscoped, hwithin⟩
        obtain ⟨-, hsame, -⟩ := hlead hscoped (.inl hwithin)
        exact ⟨hscoped, by omega⟩
      · rintro ⟨hscoped, hlocal⟩
        obtain ⟨hwithin, hsame, -⟩ := hlead hscoped (.inr (hlocal ▸ hday))
        exact ⟨by omega, hscoped, hwithin⟩
    refine ⟨report, hreport, ?_, hcount⟩
    have hsum : report.days.map (·.leads) = (report.days.map (·.day)).map fun day =>
        (db.leads.filter part).countP fun l => scopedQuery leadColumns user l && localDay z l.createdAt = day := by
      rw [List.map_map]
      exact List.map_congr_left hcount
    rw [hsum, hdays, sum_localDays (nodup_zeroDays startDay endDay)]
    refine List.countP_congr fun l _ => ?_
    simp only [mem_zeroDays, Bool.and_eq_true, decide_eq_true_eq, and_assoc]
  · rw [add_bucket]
    obtain ⟨hl, hshown⟩ := List.mem_filter.mp hl
    obtain ⟨hscoped, hwithin⟩ := Bool.and_eq_true_iff.mp hshown
    obtain ⟨-, hsame, hle⟩ := h.leads l (List.mem_filter.mp hl).1 hscoped (.inl hwithin)
    exact ⟨le_dayAtStart hwithin, hsame ▸ hle⟩
  · obtain ⟨hd, hshown⟩ := List.mem_filter.mp hd
    rw [Bool.and_eq_true, Bool.and_eq_true, decide_eq_true_iff] at hshown
    obtain ⟨⟨hscoped, hwon⟩, hclosed⟩ := hshown
    obtain ⟨t, ht, hwithin⟩ := (Option.any_eq_true _ _).mp hclosed
    rw [ht, Option.getD_some, add_bucket]
    exact ⟨le_dayAtStart hwithin, h.wins d hd hscoped hwon t ht hwithin⟩

/-- A lead that is counted alone shows on which day it is counted. -/
theorem SeriesFaithful.oneOffset (h : SeriesFaithful z db user startDay endDay timezone) :
    OneOffset z db user startDay endDay := by
  classical
  have hdates : ∀ day ∈ [startDay, startDay + 1, endDay, endDay + 1], (dayStarts z day).isSome = true := by
    obtain ⟨report, hreport, -⟩ := h fun _ => true
    exact dates_of_dashboard hrange hreport
  obtain ⟨hstart, hstop⟩ := @bounds_of_dates z startDay endDay timezone hdates
  refine ⟨hdates, fun l hl hscoped hcounted => ?_, fun d hd hscoped hwon t ht hwithin => ?_⟩
  · obtain ⟨report, hreport, -, hlocal⟩ := h fun l' => l' = l
    obtain ⟨hdays, hleads⟩ := dashboard_days hrange hstart hstop hreport
    have halone : ∀ l' ∈ db.leads.filter fun l' => l' = l, l' = l := fun l' hl' =>
      of_decide_eq_true (List.mem_filter.mp hl').2
    have hpoint : ∀ day, startDay ≤ day ∧ day ≤ endDay → ∃ p ∈ report.days, p.day = day := by
      intro day hday
      exact List.mem_map.mp (hdays ▸ mem_zeroDays.mpr hday)
    have hmem : l ∈ db.leads.filter fun l' => l' = l := List.mem_filter.mpr ⟨hl, decide_eq_true rfl⟩
    -- a lead of the range that lies on one of its days is counted
    have hwithin : within (rangeStart z startDay) (rangeStop z endDay) l.createdAt = true := by
      rcases hcounted with hwithin | hday
      · exact hwithin
      · obtain ⟨p, hp, hpday⟩ := hpoint _ hday
        have hpos : 0 < p.leads := by
          rw [hlocal p hp]
          refine List.countP_pos_iff.mpr ⟨l, hmem, ?_⟩
          rw [hscoped, hpday, decide_eq_true rfl, Bool.and_self]
        rw [hleads p hp] at hpos
        obtain ⟨l', hl', -⟩ := List.countP_pos_iff.mp hpos
        obtain ⟨hl', hshown⟩ := List.mem_filter.mp hl'
        rw [halone l' hl'] at hshown
        exact (Bool.and_eq_true_iff.mp hshown).2
    have hshown : l ∈ shownLeads { db with leads := db.leads.filter fun l' => l' = l } user (rangeStart z startDay)
        (rangeStop z endDay) := List.mem_filter.mpr ⟨hmem, by rw [hscoped, hwithin, Bool.and_self]⟩
    have hbucket := ((dashboard_isOk_iff hrange hstart hstop).mp ⟨report, hreport⟩).1 l hshown
    obtain ⟨p, hp, hpday⟩ := hpoint _ hbucket
    have hpos : 0 < p.leads := by
      rw [hleads p hp]
      exact List.countP_pos_iff.mpr ⟨l, hshown, decide_eq_true (by omega)⟩
    rw [hlocal p hp] at hpos
    obtain ⟨l', hl', hday⟩ := List.countP_pos_iff.mp hpos
    rw [halone l' hl', hscoped, Bool.true_and, decide_eq_true_iff, hpday] at hday
    rw [add_bucket] at hday hbucket
    exact ⟨hwithin, hday.symm, hday ▸ hbucket.2⟩
  · obtain ⟨report, hreport, -⟩ := h fun _ => true
    have hshown : d ∈ shownWins { db with leads := db.leads.filter fun _ => true } user (rangeStart z startDay)
        (rangeStop z endDay) := by
      refine List.mem_filter.mpr ⟨hd, ?_⟩
      rw [hscoped, ht, decide_eq_true hwon, Option.any_some, hwithin]
      rfl
    have hbucket := ((dashboard_isOk_iff hrange hstart hstop).mp ⟨report, hreport⟩).2 d hshown
    rw [ht, Option.getD_some, add_bucket] at hbucket
    exact hbucket.2

end Range

/-- A range of dates that can be asked for. -/
theorem validateRange_ok (hle : startDay ≤ endDay) (hshort : endDay - startDay < 366) :
    validateRange startDay endDay = .ok () := by
  unfold validateRange maxReportDays
  rw [if_neg (by omega), if_neg (by omega)]

/-- **The daily series is faithful** to each lead exactly if the offset with which the range starts gives every lead of
the range its day, and every won deal a day of the range. -/
theorem daily_series_faithful_iff (z : Lib.Zone) (db : Store) (user : Crm.Principal) (timezone : String)
    (hle : startDay ≤ endDay) (hshort : endDay - startDay < 366) :
    SeriesFaithful z db user startDay endDay timezone ↔ OneOffset z db user startDay endDay :=
  ⟨SeriesFaithful.oneOffset (validateRange_ok hle hshort), OneOffset.faithful (validateRange_ok hle hshort)⟩

/-- In a zone without transitions every range is faithful that has its dates. -/
theorem oneOffset_fixed (base : ℤ)
    (hdates : ∀ day ∈ [startDay, startDay + 1, endDay, endDay + 1], (dayStarts (.fixed base) day).isSome = true) :
    OneOffset (.fixed base) db user startDay endDay := by
  have hiff : ∀ t : Instant, within (rangeStart (.fixed base) startDay) (rangeStop (.fixed base) endDay) t = true ↔
      startDay ≤ localDay (.fixed base) t ∧ localDay (.fixed base) t ≤ endDay := by
    have hdiv : ∀ a b base t : ℤ, (a * 86400000000 - base ≤ t ∧ t < (b + 1) * 86400000000 - base ↔
        a ≤ (t + base) / 86400000000 ∧ (t + base) / 86400000000 ≤ b) := by
      intro a b base t
      omega
    intro t
    unfold within
    rw [Bool.and_eq_true, decide_eq_true_iff, decide_eq_true_iff]
    exact hdiv startDay endDay base t
  refine ⟨hdates, fun l _ _ hcounted => ?_, fun d _ _ _ t _ hwithin => ((hiff t).mp hwithin).2⟩
  have hwithin := hcounted.elim id (hiff l.createdAt).mpr
  exact ⟨hwithin, rfl, ((hiff _).mp hwithin).2⟩

end Local

/-! ## Two zones -/

/-- New York around the end of daylight saving time 2024 (at 06:00 UTC on the third of November). -/
def newYork : Lib.Zone := ⟨-14400000000, [(739192 * 86400000000 + 21600000000, -18000000000)], trivial⟩

/-- A lead of the 25th hour of that day, 23:30 in the evening. -/
def lateLead : Store where
  leads := [⟨sampleUuid 't', 739193 * 86400000000 + 16200000000, none, none, none, none⟩]
  deals := []
  payments := []
  refunds := []
  rollups := .empty

/-- India. -/
theorem daily_series_faithful_iff_india :
    SeriesFaithful (.fixed 19800000000) lateLead reader 739193 739193 "Asia/Kolkata" ↔
      OneOffset (.fixed 19800000000) lateLead reader 739193 739193 :=
  daily_series_faithful_iff _ lateLead reader "Asia/Kolkata" (by decide) (by decide)

/-- **A lead of the 25th hour** has no day in the series. -/
theorem lateLead_keyError :
    localDay newYork (739193 * 86400000000 + 16200000000) = 739192 ∧
      (dashboard (fun _ => .ok (dayStarts newYork)) lateLead reader 739192 739192 "America/New_York").map (·.days) =
        .error (.keyError 739193) ∧
      ¬SeriesFaithful newYork lateLead reader 739192 739192 "America/New_York" := by
  refine ⟨by decide +kernel, rfl, fun h => ?_⟩
  obtain ⟨report, hreport, -⟩ := h fun _ => true
  cases hreport

end RevenueOS.Analytics
