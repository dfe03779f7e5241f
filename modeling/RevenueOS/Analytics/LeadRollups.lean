import RevenueOS.Analytics.Rollups
import RevenueOS.Leads.Lifecycle
import RevenueOS.Lib.Grouping
import Mathlib.Data.Rat.Defs

/-!
# RevenueOS.Analytics.LeadRollups — the leads of a day, materialised

`RollupService.refresh_day` (`application/analytics/service.py`) with the rollup of leads.  A group is written under
its source, or as "unknown" under the empty one.

* `sum_writeRollups`: the rows of the day add up to the groups, if no two of them are written under one source.
* `lead_rollup_conserves_iff`: they add up to the leads of the day exactly if those do not come both without a source
  and from "unknown".

The order in which the groups are read is left open.  The average of the response times is kept as a rational number;
the rollup of conversations is left out.
-/

namespace RevenueOS.Analytics

open RevenueOS.Lib RevenueOS.Workflows RevenueOS.Leads

/-- A lead with the columns that are counted. -/
structure LeadRecord extends LeadRow where
  source : String
  status : LeadStatus
  category : Option String
  firstResponseAt : Option Instant

structure DailyLeadRollup where
  tenantId : Uuid
  day : ℤ
  source : String
  createdCount : ℕ
  qualifiedCount : ℕ
  contactedCount : ℕ
  convertedCount : ℕ
  disqualifiedCount : ℕ
  hotCount : ℕ
  warmCount : ℕ
  coldCount : ℕ
  avgFirstResponseSeconds : Option ℚ
deriving DecidableEq

/-- `tenant_day_source`. -/
def DailyLeadRollup.key (row : DailyLeadRollup) : Uuid × ℤ × String := (row.tenantId, row.day, row.source)

/-- The tables that `refresh_day` reads and writes. -/
structure RollupStore where
  store : Store
  leads : List LeadRecord
  leadRollups : Table DailyLeadRollup.key

/-- An order in which a query without `ORDER BY` returns its rows. -/
structure ScanOrder where
  order : List (String × List LeadRecord) → List (String × List LeadRecord)
  perm : ∀ groups, (order groups).Perm groups

/-! ## `refresh_day` -/

/-- `row[0] or "unknown"`. -/
def sourceOf (source : String) : String := if source = "" then "unknown" else source

/-- The average of `first_response_at - created_at` in seconds, where there was a response. -/
def avgResponse (leads : List LeadRecord) : Option ℚ :=
  let times := leads.filterMap fun l => l.firstResponseAt.map (· - l.createdAt)
  if times = [] then none else some ((times.sum : ℚ) / (1000000 * times.length))

/-- The row of a group. -/
def rollupRow (tenant : Uuid) (day : ℤ) (group : String × List LeadRecord) : DailyLeadRollup where
  tenantId := tenant
  day := day
  source := sourceOf group.1
  createdCount := group.2.length
  qualifiedCount := group.2.countP (·.status = .qualified)
  contactedCount := group.2.countP (·.status = .contacted)
  convertedCount := group.2.countP (·.status = .converted)
  disqualifiedCount := group.2.countP (·.status = .disqualified)
  hotCount := group.2.countP (·.category = some "hot")
  warmCount := group.2.countP (·.category = some "warm")
  coldCount := group.2.countP (·.category = some "cold")
  avgFirstResponseSeconds := avgResponse group.2

/-- What an `Integer` column holds. -/
def DailyLeadRollup.fits (row : DailyLeadRollup) : Bool :=
  row.createdCount < 2 ^ 31 && row.qualifiedCount < 2 ^ 31 && row.contactedCount < 2 ^ 31 &&
    row.convertedCount < 2 ^ 31 && row.disqualifiedCount < 2 ^ 31 && row.hotCount < 2 ^ 31 &&
    row.warmCount < 2 ^ 31 && row.coldCount < 2 ^ 31

/-- The rows are written one after the other. -/
def writeRollups : List DailyLeadRollup → Table DailyLeadRollup.key → Except ReportError (Table DailyLeadRollup.key)
  | [], table => .ok table
  | row :: rows, table => if row.fits then writeRollups rows (table.upsert row) else .error .dataError

/-- The leads that were created between two instants and not deleted. -/
def RollupStore.dayLeads (db : RollupStore) (tenant : Uuid) (start stop : Instant) : List LeadRecord :=
  (db.leads.filter (·.tenantId = tenant)).filter fun l => l.deletedAt = none && within start stop l.createdAt

/-- The row is one of a day. -/
def ofDay (tenant : Uuid) (day : ℤ) (row : DailyLeadRollup) : Bool := row.tenantId = tenant && row.day = day

/-- `refresh_day`, up to the conversations. -/
def RollupStore.refreshDay (zoneInfo : String → Except ZoneFault Zone) (scan : ScanOrder) (db : RollupStore)
    (tenant : Uuid) (day : ℤ) (timezone : String) : Except ReportError RollupStore := do
  let (start, stop) ← localDayBounds zoneInfo day timezone
  let groups := scan.order (groupRows LeadRecord.source (db.dayLeads tenant start stop))
  let leadRollups ← writeRollups (groups.map (rollupRow tenant day)) (db.leadRollups.deleteWhere (ofDay tenant day))
  let store ← Analytics.refreshDay zoneInfo db.store tenant day timezone
  .ok { db with store := store, leadRollups := leadRollups }

/-! ## The figures of a row -/

/-- What a row counts. -/
inductive Figure where
  | created
  | qualified
  | contacted
  | converted
  | disqualified
  | hot
  | warm
  | cold

/-- The figure counts the lead. -/
def Figure.counts : Figure → LeadRecord → Bool
  | created, _ => true
  | qualified, l => l.status = .qualified
  | contacted, l => l.status = .contacted
  | converted, l => l.status = .converted
  | disqualified, l => l.status = .disqualified
  | hot, l => l.category = some "hot"
  | warm, l => l.category = some "warm"
  | cold, l => l.category = some "cold"

/-- The column of a figure. -/
def Figure.column : Figure → DailyLeadRollup → ℕ
  | created => (·.createdCount)
  | qualified => (·.qualifiedCount)
  | contacted => (·.contactedCount)
  | converted => (·.convertedCount)
  | disqualified => (·.disqualifiedCount)
  | hot => (·.hotCount)
  | warm => (·.warmCount)
  | cold => (·.coldCount)

theorem column_rollupRow (figure : Figure) (tenant : Uuid) (day : ℤ) (group : String × List LeadRecord) :
    figure.column (rollupRow tenant day group) = group.2.countP figure.counts := by
  cases figure with
  | created => exact congrFun List.countP_true.symm group.2
  | _ => rfl

/-- A figure of the rows of a day, and nothing of the others. -/
def Figure.onDay (figure : Figure) (tenant : Uuid) (day : ℤ) (row : DailyLeadRollup) : ℕ :=
  if ofDay tenant day row then figure.column row else 0

theorem countP_eq_sum {Row : Type} (p : Row → Bool) (rows : List Row) :
    rows.countP p = (rows.map fun row => if p row then 1 else 0).sum := by
  induction rows with
  | nil => rfl
  | cons row rows ih =>
    rw [List.countP_cons, ih, List.map_cons, List.sum_cons, Nat.add_comm]

theorem total_eq_sum {Row : Type} (amount : Row → ℕ) (p : Row → Bool) (rows : List Row) :
    total amount p rows = (rows.map fun row => if p row then amount row else 0).sum := by
  induction rows with
  | nil => rfl
  | cons row rows ih => rw [total_cons, ih, List.map_cons, List.sum_cons]

/-! ## What is written -/

section Refresh

variable {tenant : Uuid} {day : ℤ}

theorem writeRollups_eq_ok_iff : ∀ {rows : List DailyLeadRollup} {table table' : Table DailyLeadRollup.key},
    writeRollups rows table = .ok table' ↔ (∀ row ∈ rows, row.fits = true) ∧ table.upsertAll rows = table'
  | [], table, table' =>
    ⟨fun h => ⟨fun _ hrow => absurd hrow List.not_mem_nil, Except.ok.inj h⟩, fun h => congrArg _ h.2⟩
  | row :: rows, table, table' => by
    unfold writeRollups
    rw [List.forall_mem_cons]
    split_ifs with hfits
    · rw [writeRollups_eq_ok_iff, and_iff_right hfits]
      rfl
    · exact iff_of_false (fun h => by cases h) fun h => hfits h.1.1

theorem key_rollupRow (group : String × List LeadRecord) :
    (rollupRow tenant day group).key = (tenant, day, sourceOf group.1) := rfl

theorem ofDay_iff {row : DailyLeadRollup} {source : String} (h : row.key = (tenant, day, source)) :
    ofDay tenant day row = true := by
  obtain ⟨htenant, hrest⟩ := Prod.mk.inj h
  obtain ⟨hday, -⟩ := Prod.mk.inj hrest
  unfold ofDay
  rw [decide_eq_true htenant, decide_eq_true hday]
  rfl

theorem ofDay_of_key_ne {row : DailyLeadRollup} {key : Uuid × ℤ × String} (hkey : row.key = key)
    (hne : ¬(key.1 = tenant ∧ key.2.1 = day)) : ofDay tenant day row = false := by
  subst hkey
  unfold ofDay
  rw [Bool.and_eq_false_iff, decide_eq_false_iff_not, decide_eq_false_iff_not]
  exact not_and_or.mp hne

/-- The rows of a day are the groups, as far as they are written apart. -/
def rowsOf (scan : ScanOrder) (tenant : Uuid) (day : ℤ) (leads : List LeadRecord) : List DailyLeadRollup :=
  (scan.order (groupRows LeadRecord.source leads)).map (rollupRow tenant day)

variable {leads : List LeadRecord} {scan : ScanOrder}

/-- Two sources are written as one if one is empty and the other "unknown". -/
theorem sourceOf_eq_iff {source source' : String} : sourceOf source = sourceOf source' ↔
    source = source' ∨ (source = "" ∧ source' = "unknown") ∨ (source = "unknown" ∧ source' = "") := by
  unfold sourceOf
  split_ifs with h h' h'
  · rw [h, h']
    exact iff_of_true rfl (.inl rfl)
  · rw [h]
    exact ⟨fun heq => .inr (.inl ⟨rfl, heq.symm⟩), fun hcases => by
      rcases hcases with heq | ⟨-, heq⟩ | ⟨-, heq⟩
      · exact absurd heq.symm h'
      · exact heq.symm
      · exact absurd heq h'⟩
  · rw [h']
    exact ⟨fun heq => .inr (.inr ⟨heq, rfl⟩), fun hcases => by
      rcases hcases with heq | ⟨heq, -⟩ | ⟨heq, -⟩
      · exact absurd heq h
      · exact absurd heq h
      · exact heq⟩
  · refine ⟨.inl, fun hcases => ?_⟩
    rcases hcases with heq | ⟨heq, -⟩ | ⟨-, heq⟩
    · exact heq
    · exact absurd heq h
    · exact absurd heq h'

/-- **The sources are written apart** exactly if there are not both. -/
theorem nodup_keys_iff : ((rowsOf scan tenant day leads).map DailyLeadRollup.key).Nodup ↔
    ¬((∃ l ∈ leads, l.source = "") ∧ ∃ l ∈ leads, l.source = "unknown") := by
  have hkeys : ((rowsOf scan tenant day leads).map DailyLeadRollup.key).Perm
      ((leads.map LeadRecord.source).dedup.map fun source => (tenant, day, sourceOf source)) := by
    unfold rowsOf
    rw [← keys_groupRows, List.map_map, List.map_map]
    exact (scan.perm _).map _
  rw [hkeys.nodup_iff, List.nodup_map_iff_inj_on (List.nodup_dedup _)]
  have hmem : ∀ source, source ∈ (leads.map LeadRecord.source).dedup ↔ ∃ l ∈ leads, l.source = source := by
    intro source
    rw [List.mem_dedup, List.mem_map]
  constructor
  · rintro hinj ⟨hempty, hunknown⟩
    have hsame := hinj "" ((hmem _).mpr hempty) "unknown" ((hmem _).mpr hunknown) rfl
    exact absurd hsame (by decide)
  · intro hapart source hsource source' hsource' hsame
    have hsame : sourceOf source = sourceOf source' := (Prod.mk.inj (Prod.mk.inj hsame).2).2
    rcases sourceOf_eq_iff.mp hsame with heq | ⟨rfl, rfl⟩ | ⟨rfl, rfl⟩
    · exact heq
    · exact absurd ⟨(hmem _).mp hsource, (hmem _).mp hsource'⟩ hapart
    · exact absurd ⟨(hmem _).mp hsource', (hmem _).mp hsource⟩ hapart

/-- The written rows add up to the leads. -/
theorem sum_rowsOf (figure : Figure) :
    ((rowsOf scan tenant day leads).map (figure.onDay tenant day)).sum = leads.countP figure.counts := by
  have hrow : ∀ group : String × List LeadRecord, figure.onDay tenant day (rollupRow tenant day group) =
      (group.2.map fun l => if figure.counts l then 1 else 0).sum := by
    intro group
    rw [Figure.onDay, if_pos (ofDay_iff (key_rollupRow group)), column_rollupRow, countP_eq_sum]
  unfold rowsOf
  rw [List.map_map, countP_eq_sum, ← sum_groupRows LeadRecord.source]
  refine (List.Perm.sum_eq ((scan.perm _).map _)).trans (congrArg List.sum (List.map_congr_left fun group _ => ?_))
  exact hrow group

theorem created_pos {row : DailyLeadRollup} (h : row ∈ rowsOf scan tenant day leads) :
    0 < Figure.created.onDay tenant day row := by
  obtain ⟨group, hgroup, rfl⟩ := List.mem_map.mp h
  rw [Figure.onDay, if_pos (ofDay_iff (key_rollupRow group))]
  exact length_group_pos ((scan.perm _).mem_iff.mp hgroup)

/-- Nothing of the day is left before its rows are written. -/
theorem sum_deleteWhere (table : Table DailyLeadRollup.key) (figure : Figure) :
    (table.deleteWhere (ofDay tenant day)).sum (figure.onDay tenant day) = 0 := by
  refine List.sum_eq_zero fun n hn => ?_
  obtain ⟨row, hrow, rfl⟩ := List.mem_map.mp hn
  have hother := (List.mem_filter.mp hrow).2
  rw [Bool.not_eq_true'] at hother
  rw [Figure.onDay, hother]
  rfl

/-- **The rows of the day add up to its leads** exactly if the sources are written apart. -/
theorem sum_written_iff (table : Table DailyLeadRollup.key) :
    (∀ figure : Figure, total figure.column (ofDay tenant day)
      ((table.deleteWhere (ofDay tenant day)).upsertAll (rowsOf scan tenant day leads)).rows =
        leads.countP figure.counts) ↔
      ¬((∃ l ∈ leads, l.source = "") ∧ ∃ l ∈ leads, l.source = "unknown") := by
  rw [← nodup_keys_iff]
  constructor
  · intro h
    have hsum : ((table.deleteWhere (ofDay tenant day)).upsertAll (rowsOf scan tenant day leads)).sum
        (Figure.created.onDay tenant day) =
          (table.deleteWhere (ofDay tenant day)).sum (Figure.created.onDay tenant day) +
            ((rowsOf scan tenant day leads).map (Figure.created.onDay tenant day)).sum := by
      rw [sum_deleteWhere, Nat.zero_add, sum_rowsOf, ← h .created, total_eq_sum]
      rfl
    exact Table.nodup_of_sum_upsertAll _ (fun row hrow => created_pos hrow) hsum
  · intro hkeys figure
    have hfresh : ∀ row ∈ rowsOf scan tenant day leads,
        (table.deleteWhere (ofDay tenant day)).find? row.key = none := by
      intro row hrow
      obtain ⟨group, -, rfl⟩ := List.mem_map.mp hrow
      exact Table.find?_deleteWhere_of_pos fun row h => ofDay_iff h
    have hsum := Table.sum_upsertAll (figure.onDay tenant day) hkeys hfresh
    rw [sum_deleteWhere, Nat.zero_add, sum_rowsOf] at hsum
    rw [total_eq_sum]
    exact hsum

/-- Another order gives the same rows. -/
theorem perm_rowsOf (scan scan' : ScanOrder) :
    (rowsOf scan' tenant day leads).Perm (rowsOf scan tenant day leads) :=
  ((scan'.perm _).trans (scan.perm _).symm).map _

theorem find?_rewritten (scan' : ScanOrder) {table : Table DailyLeadRollup.key}
    (hkeys : ((rowsOf scan tenant day leads).map DailyLeadRollup.key).Nodup) (key : Uuid × ℤ × String) :
    ((((table.deleteWhere (ofDay tenant day)).upsertAll (rowsOf scan tenant day leads)).deleteWhere
      (ofDay tenant day)).upsertAll (rowsOf scan' tenant day leads)).find? key =
        ((table.deleteWhere (ofDay tenant day)).upsertAll (rowsOf scan tenant day leads)).find? key := by
  have hperm : (rowsOf scan' tenant day leads).Perm (rowsOf scan tenant day leads) := perm_rowsOf scan scan'
  have hkeys' : ((rowsOf scan' tenant day leads).map DailyLeadRollup.key).Nodup := (hperm.map _).nodup_iff.mpr hkeys
  by_cases hmem : ∃ row ∈ rowsOf scan tenant day leads, row.key = key
  · obtain ⟨row, hrow, rfl⟩ := hmem
    rw [Table.find?_upsertAll_of_mem hkeys hrow, Table.find?_upsertAll_of_mem hkeys' (hperm.mem_iff.mpr hrow)]
  · have hne : ∀ row ∈ rowsOf scan tenant day leads, row.key ≠ key := fun row hrow hkey => hmem ⟨row, hrow, hkey⟩
    rw [Table.find?_upsertAll_of_ne fun row hrow => hne row (hperm.mem_iff.mp hrow)]
    by_cases hday : key.1 = tenant ∧ key.2.1 = day
    · obtain ⟨rfl, rfl⟩ := hday
      have hgone : ∀ t : Table DailyLeadRollup.key, (t.deleteWhere (ofDay key.1 key.2.1)).find? key = none :=
        fun t => Table.find?_deleteWhere_of_pos fun row hkey => ofDay_iff hkey
      rw [hgone, Table.find?_upsertAll_of_ne hne, hgone]
    · exact Table.find?_deleteWhere_of_neg fun row hkey => ofDay_of_key_ne hkey hday

variable {zoneInfo : String → Except ZoneFault Zone} {timezone : String} {start stop : Instant} {db db' : RollupStore}

theorem refreshDay_eq_ok_iff (hb : localDayBounds zoneInfo day timezone = .ok (start, stop)) :
    db.refreshDay zoneInfo scan tenant day timezone = .ok db' ↔
      ∃ store, Analytics.refreshDay zoneInfo db.store tenant day timezone = .ok store ∧
        (∀ row ∈ rowsOf scan tenant day (db.dayLeads tenant start stop), row.fits = true) ∧
        db' = { db with
          store := store
          leadRollups := (db.leadRollups.deleteWhere (ofDay tenant day)).upsertAll
            (rowsOf scan tenant day (db.dayLeads tenant start stop)) } := by
  unfold RollupStore.refreshDay
  rw [hb]
  constructor
  · intro h
    obtain ⟨_, heq, h⟩ := bind_eq_ok.mp h
    cases heq
    obtain ⟨leadRollups, hrows, h⟩ := bind_eq_ok.mp h
    obtain ⟨store, hstore, h⟩ := bind_eq_ok.mp h
    obtain ⟨hfits, rfl⟩ := writeRollups_eq_ok_iff.mp hrows
    cases h
    exact ⟨store, hstore, hfits, rfl⟩
  · rintro ⟨store, hstore, hfits, rfl⟩
    refine bind_eq_ok.mpr ⟨(start, stop), rfl, bind_eq_ok.mpr ⟨_, writeRollups_eq_ok_iff.mpr ⟨hfits, rfl⟩, ?_⟩⟩
    exact bind_eq_ok.mpr ⟨store, hstore, rfl⟩

/-- The revenue can be materialised again. -/
theorem exists_refreshDay_again {store store' : Store}
    (h : Analytics.refreshDay zoneInfo store tenant day timezone = .ok store') :
    ∃ again, Analytics.refreshDay zoneInfo store' tenant day timezone = .ok again := by
  obtain ⟨⟨start, stop⟩, hb, h⟩ := bind_eq_ok.mp h
  dsimp only at h
  split_ifs at h with hfits
  cases h
  exact ⟨_, bind_eq_ok.mpr ⟨(start, stop), hb, if_pos hfits⟩⟩

/-- The rows of the day add up to its leads, and are written alike again. -/
structure Conserves (zoneInfo : String → Except ZoneFault Zone) (db db' : RollupStore) (tenant : Uuid) (day : ℤ)
    (timezone : String) (start stop : Instant) : Prop where
  figures : ∀ figure : Figure, total figure.column (ofDay tenant day) db'.leadRollups.rows =
    (db.dayLeads tenant start stop).countP figure.counts
  again : ∀ scan : ScanOrder, ∃ db'', db'.refreshDay zoneInfo scan tenant day timezone = .ok db'' ∧
    ∀ key, db''.leadRollups.find? key = db'.leadRollups.find? key

/-- **The rollup of leads conserves counts** exactly if the leads of the day do not come both from an empty source
and from "unknown". -/
theorem lead_rollup_conserves_iff (hb : localDayBounds zoneInfo day timezone = .ok (start, stop))
    (h : db.refreshDay zoneInfo scan tenant day timezone = .ok db') :
    Conserves zoneInfo db db' tenant day timezone start stop ↔
      ¬((∃ l ∈ db.dayLeads tenant start stop, l.source = "") ∧
        ∃ l ∈ db.dayLeads tenant start stop, l.source = "unknown") := by
  obtain ⟨store, hstore, hfits, rfl⟩ := (refreshDay_eq_ok_iff hb).mp h
  refine ⟨fun hconserves => (sum_written_iff db.leadRollups).mp hconserves.figures, fun hapart => ?_⟩
  refine ⟨(sum_written_iff db.leadRollups).mpr hapart, fun scan' => ?_⟩
  obtain ⟨again, hagain⟩ := exists_refreshDay_again hstore
  have hfits' : ∀ row ∈ rowsOf scan' tenant day (db.dayLeads tenant start stop), row.fits = true :=
    fun row hrow => hfits row ((perm_rowsOf scan scan').mem_iff.mp hrow)
  refine ⟨_, (refreshDay_eq_ok_iff hb).mpr ⟨again, hagain, hfits', rfl⟩, fun key => ?_⟩
  exact find?_rewritten scan' (nodup_keys_iff.mpr hapart) key

end Refresh

/-! ## Two leads of a day -/

def inOrder : ScanOrder := ⟨id, fun _ => .refl _⟩

/-- Two leads of the day 20000, the first without a source. -/
def leadsFrom (source : String) : RollupStore where
  store := ⟨[], [], [], [], .empty⟩
  leads := ["", source].map fun source =>
    ⟨⟨sampleUuid 't', 20000 * 86400000000, none, none, none, none⟩, source, .new, none, none⟩
  leadRollups := .empty

/-- What is materialised, with these rows of leads. -/
def materialised (source : String) (rows : List DailyLeadRollup) : RollupStore :=
  { leadsFrom source with
    store := ⟨[], [], [], [],
      (Table.empty.delete (sampleUuid 't', 20000)).upsert ⟨sampleUuid 't', 20000, ⟨0, 0, 0, 0, 0, 0⟩⟩⟩
    leadRollups := (Table.empty.deleteWhere (ofDay (sampleUuid 't') 20000)).upsertAll rows }

/-- One new lead of a source. -/
def newLead (source : String) : DailyLeadRollup :=
  ⟨sampleUuid 't', 20000, source, 1, 0, 0, 0, 0, 0, 0, 0, none⟩

theorem lead_rollup_conserves_web :
    Conserves utcZones (leadsFrom "web") (materialised "web" [newLead "unknown", newLead "web"]) (sampleUuid 't')
      20000 "UTC" (20000 * 86400000000) (20001 * 86400000000) := by
  have hrefresh : (leadsFrom "web").refreshDay utcZones inOrder (sampleUuid 't') 20000 "UTC" =
      .ok (materialised "web" [newLead "unknown", newLead "web"]) := rfl
  exact (lead_rollup_conserves_iff rfl hrefresh).mpr (by decide)

/-- **A lead without a source is lost** where another one is from "unknown". -/
theorem unknownLead_lost :
    (leadsFrom "unknown").refreshDay utcZones inOrder (sampleUuid 't') 20000 "UTC" =
        .ok (materialised "unknown" [newLead "unknown", newLead "unknown"]) ∧
      ¬Conserves utcZones (leadsFrom "unknown") (materialised "unknown" [newLead "unknown", newLead "unknown"])
        (sampleUuid 't') 20000 "UTC" (20000 * 86400000000) (20001 * 86400000000) := by
  refine ⟨rfl, fun h => ?_⟩
  have hcreated : 1 = 2 := h.figures .created
  cases hcreated

end RevenueOS.Analytics
