import RevenueOS.Lib.Calendar
import RevenueOS.Lib.Table
import RevenueOS.Py.Numerals

/-!
# RevenueOS.Database.Partitions — the partitions of the three growing tables

`partition_statements` (`infrastructure/database/ddl.py`), what the initial migration creates with it
(`0001_initial_tenancy_substrate.py`), what `ensure_future_partitions` (`infrastructure/celery/tasks/maintenance.py`)
adds each night, and what the inbox adds for a message (`application/crm/inbox.py`).

* `partitionStatements_eq`: the statements name a run of periods of the table.
* `createAll_spec`: such statements are all executed, on any catalogue that was made by them.
* `partitions_cover_iff`: a period is covered before it begins exactly if it is not one of two days of the outbox.
  `outbox_gap` is an installation that reaches the first of them.

A date is the number of days since 0001-01-01, and dates do not end with the year 9999.  Row level security and the
rows in the default partitions are left out.
-/

namespace RevenueOS.Database

open RevenueOS.Lib RevenueOS.Py

/-! ## Dates -/

/-- `date.replace(day=1)`. -/
def firstOfMonth (date : ℕ) : ℕ := monthStart (monthOf date)

/-- A number below 100, in two digits. -/
def twoDigits (n : ℕ) : String := if n < 10 then "0" ++ toString n else toString n

/-- `%Y%m`. -/
def yearMonth (date : ℕ) : String := toString (yearOf (monthOf date)) ++ twoDigits (monthOf date % 12 + 1)

/-- `%Y%m%d`. -/
def yearMonthDay (date : ℕ) : String := yearMonth date ++ twoDigits (date - firstOfMonth date + 1)

def monthBounds (anchor : ℕ) : ℕ × ℕ :=
  let start := firstOfMonth anchor
  (start, firstOfMonth (start + 32))

/-! ## `partition_statements` -/

inductive Granularity where
  | month
  | day
deriving DecidableEq

/-- A parent table with its granularity. -/
structure Parent where
  schema : String
  table : String
  granularity : Granularity
deriving DecidableEq

def auditLogs : Parent := ⟨"audit", "audit_logs", .month⟩

def eventOutbox : Parent := ⟨"audit", "event_outbox", .day⟩

def messages : Parent := ⟨"app", "messages", .month⟩

/-- `PARTITIONED`. -/
def partitioned : List Parent := [auditLogs, eventOutbox, messages]

/-- A partition of a table: the dates from which and to which it holds rows, or none for the default. -/
structure Partition where
  schema : String
  name : String
  parent : String
  bounds : Option (ℕ × ℕ)
deriving DecidableEq

/-- The loop over months. -/
def monthStatements (schema table : String) : ℕ → ℕ → List Partition
  | 0, _ => []
  | n + 1, start =>
    ⟨schema, table ++ "_p" ++ yearMonth (monthBounds start).1, table, some (monthBounds start)⟩ ::
      monthStatements schema table n (monthBounds start).2

/-- The loop over days. -/
def dayStatements (schema table : String) : ℕ → ℕ → List Partition
  | 0, _ => []
  | n + 1, start =>
    ⟨schema, table ++ "_p" ++ yearMonthDay start, table, some (start, start + 1)⟩ ::
      dayStatements schema table n (start + 1)

def partitionStatements (p : Parent) (anchor periods : ℕ) : List Partition :=
  ⟨p.schema, p.table ++ "_default", p.table, none⟩ ::
    match p.granularity with
    | .month => monthStatements p.schema p.table periods (monthBounds anchor).1
    | .day => dayStatements p.schema p.table (periods * 10) anchor

/-! ## `CREATE TABLE IF NOT EXISTS .. PARTITION OF` -/

def Partition.key (a : Partition) : String × String := (a.schema, a.name)

abbrev Catalogue := Table Partition.key

/-- Two partitions of a table that the database does not allow together. -/
def Partition.overlaps (a b : Partition) : Bool :=
  a.schema = b.schema && a.parent = b.parent &&
    match a.bounds, b.bounds with
    | some (start, stop), some (start', stop') => start < stop' && start' < stop
    | none, none => true
    | _, _ => false

def create (db : Catalogue) (a : Partition) : Option Catalogue :=
  if (db.find? a.key).isSome then some db
  else if db.rows.any a.overlaps then none
  else some (db.insert a)

def createAll (db : Catalogue) (statements : List Partition) : Option Catalogue := statements.foldlM create db

/-! ## Installation and maintenance -/

structure PartitionState where
  today : ℕ
  /-- The sweep of the day succeeded. -/
  ensured : Bool
  catalogue : Catalogue

/-- The partitions of the migration, on the day it is run. -/
def upgrade (today : ℕ) : Option PartitionState := do
  let catalogue ← createAll .empty (partitioned.flatMap fun p => partitionStatements p today 3)
  some ⟨today, false, catalogue⟩

inductive PartitionStep where
  /-- `ensure_future_partitions`. -/
  | ensure
  /-- The day ends, after a sweep that succeeded. -/
  | midnight
  /-- `_ensure_partition` of a message. -/
  | inbox (moment : ℕ)

def step (s : PartitionState) : PartitionStep → Option PartitionState
  | .ensure => do
    let catalogue ← createAll s.catalogue (partitioned.flatMap fun p => partitionStatements p (s.today + 32) 2)
    some { s with ensured := true, catalogue := catalogue }
  | .midnight => if s.ensured then some { s with today := s.today + 1, ensured := false } else none
  | .inbox moment =>
    if (s.catalogue.find? ("app", "messages_p" ++ yearMonth moment)).isSome then some s
    else do
      let catalogue ← createAll s.catalogue (partitionStatements messages moment 1)
      some { s with catalogue := catalogue }

/-- The states after an installation on a date. -/
inductive Reached (installed : ℕ) : PartitionState → Prop where
  | install {s : PartitionState} : upgrade installed = some s → Reached installed s
  | step {s s' : PartitionState} (action : PartitionStep) : Reached installed s → step s action = some s' →
      Reached installed s'

/-! ## Periods and their names -/

/-- The periods of a granularity. -/
def Granularity.timeline : Granularity → Timeline
  | .month => months
  | .day => days

/-- What the name of a partition says of its period. -/
def Granularity.suffix : Granularity → ℕ → String
  | .month, k => yearMonth (monthStart k)
  | .day, k => yearMonthDay k

namespace Parent

variable (p : Parent)

/-- The partition of a period. -/
def slot (k : ℕ) : Partition :=
  ⟨p.schema, p.table ++ "_p" ++ p.granularity.suffix k, p.table,
    some (p.granularity.timeline.start k, p.granularity.timeline.start (k + 1))⟩

/-- The default partition. -/
def fallback : Partition := ⟨p.schema, p.table ++ "_default", p.table, none⟩

/-- How many periods are created for a number of months. -/
def count (periods : ℕ) : ℕ :=
  match p.granularity with
  | .month => periods
  | .day => periods * 10

end Parent

theorem monthOf_monthStart (k : ℕ) : monthOf (monthStart k) = k := (monthOf_eq _).trans (months.period_start k)

theorem firstOfMonth_eq (date : ℕ) : firstOfMonth date = monthStart (months.period date) := by
  rw [firstOfMonth, monthOf_eq]

/-- The day 32 days after the first of a month is in the month after it. -/
theorem monthBounds_eq (anchor : ℕ) :
    monthBounds anchor = (monthStart (months.period anchor), monthStart (months.period anchor + 1)) := by
  have hnext : months.period (monthStart (months.period anchor) + 32) = months.period anchor + 1 := by
    refine months.period_eq_iff.mpr ?_
    have hthis := monthStart_succ (months.period anchor)
    have hafter := monthStart_succ (months.period anchor + 1)
    have := monthLength_bounds (months.period anchor)
    have := monthLength_bounds (months.period anchor + 1)
    show monthStart _ ≤ _ ∧ _ < monthStart _
    omega
  show (firstOfMonth anchor, firstOfMonth (firstOfMonth anchor + 32)) = _
  rw [firstOfMonth_eq anchor, firstOfMonth_eq, hnext]

theorem monthStatements_eq (p : Parent) (hp : p.granularity = .month) : ∀ n k : ℕ,
    monthStatements p.schema p.table n (monthStart k) = (List.range' k n).map p.slot
  | 0, _ => rfl
  | n + 1, k => by
    have hbounds : monthBounds (monthStart k) = (monthStart k, monthStart (k + 1)) := by
      have hperiod : months.period (monthStart k) = k := months.period_start k
      rw [monthBounds_eq, hperiod]
    rw [monthStatements, hbounds, monthStatements_eq p hp n (k + 1), List.range'_succ, List.map_cons, Parent.slot, hp]
    rfl

theorem dayStatements_eq (p : Parent) (hp : p.granularity = .day) : ∀ n k : ℕ,
    dayStatements p.schema p.table n k = (List.range' k n).map p.slot
  | 0, _ => rfl
  | n + 1, k => by
    rw [dayStatements, dayStatements_eq p hp n (k + 1), List.range'_succ, List.map_cons, Parent.slot, hp]
    rfl

/-- **The statements** name the default and a run of periods, from the one that holds the anchor. -/
theorem partitionStatements_eq (p : Parent) (anchor periods : ℕ) :
    partitionStatements p anchor periods =
      p.fallback :: (List.range' (p.granularity.timeline.period anchor) (p.count periods)).map p.slot := by
  unfold partitionStatements Parent.count
  cases hp : p.granularity with
  | month => rw [monthBounds_eq, ← monthStatements_eq p hp]; rfl
  | day =>
    have hperiod : Granularity.day.timeline.period anchor = anchor := period_days anchor
    rw [hperiod, ← dayStatements_eq p hp]
    rfl

/-! ## Names tell periods apart -/

theorem length_twoDigits {n : ℕ} (h : n < 100) : (twoDigits n).toList.length = 2 := by
  unfold twoDigits
  interval_cases n <;> rfl

/-- Two digits are read back as the number. -/
theorem ofDigitChars_twoDigits (n : ℕ) : Nat.ofDigitChars 10 (twoDigits n).toList 0 = n := by
  unfold twoDigits
  split_ifs
  · rw [String.toList_append, toList_natText]
    show Nat.ofDigitChars 10 ('0' :: Nat.toDigits 10 n) 0 = n
    rw [Nat.ofDigitChars_cons]
    exact Nat.ofDigitChars_ten_toDigits
  · rw [toList_natText]
    exact Nat.ofDigitChars_ten_toDigits

theorem twoDigits_injective {m n : ℕ} (h : twoDigits m = twoDigits n) : m = n := by
  rw [← ofDigitChars_twoDigits m, h, ofDigitChars_twoDigits]

/-- A text that ends in two digits tells both its parts. -/
theorem append_twoDigits_injective {a b : String} {m n : ℕ} (hm : m < 100) (hn : n < 100)
    (h : a ++ twoDigits m = b ++ twoDigits n) : a = b ∧ m = n := by
  have hchars := congrArg String.toList h
  rw [String.toList_append, String.toList_append] at hchars
  obtain ⟨hleft, hright⟩ := List.append_inj' hchars (by rw [length_twoDigits hm, length_twoDigits hn])
  exact ⟨String.toList_inj.mp hleft, twoDigits_injective (String.toList_inj.mp hright)⟩

theorem yearMonth_injective {d d' : ℕ} (h : yearMonth d = yearMonth d') : monthOf d = monthOf d' := by
  unfold yearMonth yearOf at h
  obtain ⟨hyear, hmonth⟩ := append_twoDigits_injective (by omega) (by omega) h
  have := natText_injective hyear
  omega

theorem yearMonthDay_injective {d d' : ℕ} (h : yearMonthDay d = yearMonthDay d') : d = d' := by
  have hbound : ∀ d : ℕ, firstOfMonth d ≤ d ∧ d - firstOfMonth d + 1 < 100 := by
    intro d
    rw [firstOfMonth_eq]
    have hle := months.start_period_le d
    have hlt := months.lt_start_period_succ d
    change monthStart _ ≤ d at hle
    change d < monthStart _ at hlt
    have := monthLength_bounds (months.period d)
    rw [monthStart_succ] at hlt
    omega
  unfold yearMonthDay at h
  obtain ⟨hmonth, hday⟩ := append_twoDigits_injective (hbound d).2 (hbound d').2 h
  have hfirst : firstOfMonth d = firstOfMonth d' := congrArg monthStart (yearMonth_injective hmonth)
  have := (hbound d).1
  have := (hbound d').1
  omega

theorem suffix_injective (g : Granularity) {j k : ℕ} (h : g.suffix j = g.suffix k) : j = k := by
  cases g with
  | month =>
    have hmonth := yearMonth_injective h
    rwa [monthOf_monthStart, monthOf_monthStart] at hmonth
  | day => exact yearMonthDay_injective h

/-! ## Catalogues -/

/-- A partition that some statement names. -/
def Made (a : Partition) : Prop := ∃ p ∈ partitioned, a = p.fallback ∨ ∃ k, a = p.slot k

theorem made_fallback {p : Parent} (hp : p ∈ partitioned) : Made p.fallback := ⟨p, hp, Or.inl rfl⟩

theorem made_slot {p : Parent} (hp : p ∈ partitioned) (k : ℕ) : Made (p.slot k) := ⟨p, hp, Or.inr ⟨k, rfl⟩⟩

/-- The names in a schema tell the tables apart. -/
theorem parent_of_name {p p' : Parent} (hp : p ∈ partitioned) (hp' : p' ∈ partitioned) (hs : p.schema = p'.schema)
    {x y : String} (h : p.table ++ x = p'.table ++ y) : p = p' := by
  have hhead : (p.table ++ x).toList.head? = (p'.table ++ y).toList.head? := by rw [h]
  simp only [String.toList_append] at hhead
  simp only [partitioned, List.mem_cons, List.not_mem_nil, or_false] at hp hp'
  rcases hp with rfl | rfl | rfl <;> rcases hp' with rfl | rfl | rfl <;>
    first
      | rfl
      | exact absurd hs (by decide)
      | exact absurd hhead (by simp [auditLogs, eventOutbox])

/-- The tables of the schemas differ. -/
theorem parent_of_table {p p' : Parent} (hp : p ∈ partitioned) (hp' : p' ∈ partitioned) (hs : p.schema = p'.schema)
    (ht : p.table = p'.table) : p = p' := parent_of_name hp hp' hs (congrArg (· ++ "") ht)

theorem slot_name_ne_fallback (p : Parent) (k : ℕ) : (p.slot k).name ≠ p.fallback.name := by
  intro h
  have hchars := congrArg String.toList h
  simp only [Parent.slot, Parent.fallback, String.toList_append, List.append_assoc] at hchars
  exact absurd (List.append_cancel_left hchars) (by simp)

theorem slot_name_injective {p : Parent} {j k : ℕ} (h : (p.slot j).name = (p.slot k).name) : j = k := by
  have hchars := congrArg String.toList h
  simp only [Parent.slot, String.toList_append, List.append_assoc] at hchars
  have hsuffix := List.append_cancel_left (List.append_cancel_left hchars)
  exact suffix_injective p.granularity (String.toList_inj.mp hsuffix)

/-- **Partitions of one name** are one. -/
theorem Made.eq_of_key {a b : Partition} (ha : Made a) (hb : Made b) (h : a.key = b.key) : a = b := by
  obtain ⟨p, hp, ha⟩ := ha
  obtain ⟨p', hp', hb⟩ := hb
  obtain ⟨hschema, hname⟩ := Prod.mk.inj h
  have hparent : p = p' := by
    rcases ha with rfl | ⟨j, rfl⟩ <;> rcases hb with rfl | ⟨k, rfl⟩ <;>
      simp only [Parent.slot, Parent.fallback, String.append_assoc] at hschema hname <;>
      exact parent_of_name hp hp' hschema hname
  subst hparent
  rcases ha with rfl | ⟨j, rfl⟩ <;> rcases hb with rfl | ⟨k, rfl⟩
  · rfl
  · exact absurd hname.symm (slot_name_ne_fallback p k)
  · exact absurd hname (slot_name_ne_fallback p j)
  · rw [slot_name_injective hname]

/-- **Partitions that overlap** are one. -/
theorem Made.eq_of_overlaps {a b : Partition} (ha : Made a) (hb : Made b) (h : a.overlaps b = true) : a = b := by
  obtain ⟨p, hp, ha⟩ := ha
  obtain ⟨p', hp', hb⟩ := hb
  unfold Partition.overlaps at h
  simp only [Bool.and_eq_true, decide_eq_true_eq] at h
  obtain ⟨⟨hschema, htable⟩, h⟩ := h
  have hparent : p = p' := by
    rcases ha with rfl | ⟨j, rfl⟩ <;> rcases hb with rfl | ⟨k, rfl⟩ <;>
      exact parent_of_table hp hp' hschema htable
  subst hparent
  rcases ha with rfl | ⟨j, rfl⟩ <;> rcases hb with rfl | ⟨k, rfl⟩
  · rfl
  · cases h
  · cases h
  · simp only [Parent.slot, Bool.and_eq_true, decide_eq_true_eq] at h
    rw [p.granularity.timeline.eq_of_overlap h.1 h.2]

/-- Only partitions that statements name. -/
def Canonical (db : Catalogue) : Prop := ∀ a ∈ db.rows, Made a

theorem create_spec {db : Catalogue} (hdb : Canonical db) {a : Partition} (ha : Made a) :
    ∃ db', create db a = some db' ∧ ∀ b, b ∈ db'.rows ↔ b ∈ db.rows ∨ b = a := by
  unfold create
  cases hfind : db.find? a.key with
  | some b =>
    have hmem : b ∈ db.rows := Table.mem_of_find? hfind
    obtain rfl := (hdb b hmem).eq_of_key ha (Table.key_of_find? hfind)
    exact ⟨db, rfl, fun c => ⟨Or.inl, fun h => h.elim id fun h => h ▸ hmem⟩⟩
  | none =>
    have hkey : a.key ∉ db.rows.map Partition.key := by
      intro hmem
      obtain ⟨b, hb, hba⟩ := List.mem_map.mp hmem
      rw [← hba, Table.find?_of_mem hb] at hfind
      cases hfind
    have hfree : db.rows.any a.overlaps = false := by
      refine List.any_eq_false.mpr fun b hb h => ?_
      obtain rfl := ha.eq_of_overlaps (hdb b hb) h
      exact hkey (List.mem_map_of_mem hb)
    refine ⟨db.insert a, ?_, fun b => ?_⟩
    · rw [if_neg (by simp), hfree]
      rfl
    · unfold Table.insert
      dsimp only
      rw [if_neg hkey, List.mem_append, List.mem_singleton]

/-- **The statements are executed**, and add what they name. -/
theorem createAll_spec : ∀ (statements : List Partition) {db : Catalogue}, Canonical db → (∀ a ∈ statements, Made a) →
    ∃ db', createAll db statements = some db' ∧ ∀ b, b ∈ db'.rows ↔ b ∈ db.rows ∨ b ∈ statements
  | [], db, _, _ => ⟨db, rfl, by simp⟩
  | a :: statements, db, hdb, hs => by
    have ha : Made a := hs a List.mem_cons_self
    obtain ⟨db₁, h₁, hmem₁⟩ := create_spec hdb ha
    have hdb₁ : Canonical db₁ := fun b hb => ((hmem₁ b).mp hb).elim (hdb b) fun h => h ▸ ha
    obtain ⟨db', h', hmem'⟩ := createAll_spec statements hdb₁ fun b hb => hs b (List.mem_cons_of_mem _ hb)
    refine ⟨db', ?_, fun b => ?_⟩
    · unfold createAll
      rw [List.foldlM_cons, h₁]
      exact h'
    · rw [hmem', hmem₁, List.mem_cons, or_assoc]

/-! ## Runs -/

/-- The periods of a batch of statements. -/
theorem slot_mem_batch {p p' : Parent} (hp : p ∈ partitioned) (hp' : p' ∈ partitioned) {anchor periods k : ℕ} :
    p.slot k ∈ partitionStatements p' anchor periods ↔
      p = p' ∧ p.granularity.timeline.period anchor ≤ k ∧
        k < p.granularity.timeline.period anchor + p.count periods := by
  rw [partitionStatements_eq, List.mem_cons, List.mem_map]
  constructor
  · rintro (h | ⟨j, hj, h⟩)
    · have hname := congrArg Partition.name h
      have hparent := parent_of_table hp hp' (congrArg Partition.schema h) (congrArg Partition.parent h)
      subst hparent
      exact absurd hname (slot_name_ne_fallback p k)
    · have hparent := parent_of_table hp hp' (congrArg Partition.schema h).symm (congrArg Partition.parent h).symm
      subst hparent
      obtain rfl := slot_name_injective (congrArg Partition.name h)
      exact ⟨rfl, List.mem_range'_1.mp hj⟩
  · rintro ⟨rfl, hk⟩
    exact Or.inr ⟨k, List.mem_range'_1.mpr hk, rfl⟩

theorem made_of_mem_batch {p : Parent} (hp : p ∈ partitioned) {anchor periods : ℕ} {a : Partition}
    (h : a ∈ partitionStatements p anchor periods) : Made a := by
  rw [partitionStatements_eq, List.mem_cons, List.mem_map] at h
  rcases h with rfl | ⟨k, -, rfl⟩
  · exact made_fallback hp
  · exact made_slot hp k

/-- The statements of one sweep over the tables. -/
def batch (anchor periods : ℕ) : List Partition := partitioned.flatMap fun p => partitionStatements p anchor periods

theorem made_of_mem_sweep {anchor periods : ℕ} {a : Partition} (h : a ∈ batch anchor periods) : Made a := by
  obtain ⟨p, hp, ha⟩ := List.mem_flatMap.mp h
  exact made_of_mem_batch hp ha

theorem slot_mem_sweep {p : Parent} (hp : p ∈ partitioned) {anchor periods k : ℕ} :
    p.slot k ∈ batch anchor periods ↔ p.granularity.timeline.period anchor ≤ k ∧
      k < p.granularity.timeline.period anchor + p.count periods := by
  unfold batch
  rw [List.mem_flatMap]
  constructor
  · rintro ⟨p', hp', h⟩
    exact ((slot_mem_batch hp hp').mp h).2
  · intro h
    exact ⟨p, hp, (slot_mem_batch hp hp).mpr ⟨rfl, h⟩⟩

/-- What the catalogue holds in a run: the periods of the installation and of each sweep, and of the outbox no others. -/
structure PartitionState.Kept (installed : ℕ) (s : PartitionState) : Prop where
  canonical : Canonical s.catalogue
  started : installed ≤ s.today
  first : ∀ p ∈ partitioned, ∀ k, p.slot k ∈ batch installed 3 → p.slot k ∈ s.catalogue.rows
  ahead : ∀ day, installed ≤ day → day < s.today ∨ day = s.today ∧ s.ensured = true →
    ∀ p ∈ partitioned, ∀ k, p.slot k ∈ batch (day + 32) 2 → p.slot k ∈ s.catalogue.rows
  outbox : ∀ k, eventOutbox.slot k ∈ s.catalogue.rows → k < installed + 30 ∨ installed + 32 ≤ k

theorem outbox_mem_sweep {anchor periods k : ℕ} :
    eventOutbox.slot k ∈ batch anchor periods ↔ anchor ≤ k ∧ k < anchor + periods * 10 := by
  have hperiod : eventOutbox.granularity.timeline.period anchor = anchor := period_days anchor
  rw [slot_mem_sweep (by decide), hperiod]
  rfl

theorem kept_upgrade {installed : ℕ} {s : PartitionState} (h : upgrade installed = some s) : s.Kept installed := by
  have hempty : Canonical .empty := fun a ha => by cases ha
  obtain ⟨db, hdb, hmem⟩ := createAll_spec (batch installed 3) hempty fun a => made_of_mem_sweep
  have hrun : upgrade installed = some ⟨installed, false, db⟩ := by
    unfold upgrade
    change createAll .empty (batch installed 3) >>= _ = _
    rw [hdb]
    rfl
  obtain rfl := Option.some.inj (hrun.symm.trans h)
  have hrows : ∀ a, a ∈ db.rows ↔ a ∈ batch installed 3 := fun a => (hmem a).trans (by simp [Table.empty])
  exact
    { canonical := fun a ha => made_of_mem_sweep ((hrows a).mp ha)
      started := le_rfl
      first := fun p _ k hk => (hrows _).mpr hk
      ahead := fun day hle hday => by
        rcases hday with hday | ⟨-, hday⟩
        · exact absurd hle (Nat.not_le.mpr hday)
        · cases hday
      outbox := fun k hk => Or.inl (outbox_mem_sweep.mp ((hrows _).mp hk)).2 }

/-- A sweep succeeds, and adds its batch. -/
theorem step_ensure {installed : ℕ} {s : PartitionState} (hs : s.Kept installed) :
    ∃ db, step s .ensure = some { s with ensured := true, catalogue := db } ∧
      ∀ a, a ∈ db.rows ↔ a ∈ s.catalogue.rows ∨ a ∈ batch (s.today + 32) 2 := by
  obtain ⟨db, hdb, hmem⟩ := createAll_spec (batch (s.today + 32) 2) hs.canonical fun a => made_of_mem_sweep
  refine ⟨db, ?_, hmem⟩
  show (createAll s.catalogue (batch (s.today + 32) 2) >>= _) = _
  rw [hdb]
  rfl

theorem kept_ensure {installed : ℕ} {s s' : PartitionState} (hs : s.Kept installed) (h : step s .ensure = some s') :
    s'.Kept installed := by
  obtain ⟨db, hdb, hmem⟩ := step_ensure hs
  obtain rfl := Option.some.inj (hdb.symm.trans h)
  have hold : ∀ a ∈ s.catalogue.rows, a ∈ db.rows := fun a ha => (hmem a).mpr (Or.inl ha)
  exact
    { canonical := fun a ha => ((hmem a).mp ha).elim (hs.canonical a) made_of_mem_sweep
      started := hs.started
      first := fun p hp k hk => hold _ (hs.first p hp k hk)
      ahead := fun day hle hday p hp k hk => by
        rcases hday with hday | ⟨hday, -⟩
        · exact hold _ (hs.ahead day hle (Or.inl hday) p hp k hk)
        · rw [show day = s.today from hday] at hk
          exact (hmem _).mpr (Or.inr hk)
      outbox := fun k hk => by
        rcases (hmem _).mp hk with hk | hk
        · exact hs.outbox k hk
        · have := (outbox_mem_sweep.mp hk).1
          have := hs.started
          omega }

theorem kept_midnight {installed : ℕ} {s s' : PartitionState} (hs : s.Kept installed)
    (h : step s .midnight = some s') : s'.Kept installed := by
  simp only [step] at h
  split_ifs at h with hensured
  obtain rfl := Option.some.inj h
  exact
    { hs with
      started := Nat.le_succ_of_le hs.started
      ahead := fun day hle hday => by
        rcases hday with hday | ⟨-, hday⟩
        · rcases Nat.lt_succ_iff_lt_or_eq.mp hday with hday | hday
          · exact hs.ahead day hle (Or.inl hday)
          · exact hs.ahead day hle (Or.inr ⟨hday, hensured⟩)
        · cases hday }

theorem kept_inbox {installed moment : ℕ} {s s' : PartitionState} (hs : s.Kept installed)
    (h : step s (.inbox moment) = some s') : s'.Kept installed := by
  simp only [step] at h
  split_ifs at h
  · exact Option.some.inj h ▸ hs
  · have hmessages : messages ∈ partitioned := by decide
    obtain ⟨db, hdb, hmem⟩ := createAll_spec (partitionStatements messages moment 1) hs.canonical
      fun a => made_of_mem_batch hmessages
    rw [hdb] at h
    obtain rfl := Option.some.inj h
    have hold : ∀ a ∈ s.catalogue.rows, a ∈ db.rows := fun a ha => (hmem a).mpr (Or.inl ha)
    exact
      { canonical := fun a ha => ((hmem a).mp ha).elim (hs.canonical a) (made_of_mem_batch hmessages)
        started := hs.started
        first := fun p hp k hk => hold _ (hs.first p hp k hk)
        ahead := fun day hle hday p hp k hk => hold _ (hs.ahead day hle hday p hp k hk)
        outbox := fun k hk => by
          rcases (hmem _).mp hk with hk | hk
          · exact hs.outbox k hk
          · exact absurd ((slot_mem_batch (by decide) hmessages).mp hk).1 (by decide) }

/-- The catalogue of every run. -/
theorem Reached.kept {installed : ℕ} {s : PartitionState} (h : Reached installed s) : s.Kept installed := by
  induction h with
  | install h => exact kept_upgrade h
  | step action _ h ih =>
    cases action with
    | ensure => exact kept_ensure ih h
    | midnight => exact kept_midnight ih h
    | inbox moment => exact kept_inbox ih h

/-! ## Coverage -/

/-- A partition of a table, other than the default, that holds all days of a period. -/
def Covers (p : Parent) (k : ℕ) (a : Partition) : Prop :=
  a.schema = p.schema ∧ a.parent = p.table ∧ ∃ start stop, a.bounds = some (start, stop) ∧
    start ≤ p.granularity.timeline.start k ∧ p.granularity.timeline.start (k + 1) ≤ stop

/-- Exactly one partition holds a period. -/
def Covered (s : PartitionState) (p : Parent) (k : ℕ) : Prop := ∃! a, a ∈ s.catalogue.rows ∧ Covers p k a

theorem covers_slot (p : Parent) (k : ℕ) : Covers p k (p.slot k) := ⟨rfl, rfl, _, _, rfl, le_rfl, le_rfl⟩

/-- Only the partition of a period holds it. -/
theorem Made.eq_slot {a : Partition} (ha : Made a) {p : Parent} (hp : p ∈ partitioned) {k : ℕ} (h : Covers p k a) :
    a = p.slot k := by
  obtain ⟨p', hp', ha⟩ := ha
  obtain ⟨hschema, htable, start, stop, hbounds, hstart, hstop⟩ := h
  rcases ha with rfl | ⟨j, rfl⟩
  · cases hbounds
  · obtain rfl := parent_of_table hp' hp hschema htable
    obtain ⟨rfl, rfl⟩ := Prod.mk.inj (Option.some.inj hbounds)
    have hlt := p'.granularity.timeline.start_lt k
    rw [p'.granularity.timeline.eq_of_overlap (lt_of_le_of_lt hstart hlt) (lt_of_lt_of_le hlt hstop)]

theorem covered_iff {installed : ℕ} {s : PartitionState} (hs : s.Kept installed) {p : Parent} (hp : p ∈ partitioned)
    (k : ℕ) : Covered s p k ↔ p.slot k ∈ s.catalogue.rows := by
  constructor
  · rintro ⟨a, ⟨ha, hcovers⟩, -⟩
    exact (hs.canonical a ha).eq_slot hp hcovers ▸ ha
  · intro h
    exact ⟨p.slot k, ⟨h, covers_slot p k⟩, fun a ha => (hs.canonical a ha.1).eq_slot hp ha.2⟩

/-- The days of the outbox that no batch holds. -/
def Skipped (installed : ℕ) (p : Parent) (k : ℕ) : Prop :=
  p = eventOutbox ∧ (k = installed + 30 ∨ k = installed + 31)

instance (installed : ℕ) (p : Parent) (k : ℕ) : Decidable (Skipped installed p k) :=
  inferInstanceAs (Decidable (_ ∧ _))

theorem slot_day {installed : ℕ} {s : PartitionState} (hs : s.Kept installed) {k : ℕ} (hk : installed ≤ k)
    (hbegun : k ≤ s.today) :
    eventOutbox.slot k ∈ s.catalogue.rows ↔ ¬(k = installed + 30 ∨ k = installed + 31) := by
  have houtbox : eventOutbox ∈ partitioned := by decide
  constructor
  · intro h
    have := hs.outbox k h
    omega
  · intro h
    by_cases hfirst : k < installed + 30
    · exact hs.first _ houtbox k (outbox_mem_sweep.mpr ⟨hk, hfirst⟩)
    · have hsweep : eventOutbox.slot k ∈ batch (k - 32 + 32) 2 := outbox_mem_sweep.mpr (by omega)
      exact hs.ahead (k - 32) (by omega) (Or.inl (by omega)) _ houtbox k hsweep

/-- The third month after a month begins 32 days after any day of it, or later. -/
theorem le_monthStart {day k : ℕ} (h : months.period day + 3 ≤ k) : day + 32 ≤ monthStart k := by
  have hday : day < monthStart (months.period day + 1) := months.lt_start_period_succ day
  have hsecond : monthStart (months.period day + 2) = _ := monthStart_succ (months.period day + 1)
  have hthird : monthStart (months.period day + 3) = _ := monthStart_succ (months.period day + 2)
  have := monthLength_bounds (months.period day + 1)
  have := monthLength_bounds (months.period day + 2)
  have hmono : monthStart (months.period day + 3) ≤ monthStart k := months.start_strictMono.monotone h
  omega

theorem slot_month {installed : ℕ} {s : PartitionState} (hs : s.Kept installed) {p : Parent} (hp : p ∈ partitioned)
    (hmonth : p.granularity = .month) {k : ℕ} (hk : months.period installed ≤ k) (hbegun : monthStart k ≤ s.today) :
    p.slot k ∈ s.catalogue.rows := by
  have hcount : ∀ periods, p.count periods = periods := fun periods => by rw [Parent.count, hmonth]
  by_cases hfirst : k < months.period installed + 3
  · refine hs.first p hp k ((slot_mem_sweep hp).mpr ?_)
    rw [hcount, hmonth]
    exact ⟨hk, hfirst⟩
  · have hle : installed + 32 ≤ monthStart k := le_monthStart (by omega)
    refine hs.ahead (monthStart k - 32) (by omega) (Or.inl (by omega)) p hp k ((slot_mem_sweep hp).mpr ?_)
    have hanchor : months.period (monthStart k - 32 + 32) = k := by
      rw [Nat.sub_add_cancel (by omega)]
      exact months.period_start k
    rw [hcount, hmonth]
    show months.period _ ≤ k ∧ k < months.period _ + 2
    omega

/-- **A period is covered** when it begins exactly if it is not one of two days of the outbox, whatever the
installation and the run; and no two partitions overlap. -/
theorem partitions_cover_iff {installed : ℕ} {s : PartitionState} (h : Reached installed s) :
    (∀ a ∈ s.catalogue.rows, ∀ b ∈ s.catalogue.rows, a.overlaps b = true → a = b) ∧
      ∀ p ∈ partitioned, ∀ k, p.granularity.timeline.period installed ≤ k →
        p.granularity.timeline.start k ≤ s.today → (Covered s p k ↔ ¬ Skipped installed p k) := by
  have hs := h.kept
  refine ⟨fun a ha b hb => (hs.canonical a ha).eq_of_overlaps (hs.canonical b hb), fun p hp k hk hbegun => ?_⟩
  rw [covered_iff hs hp]
  by_cases houtbox : p = eventOutbox
  · subst houtbox
    have hperiod : eventOutbox.granularity.timeline.period installed = installed := period_days installed
    rw [hperiod] at hk
    rw [slot_day hs hk hbegun]
    simp [Skipped]
  · have hmonth : p.granularity = .month := by
      simp only [partitioned, List.mem_cons, List.not_mem_nil, or_false] at hp
      rcases hp with rfl | rfl | rfl
      · rfl
      · exact absurd rfl houtbox
      · rfl
    have hskipped : ¬ Skipped installed p k := fun hskipped => houtbox hskipped.1
    rw [hmonth] at hk hbegun
    exact iff_of_true (slot_month hs hp hmonth hk hbegun) hskipped

/-! ## A run from the first of January 2026 -/

/-- Sweeps that succeed every day lead to any day. -/
theorem exists_reached (installed : ℕ) : ∀ n : ℕ, ∃ s, Reached installed s ∧ s.today = installed + n
  | 0 => by
    have hempty : Canonical .empty := fun a ha => by cases ha
    obtain ⟨db, hdb, -⟩ := createAll_spec (batch installed 3) hempty fun a => made_of_mem_sweep
    refine ⟨⟨installed, false, db⟩, .install ?_, rfl⟩
    show (createAll .empty (batch installed 3) >>= _) = _
    rw [hdb]
    rfl
  | n + 1 => by
    obtain ⟨s, hs, htoday⟩ := exists_reached installed n
    obtain ⟨db, hensure, -⟩ := step_ensure hs.kept
    have hswept : Reached installed { s with ensured := true, catalogue := db } := .step .ensure hs hensure
    exact ⟨_, .step .midnight hswept rfl, congrArg Nat.succ htoday⟩

/-- 2026-01-01. -/
def newYear : ℕ := 739616

example : yearMonthDay newYear = "20260101" ∧ monthBounds newYear = (newYear, newYear + 31) := by decide

theorem partitions_cover_2026 : ∃ s, Reached newYear s ∧ Covered s eventOutbox (newYear + 40) ∧
    Covered s messages (monthOf newYear + 1) := by
  obtain ⟨s, hs, htoday⟩ := exists_reached newYear 40
  have hcover := (partitions_cover_iff hs).2
  refine ⟨s, hs, ?_, ?_⟩
  · refine (hcover eventOutbox (by decide) (newYear + 40) ?_ htoday.ge).mpr (by decide)
    show days.period newYear ≤ newYear + 40
    rw [period_days]
    exact Nat.le_add_right _ _
  · refine (hcover messages (by decide) (monthOf newYear + 1) ?_ ?_).mpr (by decide)
    · show months.period newYear ≤ monthOf newYear + 1
      rw [monthOf_eq]
      exact Nat.le_add_right _ 1
    · have hstart : ∀ k, messages.granularity.timeline.start k = monthStart k := fun _ => rfl
      rw [hstart, htoday]
      decide

/-- **The thirtieth day** after an installation begins without a partition of the outbox. -/
theorem outbox_gap : ∃ s, Reached newYear s ∧ s.today = newYear + 30 ∧ ¬ Covered s eventOutbox (newYear + 30) := by
  obtain ⟨s, hs, htoday⟩ := exists_reached newYear 30
  refine ⟨s, hs, htoday, fun hcovered => ?_⟩
  have hslot := (covered_iff hs.kept (by decide) _).mp hcovered
  have := hs.kept.outbox _ hslot
  omega

end RevenueOS.Database
