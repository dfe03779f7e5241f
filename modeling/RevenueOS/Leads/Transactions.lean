import RevenueOS.Leads.Operations
import RevenueOS.Lib.Slots
import RevenueOS.Lib.Trace

/-!
# RevenueOS.Leads.Transactions — calls on leads that run at the same time

Under read committed, without a row lock: a call loads its rows, works on what it has loaded and commits later;
`merge_leads` loads its two rows one after the other.  A flush writes the columns whose value differs from what was
loaded, and no version is compared.  `bulk_update` locks its rows, so that it is one step.  A call that raises or
never commits writes nothing.

* `flush_loaded`: undisturbed, a commit writes the row the call made, its JSON columns up to `==`.
* `converted_once_iff`: when a lead is converted once, and is converted exactly if it names its contact.
-/

namespace RevenueOS.Leads

open RevenueOS.Py RevenueOS.Lib RevenueOS.Workflows

/-! ## Flushes -/

/-- A column after a flush: written if the value is not the one that was loaded. -/
def column {α : Type} [DecidableEq α] (loaded target stored : α) : α := if target = loaded then stored else target

/-- A JSON column after a flush; `dict`s are compared by `==`. -/
def jsonColumn (loaded target stored : Dict) : Dict :=
  if Json.pyEq (.obj target) (.obj loaded) then stored else target

/-- The stored row after the flush of a row that was loaded as `loaded` and is now `target`. -/
def Lead.flush (loaded target stored : Lead) : Lead where
  id := stored.id
  firstName := column loaded.firstName target.firstName stored.firstName
  lastName := column loaded.lastName target.lastName stored.lastName
  email := column loaded.email target.email stored.email
  phone := column loaded.phone target.phone stored.phone
  source := column loaded.source target.source stored.source
  sourceChannel := column loaded.sourceChannel target.sourceChannel stored.sourceChannel
  capture := jsonColumn loaded.capture target.capture stored.capture
  utm := jsonColumn loaded.utm target.utm stored.utm
  qualificationScore := column loaded.qualificationScore target.qualificationScore stored.qualificationScore
  category := column loaded.category target.category stored.category
  status := column loaded.status target.status stored.status
  disqualifyReason := column loaded.disqualifyReason target.disqualifyReason stored.disqualifyReason
  assigneeId := column loaded.assigneeId target.assigneeId stored.assigneeId
  branchId := column loaded.branchId target.branchId stored.branchId
  teamId := column loaded.teamId target.teamId stored.teamId
  dedupeKey := column loaded.dedupeKey target.dedupeKey stored.dedupeKey
  convertedContactId := column loaded.convertedContactId target.convertedContactId stored.convertedContactId
  mergedIntoId := column loaded.mergedIntoId target.mergedIntoId stored.mergedIntoId
  deletedAt := column loaded.deletedAt target.deletedAt stored.deletedAt
  version := column loaded.version target.version stored.version

/-- What is not written stays as it is stored. -/
@[simp] theorem column_self {α : Type} [DecidableEq α] (loaded stored : α) : column loaded loaded stored = stored :=
  if_pos rfl

theorem column_of_ne {α : Type} [DecidableEq α] {loaded target : α} (h : target ≠ loaded) (stored : α) :
    column loaded target stored = target :=
  if_neg h

/-- A column that nobody else wrote is the one the call made. -/
@[simp] theorem column_loaded {α : Type} [DecidableEq α] (loaded target : α) :
    column loaded target loaded = target := by
  unfold column
  split_ifs with h
  · exact h.symm
  · rfl

theorem flush_id {loaded target : Lead} (stored : Lead) (h : stored.id = loaded.id) :
    (loaded.flush target stored).id = loaded.id :=
  h

/-- The `UPDATE` of a flush. -/
def LeadStore.flush (s : LeadStore) (loaded target : Lead) : LeadStore :=
  { s with tables := { s.tables with leads := s.tables.leads.modify loaded.id (loaded.flush target) flush_id } }

/-- **Undisturbed**, a flush writes the row the call made, its JSON columns up to `==`. -/
theorem flush_loaded {s : LeadStore} {loaded target : Lead} (hfind : s.tables.leads.find? loaded.id = some loaded)
    (hid : target.id = loaded.id) :
    (s.flush loaded target).tables.leads.find? loaded.id =
      some { target with
        capture := jsonColumn loaded.capture target.capture loaded.capture
        utm := jsonColumn loaded.utm target.utm loaded.utm } := by
  unfold LeadStore.flush
  rw [Table.find?_modify, hfind, Option.map_some, Table.modifyRow, if_pos rfl]
  simp only [Lead.flush, column_loaded, hid]

theorem find?_flush (s : LeadStore) (loaded target : Lead) (id : Uuid) :
    (s.flush loaded target).tables.leads.find? id =
      (s.tables.leads.find? id).map (Table.modifyRow Lead.id loaded.id (loaded.flush target)) := by
  unfold LeadStore.flush
  exact Table.find?_modify _ flush_id _

/-- A flush of another row. -/
theorem find?_flush_of_ne {s : LeadStore} {loaded target : Lead} {id : Uuid} (hid : id ≠ loaded.id) :
    (s.flush loaded target).tables.leads.find? id = s.tables.leads.find? id := by
  rw [find?_flush]
  cases hfind : s.tables.leads.find? id with
  | none => rfl
  | some stored =>
    rw [Option.map_some, Table.modifyRow, if_neg]
    rw [Table.key_of_find? hfind]
    exact hid

theorem find?_flush_self {s : LeadStore} {loaded target stored : Lead}
    (hfind : s.tables.leads.find? loaded.id = some stored) :
    (s.flush loaded target).tables.leads.find? loaded.id = some (loaded.flush target stored) := by
  rw [find?_flush, hfind, Option.map_some, Table.modifyRow, if_pos (Table.key_of_find? hfind)]

/-! ## The system -/

/-- The calls that load one row. -/
inductive RowCall where
  | update (scope : Lead → Bool) (id : Uuid) (changes : LeadChanges) (expectedVersion : Option ℕ)
  | convert (scope : Lead → Bool) (id contactId : Uuid)
  | disqualify (id : Uuid) (reason : String)
  | restore (id : Uuid)

/-- What a call has loaded and made of it: the row, the row it will flush and the contact it will insert. -/
def LeadStore.openCall (s : LeadStore) : RowCall → Except LeadError (Lead × Lead × Option Contact)
  | .update scope id changes expectedVersion => do
    let lead ← s.getScoped id scope
    let target ← lead.update changes expectedVersion
    return (lead, target, none)
  | .convert scope id contactId => do
    let lead ← s.getScoped id scope
    let target ← lead.convert contactId
    return (lead, target, some (lead.contact contactId))
  | .disqualify id reason => do
    if (strip reason).length < 3 then throw (.validation "Give a reason for disqualifying this lead.")
    let lead ← s.loadAny id false
    let target ← lead.disqualify (strip reason)
    return (lead, target, none)
  | .restore id => do
    let lead ← s.loadAny id true
    let target ← lead.restore
    return (lead, target, none)

/-- Where a call stands. -/
inductive LeadTx where
  | row (loaded target : Lead) (contact : Option Contact)
  | survivorRead (survivor : Lead) (loserId : Uuid) (now : ℤ)
  | merging (survivor loser : Lead) (now : ℤ)
  | committed
  | raised (error : LeadError)

structure LeadSystem where
  store : LeadStore
  txs : List LeadTx

inductive LeadStep where
  | call (call : RowCall)
  | merge (survivorId loserId : Uuid) (now : ℤ)
  | readLoser (k : ℕ)
  | commit (k : ℕ)
  | bulkUpdate (scope : Lead → Bool) (ids : List Uuid) (changes : BulkChanges)

namespace LeadTx

/-- A call that loads one row, after the load. -/
def ofCall : Except LeadError (Lead × Lead × Option Contact) → LeadTx
  | .ok (loaded, target, contact) => .row loaded target contact
  | .error error => .raised error

/-- `merge_leads` after its first load. -/
def ofMerge (s : LeadStore) (survivorId loserId : Uuid) (now : ℤ) : LeadTx :=
  if survivorId = loserId then .raised (.validation "A lead cannot be merged into itself.")
  else
    match s.loadAny survivorId false with
    | .ok survivor => .survivorRead survivor loserId now
    | .error error => .raised error

/-- `merge_leads` after its second load and its checks. -/
def ofLoser (s : LeadStore) (survivor : Lead) (loserId : Uuid) (now : ℤ) : LeadTx :=
  match (do let loser ← s.loadAny loserId false; mergeChecks survivor loser; return loser) with
  | .ok loser => .merging survivor loser now
  | .error error => .raised error

end LeadTx

/-- A call that had something to commit has committed it, or was refused. -/
def LeadTx.afterCommit (s : LeadStore) : LeadTx → LeadTx
  | .row _ _ contact => if contact.all s.admits then .committed else .raised .integrity
  | .merging _ _ _ => .committed
  | tx => tx

/-- What the commit of a call writes: nothing, if the constraints of `contacts` refuse its contact. -/
def LeadStore.commit (s : LeadStore) : LeadTx → LeadStore
  | .row loaded target contact =>
    if contact.all s.admits then
      { s.flush loaded target with contacts := s.contacts ++ (contact.map (some loaded.id, ·)).toList }
    else s
  | .merging survivor loser now =>
    (s.flush survivor (survivor.absorb loser)).flush loser (loser.mergeAway survivor.id now)
  | _ => s

namespace LeadSystem

/-- No call was made yet. -/
def start (store : LeadStore) : LeadSystem := ⟨store, []⟩

def step (s : LeadSystem) : LeadStep → LeadSystem
  | .call c => { s with txs := s.txs ++ [.ofCall (s.store.openCall c)] }
  | .merge survivorId loserId now => { s with txs := s.txs ++ [.ofMerge s.store survivorId loserId now] }
  | .readLoser k =>
    match s.txs[k]? with
    | some (.survivorRead survivor loserId now) =>
      { s with txs := s.txs.set k (.ofLoser s.store survivor loserId now) }
    | _ => s
  | .commit k =>
    match s.txs[k]? with
    | some tx => ⟨s.store.commit tx, s.txs.set k (tx.afterCommit s.store)⟩
    | none => s
  | .bulkUpdate scope ids changes =>
    { s with store := (s.store.bulkUpdate scope ids changes).toOption.getD s.store }

end LeadSystem

/-! ## Conversion -/

/-- A lead is converted exactly if it names its contact. -/
def Lead.Coherent (lead : Lead) : Prop := lead.status = .converted ↔ lead.convertedContactId.isSome = true

/-- **Converted once**: the leads are coherent, and no two contacts were created from one lead. -/
structure ConvertedOnce (s : LeadStore) : Prop where
  coherent : ∀ lead ∈ s.tables.leads.rows, lead.Coherent
  one_contact : s.convertedLeads.Nodup

/-- A flush that writes the status alone writes `converted` exactly if the stored lead is converted; one that writes
the contact alone names one exactly if the stored lead is converted; one that writes both writes `converted` exactly
if it names a contact. -/
structure WritesCoherent (loaded target stored : Lead) : Prop where
  status_alone : target.status ≠ loaded.status → target.convertedContactId = loaded.convertedContactId →
    (target.status = .converted ↔ stored.status = .converted)
  contact_alone : target.status = loaded.status → target.convertedContactId ≠ loaded.convertedContactId →
    (stored.status = .converted ↔ target.convertedContactId.isSome = true)
  both : target.status ≠ loaded.status → target.convertedContactId ≠ loaded.convertedContactId →
    (target.status = .converted ↔ target.convertedContactId.isSome = true)

/-- The bulk update converts a lead: it finds all its leads and may move each of them. -/
structure ConvertsInBulk (s : LeadStore) (scope : Lead → Bool) (ids : List Uuid) (changes : BulkChanges)
    (lead : Lead) : Prop where
  asked : changes.status = some "converted"
  accepted : BulkAccepted s scope ids changes
  selected : lead ∈ s.tables.leads.rows.filter (LeadStore.selected scope ids)
  not_converted : lead.status ≠ .converted

/-- The condition on the commit of a call, if the table of contacts admits it. -/
def CommitsCoherent (s : LeadStore) : LeadTx → Prop
  | .row loaded target contact => contact.all s.admits = true →
    (∀ stored, s.tables.leads.find? loaded.id = some stored → WritesCoherent loaded target stored) ∧
      (contact.isSome = true → loaded.id ∉ s.convertedLeads)
  | .merging _ loser _ =>
    ∀ stored, s.tables.leads.find? loser.id = some stored → loser.status ≠ .archived → stored.status ≠ .converted
  | _ => True

/-- **The condition on a step**: a commit that is not refused writes coherently and inserts no second contact, a
merge does not archive a lead that has been converted, and a bulk update converts no lead. -/
def ConvertsOnce (s : LeadSystem) : LeadStep → Prop
  | .commit k => ∀ tx, s.txs[k]? = some tx → CommitsCoherent s.store tx
  | .bulkUpdate scope ids changes => ∀ lead, ¬ConvertsInBulk s.store scope ids changes lead
  | _ => True

/-- A flush leaves a coherent row coherent exactly if it writes coherently. -/
theorem coherent_flush_iff {loaded target stored : Lead} (hstored : stored.Coherent) :
    (loaded.flush target stored).Coherent ↔ WritesCoherent loaded target stored := by
  change (column loaded.status target.status stored.status = .converted ↔
    (column loaded.convertedContactId target.convertedContactId stored.convertedContactId).isSome = true) ↔ _
  by_cases hstatus : target.status = loaded.status
  · by_cases hcontact : target.convertedContactId = loaded.convertedContactId
    · rw [hstatus, hcontact, column_self, column_self]
      exact iff_of_true hstored ⟨fun h => absurd hstatus h, fun _ h => absurd hcontact h, fun h => absurd hstatus h⟩
    · rw [hstatus, column_self, column_of_ne hcontact]
      exact ⟨fun h => ⟨fun hne => absurd hstatus hne, fun _ _ => h, fun hne => absurd hstatus hne⟩,
        fun h => h.contact_alone hstatus hcontact⟩
  · by_cases hcontact : target.convertedContactId = loaded.convertedContactId
    · rw [hcontact, column_self, column_of_ne hstatus, ← show _ ↔ _ from hstored]
      exact ⟨fun h => ⟨fun _ _ => h, fun heq => absurd heq hstatus, fun _ hne => absurd hcontact hne⟩,
        fun h => h.status_alone hstatus hcontact⟩
    · rw [column_of_ne hstatus, column_of_ne hcontact]
      exact ⟨fun h => ⟨fun _ heq => absurd heq hcontact, fun heq => absurd heq hstatus, fun _ _ => h⟩,
        fun h => h.both hstatus hcontact⟩

theorem coherent_rows_iff {s : LeadStore} {loaded target : Lead}
    (hs : ∀ lead ∈ s.tables.leads.rows, lead.Coherent) :
    (∀ lead ∈ (s.flush loaded target).tables.leads.rows, lead.Coherent) ↔
      ∀ stored, s.tables.leads.find? loaded.id = some stored → WritesCoherent loaded target stored := by
  refine (Table.forall_modify_iff flush_id hs).trans (forall₂_congr fun stored hfind => ?_)
  exact coherent_flush_iff (hs stored (Table.mem_of_find? hfind))

/-- The survivor of a merge keeps its status and its contact. -/
theorem writesCoherent_absorb (survivor loser stored : Lead) :
    WritesCoherent survivor (survivor.absorb loser) stored :=
  ⟨fun h => absurd rfl h, fun _ h => absurd rfl h, fun h => absurd rfl h⟩

/-- The loser of a merge is archived. -/
theorem writesCoherent_mergeAway_iff {loser stored : Lead} {survivorId : Uuid} {now : ℤ} :
    WritesCoherent loser (loser.mergeAway survivorId now) stored ↔
      (loser.status ≠ .archived → stored.status ≠ .converted) := by
  constructor
  · intro h hne hconverted
    have harchived := (h.status_alone (fun heq => hne heq.symm) rfl).mpr hconverted
    cases harchived
  · intro h
    refine ⟨fun hne _ => iff_of_false (fun heq => by cases heq) (h fun heq => hne heq.symm), fun _ hne => ?_,
      fun _ hne => ?_⟩
    · exact absurd rfl hne
    · exact absurd rfl hne

/-- The status of a row does not depend on whether it absorbed another. -/
theorem find?_flush_absorb {s : LeadStore} {survivor loser : Lead} {id : Uuid} {Q : LeadStatus → Prop} :
    (∀ stored, (s.flush survivor (survivor.absorb loser)).tables.leads.find? id = some stored → Q stored.status) ↔
      ∀ stored, s.tables.leads.find? id = some stored → Q stored.status := by
  unfold LeadStore.flush
  rw [Table.find?_modify]
  have hstatus : ∀ stored : Lead, (Table.modifyRow Lead.id survivor.id
      (survivor.flush (survivor.absorb loser)) stored).status = stored.status := by
    intro stored
    unfold Table.modifyRow
    split_ifs
    · exact column_self _ _
    · rfl
  constructor
  · intro h stored hfind
    rw [← hstatus stored]
    exact h _ (by rw [hfind, Option.map_some])
  · intro h stored hfind
    obtain ⟨stored', hfind', rfl⟩ := Option.map_eq_some_iff.mp hfind
    rw [hstatus]
    exact h stored' hfind'

theorem nodup_concat_iff {ids : List Uuid} (hids : ids.Nodup) {id : Uuid} {contact : Option Contact} :
    (ids ++ (contact.map (some id, ·)).toList.filterMap Prod.fst).Nodup ↔ (contact.isSome = true → id ∉ ids) := by
  cases contact with
  | none => simpa using hids
  | some c =>
    have hone : (Option.map (some id, ·) (some c)).toList.filterMap Prod.fst = [id] := rfl
    rw [hone, List.nodup_append]
    simp only [hids, List.nodup_singleton, List.mem_singleton, true_and, Option.isSome_some, forall_const]
    constructor
    · exact fun h hmem => h id hmem id rfl rfl
    · rintro h a ha b rfl rfl
      exact h ha

/-- A commit keeps the property exactly if it meets its condition. -/
theorem convertedOnce_commit_iff {s : LeadStore} {tx : LeadTx} (hs : ConvertedOnce s) :
    ConvertedOnce (s.commit tx) ↔ CommitsCoherent s tx := by
  cases tx with
  | row loaded target contact =>
    have hrows := @coherent_rows_iff s loaded target hs.coherent
    have hcontacts := @nodup_concat_iff _ hs.one_contact loaded.id contact
    unfold LeadStore.convertedLeads at hcontacts
    rw [← List.filterMap_append] at hcontacts
    unfold LeadStore.commit CommitsCoherent
    dsimp only
    by_cases hadmits : contact.all s.admits = true
    · rw [if_pos hadmits, imp_iff_right hadmits]
      constructor
      · intro h
        exact ⟨hrows.mp h.coherent, hcontacts.mp h.one_contact⟩
      · intro h
        exact ⟨hrows.mpr h.1, hcontacts.mpr h.2⟩
    · rw [if_neg hadmits]
      exact iff_of_true hs fun h => absurd h hadmits
  | merging survivor loser now =>
    have hsurvivor : ∀ lead ∈ (s.flush survivor (survivor.absorb loser)).tables.leads.rows, lead.Coherent :=
      (coherent_rows_iff hs.coherent).mpr fun stored _ => writesCoherent_absorb survivor loser stored
    have hrows := @coherent_rows_iff _ loser (loser.mergeAway survivor.id now) hsurvivor
    simp only [writesCoherent_mergeAway_iff] at hrows
    rw [@find?_flush_absorb s survivor loser loser.id
      (fun status => loser.status ≠ .archived → status ≠ .converted)] at hrows
    exact ⟨fun h => hrows.mp h.coherent, fun h => ⟨hrows.mpr h, hs.one_contact⟩⟩
  | _ => exact iff_of_true hs trivial

/-- A bulk update leaves a coherent row coherent unless it converts it. -/
theorem coherent_bulk_iff {lead lead' : Lead} {changes : BulkChanges} (hlead : lead.Coherent)
    (h : BulkUpdated lead changes lead') :
    lead'.Coherent ↔ (lead'.status = .converted → lead.status = .converted) := by
  have hcontact : lead'.convertedContactId = lead.convertedContactId := by rw [h.same]
  unfold Lead.Coherent at hlead ⊢
  rw [hcontact, ← hlead]
  refine ⟨fun hiff => hiff.mp, fun hmp => ⟨hmp, fun hconverted => ?_⟩⟩
  -- no bulk update moves a converted lead
  by_contra hne
  have hasked := bulkStatus_asked h.status (fun heq => hne (heq.trans hconverted))
  have hassert := h.status
  rw [BulkChanges.nextStatus, hasked, hconverted] at hassert
  exact hne (assertTransition_converted hassert)

theorem convertedOnce_bulk_iff {s : LeadStore} {scope : Lead → Bool} {ids : List Uuid} {changes : BulkChanges}
    (hs : ConvertedOnce s) :
    ConvertedOnce ((s.bulkUpdate scope ids changes).toOption.getD s) ↔
      ∀ lead, ¬ConvertsInBulk s scope ids changes lead := by
  constructor
  · intro honce lead hconverts
    obtain ⟨s', hrun⟩ := bulkUpdate_returns hconverts.accepted
    rw [hrun] at honce
    obtain ⟨row, hrow, hok⟩ := bulk_mem_of_ok hrun hconverts.selected
    have hbulk := bulkUpdated_of_ok hok
    have hlead := hs.coherent lead (List.mem_filter.mp hconverts.selected).1
    have hstatus : row.status = .converted :=
      (Option.some.inj (bulkStatus_allowed hbulk.status hconverts.asked).text).symm
    exact hconverts.not_converted ((coherent_bulk_iff hlead hbulk).mp (honce.coherent row hrow) hstatus)
  · intro hnone
    cases hrun : s.bulkUpdate scope ids changes with
    | error e => exact hs
    | ok s' =>
      obtain ⟨-, -, hstore⟩ := bulk_of_ok hrun
      refine ⟨fun row hrow => ?_, ?_⟩
      · obtain ⟨lead, hlead, -, rfl | ⟨hselected, hok⟩⟩ := mem_bulk hrun hrow
        · exact hs.coherent row hlead
        · have hbulk := bulkUpdated_of_ok hok
          refine (coherent_bulk_iff (hs.coherent lead hlead) hbulk).mpr fun hconverted => ?_
          by_contra hne
          have hasked := bulkStatus_asked hbulk.status fun heq => hne (heq.symm.trans hconverted)
          rw [hconverted] at hasked
          exact hnone lead ⟨hasked, bulkAccepted_of_ok hrun, List.mem_filter.mpr ⟨hlead, hselected⟩, hne⟩
      · rw [hstore]
        exact hs.one_contact

theorem convertedOnce_step_iff {s : LeadSystem} {l : LeadStep} (hs : ConvertedOnce s.store) :
    ConvertedOnce (s.step l).store ↔ ConvertsOnce s l := by
  cases l with
  | commit k =>
    unfold LeadSystem.step ConvertsOnce
    dsimp only
    cases hk : s.txs[k]? with
    | none => exact iff_of_true hs fun tx htx => by cases htx
    | some tx =>
      simp only [Option.some.injEq, forall_eq']
      exact convertedOnce_commit_iff hs
  | bulkUpdate scope ids changes => exact convertedOnce_bulk_iff hs
  | readLoser k =>
    refine iff_of_true ?_ trivial
    unfold LeadSystem.step
    dsimp only
    split
    · exact hs
    · exact hs
  | _ => exact iff_of_true hs trivial

/-- **In every state of a run each lead is converted once and coherently exactly if** every step meets its
condition. -/
theorem converted_once_iff (store : LeadStore) (hstore : ConvertedOnce store) (steps : List LeadStep) :
    Always LeadSystem.step (fun s => ConvertedOnce s.store) (.start store) steps ↔
      Meets LeadSystem.step ConvertsOnce (.start store) steps :=
  @always_iff_meets_of_step _ _ LeadSystem.step (fun s => ConvertedOnce s.store) ConvertsOnce
    (fun _ _ hs => convertedOnce_step_iff hs) steps (.start store) hstore

instance (s : LeadStore) : Decidable (ConvertedOnce s) :=
  decidable_of_iff ((∀ lead ∈ s.tables.leads.rows,
      (lead.status = .converted ↔ lead.convertedContactId.isSome = true)) ∧ s.convertedLeads.Nodup)
    ⟨fun h => ⟨h.1, h.2⟩, fun h => ⟨h.coherent, h.one_contact⟩⟩

/-- One lead, contacted, with a phone and no email. -/
def contactedLead : Lead := sampleLead '1' (some "+91 98450 12201")

def contactedStore : LeadStore := ⟨sampleTables (some "+91 98450 12201"), []⟩

def convertSteps : List LeadStep := [.call (.convert (fun _ => true) (sampleUuid '1') (sampleUuid '2')), .commit 0]

/-- One conversion, which makes a contact. -/
theorem converted_once_convertSteps : ConvertedOnce contactedStore ∧
    Always LeadSystem.step (fun s => ConvertedOnce s.store) (.start contactedStore) convertSteps ∧
    (after LeadSystem.step (.start contactedStore) convertSteps).store.convertedLeads = [sampleUuid '1'] := by
  refine ⟨by decide, (converted_once_iff contactedStore (by decide) convertSteps).mpr ⟨trivial, ?_, trivial⟩,
    by decide +kernel⟩
  intro tx htx
  obtain ⟨target, htarget⟩ : ∃ target, contactedLead.convert (sampleUuid '2') = .ok target := ⟨_, rfl⟩
  have hcall : contactedStore.openCall (.convert (fun _ => true) (sampleUuid '1') (sampleUuid '2')) =
      .ok (contactedLead, target, some (contactedLead.contact (sampleUuid '2'))) := by
    exact bind_eq_ok.mpr ⟨contactedLead, rfl, bind_eq_ok.mpr ⟨target, htarget, rfl⟩⟩
  change some (LeadTx.ofCall (contactedStore.openCall _)) = some tx at htx
  rw [hcall] at htx
  obtain rfl := Option.some.inj htx
  obtain ⟨-, rfl⟩ := convert_eq_ok htarget
  refine fun _ => ⟨fun stored _ => ⟨fun _ hcontact => ?_, fun hstatus => ?_, fun _ _ => iff_of_true rfl rfl⟩, fun _ => ?_⟩
  · cases hcontact
  · cases hstatus
  · exact List.not_mem_nil

/-- An update converts a lead without a contact; a lead without an email that is converted twice has two contacts; an
update that loaded the lead before archives it after its conversion. -/
theorem converted_twice :
    ¬Always LeadSystem.step (fun s => ConvertedOnce s.store) (.start contactedStore)
        [.call (.update (fun _ => true) (sampleUuid '1') { status := some "converted" } none), .commit 0] ∧
      ¬Always LeadSystem.step (fun s => ConvertedOnce s.store) (.start contactedStore)
        [.call (.convert (fun _ => true) (sampleUuid '1') (sampleUuid '2')), .commit 0,
          .call (.convert (fun _ => true) (sampleUuid '1') (sampleUuid '3')), .commit 1] ∧
      ¬Always LeadSystem.step (fun s => ConvertedOnce s.store) (.start contactedStore)
        [.call (.convert (fun _ => true) (sampleUuid '1') (sampleUuid '2')),
          .call (.update (fun _ => true) (sampleUuid '1') { status := some "archived" } none), .commit 0,
          .commit 1] := by
  refine ⟨?_, ?_, ?_⟩
  · intro h
    exact absurd (always_last h) (by decide +kernel)
  · intro h
    exact absurd (always_last h) (by decide +kernel)
  · intro h
    exact absurd (always_last h) (by decide +kernel)

end RevenueOS.Leads
