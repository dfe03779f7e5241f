import RevenueOS.Leads.Operations
import RevenueOS.Lib.Trace

/-!
# RevenueOS.Leads.StatusRuns — statuses and reasons over sequences of calls

* `status_follows_machine`: every change of a status is one of `ALLOWED_TRANSITIONS`, or `restore_lead` reopening a
  disqualified lead.
* `reasoned_iff`: when every disqualified lead carries its reason.
-/

namespace RevenueOS.Leads

open RevenueOS.Py RevenueOS.Lib RevenueOS.Workflows

/-! ## The state machine -/

/-- Every change of a lead's status is a move of `R`. -/
def StatusMoves (R : LeadStatus → LeadStatus → Prop) (s s' : LeadStore) : Prop :=
  ∀ a ∈ s.tables.leads.rows, ∀ b ∈ s'.tables.leads.rows, a.id = b.id → b.status ≠ a.status → R a.status b.status

/-- A move of `ALLOWED_TRANSITIONS`. -/
def AllowedMove (a b : LeadStatus) : Prop := b ∈ allowedTransitions a

instance : DecidableRel AllowedMove := fun a b => inferInstanceAs (Decidable (b ∈ allowedTransitions a))

/-- The call reopens a disqualified lead. -/
def LeadOp.Reopens (op : LeadOp) (a b : LeadStatus) : Prop :=
  (∃ id, op = .restore id) ∧ a = .disqualified ∧ b = .new

theorem nextStatus_moves {changes : LeadChanges} {current status : LeadStatus}
    (h : changes.nextStatus current = .ok status) (hne : status ≠ current) : AllowedMove current status := by
  unfold LeadChanges.nextStatus at h
  split at h
  · split_ifs at h
    · exact absurd (Except.ok.inj h).symm hne
    · exact (allowed_of_assertTransition h).move hne
  · exact absurd (Except.ok.inj h).symm hne

theorem bulkStatus_moves {changes : BulkChanges} {current status : LeadStatus}
    (h : changes.nextStatus current = .ok status) (hne : status ≠ current) : AllowedMove current status :=
  (bulkStatus_allowed h (bulkStatus_asked h hne)).move hne

/-- Every status but `converted` can be archived. -/
theorem archived_allowed {a : LeadStatus} (hconverted : a ≠ .converted) (hne : .archived ≠ a) :
    AllowedMove a .archived := by
  cases a with
  | converted => exact absurd rfl hconverted
  | archived => exact absurd rfl hne
  | _ => decide

/-- What a call makes of a row moves its status along the machine, or reopens it. -/
theorem makes_moves {op : LeadOp} {a b : Lead} (h : op.Makes a b) (hne : b.status ≠ a.status) :
    AllowedMove a.status b.status ∨ op.Reopens a.status b.status := by
  cases op with
  | capture call => cases h
  | update scope id changes expectedVersion =>
    obtain ⟨status, hstatus, -, -, -, rfl⟩ := update_eq_ok.mp h
    exact Or.inl (nextStatus_moves hstatus hne)
  | bulkUpdate scope ids changes => exact Or.inl (bulkStatus_moves (bulkUpdated_of_ok h).status hne)
  | convert scope id contactId =>
    obtain ⟨hassert, rfl⟩ := convert_eq_ok h
    exact Or.inl ((allowed_of_assertTransition hassert).move hne)
  | merge survivorId loserId now =>
    rcases h with ⟨loser, -, rfl⟩ | ⟨survivor, hchecks, rfl⟩
    · exact absurd rfl hne
    · exact Or.inl (archived_allowed (mergeChecks_eq_ok.mp hchecks).1 hne)
  | disqualify id reason =>
    obtain ⟨hassert, rfl⟩ := disqualify_eq_ok h.2
    exact Or.inl ((allowed_of_assertTransition hassert).move hne)
  | restore id =>
    obtain ⟨hclosed | hclosed, -, rfl⟩ := restore_eq_ok h
    · exact Or.inr ⟨⟨id, rfl⟩, hclosed, rfl⟩
    · refine Or.inl ?_
      rw [hclosed]
      exact List.mem_singleton_self _
  | commitImport call => cases h

/-- **Every change of a status follows the machine**, but for `restore_lead`, which reopens disqualified leads. -/
theorem status_follows_machine (lower : String → String) (s : LeadStore) (ops : List LeadOp) :
    Meets (LeadStore.step lower)
      (fun s op => StatusMoves (fun a b => AllowedMove a b ∨ op.Reopens a b) s (s.step lower op)) s ops := by
  refine meets_of_forall (fun s op => ?_) ops s
  intro a ha b hb hid hne
  rcases (step_rows s op).of_id ha hb hid with heq | hmakes
  · exact absurd (congrArg Lead.status heq) hne
  · exact makes_moves hmakes hne

def emptyStore : LeadStore := ⟨⟨.empty, .empty⟩, []⟩

def sampleCapture (leadId : Char) : CaptureCall where
  lower := Py.lower
  nfkd := id
  leadId := sampleUuid leadId
  idempotencyKey := none
  firstName := "Asha"
  lastName := none
  email := some "asha@stores.in"
  phone := none
  source := "manual"
  sourceChannel := none
  capture := []
  utm := []
  assigneeId := none
  branchId := none
  teamId := none

/-- A lead was captured and disqualified. -/
def disqualifiedStore : LeadStore :=
  after (LeadStore.step Py.lower) emptyStore
    [.capture (sampleCapture '1'), .disqualify (sampleUuid '1') "Not now"]

/-- `restore_lead` takes it from disqualified to new, which is not an allowed move. -/
theorem restore_reopens_disqualified :
    ¬Meets (LeadStore.step Py.lower) (fun s op => StatusMoves AllowedMove s (s.step Py.lower op)) disqualifiedStore
      [.restore (sampleUuid '1')] := by
  rintro ⟨hmoves, -⟩
  have hbefore : disqualifiedStore.tables.leads.rows.map (fun lead => (lead.id, lead.status)) =
      [(sampleUuid '1', .disqualified)] := by decide +kernel
  have hafter : (disqualifiedStore.step Py.lower (.restore (sampleUuid '1'))).tables.leads.rows.map
      (fun lead => (lead.id, lead.status)) = [(sampleUuid '1', .new)] := by decide +kernel
  obtain ⟨a, ha, hapair⟩ := List.mem_map.mp (hbefore ▸ List.mem_singleton_self _)
  obtain ⟨b, hb, hbpair⟩ := List.mem_map.mp (hafter ▸ List.mem_singleton_self _)
  obtain ⟨haid, hastatus⟩ := Prod.mk.inj hapair
  obtain ⟨hbid, hbstatus⟩ := Prod.mk.inj hbpair
  have hmove := hmoves a ha b hb (haid.trans hbid.symm)
  rw [hastatus, hbstatus] at hmove
  exact absurd (hmove (by decide)) (by decide)

/-! ## Reasons -/

/-- A disqualified row carries a reason. -/
def Lead.Reasoned (lead : Lead) : Prop := lead.status = .disqualified → noReason lead.disqualifyReason = false

/-- **Every disqualified lead has a stated reason.** -/
def Reasoned (s : LeadStore) : Prop := ∀ lead ∈ s.tables.leads.rows, lead.Reasoned

instance (s : LeadStore) : Decidable (Reasoned s) :=
  inferInstanceAs (Decidable (∀ lead ∈ s.tables.leads.rows,
    lead.status = .disqualified → noReason lead.disqualifyReason = false))

/-- A lead that `restore_lead` reopens is not disqualified and has no reason. -/
def RestoresClean (lower : String → String) (s : LeadStore) (op : LeadOp) : Prop :=
  ∀ id, op = .restore id → ∀ s', s.run lower op = .ok s' → ∀ lead ∈ s'.tables.leads.rows, lead.id = id →
    lead.status ≠ .disqualified ∧ lead.disqualifyReason = none

/-- The update empties the reason of a disqualified lead and leaves it disqualified: its status is none or the same,
its version matches and the table takes its values. -/
structure EmptiesReason (lead : Lead) (changes : LeadChanges) (expectedVersion : Option ℕ) : Prop where
  disqualified : lead.status = .disqualified
  empty : changes.disqualifyReason = some ""
  stays : changes.status = none ∨ changes.status = some "disqualified"
  version : expectedVersion.all (· = (lead.setAll changes).version) = true
  storable : (lead.updated changes .disqualified).storable = true

/-- The bulk update disqualifies a lead that has no reason: it finds all its leads and may move each of them. -/
structure DropsReason (s : LeadStore) (scope : Lead → Bool) (ids : List Uuid) (changes : BulkChanges) (lead : Lead) :
    Prop where
  asked : changes.status = some "disqualified"
  accepted : BulkAccepted s scope ids changes
  selected : lead ∈ s.tables.leads.rows.filter (LeadStore.selected scope ids)
  open_lead : lead.status ≠ .disqualified
  no_reason : noReason lead.disqualifyReason = true

/-- No update empties the reason of a disqualified lead, and no bulk update disqualifies a lead without one. -/
def KeepsReasons (s : LeadStore) : LeadOp → Prop
  | .update scope id changes expectedVersion =>
    ∀ lead, s.getScoped id scope = .ok lead → ¬EmptiesReason lead changes expectedVersion
  | .bulkUpdate scope ids changes => ∀ lead, ¬DropsReason s scope ids changes lead
  | _ => True

/-! ### Updates -/

/-- An update that passed has a reason for a lead it disqualifies. -/
theorem nextStatus_reason {changes : LeadChanges} {current status : LeadStatus}
    (h : changes.nextStatus current = .ok status) (hne : status ≠ current) (hdisqualified : status = .disqualified) :
    noReason changes.disqualifyReason = false := by
  unfold LeadChanges.nextStatus at h
  split at h
  · split_ifs at h
    · exact absurd (Except.ok.inj h).symm hne
    · exact (allowed_of_assertTransition h).reason hne hdisqualified
  · exact absurd (Except.ok.inj h).symm hne

/-- A disqualified lead stays so when the update asks for nothing else. -/
theorem nextStatus_stays {changes : LeadChanges} (hne : changes.status ≠ some "") :
    changes.nextStatus .disqualified = .ok .disqualified ↔
      changes.status = none ∨ changes.status = some "disqualified" := by
  unfold LeadChanges.nextStatus
  cases hstatus : changes.status with
  | none => simp
  | some text =>
    rw [hstatus] at hne
    have htext : text ≠ "" := fun heq => hne (congrArg some heq)
    dsimp only
    rw [if_neg htext]
    constructor
    · intro h
      have hof := (allowed_of_assertTransition h).text
      refine Or.inr (congrArg some ?_)
      unfold LeadStatus.ofText? at hof
      split at hof <;> first | rfl | cases hof
    · rintro (hnone | heq)
      · cases hnone
      · obtain rfl := Option.some.inj heq
        rfl

/-- An updated row lacks its reason exactly if the update emptied it. -/
theorem reasoned_updated_iff {lead : Lead} {changes : LeadChanges} {status : LeadStatus} (hlead : lead.Reasoned)
    (hstatus : changes.nextStatus lead.status = .ok status) :
    (lead.updated changes status).Reasoned ↔
      ¬(lead.status = .disqualified ∧ changes.disqualifyReason = some "" ∧ status = .disqualified) := by
  change (status = .disqualified → noReason (changes.disqualifyReason.or lead.disqualifyReason) = false) ↔ _
  constructor
  · rintro hreason ⟨-, hempty, hdisqualified⟩
    have hfalse := hreason hdisqualified
    rw [hempty] at hfalse
    cases hfalse
  · intro hkept hdisqualified
    cases hreason : changes.disqualifyReason with
    | none =>
      by_cases hsame : status = lead.status
      · exact hlead (hsame.symm.trans hdisqualified)
      · have hnone := nextStatus_reason hstatus hsame hdisqualified
        rw [hreason] at hnone
        cases hnone
    | some reason =>
      by_cases hempty : reason = ""
      · subst hempty
        by_cases hsame : status = lead.status
        · exact absurd ⟨hsame.symm.trans hdisqualified, hreason, hdisqualified⟩ hkept
        · have hnone := nextStatus_reason hstatus hsame hdisqualified
          rw [hreason] at hnone
          cases hnone
      · exact beq_false_of_ne hempty

/-- One row is written, and the others carry their reasons. -/
theorem reasoned_put_iff {s : LeadStore} {lead lead' : Lead} (hs : Reasoned s)
    (hfind : s.tables.leads.find? lead.id = some lead) (hid : lead'.id = lead.id) :
    Reasoned (s.put lead') ↔ lead'.Reasoned := by
  exact (Table.forall_modify_iff (fun _ _ => rfl) hs).trans ⟨fun h => h lead (hid ▸ hfind), fun h _ _ => h⟩

theorem update_run {s s' : LeadStore} {scope : Lead → Bool} {id : Uuid} {changes : LeadChanges}
    {expectedVersion : Option ℕ} (h : s.update scope id changes expectedVersion = .ok s') :
    ∃ lead status, s.getScoped id scope = .ok lead ∧ changes.nextStatus lead.status = .ok status ∧
      expectedVersion.all (· = (lead.setAll changes).version) = true ∧ changes.status ≠ some "" ∧
      (lead.updated changes status).storable = true ∧ s' = s.put (lead.updated changes status) := by
  obtain ⟨lead, hload, h⟩ := bind_eq_ok.mp h
  obtain ⟨lead', hlead', h⟩ := bind_eq_ok.mp h
  obtain ⟨status, hstatus, hversion, hne, hstorable, rfl⟩ := update_eq_ok.mp hlead'
  exact ⟨lead, status, hload, hstatus, hversion, hne, hstorable, (pure_eq_ok.mp h).symm⟩

/-- An update that raises changes nothing, so it empties no reason. -/
theorem run_of_emptiesReason {s : LeadStore} {scope : Lead → Bool} {id : Uuid} {changes : LeadChanges}
    {expectedVersion : Option ℕ} {lead : Lead} (hload : s.getScoped id scope = .ok lead)
    (h : EmptiesReason lead changes expectedVersion) :
    s.update scope id changes expectedVersion = .ok (s.put (lead.updated changes .disqualified)) := by
  have hne : changes.status ≠ some "" := by
    rcases h.stays with hnone | hsame
    · rw [hnone]
      exact fun heq => by cases heq
    · rw [hsame]
      decide
  have hstatus : changes.nextStatus lead.status = .ok .disqualified := by
    rw [h.disqualified]
    exact (nextStatus_stays hne).mpr h.stays
  unfold LeadStore.update
  refine bind_eq_ok.mpr ⟨lead, hload, bind_eq_ok.mpr ⟨_, ?_, rfl⟩⟩
  exact update_eq_ok.mpr ⟨.disqualified, hstatus, h.version, hne, h.storable, rfl⟩

theorem reasoned_update_iff {lower : String → String} {s : LeadStore} {scope : Lead → Bool} {id : Uuid}
    {changes : LeadChanges} {expectedVersion : Option ℕ} (hs : Reasoned s) :
    Reasoned (s.step lower (.update scope id changes expectedVersion)) ↔
      KeepsReasons s (.update scope id changes expectedVersion) := by
  change Reasoned ((s.update scope id changes expectedVersion).toOption.getD s) ↔
    ∀ lead, s.getScoped id scope = .ok lead → ¬EmptiesReason lead changes expectedVersion
  constructor
  · intro hreasoned lead hload hempties
    rw [run_of_emptiesReason hload hempties] at hreasoned
    have hlead := (@reasoned_put_iff s lead (lead.updated changes .disqualified) hs (find?_of_load hload) rfl).mp
      hreasoned
    have hfalse := hlead rfl
    change noReason (changes.disqualifyReason.or lead.disqualifyReason) = false at hfalse
    rw [hempties.empty] at hfalse
    cases hfalse
  · intro hkeeps
    cases hrun : s.update scope id changes expectedVersion with
    | error e => exact hs
    | ok s' =>
      obtain ⟨lead, status, hload, hstatus, hversion, hne, hstorable, rfl⟩ := update_run hrun
      have hfind := find?_of_load hload
      refine (@reasoned_put_iff s lead (lead.updated changes status) hs hfind rfl).mpr ?_
      rw [reasoned_updated_iff (hs lead (Table.mem_of_find? hfind)) hstatus]
      rintro ⟨hdisqualified, hempty, rfl⟩
      rw [hdisqualified] at hstatus
      exact hkeeps lead hload ⟨hdisqualified, hempty, (nextStatus_stays hne).mp hstatus, hversion, hstorable⟩

/-! ### Bulk updates -/

/-- Rows that a bulk update wrote keep the reason they had. -/
theorem reasoned_bulk_iff {lower : String → String} {s : LeadStore} {scope : Lead → Bool} {ids : List Uuid}
    {changes : BulkChanges} (hs : Reasoned s) :
    Reasoned (s.step lower (.bulkUpdate scope ids changes)) ↔ KeepsReasons s (.bulkUpdate scope ids changes) := by
  change Reasoned ((s.bulkUpdate scope ids changes).toOption.getD s) ↔ ∀ lead, ¬DropsReason s scope ids changes lead
  constructor
  · intro hreasoned lead hdrops
    obtain ⟨s', hrun⟩ := bulkUpdate_returns hdrops.accepted
    rw [hrun] at hreasoned
    obtain ⟨row, hrow, hok⟩ := bulk_mem_of_ok hrun hdrops.selected
    have hbulk := bulkUpdated_of_ok hok
    have hstatus : row.status = .disqualified :=
      (Option.some.inj (bulkStatus_allowed hbulk.status hdrops.asked).text).symm
    have hreason : row.disqualifyReason = lead.disqualifyReason := by rw [hbulk.same]
    have hfalse := hreasoned row hrow hstatus
    rw [hreason, hdrops.no_reason] at hfalse
    cases hfalse
  · intro hkeeps
    cases hrun : s.bulkUpdate scope ids changes with
    | error e => exact hs
    | ok s' =>
      intro row hrow hdisqualified
      obtain ⟨lead, hlead, -, rfl | ⟨hselected, hok⟩⟩ := mem_bulk hrun hrow
      · exact hs row hlead hdisqualified
      · have hbulk := bulkUpdated_of_ok hok
        have hreason : row.disqualifyReason = lead.disqualifyReason := by rw [hbulk.same]
        rw [hreason]
        by_cases hsame : row.status = lead.status
        · exact hs lead hlead (hsame.symm.trans hdisqualified)
        · by_contra hnone
          refine hkeeps lead ⟨?_, bulkAccepted_of_ok hrun, List.mem_filter.mpr ⟨hlead, hselected⟩, ?_, ?_⟩
          · rw [bulkStatus_asked hbulk.status hsame, hdisqualified]
            rfl
          · exact fun h => hsame (hdisqualified.trans h.symm)
          · exact Bool.not_eq_false _ ▸ hnone

/-! ### Runs -/

theorem slice_ne_empty {text : String} {n : ℕ} (htext : 3 ≤ text.length) (hn : 0 < n) : slice text n ≠ "" := by
  intro h
  have hlength := congrArg String.length h
  unfold slice at hlength
  rw [String.length_ofList, List.length_take, String.length_toList] at hlength
  change min n text.length = 0 at hlength
  omega

/-- What the other calls make of a row that carries its reason carries one too. -/
theorem makes_reasoned {op : LeadOp} {a b : Lead} (h : op.Makes a b) (ha : a.Reasoned)
    (hop : ∀ scope id changes expectedVersion, op ≠ .update scope id changes expectedVersion)
    (hop' : ∀ scope ids changes, op ≠ .bulkUpdate scope ids changes) : b.Reasoned := by
  cases op with
  | capture call => cases h
  | update scope id changes expectedVersion => exact absurd rfl (hop scope id changes expectedVersion)
  | bulkUpdate scope ids changes => exact absurd rfl (hop' scope ids changes)
  | convert scope id contactId =>
    obtain ⟨-, rfl⟩ := convert_eq_ok h
    exact fun hstatus => by cases hstatus
  | merge survivorId loserId now =>
    rcases h with ⟨loser, -, rfl⟩ | ⟨survivor, -, rfl⟩
    · exact ha
    · exact fun hstatus => by cases hstatus
  | disqualify id reason =>
    obtain ⟨-, rfl⟩ := disqualify_eq_ok h.2
    exact fun _ => beq_false_of_ne (slice_ne_empty h.1 (by decide))
  | restore id =>
    obtain ⟨-, -, rfl⟩ := restore_eq_ok h
    exact fun hstatus => by cases hstatus
  | commitImport call => cases h

theorem reasoned_step_iff {lower : String → String} {s : LeadStore} {op : LeadOp} (hs : Reasoned s) :
    Reasoned (s.step lower op) ↔ KeepsReasons s op := by
  have hother : (∀ scope id changes expectedVersion, op ≠ .update scope id changes expectedVersion) →
      (∀ scope ids changes, op ≠ .bulkUpdate scope ids changes) → Reasoned (s.step lower op) := by
    intro hop hop' b hb
    rcases step_rows s op b hb with hcreated | ⟨a, ha, -, rfl | hmakes⟩
    · intro hstatus
      rw [hcreated.status_new] at hstatus
      cases hstatus
    · exact hs b ha
    · exact makes_reasoned hmakes (hs a ha) hop hop'
  cases op with
  | update scope id changes expectedVersion => exact reasoned_update_iff hs
  | bulkUpdate scope ids changes => exact reasoned_bulk_iff hs
  | _ => exact iff_of_true (hother (fun _ _ _ _ h => by cases h) (fun _ _ _ h => by cases h)) trivial

theorem restoresClean (lower : String → String) (s : LeadStore) (op : LeadOp) : RestoresClean lower s op := by
  rintro id rfl s' h lead hlead hid
  obtain ⟨loaded, hload, h⟩ := bind_eq_ok.mp h
  obtain ⟨restored, hrestored, h⟩ := bind_eq_ok.mp h
  obtain rfl := pure_eq_ok.mp h
  obtain ⟨-, -, rfl⟩ := restore_eq_ok hrestored
  rcases mem_put hlead with rfl | ⟨-, hne⟩
  · exact ⟨fun hstatus => (by cases hstatus), rfl⟩
  · have hkey := Table.key_of_find? (load_eq_ok hload).1
    exact absurd (hid.trans hkey.symm) hne

/-- **The disqualified leads carry their reasons in every state of a run exactly if** no update empties the reason of
one and no bulk update disqualifies a lead without one. -/
theorem reasoned_iff (lower : String → String) (s : LeadStore) (hs : Reasoned s) (ops : List LeadOp) :
    (Always (LeadStore.step lower) Reasoned s ops ∧ Meets (LeadStore.step lower) (RestoresClean lower) s ops) ↔
      Meets (LeadStore.step lower) KeepsReasons s ops := by
  have hclean : Meets (LeadStore.step lower) (RestoresClean lower) s ops :=
    meets_of_forall (restoresClean lower) ops s
  rw [and_iff_left hclean]
  exact always_iff_meets_of_step (fun _ _ hs => reasoned_step_iff hs) ops s hs

/-- A lead is disqualified with a reason, and reopened. -/
def reasonedOps : List LeadOp :=
  [.capture (sampleCapture '1'),
    .update (fun _ => true) (sampleUuid '1')
      { status := some "disqualified", disqualifyReason := some "No budget" } none,
    .restore (sampleUuid '1')]

theorem reasoned_reasonedOps : Reasoned emptyStore ∧ Always (LeadStore.step Py.lower) Reasoned emptyStore reasonedOps ∧
    Meets (LeadStore.step Py.lower) (RestoresClean Py.lower) emptyStore reasonedOps := by
  refine ⟨by decide, (reasoned_iff Py.lower emptyStore (by decide) reasonedOps).mpr ?_⟩
  refine ⟨trivial, fun lead _ hempties => ?_, trivial, trivial⟩
  exact absurd hempties.empty (by decide)

/-- A bulk update disqualifies a lead, with a reason that it does not store; an update empties the reason of a
disqualified lead. -/
theorem reasons_lost :
    ¬Always (LeadStore.step Py.lower) Reasoned emptyStore
        [.capture (sampleCapture '1'),
          .bulkUpdate (fun _ => true) [sampleUuid '1']
            { status := some "disqualified", disqualifyReason := some "No budget" }] ∧
      ¬Always (LeadStore.step Py.lower) Reasoned disqualifiedStore
        [.update (fun _ => true) (sampleUuid '1') { disqualifyReason := some "" } none] := by
  constructor
  · intro h
    exact absurd (always_last h) (by decide +kernel)
  · intro h
    exact absurd (always_last h) (by decide +kernel)

end RevenueOS.Leads
