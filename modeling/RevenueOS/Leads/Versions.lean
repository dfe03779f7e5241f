import RevenueOS.Leads.Transactions

/-!
# RevenueOS.Leads.Versions — updates that name the version they were made from

`PATCH /leads/{id}` with an `If-Match` header: `parse_if_match`, then `LeadService.update`, which loads the row
without a lock, lets `bump_version` compare the version it has loaded and flushes at its commit (`Transactions`).
The requests run in any order; one that raises writes nothing.  Beside the tables a system keeps the updates that
were applied, each with the version its lead had in the tables just before.

* `no_update_lost_iff`: an update is applied only over the version its header names, and no version is named by two
  of them, in every state of a run exactly if each commit finds the version that was loaded and has a header that
  can be read.
-/

namespace RevenueOS.Leads

open RevenueOS.Py RevenueOS.Lib RevenueOS.Workflows

/-! ## The header -/

/-- `parse_if_match`; `int` raises on digits that are not decimal, and on too many. -/
def parseIfMatch (header : String) : Except LeadError (Option ℕ) :=
  if header = "" then .ok none
  else
    let cleaned := stripChars "\"" (removePrefix (strip header) "W/")
    if isDigitStr cleaned then
      match parseInt? cleaned with
      | some version => .ok (some version.toNat)
      | none => .error (.valueError "invalid literal for int()")
    else .ok none

/-- The version a header names. -/
def Names (header : String) (version : ℕ) : Prop := parseIfMatch header = .ok (some version)

example : parseIfMatch "W/\"3\"" = .ok (some 3) ∧ parseIfMatch "\"3\"" = .ok (some 3) ∧ parseIfMatch "*" = .ok none ∧
    parseIfMatch "\"3\", \"4\"" = .ok none ∧ parseIfMatch "²" = .error (.valueError "invalid literal for int()") := by
  decide

/-! ## The requests -/

/-- `LeadUpdate` of `api/v1/schemas.py`; the version is not among its fields. -/
structure LeadUpdate where
  firstName : Option String := none
  lastName : Option String := none
  status : Option LeadStatus := none
  assigneeId : Option Uuid := none
  capture : Option Dict := none
  disqualifyReason : Option String := none

/-- `payload.model_dump(exclude_unset=True)`. -/
def LeadUpdate.changes (payload : LeadUpdate) : LeadChanges where
  firstName := payload.firstName
  lastName := payload.lastName
  status := payload.status.map LeadStatus.value
  assigneeId := payload.assigneeId
  capture := payload.capture
  disqualifyReason := payload.disqualifyReason

/-- A request to update a lead; its header is not empty. -/
structure UpdateRequest where
  scope : Lead → Bool
  id : Uuid
  payload : LeadUpdate
  header : String
  header_ne : header ≠ ""

/-- `update_lead` up to its commit: the row it loads and the row it will flush. -/
def UpdateRequest.run (r : UpdateRequest) (s : LeadStore) : Except LeadError (Lead × Lead) := do
  let expectedVersion ← parseIfMatch r.header
  let lead ← s.getScoped r.id r.scope
  let target ← lead.update r.payload.changes expectedVersion
  return (lead, target)

/-- Where a request stands. -/
inductive UpdateTx where
  | row (header : String) (loaded target : Lead)
  | committed
  | raised (error : LeadError)

/-- A request after it ran up to its commit. -/
def UpdateTx.ofRun (header : String) : Except LeadError (Lead × Lead) → UpdateTx
  | .ok (loaded, target) => .row header loaded target
  | .error error => .raised error

/-- An update that was applied: the version is the one committed before it. -/
structure AppliedUpdate where
  leadId : Uuid
  header : String
  before : ℕ

structure UpdateSystem where
  store : LeadStore
  txs : List UpdateTx
  applied : List AppliedUpdate

inductive UpdateStep where
  | request (r : UpdateRequest)
  | commit (k : ℕ)

namespace UpdateSystem

/-- No request was made yet. -/
def start (store : LeadStore) : UpdateSystem := ⟨store, [], []⟩

/-- The commit of a request; an `UPDATE` that finds no row raises. -/
def commitRow (s : UpdateSystem) (k : ℕ) (header : String) (loaded target : Lead) : UpdateSystem :=
  match s.store.tables.leads.find? loaded.id with
  | some stored =>
    ⟨s.store.flush loaded target, s.txs.set k .committed, s.applied ++ [⟨loaded.id, header, stored.version⟩]⟩
  | none => { s with txs := s.txs.set k (.raised .integrity) }

def step (s : UpdateSystem) : UpdateStep → UpdateSystem
  | .request r => { s with txs := s.txs ++ [.ofRun r.header (r.run s.store)] }
  | .commit k =>
    match s.txs[k]? with
    | some (.row header loaded target) => s.commitRow k header loaded target
    | _ => s

end UpdateSystem

/-! ## No update is lost -/

/-- **No update is lost**: what was applied was applied over the version its header names, two updates that name one
version of a lead were not both applied, and no header that cannot be read stands for none. -/
structure NoUpdateLost (applied : List AppliedUpdate) : Prop where
  named : ∀ a ∈ applied, Names a.header a.before
  once : applied.Pairwise fun a b => a.leadId = b.leadId → ∀ version, Names a.header version → ¬Names b.header version
  readable : ∀ a ∈ applied, parseIfMatch a.header ≠ .ok none

/-- **The condition on a step**: a commit has a header that can be read, and its lead has the version it had when
the request loaded it. -/
def CommitsCurrent (s : UpdateSystem) : UpdateStep → Prop
  | .request _ => True
  | .commit k => ∀ header loaded target stored, s.txs[k]? = some (.row header loaded target) →
      s.store.tables.leads.find? loaded.id = some stored →
      parseIfMatch header ≠ .ok none ∧ stored.version = loaded.version

/-- What a request has made sure of when it can commit. -/
structure Checked (header : String) (loaded target : Lead) : Prop where
  expected : parseIfMatch header ≠ .ok none → Names header loaded.version
  bumped : target.version = loaded.version + 1

theorem names_inj {header : String} {v w : ℕ} (hv : Names header v) (hw : Names header w) : v = w :=
  Option.some.inj (Except.ok.inj (hv.symm.trans hw))

theorem readable_of_names {header : String} {version : ℕ} (h : Names header version) :
    parseIfMatch header ≠ .ok none := by
  intro hnone
  rw [Names, hnone] at h
  cases h

theorem checked_of_run {r : UpdateRequest} {s : LeadStore} {loaded target : Lead}
    (h : r.run s = .ok (loaded, target)) : Checked r.header loaded target := by
  unfold UpdateRequest.run at h
  obtain ⟨expectedVersion, hparse, h⟩ := bind_eq_ok.mp h
  obtain ⟨lead, -, h⟩ := bind_eq_ok.mp h
  obtain ⟨target', hupdate, h⟩ := bind_eq_ok.mp h
  obtain ⟨rfl, rfl⟩ := Prod.mk.inj (pure_eq_ok.mp h)
  obtain ⟨status, -, hversion, -, -, rfl⟩ := update_eq_ok.mp hupdate
  refine ⟨fun hreadable => ?_, rfl⟩
  cases expectedVersion with
  | none => exact absurd hparse hreadable
  | some version =>
    have heq : version = lead.version := of_decide_eq_true hversion
    rw [heq] at hparse
    exact hparse

/-- The version of a lead after the flush of a request. -/
theorem version_flush {s : LeadStore} {loaded target : Lead} {id : Uuid} {after : Lead}
    (hbumped : target.version = loaded.version + 1)
    (hfind : (s.flush loaded target).tables.leads.find? id = some after) :
    ∃ before, s.tables.leads.find? id = some before ∧
      (id = loaded.id ∧ after.version = loaded.version + 1 ∨ id ≠ loaded.id ∧ after = before) := by
  unfold LeadStore.flush at hfind
  dsimp only at hfind
  rw [Table.find?_modify] at hfind
  obtain ⟨before, hbefore, rfl⟩ := Option.map_eq_some_iff.mp hfind
  have hkey := Table.key_of_find? hbefore
  refine ⟨before, hbefore, ?_⟩
  unfold Table.modifyRow
  by_cases hid : id = loaded.id
  · rw [if_pos (hkey.trans hid)]
    refine .inl ⟨hid, ?_⟩
    show column loaded.version target.version before.version = loaded.version + 1
    rw [column_of_ne (by omega), hbumped]
  · rw [if_neg fun heq => hid (hkey.symm.trans heq)]
    exact .inr ⟨hid, rfl⟩

/-- The invariant of the runs that meet the condition: the versions of the leads have passed those that were
applied over. -/
structure UpdatesInv (s : UpdateSystem) : Prop where
  checked : ∀ header loaded target, .row header loaded target ∈ s.txs → Checked header loaded target
  no_lost : NoUpdateLost s.applied
  passed : ∀ a ∈ s.applied, ∀ stored, s.store.tables.leads.find? a.leadId = some stored → a.before < stored.version

theorem updatesInv_start (store : LeadStore) : UpdatesInv (.start store) where
  checked := by
    intro _ _ _ h
    cases h
  no_lost := ⟨fun _ h => (List.not_mem_nil h).elim, List.Pairwise.nil, fun _ h => (List.not_mem_nil h).elim⟩
  passed := by
    intro _ h
    cases h

/-- A commit that meets the condition was asked for over the version it finds. -/
theorem names_of_current {s : UpdateSystem} {k : ℕ} {header : String} {loaded target stored : Lead}
    (hs : UpdatesInv s) (hc : CommitsCurrent s (.commit k)) (htx : s.txs[k]? = some (.row header loaded target))
    (hfind : s.store.tables.leads.find? loaded.id = some stored) :
    Names header stored.version ∧ stored.version = loaded.version := by
  obtain ⟨hreadable, hversion⟩ := hc header loaded target stored htx hfind
  have hchecked := hs.checked header loaded target (List.mem_of_getElem? htx)
  rw [hversion]
  exact ⟨hchecked.expected hreadable, rfl⟩

theorem noUpdateLost_concat {applied : List AppliedUpdate} {a : AppliedUpdate} (happlied : NoUpdateLost applied)
    (hnames : Names a.header a.before) (hpassed : ∀ b ∈ applied, b.leadId = a.leadId → b.before < a.before) :
    NoUpdateLost (applied ++ [a]) := by
  refine ⟨forall_mem_concat happlied.named hnames, ?_,
    forall_mem_concat happlied.readable (readable_of_names hnames)⟩
  rw [List.pairwise_append]
  refine ⟨happlied.once, List.pairwise_singleton _ _, fun b hb c hc => ?_⟩
  obtain rfl := List.mem_singleton.mp hc
  intro hlead version hb' hc'
  have hlt := hpassed b hb hlead
  have hbefore := names_inj (happlied.named b hb) hb'
  have hafter := names_inj hnames hc'
  omega

theorem updatesInv_commitRow {s : UpdateSystem} {k : ℕ} {header : String} {loaded target : Lead} (hs : UpdatesInv s)
    (hc : CommitsCurrent s (.commit k)) (htx : s.txs[k]? = some (.row header loaded target)) :
    UpdatesInv (s.commitRow k header loaded target) := by
  have hchecked := hs.checked header loaded target (List.mem_of_getElem? htx)
  have hset : ∀ tx : UpdateTx, (∀ h l t, tx ≠ .row h l t) → ∀ h l t, .row h l t ∈ s.txs.set k tx → Checked h l t := by
    intro tx hne h l t hmem
    rcases List.mem_or_eq_of_mem_set hmem with hmem | heq
    · exact hs.checked h l t hmem
    · exact absurd heq.symm (hne h l t)
  unfold UpdateSystem.commitRow
  cases hfind : s.store.tables.leads.find? loaded.id with
  | none => exact ⟨hset _ (fun _ _ _ h => nomatch h), hs.no_lost, hs.passed⟩
  | some stored =>
    obtain ⟨hnames, hversion⟩ := names_of_current hs hc htx hfind
    refine ⟨hset _ (fun _ _ _ h => nomatch h), ?_, ?_⟩
    · refine noUpdateLost_concat hs.no_lost hnames fun b hb hlead => ?_
      exact hs.passed b hb stored (by rw [hlead]; exact hfind)
    · refine forall_mem_concat (fun a ha after hafter => ?_) (fun after hafter => ?_)
      · -- an earlier update: its lead has the version it had, or one more
        obtain ⟨before, hbefore, ⟨hid, hafter⟩ | ⟨-, rfl⟩⟩ := version_flush hchecked.bumped hafter
        · have hlt := hs.passed a ha before hbefore
          have heq : before = stored := Option.some.inj (by rw [← hbefore, hid, hfind])
          rw [heq] at hlt
          omega
        · exact hs.passed a ha after hbefore
      · obtain ⟨before, -, ⟨-, hafter⟩ | ⟨hne, -⟩⟩ := version_flush hchecked.bumped hafter
        · show stored.version < after.version
          omega
        · exact absurd rfl hne

theorem updatesInv_step {s : UpdateSystem} {l : UpdateStep} (hs : UpdatesInv s) (hc : CommitsCurrent s l) :
    UpdatesInv (s.step l) := by
  cases l with
  | request r =>
    refine ⟨fun header loaded target hmem => ?_, hs.no_lost, hs.passed⟩
    rcases List.mem_append.mp hmem with hmem | hmem
    · exact hs.checked header loaded target hmem
    · have heq := List.mem_singleton.mp hmem
      cases hrun : r.run s.store with
      | error error =>
        rw [hrun] at heq
        cases heq
      | ok rows =>
        rw [hrun] at heq
        obtain ⟨rfl, rfl, rfl⟩ := UpdateTx.row.inj heq
        exact checked_of_run hrun
  | commit k =>
    unfold UpdateSystem.step
    dsimp only
    split
    · next header loaded target htx => exact updatesInv_commitRow hs hc htx
    · exact hs

/-- An update that was not applied over the version it had read shows in the state after it. -/
theorem current_of_noUpdateLost {s : UpdateSystem} {l : UpdateStep} (hs : UpdatesInv s)
    (h : NoUpdateLost (s.step l).applied) : CommitsCurrent s l := by
  cases l with
  | request r => trivial
  | commit k =>
    intro header loaded target stored htx hfind
    have happlied : (s.step (.commit k)).applied = s.applied ++ [⟨loaded.id, header, stored.version⟩] := by
      simp only [UpdateSystem.step, htx, UpdateSystem.commitRow, hfind]
    have hnames := h.named ⟨loaded.id, header, stored.version⟩ (by rw [happlied]; exact List.mem_concat_self)
    have hreadable := readable_of_names hnames
    have hloaded := (hs.checked header loaded target (List.mem_of_getElem? htx)).expected hreadable
    exact ⟨hreadable, names_inj hnames hloaded⟩

/-- **In every state of a run no update is lost exactly if** every commit meets the condition. -/
theorem no_update_lost_iff (store : LeadStore) (steps : List UpdateStep) :
    Always UpdateSystem.step (fun s => NoUpdateLost s.applied) (.start store) steps ↔
      Meets UpdateSystem.step CommitsCurrent (.start store) steps :=
  @always_iff_meets_of_inv _ _ UpdateSystem.step UpdatesInv (fun s => NoUpdateLost s.applied) CommitsCurrent
    (fun _ hs => hs.no_lost) (fun _ _ => updatesInv_step) (fun _ _ => current_of_noUpdateLost) steps (.start store)
    (updatesInv_start store)

instance (header : String) (version : ℕ) : Decidable (Names header version) :=
  inferInstanceAs (Decidable (parseIfMatch header = .ok (some version)))

/-- A request to update the lead of `contactedStore`, which has version 1. -/
def sampleRequest (payload : LeadUpdate) (header : String) (header_ne : header ≠ "") : UpdateRequest :=
  ⟨fun _ => true, sampleUuid '1', payload, header, header_ne⟩

/-- Two requests that name version 1 load the lead before either commits, and both are applied; a header that lists
two versions is not read, and its update is applied. -/
theorem update_lost :
    ¬Always UpdateSystem.step (fun s => NoUpdateLost s.applied) (.start contactedStore)
        [.request (sampleRequest { lastName := some "Rao" } "W/\"1\"" (by decide)),
          .request (sampleRequest { status := some .nurturing } "W/\"1\"" (by decide)), .commit 0, .commit 1] ∧
      ¬Always UpdateSystem.step (fun s => NoUpdateLost s.applied) (.start contactedStore)
        [.request (sampleRequest { lastName := some "Rao" } "\"7\", \"8\"" (by decide)), .commit 0] := by
  refine ⟨?_, ?_⟩
  · intro h
    exact absurd (always_last h).named (by decide +kernel)
  · intro h
    exact absurd (always_last h).named (by decide +kernel)

end RevenueOS.Leads
