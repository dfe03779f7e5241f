import RevenueOS.Leads.Transactions
import RevenueOS.Lib.Pointers

/-!
# RevenueOS.Leads.Merging — merges and restores that run at the same time

Runs of `merge_leads` and `restore_lead` in the system of `Leads.Transactions`.  The pointers `merged_into_id` are
the function `mergedInto`; a merge sets one of them.

* `merges_safe_iff`: when the pointers stay without a cycle, lead to a lead that is not merged away, and the
  survivors keep what they have.
-/

namespace RevenueOS.Leads

open RevenueOS.Py RevenueOS.Lib RevenueOS.Workflows Relation

/-! ## The steps -/

/-- The steps of merges and restores. -/
inductive MergeStep where
  | merge (survivorId loserId : Uuid) (now : ℤ)
  | restore (id : Uuid)
  | readLoser (k : ℕ)
  | commit (k : ℕ)

def MergeStep.toStep : MergeStep → LeadStep
  | .merge survivorId loserId now => .merge survivorId loserId now
  | .restore id => .call (.restore id)
  | .readLoser k => .readLoser k
  | .commit k => .commit k

def LeadSystem.mergeStep (s : LeadSystem) (l : MergeStep) : LeadSystem := s.step l.toStep

/-! ## What is claimed -/

/-- The pointer of a lead. -/
def LeadStore.mergedInto (s : LeadStore) (id : Uuid) : Option Uuid :=
  (s.tables.leads.find? id).bind Lead.mergedIntoId

/-- **The pointers have no cycle**, and from every lead they lead to one that is not merged away. -/
structure Resolved (s : LeadStore) : Prop where
  acyclic : ∀ id, ¬TransGen (Points s.mergedInto) id id
  ends : ∀ lead ∈ s.tables.leads.rows, ∃ root ∈ s.tables.leads.rows,
    ReflTransGen (Points s.mergedInto) lead.id root.id ∧ root.mergedIntoId = none

/-- The keys of a `dict` keep their values. -/
def KeysKept (before after : Dict) : Prop :=
  ∀ key value, before.lookup key = some value → after.lookup key = some value

/-- The `FILLABLE` fields that are not empty, and the keys of `capture` and `utm`, keep their values. -/
structure KeepsFilled (before after : Lead) : Prop where
  lastName : blank before.lastName = false → after.lastName = before.lastName
  email : blank before.email = false → after.email = before.email
  phone : blank before.phone = false → after.phone = before.phone
  sourceChannel : blank before.sourceChannel = false → after.sourceChannel = before.sourceChannel
  qualificationScore : before.qualificationScore.isSome = true → after.qualificationScore = before.qualificationScore
  category : blank before.category = false → after.category = before.category
  assigneeId : before.assigneeId.isSome = true → after.assigneeId = before.assigneeId
  branchId : before.branchId.isSome = true → after.branchId = before.branchId
  teamId : before.teamId.isSome = true → after.teamId = before.teamId
  capture : KeysKept before.capture after.capture
  utm : KeysKept before.utm after.utm

/-- **The survivor of a merge that commits keeps what it has.** -/
def Lossless (s : LeadSystem) (l : MergeStep) : Prop :=
  ∀ k survivor loser now, l = .commit k → s.txs[k]? = some (.merging survivor loser now) →
    ∀ before after, s.store.tables.leads.find? survivor.id = some before →
      (s.mergeStep l).store.tables.leads.find? survivor.id = some after → KeepsFilled before after

/-! ## When it holds -/

/-- Each field that the flush of the survivor writes is empty as it is stored, or has that value already; the JSON
columns it writes have the keys that are stored, with their values. -/
structure FillsEmpty (loaded target stored : Lead) : Prop where
  lastName : target.lastName ≠ loaded.lastName → blank stored.lastName = false → target.lastName = stored.lastName
  email : target.email ≠ loaded.email → blank stored.email = false → target.email = stored.email
  phone : target.phone ≠ loaded.phone → blank stored.phone = false → target.phone = stored.phone
  sourceChannel : target.sourceChannel ≠ loaded.sourceChannel → blank stored.sourceChannel = false →
    target.sourceChannel = stored.sourceChannel
  qualificationScore : target.qualificationScore ≠ loaded.qualificationScore →
    stored.qualificationScore.isSome = true → target.qualificationScore = stored.qualificationScore
  category : target.category ≠ loaded.category → blank stored.category = false → target.category = stored.category
  assigneeId : target.assigneeId ≠ loaded.assigneeId → stored.assigneeId.isSome = true →
    target.assigneeId = stored.assigneeId
  branchId : target.branchId ≠ loaded.branchId → stored.branchId.isSome = true → target.branchId = stored.branchId
  teamId : target.teamId ≠ loaded.teamId → stored.teamId.isSome = true → target.teamId = stored.teamId
  capture : Json.pyEq (.obj target.capture) (.obj loaded.capture) = false → KeysKept stored.capture target.capture
  utm : Json.pyEq (.obj target.utm) (.obj loaded.utm) = false → KeysKept stored.utm target.utm

/-- The pointers do not lead from the survivor to the loser as they are stored when the merge commits. -/
def PointsForward (s : LeadSystem) (l : MergeStep) : Prop :=
  ∀ k survivor loser now, l = .commit k → s.txs[k]? = some (.merging survivor loser now) →
    loser.mergedIntoId ≠ some survivor.id → ¬ReflTransGen (Points s.store.mergedInto) survivor.id loser.id

/-- What a merge fills is still empty when it commits. -/
def FillsWhatIsEmpty (s : LeadSystem) (l : MergeStep) : Prop :=
  ∀ k survivor loser now, l = .commit k → s.txs[k]? = some (.merging survivor loser now) →
    ∀ stored, s.store.tables.leads.find? survivor.id = some stored → FillsEmpty survivor (survivor.absorb loser) stored

/-! ## Fields -/

theorem column_keeps_iff {α : Type} [DecidableEq α] {filled : Prop} {loaded target stored : α} :
    (filled → column loaded target stored = stored) ↔ (target ≠ loaded → filled → target = stored) := by
  by_cases h : target = loaded
  · rw [h, column_self]
    exact iff_of_true (fun _ => rfl) fun hne => absurd rfl hne
  · rw [column_of_ne h]
    exact ⟨fun hkeeps _ => hkeeps, fun hkeeps => hkeeps h⟩

theorem jsonColumn_keeps_iff {loaded target stored : Dict} :
    KeysKept stored (jsonColumn loaded target stored) ↔
      (Json.pyEq (.obj target) (.obj loaded) = false → KeysKept stored target) := by
  unfold jsonColumn
  cases h : Json.pyEq (.obj target) (.obj loaded) with
  | true => exact iff_of_true (fun _ _ hvalue => hvalue) fun hfalse => by cases hfalse
  | false => exact ⟨fun hkeeps _ => hkeeps, fun hkeeps => hkeeps rfl⟩

/-- A flush keeps what is filled exactly if it writes only what is empty. -/
theorem keepsFilled_flush_iff {loaded target stored : Lead} :
    KeepsFilled stored (loaded.flush target stored) ↔ FillsEmpty loaded target stored := by
  constructor
  · intro h
    exact ⟨column_keeps_iff.mp h.lastName, column_keeps_iff.mp h.email, column_keeps_iff.mp h.phone,
      column_keeps_iff.mp h.sourceChannel, column_keeps_iff.mp h.qualificationScore, column_keeps_iff.mp h.category,
      column_keeps_iff.mp h.assigneeId, column_keeps_iff.mp h.branchId, column_keeps_iff.mp h.teamId,
      jsonColumn_keeps_iff.mp h.capture, jsonColumn_keeps_iff.mp h.utm⟩
  · intro h
    exact ⟨column_keeps_iff.mpr h.lastName, column_keeps_iff.mpr h.email, column_keeps_iff.mpr h.phone,
      column_keeps_iff.mpr h.sourceChannel, column_keeps_iff.mpr h.qualificationScore,
      column_keeps_iff.mpr h.category, column_keeps_iff.mpr h.assigneeId, column_keeps_iff.mpr h.branchId,
      column_keeps_iff.mpr h.teamId, jsonColumn_keeps_iff.mpr h.capture, jsonColumn_keeps_iff.mpr h.utm⟩

theorem fillText_of_filled {own other : Option String} (h : blank own = false) : fillText own other = own := by
  unfold fillText
  rw [h, Bool.false_and]
  rfl

theorem or_of_isSome {α : Type} {own other : Option α} (h : own.isSome = true) : own.or other = own := by
  obtain ⟨value, rfl⟩ := Option.isSome_iff_exists.mp h
  rfl

/-- **Undisturbed, a merge keeps what the survivor has.** -/
theorem fillsEmpty_loaded (survivor loser : Lead) : FillsEmpty survivor (survivor.absorb loser) survivor where
  lastName _ h := fillText_of_filled h
  email _ h := fillText_of_filled h
  phone _ h := fillText_of_filled h
  sourceChannel _ h := fillText_of_filled h
  qualificationScore _ h := or_of_isSome h
  category _ h := fillText_of_filled h
  assigneeId _ h := or_of_isSome h
  branchId _ h := or_of_isSome h
  teamId _ h := or_of_isSome h
  capture _ _ _ h := Dict.lookup_merge loser.capture h
  utm _ _ _ h := Dict.lookup_merge loser.utm h

/-! ## Pointers -/

/-- A flush that leaves the pointer alone. -/
theorem mergedInto_flush_kept {s : LeadStore} {loaded target : Lead}
    (h : target.mergedIntoId = loaded.mergedIntoId) : (s.flush loaded target).mergedInto = s.mergedInto := by
  funext id
  unfold LeadStore.mergedInto
  by_cases hid : id = loaded.id
  · subst hid
    cases hfind : s.tables.leads.find? loaded.id with
    | none => rw [find?_flush, hfind, Option.map_none]
    | some stored =>
      rw [find?_flush_self hfind, Option.bind_some, Option.bind_some]
      change column loaded.mergedIntoId target.mergedIntoId stored.mergedIntoId = _
      rw [h, column_self]
  · rw [find?_flush_of_ne hid]

/-- A flush that sets the pointer. -/
theorem mergedInto_flush_set {s : LeadStore} {loaded target stored : Lead}
    (hfind : s.tables.leads.find? loaded.id = some stored) (h : target.mergedIntoId ≠ loaded.mergedIntoId) :
    (s.flush loaded target).mergedInto = Function.update s.mergedInto loaded.id target.mergedIntoId := by
  funext id
  by_cases hid : id = loaded.id
  · subst hid
    rw [Function.update_self]
    unfold LeadStore.mergedInto
    rw [find?_flush_self hfind, Option.bind_some]
    exact column_of_ne h _
  · rw [Function.update_of_ne hid]
    unfold LeadStore.mergedInto
    rw [find?_flush_of_ne hid]

/-- Every pointer is to a lead that is there. -/
def Targets (s : LeadStore) : Prop :=
  ∀ id target, s.mergedInto id = some target → (s.tables.leads.find? target).isSome = true

theorem mergedInto_of_mem {s : LeadStore} {lead : Lead} (h : lead ∈ s.tables.leads.rows) :
    s.mergedInto lead.id = lead.mergedIntoId := by
  unfold LeadStore.mergedInto
  rw [Table.find?_of_mem h, Option.bind_some]

/-- The leads that a chain reaches are there. -/
theorem isSome_of_reaches {s : LeadStore} (htargets : Targets s) {a b : Uuid}
    (hpath : ReflTransGen (Points s.mergedInto) a b) (ha : (s.tables.leads.find? a).isSome = true) :
    (s.tables.leads.find? b).isSome = true := by
  induction hpath with
  | refl => exact ha
  | tail _ hstep _ => exact htargets _ _ hstep

/-- Where the pointers are to leads that are there, the property is that every chain ends. -/
theorem resolved_iff {s : LeadStore} (htargets : Targets s) : Resolved s ↔ ∀ id, Ends s.mergedInto id := by
  constructor
  · intro h id
    cases hfind : s.tables.leads.find? id with
    | none =>
      refine ⟨id, .refl, ?_⟩
      unfold LeadStore.mergedInto
      rw [hfind, Option.bind_none]
    | some lead =>
      obtain ⟨root, hroot, hpath, hnone⟩ := h.ends lead (Table.mem_of_find? hfind)
      rw [Table.key_of_find? hfind] at hpath
      exact ⟨root.id, hpath, by rw [mergedInto_of_mem hroot, hnone]⟩
  · intro h
    refine ⟨fun id => (h id).not_cycle, fun lead hlead => ?_⟩
    obtain ⟨root, hpath, hnone⟩ := h lead.id
    have hsome := isSome_of_reaches htargets hpath (by rw [Table.find?_of_mem hlead]; rfl)
    obtain ⟨row, hrow⟩ := Option.isSome_iff_exists.mp hsome
    have hmem := Table.mem_of_find? hrow
    have hid : row.id = root := Table.key_of_find? hrow
    subst hid
    exact ⟨row, hmem, hpath, by rw [← mergedInto_of_mem hmem, hnone]⟩

/-- In a store that is resolved every pointer is to a lead that is there. -/
theorem targets_of_resolved {s : LeadStore} (h : Resolved s) : Targets s := by
  intro id target hpointer
  have hpointer' := hpointer
  unfold LeadStore.mergedInto at hpointer'
  obtain ⟨lead, hfind, hmerged⟩ := Option.bind_eq_some_iff.mp hpointer'
  obtain ⟨root, hroot, hpath, hnone⟩ := h.ends lead (Table.mem_of_find? hfind)
  rw [Table.key_of_find? hfind] at hpath
  rcases ReflTransGen.cases_head hpath with heq | ⟨next, hnext, hrest⟩
  · -- the lead itself is merged away
    rw [← mergedInto_of_mem hroot, ← heq, hpointer] at hnone
    cases hnone
  · obtain rfl := Option.some.inj (hnext.symm.trans hpointer)
    rcases ReflTransGen.cases_head hrest with heq | ⟨next', hnext', -⟩
    · rw [heq, Table.find?_of_mem hroot]
      rfl
    · unfold Points LeadStore.mergedInto at hnext'
      obtain ⟨row, hrow, -⟩ := Option.bind_eq_some_iff.mp hnext'
      rw [hrow]
      rfl

/-! ## The invariant -/

/-- The rows a call has loaded are there; a restore leaves the pointer alone, and a merge has two leads. -/
def TxKnown (s : LeadStore) : LeadTx → Prop
  | .row loaded target _ => target.mergedIntoId = loaded.mergedIntoId
  | .survivorRead survivor loserId _ =>
    (s.tables.leads.find? survivor.id).isSome = true ∧ survivor.id ≠ loserId
  | .merging survivor loser _ =>
    (s.tables.leads.find? survivor.id).isSome = true ∧ (s.tables.leads.find? loser.id).isSome = true ∧
      survivor.id ≠ loser.id
  | _ => True

structure MergeInv (s : LeadSystem) : Prop where
  targets : Targets s.store
  known : ∀ (k : ℕ) (tx : LeadTx), s.txs[k]? = some tx → TxKnown s.store tx

theorem loadAny_eq_ok {s : LeadStore} {id : Uuid} {includeDeleted : Bool} {lead : Lead}
    (h : s.loadAny id includeDeleted = .ok lead) : s.tables.leads.find? id = some lead ∧ lead.id = id := by
  have hfind := (load_eq_ok h).1
  exact ⟨hfind, Table.key_of_find? hfind⟩

theorem known_restore (s : LeadStore) (id : Uuid) : TxKnown s (.ofCall (s.openCall (.restore id))) := by
  cases hcall : s.openCall (.restore id) with
  | error e => trivial
  | ok opened =>
    obtain ⟨lead, -, h⟩ := bind_eq_ok.mp hcall
    obtain ⟨target, htarget, h⟩ := bind_eq_ok.mp h
    obtain rfl := pure_eq_ok.mp h
    obtain ⟨-, -, rfl⟩ := restore_eq_ok htarget
    rfl

theorem known_merge (s : LeadStore) (survivorId loserId : Uuid) (now : ℤ) :
    TxKnown s (.ofMerge s survivorId loserId now) := by
  unfold LeadTx.ofMerge
  split_ifs with hsame
  · trivial
  · split
    · rename_i survivor hload
      obtain ⟨hfind, hid⟩ := loadAny_eq_ok hload
      exact ⟨by rw [hid, hfind]; rfl, by rwa [hid]⟩
    · trivial

theorem known_loser {s : LeadStore} {survivor : Lead} {loserId : Uuid} {now : ℤ}
    (h : TxKnown s (.survivorRead survivor loserId now)) : TxKnown s (.ofLoser s survivor loserId now) := by
  unfold LeadTx.ofLoser
  split
  · rename_i loser hload
    obtain ⟨lead, hlead, hload⟩ := bind_eq_ok.mp hload
    obtain ⟨_, -, hload⟩ := bind_eq_ok.mp hload
    obtain rfl := pure_eq_ok.mp hload
    obtain ⟨hfind, hid⟩ := loadAny_eq_ok hlead
    exact ⟨h.1, by rw [hid, hfind]; rfl, by rw [hid]; exact h.2⟩
  · trivial

theorem isSome_flush (s : LeadStore) (loaded target : Lead) (id : Uuid) :
    ((s.flush loaded target).tables.leads.find? id).isSome = (s.tables.leads.find? id).isSome := by
  rw [find?_flush, Option.isSome_map]

/-- A commit neither adds nor removes a lead. -/
theorem isSome_commit (s : LeadStore) (tx : LeadTx) (id : Uuid) :
    ((s.commit tx).tables.leads.find? id).isSome = (s.tables.leads.find? id).isSome := by
  cases tx with
  | row loaded target contact =>
    unfold LeadStore.commit
    dsimp only
    split_ifs
    · exact isSome_flush s loaded target id
    · rfl
  | merging survivor loser now =>
    exact (isSome_flush _ loser _ id).trans (isSome_flush s survivor _ id)
  | _ => rfl

theorem TxKnown.commit {s : LeadStore} {tx tx' : LeadTx} (h : TxKnown s tx) : TxKnown (s.commit tx') tx := by
  cases tx with
  | row loaded target contact => exact h
  | survivorRead survivor loserId now => exact ⟨(isSome_commit s tx' _).trans h.1, h.2⟩
  | merging survivor loser now =>
    exact ⟨(isSome_commit s tx' _).trans h.1, (isSome_commit s tx' _).trans h.2.1, h.2.2⟩
  | _ => trivial

/-- A merge sets the pointer of its loser, unless it was so when it was loaded. -/
theorem mergedInto_merging {s : LeadStore} {survivor loser : Lead} {now : ℤ}
    (h : TxKnown s (.merging survivor loser now)) :
    (s.commit (.merging survivor loser now)).mergedInto =
      if loser.mergedIntoId = some survivor.id then s.mergedInto
      else Function.update s.mergedInto loser.id (some survivor.id) := by
  have hkept : (s.flush survivor (survivor.absorb loser)).mergedInto = s.mergedInto := mergedInto_flush_kept rfl
  split_ifs with hwritten
  · exact (mergedInto_flush_kept hwritten.symm).trans hkept
  · obtain ⟨stored, hfind⟩ := Option.isSome_iff_exists.mp h.2.1
    have hfind' : (s.flush survivor (survivor.absorb loser)).tables.leads.find? loser.id = some stored := by
      rw [find?_flush_of_ne h.2.2.symm, hfind]
    rw [← hkept]
    exact mergedInto_flush_set hfind' (fun heq => hwritten heq.symm)

/-- The other commits leave the pointers alone. -/
theorem mergedInto_commit {s : LeadStore} {tx : LeadTx} (h : TxKnown s tx)
    (hmerge : ∀ survivor loser now, tx ≠ .merging survivor loser now) : (s.commit tx).mergedInto = s.mergedInto := by
  cases tx with
  | row loaded target contact =>
    unfold LeadStore.commit
    dsimp only
    split_ifs
    · exact mergedInto_flush_kept h
    · rfl
  | merging survivor loser now => exact absurd rfl (hmerge survivor loser now)
  | _ => rfl

theorem targets_commit {s : LeadStore} {tx : LeadTx} (hs : Targets s) (h : TxKnown s tx) : Targets (s.commit tx) := by
  intro id target hpointer
  rw [isSome_commit]
  cases tx with
  | merging survivor loser now =>
    rw [mergedInto_merging h] at hpointer
    split_ifs at hpointer
    · exact hs id target hpointer
    · by_cases hid : id = loser.id
      · rw [hid, Function.update_self] at hpointer
        rw [← Option.some.inj hpointer]
        exact h.1
      · rw [Function.update_of_ne hid] at hpointer
        exact hs id target hpointer
  | _ =>
    rw [mergedInto_commit h (fun _ _ _ heq => by cases heq)] at hpointer
    exact hs id target hpointer

theorem known_concat {s : LeadStore} {txs : List LeadTx} {tx : LeadTx}
    (hs : ∀ (k : ℕ) (tx : LeadTx), txs[k]? = some tx → TxKnown s tx) (h : TxKnown s tx) (k : ℕ) (tx' : LeadTx)
    (hk : (txs ++ [tx])[k]? = some tx') : TxKnown s tx' := by
  rcases getElem?_concat_cases hk with rfl | hk
  · exact h
  · exact hs k tx' hk

theorem mergeInv_step (s : LeadSystem) (l : MergeStep) (hs : MergeInv s) : MergeInv (s.mergeStep l) := by
  cases l with
  | merge survivorId loserId now =>
    exact ⟨hs.targets, known_concat hs.known (known_merge s.store survivorId loserId now)⟩
  | restore id => exact ⟨hs.targets, known_concat hs.known (known_restore s.store id)⟩
  | readLoser k =>
    change MergeInv (s.step (.readLoser k))
    unfold LeadSystem.step
    dsimp only
    split
    · rename_i survivor loserId now hk
      refine ⟨hs.targets, fun j tx hj => ?_⟩
      rcases getElem?_set_cases hj with ⟨-, rfl⟩ | ⟨-, hj⟩
      · exact known_loser (hs.known k _ hk)
      · exact hs.known j tx hj
    · exact hs
  | commit k =>
    change MergeInv (s.step (.commit k))
    unfold LeadSystem.step
    dsimp only
    split
    · rename_i tx hk
      refine ⟨targets_commit hs.targets (hs.known k tx hk), fun j tx' hj => ?_⟩
      rcases getElem?_set_cases hj with ⟨-, rfl⟩ | ⟨-, hj⟩
      · have hknown := hs.known k tx hk
        cases tx with
        | row loaded target contact =>
          unfold LeadTx.afterCommit
          dsimp only
          split_ifs <;> trivial
        | merging survivor loser now => trivial
        | _ => exact hknown
      · exact (hs.known j tx' hj).commit
    · exact hs

/-! ## Runs -/

/-- A commit keeps every chain ending exactly if a merge does not set a pointer back. -/
theorem ends_commit_iff {s : LeadStore} {tx : LeadTx} (h : TxKnown s tx) (hends : ∀ id, Ends s.mergedInto id) :
    (∀ id, Ends (s.commit tx).mergedInto id) ↔
      ∀ survivor loser now, tx = .merging survivor loser now → loser.mergedIntoId ≠ some survivor.id →
        ¬ReflTransGen (Points s.mergedInto) survivor.id loser.id := by
  cases tx with
  | merging survivor loser now =>
    rw [mergedInto_merging h]
    split_ifs with hwritten
    · refine iff_of_true hends ?_
      rintro _ _ _ ⟨⟩ hne
      exact absurd hwritten hne
    · rw [ends_update_iff hends]
      constructor
      · rintro hback _ _ _ ⟨⟩ -
        exact hback
      · intro hback
        exact hback survivor loser now rfl hwritten
  | _ =>
    rw [mergedInto_commit h (fun _ _ _ heq => by cases heq)]
    exact iff_of_true hends fun _ _ _ heq => by cases heq

theorem resolved_step_iff {s : LeadSystem} {l : MergeStep} (hinv : MergeInv s) (hs : Resolved s.store) :
    Resolved (s.mergeStep l).store ↔ PointsForward s l := by
  have hnocommit : (∀ k, l ≠ .commit k) → PointsForward s l := fun hl k _ _ _ heq => absurd heq (hl k)
  cases l with
  | merge survivorId loserId now => exact iff_of_true hs (hnocommit fun k h => by cases h)
  | restore id => exact iff_of_true hs (hnocommit fun k h => by cases h)
  | readLoser k =>
    refine iff_of_true ?_ (hnocommit fun k h => by cases h)
    change Resolved (s.step (.readLoser k)).store
    unfold LeadSystem.step
    dsimp only
    split
    · exact hs
    · exact hs
  | commit k =>
    rw [resolved_iff (mergeInv_step s (.commit k) hinv).targets]
    change (∀ id, Ends (s.step (.commit k)).store.mergedInto id) ↔ _
    have hends := (resolved_iff hinv.targets).mp hs
    unfold LeadSystem.step
    dsimp only
    split
    · rename_i tx hk
      rw [ends_commit_iff (hinv.known k tx hk) hends]
      constructor
      · rintro hback k' survivor loser now heq htx
        obtain rfl := MergeStep.commit.inj heq
        exact hback survivor loser now (Option.some.inj (hk.symm.trans htx))
      · rintro hback survivor loser now rfl
        exact hback k survivor loser now rfl hk
    · rename_i hk
      refine iff_of_true hends fun k' survivor loser now heq htx => ?_
      obtain rfl := MergeStep.commit.inj heq
      rw [hk] at htx
      cases htx

/-- The commit of a merge does to its survivor what the flush of the survivor does. -/
theorem find?_merging {s : LeadSystem} {k : ℕ} {survivor loser : Lead} {now : ℤ} (hinv : MergeInv s)
    (hk : s.txs[k]? = some (.merging survivor loser now)) {stored : Lead}
    (hfind : s.store.tables.leads.find? survivor.id = some stored) :
    (s.mergeStep (.commit k)).store.tables.leads.find? survivor.id =
      some (survivor.flush (survivor.absorb loser) stored) := by
  change (s.step (.commit k)).store.tables.leads.find? survivor.id = _
  unfold LeadSystem.step
  dsimp only
  rw [hk]
  exact (find?_flush_of_ne (hinv.known k _ hk).2.2).trans (find?_flush_self hfind)

theorem lossless_iff {s : LeadSystem} {l : MergeStep} (hinv : MergeInv s) : Lossless s l ↔ FillsWhatIsEmpty s l := by
  constructor
  · rintro h k survivor loser now rfl hk stored hfind
    exact keepsFilled_flush_iff.mp (h k survivor loser now rfl hk _ _ hfind (find?_merging hinv hk hfind))
  · rintro h k survivor loser now rfl hk before after hbefore hafter
    obtain rfl := Option.some.inj ((find?_merging hinv hk hbefore).symm.trans hafter)
    exact keepsFilled_flush_iff.mpr (h k survivor loser now rfl hk before hbefore)

/-- **Merges and restores keep the pointers resolved and the survivors whole exactly if** no merge commits while the
pointers lead from its survivor to its loser, and what each merge fills is still empty when it commits. -/
theorem merges_safe_iff (store : LeadStore) (hstore : Resolved store) (steps : List MergeStep) :
    (Always LeadSystem.mergeStep (fun s => Resolved s.store) (.start store) steps ∧
        Meets LeadSystem.mergeStep Lossless (.start store) steps) ↔
      Meets LeadSystem.mergeStep (fun s l => PointsForward s l ∧ FillsWhatIsEmpty s l) (.start store) steps := by
  have hinv : MergeInv (.start store) :=
    ⟨targets_of_resolved hstore, fun k tx hk => by simp [LeadSystem.start] at hk⟩
  rw [meets_and]
  refine and_congr ?_ ?_
  · exact @always_iff_meets _ _ LeadSystem.mergeStep MergeInv (fun s => Resolved s.store) PointsForward mergeInv_step
      (fun _ _ hinv hs => resolved_step_iff hinv hs) steps (.start store) hinv hstore
  · exact meets_congr_of_inv mergeInv_step (fun _ _ hinv => lossless_iff hinv) steps (.start store) hinv

/-! ## Merges that meet -/

/-- Where no lead is merged away there are no pointers. -/
theorem not_points {s : LeadStore} (h : ∀ lead ∈ s.tables.leads.rows, lead.mergedIntoId = none) {a b : Uuid} :
    ¬Points s.mergedInto a b := by
  intro hpoints
  unfold Points LeadStore.mergedInto at hpoints
  obtain ⟨lead, hfind, hmerged⟩ := Option.bind_eq_some_iff.mp hpoints
  rw [h lead (Table.mem_of_find? hfind)] at hmerged
  cases hmerged

theorem resolved_of_unmerged {s : LeadStore} (h : ∀ lead ∈ s.tables.leads.rows, lead.mergedIntoId = none) :
    Resolved s := by
  refine ⟨fun id hcycle => ?_, fun lead hlead => ⟨lead, hlead, .refl, h lead hlead⟩⟩
  obtain ⟨next, hnext, -⟩ := TransGen.head'_iff.mp hcycle
  exact not_points h hnext

/-- Three leads of one business; the first has no email. -/
def businessLeads : List Lead :=
  [sampleLead '1' none, { sampleLead '2' none with email := some "asha@stores.in" },
    { sampleLead '3' none with email := some "asha@home.in" }]

theorem nodup_businessLeads : (businessLeads.map Lead.id).Nodup := by decide

def threeLeads : LeadStore := ⟨⟨⟨businessLeads, nodup_businessLeads⟩, .empty⟩, []⟩

theorem threeLeads_unmerged : ∀ lead ∈ threeLeads.tables.leads.rows, lead.mergedIntoId = none := by decide

def mergeOnce : List MergeStep := [.merge (sampleUuid '1') (sampleUuid '2') 5, .readLoser 0, .commit 0]

/-- The other steps write nothing. -/
theorem safe_of_not_commit {s : LeadSystem} {l : MergeStep} (h : ∀ k, l ≠ .commit k) :
    PointsForward s l ∧ FillsWhatIsEmpty s l :=
  ⟨fun k _ _ _ heq => absurd heq (h k), fun k _ _ _ heq => absurd heq (h k)⟩

/-- One merge. -/
theorem merges_safe_mergeOnce : Resolved threeLeads ∧
    Always LeadSystem.mergeStep (fun s => Resolved s.store) (.start threeLeads) mergeOnce ∧
      Meets LeadSystem.mergeStep Lossless (.start threeLeads) mergeOnce := by
  have hresolved := resolved_of_unmerged threeLeads_unmerged
  refine ⟨hresolved, (merges_safe_iff threeLeads hresolved mergeOnce).mpr ⟨?_, ?_, ⟨?_, ?_⟩, trivial⟩⟩
  · exact safe_of_not_commit fun k h => by cases h
  · exact safe_of_not_commit fun k h => by cases h
  · rintro k survivor loser now ⟨⟩ htx - hpath
    obtain ⟨rfl, rfl, -⟩ := LeadTx.merging.inj (Option.some.inj htx)
    rcases ReflTransGen.cases_head hpath with heq | ⟨next, hnext, -⟩
    · exact absurd heq (by decide)
    · exact not_points threeLeads_unmerged hnext
  · rintro k survivor loser now ⟨⟩ htx stored hfind
    obtain ⟨rfl, rfl, -⟩ := LeadTx.merging.inj (Option.some.inj htx)
    obtain rfl := Option.some.inj hfind
    exact fillsEmpty_loaded _ _

/-- Two merges in opposite directions, each loaded before the other commits, merge each lead into the other. -/
def oppositeMerges : List MergeStep :=
  [.merge (sampleUuid '1') (sampleUuid '2') 5, .merge (sampleUuid '2') (sampleUuid '1') 6, .readLoser 0, .readLoser 1,
    .commit 0, .commit 1]

/-- Two merges into one survivor, up to the second commit. -/
def twoMerges : List MergeStep :=
  [.merge (sampleUuid '1') (sampleUuid '2') 5, .merge (sampleUuid '1') (sampleUuid '3') 6, .readLoser 0, .readLoser 1,
    .commit 0]

/-- Opposite merges make a cycle; the second of two merges overwrites the email the first one has filled. -/
theorem merges_meet :
    ¬Always LeadSystem.mergeStep (fun s => Resolved s.store) (.start threeLeads) oppositeMerges ∧
      ¬Meets LeadSystem.mergeStep Lossless (.start threeLeads) (twoMerges ++ [.commit 1]) := by
  constructor
  · intro h
    have hone : Points (after LeadSystem.mergeStep (.start threeLeads) oppositeMerges).store.mergedInto
        (sampleUuid '1') (sampleUuid '2') := by
      unfold Points
      decide +kernel
    have htwo : Points (after LeadSystem.mergeStep (.start threeLeads) oppositeMerges).store.mergedInto
        (sampleUuid '2') (sampleUuid '1') := by
      unfold Points
      decide +kernel
    exact (always_last h).acyclic _ (.tail (.single hone) htwo)
  · intro h
    obtain ⟨hlossless, -⟩ := (meets_append.mp h).2
    have hbefore : ((after LeadSystem.mergeStep (.start threeLeads) twoMerges).store.tables.leads.find?
        (sampleUuid '1')).map Lead.email = some (some "asha@stores.in") := by decide +kernel
    have hafter : (((after LeadSystem.mergeStep (.start threeLeads) twoMerges).mergeStep
        (.commit 1)).store.tables.leads.find? (sampleUuid '1')).map Lead.email = some (some "asha@home.in") := by
      decide +kernel
    obtain ⟨before, hfind, hemail⟩ := Option.map_eq_some_iff.mp hbefore
    obtain ⟨after', hfind', hemail'⟩ := Option.map_eq_some_iff.mp hafter
    have hkeeps := (hlossless 1 _ _ _ rfl rfl before after' hfind hfind').email
    rw [hemail, hemail'] at hkeeps
    exact absurd (hkeeps (by decide)) (by decide)

end RevenueOS.Leads
