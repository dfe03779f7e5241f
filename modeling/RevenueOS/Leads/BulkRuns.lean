import RevenueOS.Leads.BulkPayload
import RevenueOS.Leads.Transactions

/-!
# RevenueOS.Leads.BulkRuns — bulk updates that share an idempotency key

`LeadService.bulk_update` with `reserve_idempotency` (`application/idempotency.py`) in one unit of work
(`infrastructure/uow/sqlalchemy_uow.py`).  A call checks its permissions and its key, waits for the advisory lock of
the key, reads the record of the key, works on the rows it locks, and commits rows, events and record together; it
may fail at every point.  Calls with any keys run at the same time, and other transactions write leads that no call
has locked.  Records are retained; audit records are left out.

* `bulk_update_once`: at most one call with a key applies its changes, to the leads as they are stored, with its events
  and its record; after it the calls with an equivalent payload return its body and the others are refused.  Nothing
  else but that commit changes anything, so that a call that raises leaves the key to the next one.
-/

namespace RevenueOS.Leads

open RevenueOS.Py RevenueOS.Lib RevenueOS.Workflows

/-! ## `reserve_idempotency` -/

inductive BulkError where
  | forbidden (message : String)
  | validation (message : String)
  | idempotencyConflict (message : String)
  | lead (error : LeadError)
  | session
deriving DecidableEq

/-- The result of a bulk update; its status is `completed`. -/
structure BulkResult where
  operationId : Uuid
  requestedCount : ℕ
  changedCount : ℕ
  changedLeadIds : List Uuid
  changedFields : List String
deriving DecidableEq

inductive RecordState where
  | inProgress
  | completed
deriving DecidableEq

/-- A row of `idempotency_records` with the scope `lead.bulk.update`; an empty body is none. -/
structure IdempotencyRecord where
  idempotencyKey : String
  requestHash : String
  responseStatus : ℕ
  responseBody : Option BulkResult
  state : RecordState
deriving DecidableEq

/-- `DurableIdempotency.complete`. -/
def IdempotencyRecord.complete (record : IdempotencyRecord) (status : ℕ) (body : BulkResult) : IdempotencyRecord :=
  { record with responseStatus := status, responseBody := some body, state := .completed }

abbrev IdempotencyRecords := Table IdempotencyRecord.idempotencyKey

/-- `DurableIdempotency`: the body of an earlier call, or a new record. -/
inductive DurableIdempotency where
  | replay (body : Option BulkResult)
  | record (record : IdempotencyRecord)

/-- The checks of the key; the text is the key without its blanks. -/
def checkKey (normalized : String) : Except BulkError Unit :=
  if normalized = "" then .error (.validation "An Idempotency-Key header is required for this operation.")
  else if 200 < normalized.length then .error (.validation "Idempotency-Key must be at most 200 characters.")
  else .ok ()

/-- `reserve_idempotency` under the lock of the key. -/
def reserveIdempotency (records : IdempotencyRecords) (normalized requestHash : String) :
    Except BulkError DurableIdempotency :=
  match records.find? normalized with
  | some existing =>
    if existing.requestHash ≠ requestHash then
      .error (.idempotencyConflict "This idempotency key was already used with a different payload.")
    else if existing.state = .completed then .ok (.replay existing.responseBody)
    else .error (.idempotencyConflict "A request with this idempotency key is still being processed.")
  | none => .ok (.record ⟨normalized, requestHash, 0, none, .inProgress⟩)

section Reserve

variable {records : IdempotencyRecords} {normalized requestHash : String} {existing : IdempotencyRecord}

theorem reserveIdempotency_replay (hfind : records.find? normalized = some existing)
    (hsame : existing.requestHash = requestHash) (hdone : existing.state = .completed) :
    reserveIdempotency records normalized requestHash = .ok (.replay existing.responseBody) := by
  simp only [reserveIdempotency, hfind]
  rw [if_neg (not_not.mpr hsame), if_pos hdone]

theorem reserveIdempotency_conflict (hfind : records.find? normalized = some existing)
    (hother : existing.requestHash ≠ requestHash) : reserveIdempotency records normalized requestHash =
      .error (.idempotencyConflict "This idempotency key was already used with a different payload.") := by
  simp only [reserveIdempotency, hfind]
  rw [if_pos hother]

end Reserve

/-! ## `bulk_update` -/

/-- A call of `bulk_update`: what its principal may do, its arguments, and the id it draws. -/
structure BulkRequest where
  mayUpdate : Bool
  mayAssign : Bool
  scope : Lead → Bool
  leadIds : List Uuid
  changes : BulkPayload
  idempotencyKey : Option String
  operationId : Uuid
  ascii : AsciiIds leadIds

inductive BulkEvent where
  | leadUpdated (leadId operationId : Uuid) (changed : List String)
  | operationCompleted (operationId : Uuid) (requestedCount changedCount : ℕ) (changedFields : List String)
deriving DecidableEq

/-- What a call has prepared in its session: the rows it has loaded with what it made of them, the events it has
collected and its result. -/
structure BulkWork where
  rows : List (Lead × Lead)
  events : List BulkEvent
  result : BulkResult

namespace BulkRequest

variable (r : BulkRequest)

/-- The key of a call: `(key or "").strip()`. -/
def key : String := strip (r.idempotencyKey.getD "")

/-- The checks before the lock. -/
def check : Except BulkError Unit :=
  if r.mayUpdate = false then .error (.forbidden "You do not have permission to update leads.")
  else if r.changes.assigneeId.isSome ∧ r.mayAssign = false then
    .error (.forbidden "You do not have permission to assign leads.")
  else checkKey r.key

/-- The rows a call locks, in the order of their ids. -/
def rows (s : LeadStore) : List Lead :=
  (s.tables.leads.rows.filter (LeadStore.selected r.scope r.leadIds)).insertionSort fun a b => a.id.text ≤ b.id.text

/-- What a call makes of its rows; those whose version it has bumped have changed. -/
def workOf (rows : List (Lead × Lead)) : BulkWork :=
  let changed := (rows.filter fun row => row.2.version ≠ row.1.version).map fun row => row.1.id
  let fields := r.changes.changedFields
  let requested := (normalizedIds r.leadIds).length
  ⟨rows,
    changed.map (BulkEvent.leadUpdated · r.operationId fields) ++
      [.operationCompleted r.operationId requested changed.length fields],
    ⟨r.operationId, requested, changed.length, changed, fields⟩⟩

/-- `bulk_update` after its reservation. -/
def work (s : LeadStore) : Except LeadError BulkWork := do
  let rows := r.rows s
  if rows.length ≠ (normalizedIds r.leadIds).length then
    throw (.notFound "One or more leads were not found in your access scope.")
  let targets ← rows.mapM (·.bulkUpdate r.changes.changes)
  return r.workOf (rows.zip targets)

end BulkRequest

/-! ## The system -/

/-- Where a call stands: before its lock, under it, with a reservation, with its work done, or at its end. -/
inductive BulkPhase where
  | begun
  | locked
  | reserved (record : IdempotencyRecord)
  | worked (record : IdempotencyRecord) (work : BulkWork)
  | applied (result : BulkResult)
  | replayed (body : Option BulkResult)
  | raised (error : BulkError)

namespace BulkPhase

/-- A call that holds the lock of its key. -/
def holds : BulkPhase → Bool
  | .locked => true
  | .reserved _ => true
  | .worked _ _ => true
  | _ => false

/-- A call that has a reservation. -/
def reserving : BulkPhase → Bool
  | .reserved _ => true
  | .worked _ _ => true
  | _ => false

theorem holds_of_reserving {phase : BulkPhase} (h : phase.reserving = true) : phase.holds = true := by
  cases phase <;> first | rfl | cases h

def finished : BulkPhase → Bool
  | .applied _ => true
  | .replayed _ => true
  | .raised _ => true
  | _ => false

/-- The ids of the rows a call has locked. -/
def rowLocks : BulkPhase → List Uuid
  | .worked _ work => work.rows.map fun row => row.1.id
  | _ => []

end BulkPhase

structure BulkCall where
  request : BulkRequest
  phase : BulkPhase

/-- The committed data and the calls. -/
structure BulkSystem where
  store : LeadStore
  events : List BulkEvent
  records : IdempotencyRecords
  calls : List BulkCall

inductive BulkStep where
  | call (r : BulkRequest)
  | lock (k : ℕ)
  | reserve (k : ℕ)
  | work (k : ℕ)
  | commit (k : ℕ)
  | fail (k : ℕ)
  | write (lead : Lead)
  | capture (c : CaptureCall)

namespace BulkSystem

/-- No call was made yet. -/
def start (store : LeadStore) : BulkSystem := ⟨store, [], .empty, []⟩

variable (s : BulkSystem)

def setPhase (k : ℕ) (r : BulkRequest) (phase : BulkPhase) : BulkSystem :=
  { s with calls := s.calls.set k ⟨r, phase⟩ }

/-- The advisory lock of a key is held. -/
def keyLocked (key : String) : Bool := s.calls.any fun c => c.phase.holds && c.request.key = key

/-- The row of a lead is locked. -/
def rowLocked (id : Uuid) : Bool := s.calls.any fun c => c.phase.rowLocks.contains id

/-- The commit of a unit of work; a key that is taken refuses the record, and then everything is rolled back. -/
def commitWork (k : ℕ) (r : BulkRequest) (record : IdempotencyRecord) (work : BulkWork) : BulkSystem :=
  match s.records.append? [record] with
  | some records =>
    ⟨work.rows.foldl (fun store row => store.flush row.1 row.2) s.store, s.events ++ work.events, records,
      s.calls.set k ⟨r, .applied work.result⟩⟩
  | none => s.setPhase k r (.raised .session)

variable (hash : BulkRequest → String)

/-- A call after `reserve_idempotency`. -/
def reserved (r : BulkRequest) : BulkPhase :=
  match reserveIdempotency s.records r.key (hash r) with
  | .ok (.replay body) => .replayed body
  | .ok (.record record) => .reserved record
  | .error error => .raised error

/-- A call after its work. -/
def worked (r : BulkRequest) (record : IdempotencyRecord) : BulkPhase :=
  match r.work s.store with
  | .ok work => .worked (record.complete 200 work.result) work
  | .error error => .raised (.lead error)

/-- One step; a step that has to wait, or that is none of the call, changes nothing. -/
def step (s : BulkSystem) : BulkStep → BulkSystem
  | .call r =>
    { s with calls := s.calls ++ [⟨r, match r.check with
      | .ok _ => .begun
      | .error error => .raised error⟩] }
  | .lock k =>
    match s.calls[k]? with
    | some ⟨r, .begun⟩ => if s.keyLocked r.key then s else s.setPhase k r .locked
    | _ => s
  | .reserve k =>
    match s.calls[k]? with
    | some ⟨r, .locked⟩ => s.setPhase k r (s.reserved hash r)
    | _ => s
  | .work k =>
    match s.calls[k]? with
    | some ⟨r, .reserved record⟩ =>
      if (r.rows s.store).any fun lead => s.rowLocked lead.id then s else s.setPhase k r (s.worked r record)
    | _ => s
  | .commit k =>
    match s.calls[k]? with
    | some ⟨r, .worked record work⟩ => s.commitWork k r record work
    | _ => s
  | .fail k =>
    match s.calls[k]? with
    | some ⟨r, phase⟩ => if phase.finished then s else s.setPhase k r (.raised .session)
    | none => s
  | .write lead => if s.rowLocked lead.id then s else { s with store := s.store.put lead }
  | .capture c => { s with store := (s.store.capture c).toOption.getD s.store }

end BulkSystem

/-! ## Exactly once -/

/-- The leads, the events and the records are the same. -/
structure SameData (s s' : BulkSystem) : Prop where
  store : s'.store = s.store
  events : s'.events = s.events
  records : s'.records = s.records

/-- A call that has applied its changes. -/
def Applied (s : BulkSystem) (j : ℕ) (r : BulkRequest) (result : BulkResult) : Prop :=
  s.calls[j]? = some ⟨r, .applied result⟩

/-- The record a reservation inserts. -/
def BulkRequest.newRecord (hash : BulkRequest → String) (r : BulkRequest) : IdempotencyRecord :=
  ⟨r.key, hash r, 0, none, .inProgress⟩

/-- The work of a call is on the leads that it names, all of them in its scope, as they are stored. -/
structure BulkWork.Of (work : BulkWork) (store : LeadStore) (r : BulkRequest) : Prop where
  made : work = r.workOf work.rows
  rows : ∀ row ∈ work.rows, store.tables.leads.find? row.1.id = some row.1 ∧
    LeadStore.selected r.scope r.leadIds row.1 = true ∧ row.1.bulkUpdate r.changes.changes = .ok row.2
  named : ∀ id, id ∈ r.leadIds ↔ id ∈ work.rows.map fun row => row.1.id
  once : (work.rows.map fun row => row.1.id).Nodup

/-- What the commit of a call leaves: its leads as it has made them and every other one as it was, its events after
those that were there, and its record. -/
structure Committed (hash : BulkRequest → String) (s s' : BulkSystem) (r : BulkRequest) (work : BulkWork) : Prop where
  made : work.Of s.store r
  rows : ∀ row ∈ work.rows, s'.store.tables.leads.find? row.1.id = some row.2
  others : ∀ id, id ∉ r.leadIds → s'.store.tables.leads.find? id = s.store.tables.leads.find? id
  sources : s'.store.tables.events = s.store.tables.events
  contacts : s'.store.contacts = s.store.contacts
  events : s'.events = s.events ++ work.events
  records : s'.records.rows = s.records.rows ++ [(r.newRecord hash).complete 200 work.result]

section Once

variable (nfc : Json.Nfc)

/-- **What the calls have come to**: at most one with a key was applied, no other has a reservation then, the bodies
that are returned again are those of the applied call, and the calls that are refused have another payload. -/
structure Outcomes (s : BulkSystem) : Prop where
  once : ∀ (i j : ℕ) r r' b b', Applied s i r b → Applied s j r' b' → r.key = r'.key → i = j
  excluded : ∀ (j : ℕ) r b, Applied s j r b → ∀ c ∈ s.calls, c.phase.reserving = true → c.request.key ≠ r.key
  replayed : ∀ (k : ℕ) r body, s.calls[k]? = some ⟨r, .replayed body⟩ → ∃ j r' b, Applied s j r' b ∧ r'.key = r.key ∧
    Equivalent nfc r.leadIds r'.leadIds r.changes r'.changes ∧ body = some b
  refused : ∀ (k : ℕ) r message, s.calls[k]? = some ⟨r, .raised (.idempotencyConflict message)⟩ → ∃ j r' b,
    Applied s j r' b ∧ r'.key = r.key ∧ ¬Equivalent nfc r.leadIds r'.leadIds r.changes r'.changes

/-- **What a step may do.** -/
structure ExactlyOnce (hash : BulkRequest → String) (s : BulkSystem) (l : BulkStep) : Prop where
  /-- But for the writes of others, only the commit of a call that has done its work changes something. -/
  silent : (∀ lead, l ≠ .write lead) → (∀ c, l ≠ .capture c) →
    (∀ (k : ℕ) r record work, l = .commit k → s.calls[k]? ≠ some ⟨r, .worked record work⟩) → SameData s (s.step hash l)
  /-- Such a commit succeeds and applies what the call has made of its leads, and no call with the key has committed
  before. -/
  commits : ∀ (k : ℕ) r record work, l = .commit k → s.calls[k]? = some ⟨r, .worked record work⟩ →
    Applied (s.step hash l) k r work.result ∧ Committed hash s (s.step hash l) r work ∧
      ∀ j r' b, Applied s j r' b → r'.key ≠ r.key
  /-- After a commit an equivalent payload gets its body. -/
  replays : ∀ (k : ℕ) r j r' b, l = .reserve k → s.calls[k]? = some ⟨r, .locked⟩ → Applied s j r' b → r'.key = r.key →
    Equivalent nfc r.leadIds r'.leadIds r.changes r'.changes →
    (s.step hash l).calls[k]? = some ⟨r, .replayed (some b)⟩
  /-- Another payload is refused. -/
  refuses : ∀ (k : ℕ) r j r' b, l = .reserve k → s.calls[k]? = some ⟨r, .locked⟩ → Applied s j r' b → r'.key = r.key →
    ¬Equivalent nfc r.leadIds r'.leadIds r.changes r'.changes →
    ∃ message, (s.step hash l).calls[k]? = some ⟨r, .raised (.idempotencyConflict message)⟩
  /-- A key that no committed call has used can be locked, if no call holds it, and reserved. -/
  usable : ∀ (k : ℕ) r, (∀ j r' b, Applied s j r' b → r'.key ≠ r.key) →
    (l = .lock k → s.calls[k]? = some ⟨r, .begun⟩ → (∀ c ∈ s.calls, c.phase.holds = true → c.request.key ≠ r.key) →
      (s.step hash l).calls[k]? = some ⟨r, .locked⟩) ∧
    (l = .reserve k → s.calls[k]? = some ⟨r, .locked⟩ →
      ∃ record, (s.step hash l).calls[k]? = some ⟨r, .reserved record⟩)
  /-- A call that raises changes nothing. -/
  raises : ∀ (k : ℕ) r phase error, s.calls[k]? = some ⟨r, phase⟩ → phase.finished = false →
    (s.step hash l).calls[k]? = some ⟨r, .raised error⟩ → SameData s (s.step hash l)
  /-- A call that has ended stays as it is. -/
  settled : ∀ (k : ℕ) c, s.calls[k]? = some c → c.phase.finished = true → (s.step hash l).calls[k]? = some c

end Once

/-! ## The invariant -/

/-- The record of a call in its session. -/
def BulkPhase.Staged (hash : BulkRequest → String) (r : BulkRequest) : BulkPhase → Prop
  | .reserved record => record = r.newRecord hash
  | .worked record work => record = (r.newRecord hash).complete 200 work.result
  | _ => True

/-- The invariant of the runs: the lock of a key is held once, no record has the key of a reservation, and the
records are those of the calls that were applied. -/
structure BulkInv (nfc : Json.Nfc) (hash : BulkRequest → String) (s : BulkSystem) : Prop where
  exclusive : ∀ (i j : ℕ) c c', s.calls[i]? = some c → s.calls[j]? = some c' → c.phase.holds = true →
    c'.phase.holds = true → c.request.key = c'.request.key → i = j
  free : ∀ c ∈ s.calls, c.phase.reserving = true → s.records.find? c.request.key = none
  staged : ∀ c ∈ s.calls, c.phase.Staged hash c.request
  stored : ∀ record ∈ s.records.rows, ∃ (j : ℕ) (r : BulkRequest) (b : BulkResult),
    Applied s j r b ∧ record = (r.newRecord hash).complete 200 b
  recorded : ∀ (j : ℕ) r b, Applied s j r b → (r.newRecord hash).complete 200 b ∈ s.records.rows
  outcomes : Outcomes nfc s

section Invariant

variable {nfc : Json.Nfc} {hash : BulkRequest → String} {s s' : BulkSystem}

theorem bulkInv_start (nfc : Json.Nfc) (hash : BulkRequest → String) (store : LeadStore) :
    BulkInv nfc hash (.start store) where
  exclusive := fun i _ _ _ h => by simp [BulkSystem.start] at h
  free := fun _ h => (List.not_mem_nil h).elim
  staged := fun _ h => (List.not_mem_nil h).elim
  stored := fun _ h => (List.not_mem_nil h).elim
  recorded := fun _ _ _ h => by simp [Applied, BulkSystem.start] at h
  outcomes :=
    ⟨fun _ _ _ _ _ _ h => by simp [Applied, BulkSystem.start] at h,
      fun _ _ _ _ _ h => (List.not_mem_nil h).elim,
      fun _ _ _ h => by simp [BulkSystem.start] at h, fun _ _ _ h => by simp [BulkSystem.start] at h⟩

/-- A key that was applied is taken. -/
theorem find?_of_applied (hs : BulkInv nfc hash s) {j : ℕ} {r : BulkRequest} {b : BulkResult}
    (h : Applied s j r b) : s.records.find? r.key = some ((r.newRecord hash).complete 200 b) := by
  have hfound := Table.find?_of_mem (hs.recorded j r b h)
  exact hfound

theorem key_ne_of_free (hs : BulkInv nfc hash s) {key : String} (hfree : s.records.find? key = none) {j : ℕ}
    {r : BulkRequest} {b : BulkResult} (h : Applied s j r b) : r.key ≠ key := by
  rintro rfl
  rw [find?_of_applied hs h] at hfree
  cases hfree

/-- What `reserve_idempotency` comes to under the lock: a new record, the body of an equivalent call, or a refusal. -/
theorem reserved_cases (hhash : ∀ r r' : BulkRequest, hash r = hash r' ↔
      Equivalent nfc r.leadIds r'.leadIds r.changes r'.changes) (hs : BulkInv nfc hash s) (r : BulkRequest) :
    (s.records.find? r.key = none ∧ s.reserved hash r = .reserved (r.newRecord hash)) ∨
      ∃ (j : ℕ) (r' : BulkRequest) (b : BulkResult), Applied s j r' b ∧ r'.key = r.key ∧
        ((Equivalent nfc r.leadIds r'.leadIds r.changes r'.changes ∧ s.reserved hash r = .replayed (some b)) ∨
          (¬Equivalent nfc r.leadIds r'.leadIds r.changes r'.changes ∧
            ∃ message, s.reserved hash r = .raised (.idempotencyConflict message))) := by
  unfold BulkSystem.reserved
  cases hfind : s.records.find? r.key with
  | none =>
    rw [reserveIdempotency, hfind]
    exact .inl ⟨rfl, rfl⟩
  | some existing =>
    obtain ⟨j, r', b, happlied, rfl⟩ := hs.stored existing (Table.mem_of_find? hfind)
    have hkey := Table.key_of_find? hfind
    change r'.key = r.key at hkey
    refine .inr ⟨j, r', b, happlied, hkey, ?_⟩
    by_cases hsame : hash r' = hash r
    · refine .inl ⟨(hhash r r').mp hsame.symm, ?_⟩
      rw [reserveIdempotency_replay hfind hsame rfl]
      rfl
    · refine .inr ⟨fun h => hsame ((hhash r r').mpr h).symm, ?_⟩
      rw [reserveIdempotency_conflict hfind hsame]
      exact ⟨_, rfl⟩

/-! ### A call in its slot -/

/-- What a call in the slot `k` must meet, for the invariant to hold with it there. -/
structure Fits (nfc : Json.Nfc) (hash : BulkRequest → String) (s : BulkSystem) (k : ℕ) (r : BulkRequest)
    (new : BulkPhase) : Prop where
  not_applied : ∀ b, new ≠ .applied b
  alone : new.holds = true → ∀ (j : ℕ) c, j ≠ k → s.calls[j]? = some c → c.phase.holds = true → c.request.key ≠ r.key
  free : new.reserving = true → s.records.find? r.key = none
  staged : new.Staged hash r
  replayed : ∀ body, new = .replayed body → ∃ (j : ℕ) (r' : BulkRequest) (b : BulkResult), Applied s j r' b ∧
    r'.key = r.key ∧ Equivalent nfc r.leadIds r'.leadIds r.changes r'.changes ∧ body = some b
  refused : ∀ message, new = .raised (.idempotencyConflict message) →
    ∃ (j : ℕ) (r' : BulkRequest) (b : BulkResult), Applied s j r' b ∧ r'.key = r.key ∧
      ¬Equivalent nfc r.leadIds r'.leadIds r.changes r'.changes

/-- The calls of `s'` are those of `s`, with one call in the slot `k`. -/
structure SlotStep (s s' : BulkSystem) (k : ℕ) (r : BulkRequest) (new : BulkPhase) : Prop where
  records : s'.records = s.records
  slots : ∀ (j : ℕ) c, s'.calls[j]? = some c → (j = k ∧ c = ⟨r, new⟩) ∨ (j ≠ k ∧ s.calls[j]? = some c)
  kept : ∀ (j : ℕ) c, s.calls[j]? = some c → c.phase.finished = true → s'.calls[j]? = some c

theorem SlotStep.forall_mem {s' : BulkSystem} {k : ℕ} {r : BulkRequest} {new : BulkPhase} (h : SlotStep s s' k r new)
    {P : BulkCall → Prop} (hall : ∀ c ∈ s.calls, P c) (hnew : P ⟨r, new⟩) : ∀ c ∈ s'.calls, P c := by
  intro c hc
  obtain ⟨j, hj⟩ := List.mem_iff_getElem?.mp hc
  rcases h.slots j c hj with ⟨-, rfl⟩ | ⟨-, hj⟩
  · exact hnew
  · exact hall c (List.mem_of_getElem? hj)

theorem bulkInv_slotStep {s' : BulkSystem} {k : ℕ} {r : BulkRequest} {new : BulkPhase} (hs : BulkInv nfc hash s)
    (h : SlotStep s s' k r new) (hm : Fits nfc hash s k r new) : BulkInv nfc hash s' := by
  have hiff : ∀ {j : ℕ} {r' : BulkRequest} {b : BulkResult}, Applied s' j r' b ↔ Applied s j r' b := by
    intro j r' b
    refine ⟨fun happlied => ?_, fun happlied => h.kept j _ happlied rfl⟩
    rcases h.slots j _ happlied with ⟨-, heq⟩ | ⟨-, hj⟩
    · exact absurd (BulkCall.mk.inj heq).2.symm (hm.not_applied b)
    · exact hj
  refine ⟨?_, ?_, h.forall_mem hs.staged hm.staged, ?_, ?_, ?_, ?_, ?_, ?_⟩
  · intro i j c c' hi hj hc hc' hkey
    rcases h.slots i c hi with ⟨hik, rfl⟩ | ⟨hik, hi⟩
    · rcases h.slots j c' hj with ⟨hjk, -⟩ | ⟨hjk, hj⟩
      · exact hik.trans hjk.symm
      · exact absurd hkey.symm (hm.alone hc j c' hjk hj hc')
    · rcases h.slots j c' hj with ⟨-, rfl⟩ | ⟨-, hj⟩
      · exact absurd hkey (hm.alone hc' i c hik hi hc)
      · exact hs.exclusive i j c c' hi hj hc hc' hkey
  · rw [h.records]
    exact h.forall_mem hs.free hm.free
  · rw [h.records]
    intro record hrecord
    obtain ⟨j, r', b, happlied, heq⟩ := hs.stored record hrecord
    exact ⟨j, r', b, hiff.mpr happlied, heq⟩
  · rw [h.records]
    exact fun j r' b happlied => hs.recorded j r' b (hiff.mp happlied)
  · exact fun i j r₁ r₂ b b' h₁ h₂ => hs.outcomes.once i j r₁ r₂ b b' (hiff.mp h₁) (hiff.mp h₂)
  · intro j r' b happlied
    refine h.forall_mem (hs.outcomes.excluded j r' b (hiff.mp happlied)) fun hnew => ?_
    exact (key_ne_of_free hs (hm.free hnew) (hiff.mp happlied)).symm
  · intro j r' body hj
    rcases h.slots j _ hj with ⟨-, heq⟩ | ⟨-, hj⟩
    · obtain ⟨rfl, hphase⟩ := BulkCall.mk.inj heq
      obtain ⟨i, r₁, b, happlied, hrest⟩ := hm.replayed body hphase.symm
      exact ⟨i, r₁, b, hiff.mpr happlied, hrest⟩
    · obtain ⟨i, r₁, b, happlied, hrest⟩ := hs.outcomes.replayed j r' body hj
      exact ⟨i, r₁, b, hiff.mpr happlied, hrest⟩
  · intro j r' message hj
    rcases h.slots j _ hj with ⟨-, heq⟩ | ⟨-, hj⟩
    · obtain ⟨rfl, hphase⟩ := BulkCall.mk.inj heq
      obtain ⟨i, r₁, b, happlied, hrest⟩ := hm.refused message hphase.symm
      exact ⟨i, r₁, b, hiff.mpr happlied, hrest⟩
    · obtain ⟨i, r₁, b, happlied, hrest⟩ := hs.outcomes.refused j r' message hj
      exact ⟨i, r₁, b, hiff.mpr happlied, hrest⟩

/-- A call that has ended is not the one that moves. -/
theorem ne_of_finished {j k : ℕ} {c c' : BulkCall} (hk : s.calls[k]? = some c) (hc : c.phase.finished = false)
    (hj : s.calls[j]? = some c') (hc' : c'.phase.finished = true) : k ≠ j := by
  rintro rfl
  rw [hk] at hj
  rw [← Option.some.inj hj, hc] at hc'
  cases hc'

theorem slotStep_setPhase {k : ℕ} {r : BulkRequest} {old : BulkPhase} (hk : s.calls[k]? = some ⟨r, old⟩)
    (hold : old.finished = false) (new : BulkPhase) : SlotStep s (s.setPhase k r new) k r new := by
  refine ⟨rfl, fun j c hj => getElem?_set_cases hj, fun j c hj hc => ?_⟩
  show (s.calls.set k _)[j]? = _
  rw [List.getElem?_set_ne (ne_of_finished hk hold hj hc)]
  exact hj

theorem slotStep_call (r : BulkRequest) (new : BulkPhase) :
    SlotStep s { s with calls := s.calls ++ [⟨r, new⟩] } s.calls.length r new := by
  refine ⟨rfl, fun j c hj => ?_, fun j c hj _ => getElem?_concat_of_some hj⟩
  rcases Nat.lt_or_ge j s.calls.length with hlt | hge
  · rw [List.getElem?_append_left hlt] at hj
    exact .inr ⟨hlt.ne, hj⟩
  · rw [List.getElem?_append_right hge] at hj
    obtain ⟨hzero, heq⟩ := List.getElem?_eq_some_iff.mp hj
    rw [List.length_singleton] at hzero
    exact .inl ⟨by omega, List.mem_singleton.mp (List.mem_of_getElem? hj)⟩

/-! ### The steps -/

theorem check_ne_conflict {r : BulkRequest} {error : BulkError} (h : r.check = .error error) (message : String) :
    error ≠ .idempotencyConflict message := by
  unfold BulkRequest.check checkKey at h
  split_ifs at h <;> (obtain rfl := Except.error.inj h; exact BulkError.noConfusion)

/-- A call that has nothing, or has failed for another reason than its key. -/
theorem fits_plain {k : ℕ} {r : BulkRequest} {new : BulkPhase}
    (h : new = .begun ∨ ∃ error, new = .raised error ∧ ∀ message, error ≠ .idempotencyConflict message) :
    Fits nfc hash s k r new := by
  rcases h with rfl | ⟨error, rfl, herror⟩
  · exact ⟨fun _ => BulkPhase.noConfusion, fun h => Bool.noConfusion h, fun h => Bool.noConfusion h, trivial,
      fun _ => BulkPhase.noConfusion, fun _ => BulkPhase.noConfusion⟩
  · refine ⟨fun _ => BulkPhase.noConfusion, fun h => Bool.noConfusion h, fun h => Bool.noConfusion h, trivial,
      fun _ => BulkPhase.noConfusion, fun message heq => ?_⟩
    exact absurd (BulkPhase.raised.inj heq) (herror message)

/-- The lock of a key is taken only when nobody holds it. -/
theorem fits_locked {k : ℕ} {r : BulkRequest} (h : s.keyLocked r.key = false) : Fits nfc hash s k r .locked := by
  refine ⟨fun _ => BulkPhase.noConfusion, fun _ j c _ hj hc hkey => ?_, fun h => Bool.noConfusion h, trivial,
    fun _ => BulkPhase.noConfusion, fun _ => BulkPhase.noConfusion⟩
  have hheld : s.keyLocked r.key = true := by
    refine List.any_eq_true.mpr ⟨c, List.mem_of_getElem? hj, ?_⟩
    rw [hc, Bool.true_and]
    exact decide_eq_true hkey
  rw [h] at hheld
  cases hheld

/-- A call that holds its lock is alone with its key. -/
theorem alone_of_held (hs : BulkInv nfc hash s) {k : ℕ} {c : BulkCall} (hk : s.calls[k]? = some c)
    (hc : c.phase.holds = true) (j : ℕ) (c' : BulkCall) (hne : j ≠ k) (hj : s.calls[j]? = some c')
    (hc' : c'.phase.holds = true) : c'.request.key ≠ c.request.key :=
  fun hkey => hne (hs.exclusive j k c' c hj hk hc' hc hkey)

theorem fits_reserved (hhash : ∀ r r' : BulkRequest, hash r = hash r' ↔
      Equivalent nfc r.leadIds r'.leadIds r.changes r'.changes) (hs : BulkInv nfc hash s) {k : ℕ} {r : BulkRequest}
    (hk : s.calls[k]? = some ⟨r, .locked⟩) : Fits nfc hash s k r (s.reserved hash r) := by
  have halone := alone_of_held hs hk rfl
  rcases reserved_cases hhash hs r with ⟨hfree, heq⟩ | ⟨j, r', b, happlied, hkey, ⟨hsame, heq⟩ | ⟨hother, m, heq⟩⟩
  · rw [heq]
    exact ⟨fun _ => BulkPhase.noConfusion, fun _ => halone, fun _ => hfree, rfl, fun _ => BulkPhase.noConfusion,
      fun _ => BulkPhase.noConfusion⟩
  · rw [heq]
    refine ⟨fun _ => BulkPhase.noConfusion, fun _ => halone, fun h => Bool.noConfusion h, trivial, fun body hbody => ?_,
      fun _ => BulkPhase.noConfusion⟩
    exact ⟨j, r', b, happlied, hkey, hsame, (BulkPhase.replayed.inj hbody).symm⟩
  · rw [heq]
    exact ⟨fun _ => BulkPhase.noConfusion, fun _ => halone, fun h => Bool.noConfusion h, trivial,
      fun _ => BulkPhase.noConfusion, fun _ _ => ⟨j, r', b, happlied, hkey, hother⟩⟩

theorem fits_worked (hs : BulkInv nfc hash s) {k : ℕ} {r : BulkRequest} {record : IdempotencyRecord}
    (hk : s.calls[k]? = some ⟨r, .reserved record⟩) : Fits nfc hash s k r (s.worked r record) := by
  have hmem := List.mem_of_getElem? hk
  obtain rfl : record = r.newRecord hash := hs.staged _ hmem
  have hfree := hs.free _ hmem rfl
  have halone := alone_of_held hs hk rfl
  unfold BulkSystem.worked
  cases hwork : r.work s.store with
  | error error => exact fits_plain (.inr ⟨_, rfl, fun _ => BulkError.noConfusion⟩)
  | ok work =>
    exact ⟨fun _ => BulkPhase.noConfusion, fun _ => halone, fun _ => hfree, rfl, fun _ => BulkPhase.noConfusion,
      fun _ => BulkPhase.noConfusion⟩

/-- What a step comes to. -/
inductive BulkMove (nfc : Json.Nfc) (hash : BulkRequest → String) (s : BulkSystem) : BulkStep → BulkSystem → Prop
  | stays (l : BulkStep) : BulkMove nfc hash s l s
  | write (lead : Lead) (store : LeadStore) : BulkMove nfc hash s (.write lead) { s with store := store }
  | capture (c : CaptureCall) (store : LeadStore) : BulkMove nfc hash s (.capture c) { s with store := store }
  | call (r : BulkRequest) (new : BulkPhase) (hfits : Fits nfc hash s s.calls.length r new) :
    BulkMove nfc hash s (.call r) { s with calls := s.calls ++ [⟨r, new⟩] }
  | moves (l : BulkStep) (k : ℕ) (r : BulkRequest) (old new : BulkPhase) (hk : s.calls[k]? = some ⟨r, old⟩)
    (hold : old.finished = false) (hfits : Fits nfc hash s k r new) : BulkMove nfc hash s l (s.setPhase k r new)
  | commits (k : ℕ) (r : BulkRequest) (record : IdempotencyRecord) (work : BulkWork)
    (hk : s.calls[k]? = some ⟨r, .worked record work⟩) : BulkMove nfc hash s (.commit k) (s.commitWork k r record work)

theorem bulkMove_step (hhash : ∀ r r' : BulkRequest, hash r = hash r' ↔
      Equivalent nfc r.leadIds r'.leadIds r.changes r'.changes) (hs : BulkInv nfc hash s) (l : BulkStep) :
    BulkMove nfc hash s l (s.step hash l) := by
  cases l with
  | call r =>
    refine .call r _ (fits_plain ?_)
    cases hcheck : r.check with
    | ok _ => exact .inl rfl
    | error error => exact .inr ⟨error, rfl, check_ne_conflict hcheck⟩
  | lock k =>
    dsimp only [BulkSystem.step]
    split
    · next r hk =>
      split_ifs with hlocked
      · exact .stays _
      · exact .moves _ k r .begun .locked hk rfl (fits_locked (Bool.eq_false_iff.mpr hlocked))
    · exact .stays _
  | reserve k =>
    dsimp only [BulkSystem.step]
    split
    · next r hk => exact .moves _ k r .locked _ hk rfl (fits_reserved hhash hs hk)
    · exact .stays _
  | work k =>
    dsimp only [BulkSystem.step]
    split
    · next r record hk =>
      split_ifs
      · exact .stays _
      · exact .moves _ k r (.reserved record) _ hk rfl (fits_worked hs hk)
    · exact .stays _
  | commit k =>
    dsimp only [BulkSystem.step]
    split
    · next r record work hk => exact .commits k r record work hk
    · exact .stays _
  | fail k =>
    dsimp only [BulkSystem.step]
    split
    · next r phase hk =>
      split_ifs with hphase
      · exact .stays _
      · refine .moves _ k r phase _ hk (Bool.eq_false_iff.mpr hphase) (fits_plain (.inr ⟨_, rfl, ?_⟩))
        exact fun _ => BulkError.noConfusion
    · exact .stays _
  | write lead =>
    dsimp only [BulkSystem.step]
    split_ifs
    · exact .stays _
    · exact .write lead _
  | capture c => exact .capture c _

/-! ### The commit -/

/-- The commit of a call that has done its work succeeds. -/
theorem commitWork_eq (hs : BulkInv nfc hash s) {k : ℕ} {r : BulkRequest} {record : IdempotencyRecord}
    {work : BulkWork} (hk : s.calls[k]? = some ⟨r, .worked record work⟩) : ∃ records : IdempotencyRecords,
    records.rows = s.records.rows ++ [(r.newRecord hash).complete 200 work.result] ∧
      s.commitWork k r record work = ⟨work.rows.foldl (fun store row => store.flush row.1 row.2) s.store,
        s.events ++ work.events, records, s.calls.set k ⟨r, .applied work.result⟩⟩ := by
  have hmem := List.mem_of_getElem? hk
  obtain rfl : record = (r.newRecord hash).complete 200 work.result := hs.staged _ hmem
  have hfree := hs.free _ hmem rfl
  obtain ⟨records, happend⟩ := @Table.exists_append? _ _ _ IdempotencyRecord.idempotencyKey s.records
    ((r.newRecord hash).complete 200 work.result) hfree
  refine ⟨records, Table.rows_append? happend, ?_⟩
  rw [BulkSystem.commitWork, happend]

theorem commitWork_spec (hs : BulkInv nfc hash s) {k : ℕ} {r : BulkRequest} {record : IdempotencyRecord}
    {work : BulkWork} (hk : s.calls[k]? = some ⟨r, .worked record work⟩) :
    (s.commitWork k r record work).records.rows =
        s.records.rows ++ [(r.newRecord hash).complete 200 work.result] ∧
      (s.commitWork k r record work).calls = s.calls.set k ⟨r, .applied work.result⟩ := by
  obtain ⟨records, hrecords, heq⟩ := commitWork_eq hs hk
  rw [heq]
  exact ⟨hrecords, rfl⟩

/-- After a commit, its call was applied, and those that were before. -/
theorem applied_commitWork_iff (hs : BulkInv nfc hash s) {k : ℕ} {r : BulkRequest} {record : IdempotencyRecord}
    {work : BulkWork} (hk : s.calls[k]? = some ⟨r, .worked record work⟩) {j : ℕ} {r' : BulkRequest} {b : BulkResult} :
    Applied (s.commitWork k r record work) j r' b ↔ (j = k ∧ r' = r ∧ b = work.result) ∨ Applied s j r' b := by
  rw [Applied, (commitWork_spec hs hk).2]
  constructor
  · intro h
    rcases getElem?_set_cases h with ⟨rfl, heq⟩ | ⟨-, h⟩
    · obtain ⟨rfl, hphase⟩ := BulkCall.mk.inj heq
      exact .inl ⟨rfl, rfl, BulkPhase.applied.inj hphase⟩
    · exact .inr h
  · rintro (⟨rfl, rfl, rfl⟩ | h)
    · exact getElem?_set_of_some hk
    · rw [List.getElem?_set_ne (ne_of_finished hk rfl h rfl)]
      exact h

theorem bulkInv_commit (hs : BulkInv nfc hash s) {k : ℕ} {r : BulkRequest} {record : IdempotencyRecord}
    {work : BulkWork} (hk : s.calls[k]? = some ⟨r, .worked record work⟩) :
    BulkInv nfc hash (s.commitWork k r record work) := by
  obtain ⟨hrows, hcalls⟩ := commitWork_spec hs hk
  have hiff := fun {j r' b} => @applied_commitWork_iff nfc hash s hs k r record work hk j r' b
  have hfree := hs.free _ (List.mem_of_getElem? hk) rfl
  have hnew := fun {j r' b} => @key_ne_of_free nfc hash s hs r.key hfree j r' b
  -- the other calls, none of which holds the key
  have hslot : ∀ (j : ℕ) c, (s.commitWork k r record work).calls[j]? = some c →
      c = ⟨r, .applied work.result⟩ ∨ (s.calls[j]? = some c ∧ (c.phase.holds = true → c.request.key ≠ r.key)) := by
    intro j c hj
    rw [hcalls] at hj
    rcases getElem?_set_cases hj with ⟨-, rfl⟩ | ⟨hne, hj⟩
    · exact .inl rfl
    · exact .inr ⟨hj, alone_of_held hs hk rfl j c hne hj⟩
  have hmem : ∀ c ∈ (s.commitWork k r record work).calls, c.phase.reserving = true →
      c ∈ s.calls ∧ c.request.key ≠ r.key := by
    intro c hc hreserving
    obtain ⟨j, hj⟩ := List.mem_iff_getElem?.mp hc
    rcases hslot j c hj with rfl | ⟨hj, hother⟩
    · cases hreserving
    · exact ⟨List.mem_of_getElem? hj, hother (BulkPhase.holds_of_reserving hreserving)⟩
  refine ⟨?_, ?_, ?_, ?_, ?_, ?_, ?_, ?_, ?_⟩
  · intro i j c c' hi hj hc hc' hkey
    rcases hslot i c hi with rfl | ⟨hi, -⟩
    · cases hc
    · rcases hslot j c' hj with rfl | ⟨hj, -⟩
      · cases hc'
      · exact hs.exclusive i j c c' hi hj hc hc' hkey
  · intro c hc hreserving
    obtain ⟨hc, hother⟩ := hmem c hc hreserving
    rw [Table.find?_of_rows_concat hrows hother.symm]
    exact hs.free c hc hreserving
  · rw [hcalls]
    exact forall_mem_set hs.staged trivial
  · rw [hrows]
    refine forall_mem_concat (fun record' hrecord => ?_) ⟨k, r, work.result, hiff.mpr (.inl ⟨rfl, rfl, rfl⟩), rfl⟩
    obtain ⟨j, r', b, happlied, heq⟩ := hs.stored record' hrecord
    exact ⟨j, r', b, hiff.mpr (.inr happlied), heq⟩
  · rw [hrows]
    intro j r' b happlied
    rcases hiff.mp happlied with ⟨-, rfl, rfl⟩ | happlied
    · exact List.mem_concat_self
    · exact List.mem_append_left _ (hs.recorded j r' b happlied)
  · intro i j r₁ r₂ b b' h₁ h₂ hkey
    rcases hiff.mp h₁ with ⟨hi, heq₁, -⟩ | h₁'
    · rcases hiff.mp h₂ with ⟨hj, -, -⟩ | h₂'
      · exact hi.trans hj.symm
      · exact absurd (hkey.symm.trans (congrArg _ heq₁)) (hnew h₂')
    · rcases hiff.mp h₂ with ⟨-, heq₂, -⟩ | h₂'
      · exact absurd (hkey.trans (congrArg _ heq₂)) (hnew h₁')
      · exact hs.outcomes.once i j r₁ r₂ b b' h₁' h₂' hkey
  · intro j r' b happlied c hc hreserving
    obtain ⟨hc, hother⟩ := hmem c hc hreserving
    rcases hiff.mp happlied with ⟨-, rfl, -⟩ | happlied
    · exact hother
    · exact hs.outcomes.excluded j r' b happlied c hc hreserving
  · intro j r' body hj
    rcases hslot j _ hj with heq | ⟨hj, -⟩
    · cases (BulkCall.mk.inj heq).2
    · obtain ⟨i, r₁, b, happlied, hrest⟩ := hs.outcomes.replayed j r' body hj
      exact ⟨i, r₁, b, hiff.mpr (.inr happlied), hrest⟩
  · intro j r' message hj
    rcases hslot j _ hj with heq | ⟨hj, -⟩
    · cases (BulkCall.mk.inj heq).2
    · obtain ⟨i, r₁, b, happlied, hrest⟩ := hs.outcomes.refused j r' message hj
      exact ⟨i, r₁, b, hiff.mpr (.inr happlied), hrest⟩

/-- Others may write the leads. -/
theorem bulkInv_store (hs : BulkInv nfc hash s) (store : LeadStore) : BulkInv nfc hash { s with store := store } where
  exclusive := hs.exclusive
  free := hs.free
  staged := hs.staged
  stored := hs.stored
  recorded := hs.recorded
  outcomes := ⟨hs.outcomes.once, hs.outcomes.excluded, hs.outcomes.replayed, hs.outcomes.refused⟩

theorem bulkInv_step (hhash : ∀ r r' : BulkRequest, hash r = hash r' ↔
      Equivalent nfc r.leadIds r'.leadIds r.changes r'.changes) (hs : BulkInv nfc hash s) (l : BulkStep) :
    BulkInv nfc hash (s.step hash l) := by
  have hmove := bulkMove_step hhash hs l
  generalize s.step hash l = s' at hmove ⊢
  cases hmove with
  | stays => exact hs
  | write lead store => exact bulkInv_store hs store
  | capture c store => exact bulkInv_store hs store
  | call r new hfits => exact bulkInv_slotStep hs (slotStep_call r new) hfits
  | moves _ k r old new hk hold hfits => exact bulkInv_slotStep hs (slotStep_setPhase hk hold new) hfits
  | commits k r record work hk => exact bulkInv_commit hs hk

end Invariant

/-! ## The rows of the calls -/

/-- The calls that have done their work have it on the stored leads, and no two of them on one lead. -/
structure RowInv (s : BulkSystem) : Prop where
  worked : ∀ (k : ℕ) r record work, s.calls[k]? = some ⟨r, .worked record work⟩ → work.Of s.store r
  apart : ∀ (i j : ℕ) r r' record record' work work', s.calls[i]? = some ⟨r, .worked record work⟩ →
    s.calls[j]? = some ⟨r', .worked record' work'⟩ → i ≠ j → ∀ id ∈ r.leadIds, id ∉ r'.leadIds

section Rows

variable {hash : BulkRequest → String} {s s' : BulkSystem}

theorem rowInv_start (store : LeadStore) : RowInv (.start store) :=
  ⟨fun _ _ _ _ h => by simp [BulkSystem.start] at h, fun _ _ _ _ _ _ _ _ h => by simp [BulkSystem.start] at h⟩

/-- What `bulk_update` makes of the leads it finds. -/
theorem BulkRequest.work_of {r : BulkRequest} {store : LeadStore} {work : BulkWork} (h : r.work store = .ok work) :
    work.Of store r := by
  unfold BulkRequest.work at h
  dsimp only at h
  split_ifs at h with hfound
  · cases h
  · obtain ⟨targets, htargets, h⟩ := bind_eq_ok.mp h
    obtain rfl := pure_eq_ok.mp h
    have hpairs := mapM_eq_ok htargets
    have hfst : ((r.rows store).zip targets).map Prod.fst = r.rows store :=
      List.map_fst_zip hpairs.length_eq.le
    have hids : ((r.workOf ((r.rows store).zip targets)).rows.map fun row => row.1.id) =
        (r.rows store).map (·.id) := by
      rw [← hfst, List.map_map, hfst]
      rfl
    have hmem : ∀ {lead}, lead ∈ r.rows store ↔
        lead ∈ store.tables.leads.rows ∧ LeadStore.selected r.scope r.leadIds lead = true := by
      intro lead
      rw [BulkRequest.rows, (List.perm_insertionSort _ _).mem_iff, List.mem_filter]
    have hnodup : ((r.rows store).map (·.id)).Nodup := by
      have hperm := (List.perm_insertionSort (fun a b : Lead => a.id.text ≤ b.id.text)
        (store.tables.leads.rows.filter (LeadStore.selected r.scope r.leadIds))).map Lead.id
      exact hperm.nodup_iff.mpr (store.tables.leads.keys_nodup.sublist (List.filter_sublist.map _))
    refine ⟨rfl, ?_, ?_, hids ▸ hnodup⟩
    · rintro ⟨lead, target⟩ hrow
      obtain ⟨hlead, hselected⟩ := hmem.mp (List.of_mem_zip hrow).1
      exact ⟨Table.find?_of_mem hlead, hselected, List.forall₂_zip hpairs hrow⟩
    · -- as many leads as ids, each with one of them
      have hsub : (r.rows store).map (·.id) ⊆ normalizedIds r.leadIds := by
        intro id hid
        obtain ⟨lead, hlead, rfl⟩ := List.mem_map.mp hid
        have hselected := (hmem.mp hlead).2
        unfold LeadStore.selected at hselected
        rw [Bool.and_eq_true, List.contains_iff_mem] at hselected
        exact mem_normalizedIds.mpr hselected.2
      have hperm := (hnodup.subperm hsub).perm_of_length_le (by
        rw [List.length_map]
        exact (not_not.mp hfound).ge)
      intro id
      rw [hids, hperm.mem_iff, mem_normalizedIds]

theorem BulkWork.Of.congr {work : BulkWork} {store store' : LeadStore} {r : BulkRequest} (h : work.Of store r)
    (hsame : ∀ id ∈ r.leadIds, store'.tables.leads.find? id = store.tables.leads.find? id) : work.Of store' r where
  made := h.made
  rows row hrow := by
    obtain ⟨hfind, hrest⟩ := h.rows row hrow
    exact ⟨(hsame _ ((h.named _).mpr (List.mem_map_of_mem hrow))).trans hfind, hrest⟩
  named := h.named
  once := h.once

/-- A row that a bulk update made is what its flush leaves. -/
theorem flush_bulkUpdate {lead target : Lead} {changes : BulkChanges} (h : lead.bulkUpdate changes = .ok target) :
    lead.flush target lead = target := by
  rw [(bulkUpdated_of_ok h).same]
  simp only [Lead.flush, column_loaded, jsonColumn, ite_self]

/-- The flush of the rows of a call, one after the other. -/
theorem find?_flushes {changes : BulkChanges} : ∀ {rows : List (Lead × Lead)} {store : LeadStore},
    (rows.map fun row => row.1.id).Nodup →
    (∀ row ∈ rows, store.tables.leads.find? row.1.id = some row.1 ∧ row.1.bulkUpdate changes = .ok row.2) →
    (∀ row ∈ rows, (rows.foldl (fun store row => store.flush row.1 row.2) store).tables.leads.find? row.1.id =
        some row.2) ∧
      ∀ id, id ∉ (rows.map fun row => row.1.id) →
        (rows.foldl (fun store row => store.flush row.1 row.2) store).tables.leads.find? id =
          store.tables.leads.find? id
  | [], _, _, _ => ⟨fun _ h => absurd h List.not_mem_nil, fun _ _ => rfl⟩
  | (lead, target) :: rows, store, hnodup, hrows => by
    rw [List.map_cons, List.nodup_cons] at hnodup
    obtain ⟨hfind, hmade⟩ := hrows _ List.mem_cons_self
    have hself : (store.flush lead target).tables.leads.find? lead.id = some target := by
      rw [find?_flush_self hfind, flush_bulkUpdate hmade]
    obtain ⟨hdone, hothers⟩ := @find?_flushes changes rows (store.flush lead target) hnodup.2 (by
      intro row hrow
      obtain ⟨hfind', hmade'⟩ := hrows row (List.mem_cons_of_mem _ hrow)
      refine ⟨(find?_flush_of_ne fun hsame => hnodup.1 ?_).trans hfind', hmade'⟩
      exact List.mem_map.mpr ⟨row, hrow, hsame⟩)
    refine ⟨fun row hrow => ?_, fun id hid => ?_⟩
    · rcases List.mem_cons.mp hrow with rfl | hrow
      · exact (hothers _ hnodup.1).trans hself
      · exact hdone row hrow
    · rw [List.map_cons, List.mem_cons, not_or] at hid
      exact (hothers id hid.2).trans (find?_flush_of_ne hid.1)

/-- A flush is of the leads alone. -/
theorem rest_flushes : ∀ (rows : List (Lead × Lead)) (store : LeadStore),
    (rows.foldl (fun store row => store.flush row.1 row.2) store).tables.events = store.tables.events ∧
      (rows.foldl (fun store row => store.flush row.1 row.2) store).contacts = store.contacts
  | [], _ => ⟨rfl, rfl⟩
  | (lead, target) :: rows, store => rest_flushes rows (store.flush lead target)

/-- No call has done more work, and the leads of those that have done it are as they were. -/
theorem RowInv.mono (hs : RowInv s)
    (hcalls : ∀ (k : ℕ) r record work, s'.calls[k]? = some ⟨r, .worked record work⟩ →
      s.calls[k]? = some ⟨r, .worked record work⟩)
    (hleads : ∀ (k : ℕ) r record work, s'.calls[k]? = some ⟨r, .worked record work⟩ → ∀ id ∈ r.leadIds,
      s'.store.tables.leads.find? id = s.store.tables.leads.find? id) : RowInv s' where
  worked k r record work hk := (hs.worked k r record work (hcalls k r record work hk)).congr (hleads k r record work hk)
  apart i j r r' record record' work work' hi hj :=
    hs.apart i j r r' record record' work work' (hcalls i r record work hi) (hcalls j r' record' work' hj)

theorem RowInv.setPhase (hs : RowInv s) {k : ℕ} {r : BulkRequest} {new : BulkPhase}
    (hnew : ∀ record work, new ≠ .worked record work) : RowInv (s.setPhase k r new) := by
  refine hs.mono (fun j r' record work hj => ?_) fun _ _ _ _ _ _ _ => rfl
  rcases getElem?_set_cases hj with ⟨-, heq⟩ | ⟨-, hj⟩
  · exact absurd (BulkCall.mk.inj heq).2.symm (hnew record work)
  · exact hj

/-- Whoever has done work holds the locks of its rows. -/
theorem RowInv.rowLocked (hs : RowInv s) {k : ℕ} {r : BulkRequest} {record : IdempotencyRecord} {work : BulkWork}
    (hk : s.calls[k]? = some ⟨r, .worked record work⟩) {id : Uuid} (hid : id ∈ r.leadIds) : s.rowLocked id = true := by
  refine List.any_eq_true.mpr ⟨_, List.mem_of_getElem? hk, ?_⟩
  rw [List.contains_iff_mem]
  exact ((hs.worked k r record work hk).named id).mp hid

theorem RowInv.work (hs : RowInv s) {k : ℕ} {r : BulkRequest} {record : IdempotencyRecord}
    (hfree : ¬((r.rows s.store).any fun lead => s.rowLocked lead.id) = true) :
    RowInv (s.setPhase k r (s.worked r record)) := by
  unfold BulkSystem.worked
  cases hwork : r.work s.store with
  | error error => exact hs.setPhase fun _ _ => BulkPhase.noConfusion
  | ok work =>
    have hof := r.work_of hwork
    -- nobody else has a lock on what the call has found
    have hunlocked : ∀ id ∈ r.leadIds, s.rowLocked id = false := by
      intro id hid
      obtain ⟨row, hrow, rfl⟩ := List.mem_map.mp ((hof.named id).mp hid)
      obtain ⟨hfind, hselected, -⟩ := hof.rows row hrow
      refine Bool.eq_false_iff.mpr fun hlocked => hfree (List.any_eq_true.mpr ⟨row.1, ?_, hlocked⟩)
      rw [BulkRequest.rows, (List.perm_insertionSort _ _).mem_iff, List.mem_filter]
      exact ⟨Table.mem_of_find? hfind, hselected⟩
    have hold : ∀ {j : ℕ} {r' record' work'}, s.calls[j]? = some ⟨r', .worked record' work'⟩ →
        ∀ id ∈ r.leadIds, id ∉ r'.leadIds := by
      intro j r' record' work' hj id hid hid'
      have hlocked := hs.rowLocked hj hid'
      rw [hunlocked id hid] at hlocked
      cases hlocked
    refine ⟨fun j r' record' work' hj => ?_, fun i j r₁ r₂ record₁ record₂ work₁ work₂ hi hj hne id hid hid' => ?_⟩
    · rcases getElem?_set_cases hj with ⟨-, heq⟩ | ⟨-, hj⟩
      · obtain ⟨rfl, hphase⟩ := BulkCall.mk.inj heq
        obtain ⟨-, rfl⟩ := BulkPhase.worked.inj hphase
        exact hof
      · exact hs.worked j r' record' work' hj
    · rcases getElem?_set_cases hi with ⟨rfl, heq⟩ | ⟨-, hi'⟩
      · obtain ⟨rfl, -⟩ := BulkCall.mk.inj heq
        rcases getElem?_set_cases hj with ⟨rfl, -⟩ | ⟨-, hj'⟩
        · exact hne rfl
        · exact hold hj' id hid hid'
      · rcases getElem?_set_cases hj with ⟨-, heq⟩ | ⟨-, hj'⟩
        · obtain ⟨rfl, -⟩ := BulkCall.mk.inj heq
          exact hold hi' id hid' hid
        · exact hs.apart i j r₁ r₂ record₁ record₂ work₁ work₂ hi' hj' hne id hid hid'

/-- The rows of a call that commits. -/
theorem rows_commitWork (hs : RowInv s) {k : ℕ} {r : BulkRequest} {record : IdempotencyRecord} {work : BulkWork}
    (hk : s.calls[k]? = some ⟨r, .worked record work⟩) :
    (∀ row ∈ work.rows, (work.rows.foldl (fun store row => store.flush row.1 row.2) s.store).tables.leads.find?
        row.1.id = some row.2) ∧
      ∀ id, id ∉ r.leadIds → (work.rows.foldl (fun store row => store.flush row.1 row.2) s.store).tables.leads.find? id =
        s.store.tables.leads.find? id := by
  have hof := hs.worked k r record work hk
  obtain ⟨hdone, hothers⟩ := find?_flushes hof.once fun row hrow =>
    ⟨(hof.rows row hrow).1, (hof.rows row hrow).2.2⟩
  exact ⟨hdone, fun id hid => hothers id fun hmem => hid ((hof.named id).mpr hmem)⟩

theorem RowInv.commitWork (hs : RowInv s) {k : ℕ} {r : BulkRequest} {record : IdempotencyRecord} {work : BulkWork}
    (hk : s.calls[k]? = some ⟨r, .worked record work⟩) : RowInv (s.commitWork k r record work) := by
  unfold BulkSystem.commitWork
  split
  · have hslot : ∀ (j : ℕ) r' record' work',
        (s.calls.set k ⟨r, .applied work.result⟩)[j]? = some ⟨r', .worked record' work'⟩ →
          j ≠ k ∧ s.calls[j]? = some ⟨r', .worked record' work'⟩ := by
      intro j r' record' work' hj
      rcases getElem?_set_cases hj with ⟨-, heq⟩ | ⟨hne, hj⟩
      · cases (BulkCall.mk.inj heq).2
      · exact ⟨hne, hj⟩
    refine hs.mono (fun j r' record' work' hj => (hslot j r' record' work' hj).2) fun j r' record' work' hj id hid => ?_
    obtain ⟨hne, hj⟩ := hslot j r' record' work' hj
    exact (rows_commitWork hs hk).2 id (hs.apart j k r' r record' record work' work hj hk hne id hid)
  · exact hs.setPhase fun _ _ => BulkPhase.noConfusion

theorem rowInv_step (hs : RowInv s) (l : BulkStep) : RowInv (s.step hash l) := by
  cases l with
  | call r =>
    refine hs.mono (fun j r' record work hj => ?_) fun _ _ _ _ _ _ _ => rfl
    rcases (slotStep_call r _).slots j _ hj with ⟨-, heq⟩ | ⟨-, hj⟩
    · have hphase := (BulkCall.mk.inj heq).2
      split at hphase <;> cases hphase
    · exact hj
  | lock k =>
    dsimp only [BulkSystem.step]
    split
    · split_ifs
      · exact hs
      · exact hs.setPhase fun _ _ => BulkPhase.noConfusion
    · exact hs
  | reserve k =>
    dsimp only [BulkSystem.step]
    split
    · refine hs.setPhase fun record work hphase => ?_
      unfold BulkSystem.reserved at hphase
      split at hphase <;> cases hphase
    · exact hs
  | work k =>
    dsimp only [BulkSystem.step]
    split
    · split_ifs with hlocked
      · exact hs
      · exact hs.work hlocked
    · exact hs
  | commit k =>
    dsimp only [BulkSystem.step]
    split
    · next r record work hk => exact hs.commitWork hk
    · exact hs
  | fail k =>
    dsimp only [BulkSystem.step]
    split
    · split_ifs
      · exact hs
      · exact hs.setPhase fun _ _ => BulkPhase.noConfusion
    · exact hs
  | write lead =>
    dsimp only [BulkSystem.step]
    split_ifs with hlocked
    · exact hs
    · refine hs.mono (fun _ _ _ _ h => h) fun k r record work hk id hid => Table.find?_set_of_ne ?_
      rintro rfl
      exact hlocked (hs.rowLocked hk hid)
  | capture c =>
    refine hs.mono (fun _ _ _ _ h => h) fun k r record work hk id hid => ?_
    obtain ⟨row, hrow, rfl⟩ := List.mem_map.mp (((hs.worked k r record work hk).named id).mp hid)
    have hfind := ((hs.worked k r record work hk).rows row hrow).1
    show ((s.store.capture c).toOption.getD s.store).tables.leads.find? row.1.id = _
    unfold LeadStore.capture
    cases hinsert : s.store.tables.insert? [c.lead] [c.event] with
    | none => rfl
    | some tables => exact (Table.find?_append?_of_some (append?_of_insert? hinsert).1 hfind).trans hfind.symm

end Rows

/-! ## What a step may do -/

section Invariant

variable {nfc : Json.Nfc} {hash : BulkRequest → String} {s s' : BulkSystem}

theorem step_reserve {k : ℕ} {r : BulkRequest} (hk : s.calls[k]? = some ⟨r, .locked⟩) :
    s.step hash (.reserve k) = s.setPhase k r (s.reserved hash r) := by
  simp only [BulkSystem.step, hk]

theorem calls_setPhase {k : ℕ} {r : BulkRequest} {old new : BulkPhase} (hk : s.calls[k]? = some ⟨r, old⟩) :
    (s.setPhase k r new).calls[k]? = some ⟨r, new⟩ :=
  getElem?_set_of_some hk

/-- A call with the key of one that was applied gets its body, or is refused. -/
theorem reserved_of_applied (hhash : ∀ r r' : BulkRequest, hash r = hash r' ↔
      Equivalent nfc r.leadIds r'.leadIds r.changes r'.changes) (hs : BulkInv nfc hash s) {r r' : BulkRequest} {j : ℕ}
    {b : BulkResult} (happlied : Applied s j r' b) (hkey : r'.key = r.key) :
    (Equivalent nfc r.leadIds r'.leadIds r.changes r'.changes ∧ s.reserved hash r = .replayed (some b)) ∨
      (¬Equivalent nfc r.leadIds r'.leadIds r.changes r'.changes ∧
        ∃ message, s.reserved hash r = .raised (.idempotencyConflict message)) := by
  rcases reserved_cases hhash hs r with ⟨hfree, -⟩ | ⟨i, r₁, b₁, happlied₁, hkey₁, h⟩
  · exact absurd hkey (key_ne_of_free hs hfree happlied)
  · obtain rfl := hs.outcomes.once i j r₁ r' b₁ b happlied₁ happlied (hkey₁.trans hkey.symm)
    obtain ⟨rfl, hphase⟩ := BulkCall.mk.inj (Option.some.inj (happlied₁.symm.trans happlied))
    obtain rfl := BulkPhase.applied.inj hphase
    exact h

/-- A call that has not ended is not where one has. -/
theorem not_raised {k : ℕ} {r : BulkRequest} {phase : BulkPhase} {error : BulkError}
    (hk : s.calls[k]? = some ⟨r, phase⟩) (hphase : phase.finished = false) :
    s.calls[k]? ≠ some ⟨r, .raised error⟩ :=
  fun h => ne_of_finished hk hphase h rfl rfl

theorem silent_step (hhash : ∀ r r' : BulkRequest, hash r = hash r' ↔
      Equivalent nfc r.leadIds r'.leadIds r.changes r'.changes) (hs : BulkInv nfc hash s) (l : BulkStep)
    (hwrite : ∀ lead, l ≠ .write lead) (hcapture : ∀ c, l ≠ .capture c)
    (hcommit : ∀ (k : ℕ) r record work, l = .commit k → s.calls[k]? ≠ some ⟨r, .worked record work⟩) :
    SameData s (s.step hash l) := by
  have hmove := bulkMove_step hhash hs l
  generalize s.step hash l = s' at hmove ⊢
  cases hmove with
  | stays => exact ⟨rfl, rfl, rfl⟩
  | write lead => exact absurd rfl (hwrite lead)
  | capture c => exact absurd rfl (hcapture c)
  | call => exact ⟨rfl, rfl, rfl⟩
  | moves => exact ⟨rfl, rfl, rfl⟩
  | commits k r record work hk => exact absurd hk (hcommit k r record work rfl)

theorem raising_step (hhash : ∀ r r' : BulkRequest, hash r = hash r' ↔
      Equivalent nfc r.leadIds r'.leadIds r.changes r'.changes) (hs : BulkInv nfc hash s) (l : BulkStep) {k : ℕ}
    {r : BulkRequest} {phase : BulkPhase} {error : BulkError} (hk : s.calls[k]? = some ⟨r, phase⟩)
    (hphase : phase.finished = false) (hnew : (s.step hash l).calls[k]? = some ⟨r, .raised error⟩) :
    SameData s (s.step hash l) := by
  have hmove := bulkMove_step hhash hs l
  generalize s.step hash l = s' at hmove hnew ⊢
  cases hmove with
  | stays => exact ⟨rfl, rfl, rfl⟩
  | write => exact absurd hnew (not_raised hk hphase)
  | capture => exact absurd hnew (not_raised hk hphase)
  | call => exact ⟨rfl, rfl, rfl⟩
  | moves => exact ⟨rfl, rfl, rfl⟩
  | commits k' r' record work hk' =>
    rw [(commitWork_spec hs hk').2] at hnew
    rcases getElem?_set_cases hnew with ⟨-, heq⟩ | ⟨-, hraised⟩
    · cases (BulkCall.mk.inj heq).2
    · exact absurd hraised (not_raised hk hphase)

theorem settled_step (hhash : ∀ r r' : BulkRequest, hash r = hash r' ↔
      Equivalent nfc r.leadIds r'.leadIds r.changes r'.changes) (hs : BulkInv nfc hash s) (l : BulkStep) {j : ℕ}
    {c : BulkCall} (hj : s.calls[j]? = some c) (hc : c.phase.finished = true) :
    (s.step hash l).calls[j]? = some c := by
  have hmove := bulkMove_step hhash hs l
  generalize s.step hash l = s' at hmove ⊢
  cases hmove with
  | stays => exact hj
  | write => exact hj
  | capture => exact hj
  | call r new => exact (slotStep_call r new).kept j c hj hc
  | moves _ k r old new hk hold => exact (slotStep_setPhase hk hold new).kept j c hj hc
  | commits k r record work hk =>
    rw [(commitWork_spec hs hk).2, List.getElem?_set_ne (ne_of_finished hk rfl hj hc)]
    exact hj

theorem committed_commitWork (hs : BulkInv nfc hash s) (hrows : RowInv s) {k : ℕ} {r : BulkRequest}
    {record : IdempotencyRecord} {work : BulkWork} (hk : s.calls[k]? = some ⟨r, .worked record work⟩) :
    Committed hash s (s.commitWork k r record work) r work := by
  obtain ⟨records, hrecords, heq⟩ := commitWork_eq hs hk
  obtain ⟨hdone, hothers⟩ := rows_commitWork hrows hk
  obtain ⟨hsources, hcontacts⟩ := rest_flushes work.rows s.store
  rw [heq]
  exact ⟨hrows.worked k r record work hk, hdone, hothers, hsources, hcontacts, rfl, hrecords⟩

theorem exactlyOnce_step (hhash : ∀ r r' : BulkRequest, hash r = hash r' ↔
      Equivalent nfc r.leadIds r'.leadIds r.changes r'.changes) (hs : BulkInv nfc hash s) (hrows : RowInv s)
    (l : BulkStep) : ExactlyOnce nfc hash s l where
  silent := silent_step hhash hs l
  raises := fun _ _ _ _ hk hphase hnew => raising_step hhash hs l hk hphase hnew
  settled := fun _ _ hk hc => settled_step hhash hs l hk hc
  commits := by
    rintro k r record work rfl hk
    have hstep : s.step hash (.commit k) = s.commitWork k r record work := by
      simp only [BulkSystem.step, hk]
    rw [hstep]
    refine ⟨(applied_commitWork_iff hs hk).mpr (.inl ⟨rfl, rfl, rfl⟩), committed_commitWork hs hrows hk,
      fun j r' b happlied => ?_⟩
    exact key_ne_of_free hs (hs.free _ (List.mem_of_getElem? hk) rfl) happlied
  replays := by
    rintro k r j r' b rfl hk happlied hkey hsame
    rcases reserved_of_applied hhash hs happlied hkey with ⟨-, heq⟩ | ⟨hother, -⟩
    · rw [step_reserve hk, heq]
      exact calls_setPhase hk
    · exact absurd hsame hother
  refuses := by
    rintro k r j r' b rfl hk happlied hkey hother
    rcases reserved_of_applied hhash hs happlied hkey with ⟨hsame, -⟩ | ⟨-, m, heq⟩
    · exact absurd hsame hother
    · rw [step_reserve hk, heq]
      exact ⟨m, calls_setPhase hk⟩
  usable := by
    intro k r hunused
    constructor
    · rintro rfl hk hfree
      have hlocked : s.keyLocked r.key = false := by
        rw [BulkSystem.keyLocked, List.any_eq_false]
        intro c hc hheld
        obtain ⟨hholds, hkey⟩ := Bool.and_eq_true_iff.mp hheld
        exact hfree c hc hholds (of_decide_eq_true hkey)
      have hstep : s.step hash (.lock k) = s.setPhase k r .locked := by
        simp only [BulkSystem.step, hk, hlocked, Bool.false_eq_true, if_false]
      rw [hstep]
      exact calls_setPhase hk
    · rintro rfl hk
      rcases reserved_cases hhash hs r with ⟨-, heq⟩ | ⟨j, r', b, happlied, hkey, -⟩
      · rw [step_reserve hk, heq]
        exact ⟨_, calls_setPhase hk⟩
      · exact absurd hkey (hunused j r' b happlied)

end Invariant

/-! ## The result -/

/-- The hash of a call. -/
def BulkRequest.hash (nfc : Json.Nfc) (sha256 : Sha256) (r : BulkRequest) : String :=
  hashPayload nfc sha256 (requestPayload r.leadIds r.changes)

/-- **A bulk update is applied once**: in every run, over all keys, interleavings and failures. -/
theorem bulk_update_once (nfc : Json.Nfc) (sha256 : Sha256) (store : LeadStore) (steps : List BulkStep) :
    Always (BulkSystem.step (BulkRequest.hash nfc sha256)) (Outcomes nfc) (.start store) steps ∧
      Meets (BulkSystem.step (BulkRequest.hash nfc sha256)) (ExactlyOnce nfc (BulkRequest.hash nfc sha256))
        (.start store) steps := by
  have hhash : ∀ r r' : BulkRequest, r.hash nfc sha256 = r'.hash nfc sha256 ↔
      Equivalent nfc r.leadIds r'.leadIds r.changes r'.changes :=
    fun r r' => requestHash_eq_iff r.ascii r'.ascii
  have hstart : BulkInv nfc (BulkRequest.hash nfc sha256) (.start store) ∧ RowInv (.start store) :=
    ⟨bulkInv_start nfc (BulkRequest.hash nfc sha256) store, rowInv_start store⟩
  have hmeets := meets_of_inv (fun s => BulkInv nfc (BulkRequest.hash nfc sha256) s ∧ RowInv s)
    (fun s l hs => ⟨exactlyOnce_step hhash hs.1 hs.2 l, bulkInv_step hhash hs.1 l, rowInv_step hs.2 l⟩) steps _ hstart
  refine ⟨?_, hmeets⟩
  exact always_of_inv (BulkInv nfc (BulkRequest.hash nfc sha256)) (fun s hs => hs.outcomes)
    (fun s l hs _ => bulkInv_step hhash hs l) steps _ hstart.1 hmeets

/-- A lead is given to a colleague. -/
def assignRequest (operation : Char) : BulkRequest where
  mayUpdate := true
  mayAssign := true
  scope := fun _ => true
  leadIds := [sampleUuid '1']
  changes := { assigneeId := some (some (sampleUuid 'a')) }
  idempotencyKey := some "assign-1"
  operationId := sampleUuid operation
  ascii := by
    intro id hid
    obtain rfl := List.mem_singleton.mp hid
    exact List.forall_iff_forall_mem.mp (by decide)

/-- A request, and the same once more. -/
def assignTwice : List BulkStep :=
  [.call (assignRequest '7'), .lock 0, .reserve 0, .work 0, .commit 0, .call (assignRequest '8'), .lock 1, .reserve 1]

def plainNfc : Json.Nfc := ⟨fun s => s, fun _ _ => rfl⟩

def plainSha256 : Sha256 := ⟨id, Function.injective_id⟩

/-- The commit of the first call gives the lead its assignee, and the second call gets the body of the first. -/
theorem bulk_update_once_assigned :
    let step := BulkSystem.step (BulkRequest.hash plainNfc plainSha256)
    let start : BulkSystem := .start ⟨sampleTables none, []⟩
    let result : BulkResult := ⟨sampleUuid '7', 1, 1, [sampleUuid '1'], ["assignee_id"]⟩
    let s := step (after step start (assignTwice.take 4)) (.commit 0)
    Applied s 0 (assignRequest '7') result ∧
      s.store.tables.leads.find? (sampleUuid '1') =
        some { sampleLead '1' none with assigneeId := some (sampleUuid 'a'), version := 2 } ∧
      s.events = [.leadUpdated (sampleUuid '1') (sampleUuid '7') ["assignee_id"],
        .operationCompleted (sampleUuid '7') 1 1 ["assignee_id"]] ∧
      (step (after step start (assignTwice.take 7)) (.reserve 1)).calls[1]? =
        some ⟨assignRequest '8', .replayed (some result)⟩ := by
  intro step start result s
  have hmeets := (bulk_update_once plainNfc plainSha256 ⟨sampleTables none, []⟩ assignTwice).2
  have hcommit := (@meets_append _ _ _ _ (assignTwice.take 4) _ _).mp hmeets |>.2.1
  have hreserve := (@meets_append _ _ _ _ (assignTwice.take 7) _ _).mp hmeets |>.2.1
  obtain ⟨happlied, hcommitted, -⟩ := hcommit.commits 0 (assignRequest '7') _ _ rfl rfl
  have hreplayed := hreserve.replays 1 (assignRequest '8') 0 (assignRequest '7') result rfl rfl rfl rfl
    ⟨fun _ => Iff.rfl, rfl⟩
  refine ⟨happlied, ?_, hcommitted.events, hreplayed⟩
  exact hcommitted.rows (sampleLead '1' none,
    { sampleLead '1' none with assigneeId := some (sampleUuid 'a'), version := 2 }) (List.mem_singleton_self _)

end RevenueOS.Leads
