import RevenueOS.Lib.Slots
import RevenueOS.Lib.Table
import RevenueOS.Lib.Trace
import RevenueOS.Py.Text
import RevenueOS.Workflows.Triggers

/-!
# RevenueOS.Crm.Appointments — the diary of an organizer

`AppointmentService.book`, `reschedule`, `cancel` and `record_outcome` (`application/crm/appointments.py`) with
`can_reschedule` and `can_cancel` (`domain/appointments/slots.py`), for calls that overlap under read committed.  A
booking writes a lock on the organizer and the start in its transaction, and the lock moves and goes with it.  The
sessions do not flush by themselves: a call reads, and at its commit writes the columns that differ from what it read.

* `DiaryTables.Locked`: an open appointment has a lock at its start, so no two of one organizer start together.
* `never_double_booked`: in a run in which a booking meets others of the organizer only at its start, and a move finds
  the times it keeps, no two open appointments overlap.  `quarterPast_overlaps` is a run with two that do.

Left out: the columns that no rule reads, the expiry of a lock, which nothing reads, audit records and events.  The
ids of the locks, which `uuid7` draws and nothing reads, are numbers in the order in which they are drawn.
-/

namespace RevenueOS.Crm

open RevenueOS.Py RevenueOS.Lib RevenueOS.Workflows

/-! ## Rows -/

inductive AppointmentStatus where
  | scheduled
  | confirmed
  | completed
  | cancelled
  | noShow
deriving DecidableEq

def AppointmentStatus.value : AppointmentStatus → String
  | .scheduled => "scheduled"
  | .confirmed => "confirmed"
  | .completed => "completed"
  | .cancelled => "cancelled"
  | .noShow => "no_show"

/-- `OPEN_STATUSES`. -/
def openStatuses : List AppointmentStatus := [.scheduled, .confirmed]

inductive LocationType where
  | physical
  | virtual
  | phone
deriving DecidableEq

/-- The values of `LOCATION_TYPES`. -/
def LocationType.parse : String → Option LocationType
  | "physical" => some .physical
  | "virtual" => some .virtual
  | "phone" => some .phone
  | _ => none

/-- Times are in microseconds. -/
structure Appointment where
  id : Uuid
  tenantId : Uuid
  organizerId : Uuid
  title : String
  contactId : Option Uuid
  dealId : Option Uuid
  locationType : LocationType
  startAt : ℤ
  endAt : ℤ
  status : AppointmentStatus
  outcome : Option String
  outcomeNote : Option String
  cancelledReason : Option String
  rescheduledFromId : Option Uuid
  version : ℕ
  deleted : Bool
  /-- The constraint `end_after_start`. -/
  end_after_start : startAt < endAt
deriving DecidableEq

def Appointment.IsOpen (a : Appointment) : Prop := a.status ∈ openStatuses

instance (a : Appointment) : Decidable a.IsOpen := inferInstanceAs (Decidable (_ ∈ _))

structure SlotLock where
  id : ℕ
  tenantId : Uuid
  resourceId : Uuid
  startAt : ℤ
  endAt : ℤ
  slotIndex : ℕ
  appointmentId : Uuid
deriving DecidableEq

/-- The columns of the constraint `resource_slot`. -/
def SlotLock.slot (l : SlotLock) : Uuid × Uuid × ℤ × ℕ := (l.tenantId, l.resourceId, l.startAt, l.slotIndex)

/-- The slot that `book` locks. -/
def Appointment.slot (a : Appointment) : Uuid × Uuid × ℤ × ℕ := (a.tenantId, a.organizerId, a.startAt, 0)

/-- The lock of a booking. -/
def Appointment.lock (a : Appointment) (lockId : ℕ) : SlotLock where
  id := lockId
  tenantId := a.tenantId
  resourceId := a.organizerId
  startAt := a.startAt
  endAt := a.endAt
  slotIndex := 0
  appointmentId := a.id

/-- `slot_locks`, with the id that is drawn next. -/
structure SlotLocks where
  rows : List SlotLock
  next : ℕ
  drawn : ∀ l ∈ rows, l.id < next
  ids_nodup : (rows.map (·.id)).Nodup
  slots_nodup : (rows.map SlotLock.slot).Nodup

namespace SlotLocks

def empty : SlotLocks := ⟨[], 0, fun _ hl => absurd hl List.not_mem_nil, List.nodup_nil, List.nodup_nil⟩

/-- The rows after a statement, unless a constraint refuses it. -/
def ofRows? (rows : List SlotLock) (next : ℕ) : Option SlotLocks :=
  if h : (∀ l ∈ rows, l.id < next) ∧ (rows.map (·.id)).Nodup ∧ (rows.map SlotLock.slot).Nodup then
    some ⟨rows, next, h.1, h.2.1, h.2.2⟩
  else none

/-- The locks of an appointment, under row level security. -/
def held (ls : SlotLocks) (tenantId appointmentId : Uuid) : List SlotLock :=
  ls.rows.filter fun l => l.tenantId = tenantId ∧ l.appointmentId = appointmentId

/-- `DELETE .. WHERE appointment_id`. -/
def delete (ls : SlotLocks) (tenantId appointmentId : Uuid) : SlotLocks where
  rows := ls.rows.filter fun l => !(l.tenantId = tenantId ∧ l.appointmentId = appointmentId)
  next := ls.next
  drawn l hl := ls.drawn l (List.mem_of_mem_filter hl)
  ids_nodup := ls.ids_nodup.sublist (List.filter_sublist.map _)
  slots_nodup := ls.slots_nodup.sublist (List.filter_sublist.map _)

theorem rows_ofRows? {rows : List SlotLock} {next : ℕ} {ls : SlotLocks} (h : ofRows? rows next = some ls) :
    ls.rows = rows ∧ ls.next = next := by
  unfold ofRows? at h
  split_ifs at h
  rw [← Option.some.inj h]
  exact ⟨rfl, rfl⟩

theorem mem_held {ls : SlotLocks} {tenantId appointmentId : Uuid} {l : SlotLock} :
    l ∈ ls.held tenantId appointmentId ↔ l ∈ ls.rows ∧ l.tenantId = tenantId ∧ l.appointmentId = appointmentId := by
  unfold held
  rw [List.mem_filter, decide_eq_true_iff]

theorem eq_of_slot {ls : SlotLocks} {l l' : SlotLock} (hl : l ∈ ls.rows) (hl' : l' ∈ ls.rows)
    (h : l.slot = l'.slot) : l = l' :=
  List.inj_on_of_nodup_map ls.slots_nodup hl hl' h

end SlotLocks

/-! ## Rules -/

inductive AppointmentError where
  | validation (message : String)
  | notFound (message : String)
  | conflict (message : String)
  | preconditionFailed (message : String)
  /-- SQLAlchemy's `StaleDataError`: an `UPDATE` by id found no row. -/
  | staleData
  /-- SQLAlchemy's `MultipleResultsFound`. -/
  | multipleResultsFound
  /-- The connection was lost, or the process. -/
  | aborted
deriving DecidableEq

/-- `timedelta(minutes=1)`. -/
def minute : ℤ := 60000000

/-- `DEFAULT_DURATION_MINUTES`. -/
def defaultDurationMinutes : ℤ := 30

/-- `can_reschedule`: the reason why not. -/
def canReschedule (currentStart newStart minNoticeMinutes now : ℤ) : Option String :=
  if currentStart ≤ now then some "past appointments cannot be rescheduled"
  else if newStart < now + minNoticeMinutes * minute then
    some ("reschedule requires at least " ++ toString minNoticeMinutes ++ " minutes notice")
  else none

/-- `can_cancel`: the reason why not. -/
def canCancel (startAt cancellationCutoffMinutes now : ℤ) : Option String :=
  if startAt - cancellationCutoffMinutes * minute < now then
    some "the cancellation window for this appointment has closed"
  else none

/-- The principal, with what its scope lets it read. -/
structure DiaryCaller where
  tenantId : Uuid
  userId : Uuid
  sees : Appointment → Bool
  seesContact : Uuid → Bool
  seesDeal : Uuid → Bool

structure BookPayload where
  title : String
  startAt : Option ℤ
  durationMinutes : Option ℤ
  endAt : Option ℤ
  locationType : Option String
  organizerId : Option Uuid
  contactId : Option Uuid
  dealId : Option Uuid

/-- `x or y` for an integer. -/
def orMinutes (minutes : Option ℤ) (default : ℤ) : ℤ :=
  if minutes.getD 0 = 0 then default else minutes.getD 0

/-- What `book` checks before it writes, and the row that it writes. -/
def bookRow (caller : DiaryCaller) (now : ℤ) (payload : BookPayload) (id : Uuid) :
    Except AppointmentError Appointment :=
  if strip payload.title = "" then .error (.validation "A title is required.")
  else
    match payload.startAt with
    | none => .error (.validation "A start time is required.")
    | some startAt =>
      let duration := orMinutes payload.durationMinutes defaultDurationMinutes
      if duration ≤ 0 then .error (.validation "Duration must be positive.")
      else
        let endAt := payload.endAt.getD (startAt + duration * minute)
        if h : endAt ≤ startAt then .error (.validation "The end time must be after the start time.")
        else if startAt < now then .error (.validation "An appointment cannot be booked in the past.")
        else
          let location := payload.locationType.getD ""
          match LocationType.parse (if location = "" then "physical" else location) with
          | none => .error (.validation "Unknown location type. Expected one of: physical, virtual, phone.")
          | some locationType =>
            if payload.contactId.any fun c => !caller.seesContact c then .error (.notFound "Contact not found.")
            else if payload.dealId.any fun d => !caller.seesDeal d then .error (.notFound "Deal not found.")
            else .ok {
              id := id
              tenantId := caller.tenantId
              organizerId := payload.organizerId.getD caller.userId
              title := slice (strip payload.title) 250
              contactId := payload.contactId
              dealId := payload.dealId
              locationType := locationType
              startAt := startAt
              endAt := endAt
              status := .scheduled
              outcome := none
              outcomeNote := none
              cancelledReason := none
              rescheduledFromId := none
              version := 1
              deleted := false
              end_after_start := lt_of_not_ge h }

/-- `bump_version`: the check of `If-Match`. -/
def versionMismatch (row : Appointment) (expectedVersion : Option ℕ) : Bool :=
  expectedVersion.any fun v => v != row.version

/-- A move that is allowed: the row as it was read, and the times that the call gives it. -/
structure Move where
  row : Appointment
  newStart : ℤ
  newEnd : ℤ
  expectedVersion : Option ℕ
deriving DecidableEq

/-- `reschedule`, up to the lookup of the lock. -/
def rescheduleRow (row : Appointment) (now newStart : ℤ) (durationMinutes : Option ℤ) (expectedVersion : Option ℕ) :
    Except AppointmentError Move :=
  if row.status ∉ openStatuses then
    .error (.validation ("A " ++ row.status.value ++ " appointment cannot be rescheduled."))
  else
    match canReschedule row.startAt newStart 0 now with
    | some reason => .error (.validation reason)
    | none =>
      let minutes := orMinutes durationMinutes ((row.endAt - row.startAt) / minute)
      .ok ⟨row, newStart, newStart + minutes * minute, expectedVersion⟩

/-- `(text or "")[:n] or None`. -/
def cutText (text : Option String) (n : ℕ) : Option String :=
  let cut := slice (text.getD "") n
  if cut = "" then none else some cut

/-- What `cancel` checks. -/
def cancelRow (row : Appointment) (now : ℤ) (expectedVersion : Option ℕ) : Except AppointmentError Unit :=
  if row.status = .cancelled then .error (.conflict "This appointment is already cancelled.")
  else if row.status = .completed then .error (.validation "A completed appointment cannot be cancelled.")
  else
    match canCancel row.startAt 0 now with
    | some why => .error (.validation why)
    | none =>
      if versionMismatch row expectedVersion then
        .error (.preconditionFailed "The resource was modified by someone else.")
      else .ok ()

structure OutcomePayload where
  status : String
  outcome : Option String
  outcomeNote : Option String

/-- The statuses of an outcome. -/
def outcomeStatus : String → Option AppointmentStatus
  | "completed" => some .completed
  | "no_show" => some .noShow
  | _ => none

/-- What `record_outcome` checks of the row. -/
def outcomeRow (row : Appointment) (expectedVersion : Option ℕ) : Except AppointmentError Unit :=
  if row.status = .cancelled then .error (.validation "A cancelled appointment has no outcome to record.")
  else if versionMismatch row expectedVersion then
    .error (.preconditionFailed "The resource was modified by someone else.")
  else .ok ()

theorem rescheduleRow_ok {row : Appointment} {now newStart : ℤ} {durationMinutes : Option ℤ}
    {expectedVersion : Option ℕ} {m : Move}
    (h : rescheduleRow row now newStart durationMinutes expectedVersion = .ok m) :
    m.row = row ∧ row.status ∈ openStatuses := by
  unfold rescheduleRow at h
  dsimp only at h
  split_ifs at h with hopen
  split at h
  · cases h
  · rw [← Except.ok.inj h]
    exact ⟨rfl, hopen⟩

theorem cancelRow_ok {row : Appointment} {now : ℤ} {expectedVersion : Option ℕ} {u : Unit}
    (h : cancelRow row now expectedVersion = .ok u) : row.status ≠ .cancelled := by
  intro hcancelled
  unfold cancelRow at h
  rw [if_pos hcancelled] at h
  cases h

theorem outcomeRow_ok {row : Appointment} {expectedVersion : Option ℕ} {u : Unit}
    (h : outcomeRow row expectedVersion = .ok u) : row.status ≠ .cancelled := by
  intro hcancelled
  unfold outcomeRow at h
  rw [if_pos hcancelled] at h
  cases h

/-! ## What a commit writes -/

structure DiaryTables where
  appointments : Table Appointment.id
  locks : SlotLocks

/-- What a constraint makes of `book` and `reschedule`. -/
def slotTaken : AppointmentError := .conflict "That slot is already booked."

/-- The transaction of `book`. -/
def DiaryTables.book (t : DiaryTables) (row : Appointment) : Except AppointmentError DiaryTables :=
  match t.appointments.append? [row],
    SlotLocks.ofRows? (t.locks.rows ++ [row.lock t.locks.next]) (t.locks.next + 1) with
  | some appointments, some locks => .ok ⟨appointments, locks⟩
  | _, _ => .error slotTaken

/-- The row after a move, unless `end_after_start` refuses it. -/
def Move.flushRow (m : Move) (current : Appointment) : Option Appointment :=
  if h : flushed m.row.startAt m.newStart current.startAt < flushed m.row.endAt m.newEnd current.endAt then
    some { current with
      startAt := flushed m.row.startAt m.newStart current.startAt
      endAt := flushed m.row.endAt m.newEnd current.endAt
      rescheduledFromId := flushed m.row.rescheduledFromId (some m.row.id) current.rescheduledFromId
      version := m.row.version + 1
      end_after_start := h }
  else none

/-- The lock after a move. -/
def Move.flushLock (m : Move) (read current : SlotLock) : SlotLock :=
  { current with
    startAt := flushed read.startAt m.newStart current.startAt
    endAt := flushed read.endAt m.newEnd current.endAt }

/-- The locks after a move, which has read its own. -/
def Move.flushLocks (m : Move) (locks : SlotLocks) : Option SlotLock → Except AppointmentError SlotLocks
  | none => .ok locks
  | some read =>
    -- a row without a change is not in the flush
    if m.newStart = read.startAt ∧ m.newEnd = read.endAt then .ok locks
    else if locks.rows.all fun l => l.id ≠ read.id then .error .staleData
    else
      match SlotLocks.ofRows? (locks.rows.map fun l => if l.id = read.id then m.flushLock read l else l)
        locks.next with
      | none => .error slotTaken
      | some locks' => .ok locks'

/-- The transaction of `reschedule`. -/
def DiaryTables.move (t : DiaryTables) (m : Move) (lock : Option SlotLock) : Except AppointmentError DiaryTables :=
  match t.appointments.find? m.row.id with
  | none => .error .staleData
  | some current =>
    match m.flushRow current with
    | none => .error slotTaken
    | some row =>
      match m.flushLocks t.locks lock with
      | .error e => .error e
      | .ok locks => .ok ⟨t.appointments.set row, locks⟩

/-- The row after `cancel`. -/
def Appointment.cancel (read current : Appointment) (reason : Option String) : Appointment :=
  { current with
    status := flushed read.status .cancelled current.status
    cancelledReason := flushed read.cancelledReason (cutText reason 300) current.cancelledReason
    version := read.version + 1 }

/-- The transaction of `cancel`. -/
def DiaryTables.cancel (t : DiaryTables) (read : Appointment) (reason : Option String) :
    Except AppointmentError DiaryTables :=
  match t.appointments.find? read.id with
  | none => .error .staleData
  | some current => .ok ⟨t.appointments.set (read.cancel current reason), t.locks.delete read.tenantId read.id⟩

/-- The row after `record_outcome`. -/
def Appointment.recordOutcome (read current : Appointment) (status : AppointmentStatus) (payload : OutcomePayload) :
    Appointment :=
  { current with
    status := flushed read.status status current.status
    outcome := flushed read.outcome (cutText payload.outcome 80) current.outcome
    outcomeNote := flushed read.outcomeNote payload.outcomeNote current.outcomeNote
    version := read.version + 1 }

/-- The transaction of `record_outcome`, which leaves the lock. -/
def DiaryTables.recordOutcome (t : DiaryTables) (read : Appointment) (status : AppointmentStatus)
    (payload : OutcomePayload) : Except AppointmentError DiaryTables :=
  match t.appointments.find? read.id with
  | none => .error .staleData
  | some current => .ok ⟨t.appointments.set (read.recordOutcome current status payload), t.locks⟩

/-! ## Calls that run at the same time -/

inductive DiaryCall where
  | booking (row : Appointment)
  /-- `reschedule` has read its row. -/
  | moving (m : Move)
  /-- `reschedule` has read its lock. -/
  | moved (m : Move) (lock : Option SlotLock)
  | cancelling (read : Appointment) (reason : Option String)
  | closing (read : Appointment) (status : AppointmentStatus) (payload : OutcomePayload)
  | finished (result : Except AppointmentError Unit)

/-- The transaction that a call is about to commit. -/
def DiaryCall.write (t : DiaryTables) : DiaryCall → Option (Except AppointmentError DiaryTables)
  | .booking row => some (t.book row)
  | .moved m lock => some (t.move m lock)
  | .cancelling read reason => some (t.cancel read reason)
  | .closing read status payload => some (t.recordOutcome read status payload)
  | .moving _ | .finished _ => none

structure Diary where
  now : ℤ
  tables : DiaryTables
  calls : List DiaryCall

inductive DiaryStep where
  | tick (microseconds : ℕ)
  | book (caller : DiaryCaller) (payload : BookPayload) (id : Uuid)
  | reschedule (caller : DiaryCaller) (id : Uuid) (newStart : ℤ) (durationMinutes : Option ℤ)
      (expectedVersion : Option ℕ)
  | findLock (k : ℕ)
  | cancel (caller : DiaryCaller) (id : Uuid) (reason : Option String) (expectedVersion : Option ℕ)
  | recordOutcome (caller : DiaryCaller) (id : Uuid) (payload : OutcomePayload) (expectedVersion : Option ℕ)
  | commit (k : ℕ)
  | abort (k : ℕ)

namespace Diary

def setCall (s : Diary) (k : ℕ) (call : DiaryCall) : Diary := { s with calls := s.calls.set k call }

/-- `get_scoped`. -/
def visible (s : Diary) (caller : DiaryCaller) (id : Uuid) : Option Appointment :=
  (s.tables.appointments.find? id).filter fun a => a.tenantId = caller.tenantId && !a.deleted && caller.sees a

/-- The first part of `book`. -/
def beginBook (s : Diary) (caller : DiaryCaller) (payload : BookPayload) (id : Uuid) : DiaryCall :=
  match bookRow caller s.now payload id with
  | .error e => .finished (.error e)
  | .ok row => .booking row

/-- A call that works on a row: `get_scoped_or_404`, and what is done with the row. -/
def withRow (s : Diary) (caller : DiaryCaller) (id : Uuid)
    (check : Appointment → Except AppointmentError DiaryCall) : DiaryCall :=
  match s.visible caller id with
  | none => .finished (.error (.notFound "Appointment not found."))
  | some row =>
    match check row with
    | .error e => .finished (.error e)
    | .ok call => call

/-- The first part of `reschedule`. -/
def beginReschedule (s : Diary) (caller : DiaryCaller) (id : Uuid) (newStart : ℤ) (durationMinutes : Option ℤ)
    (expectedVersion : Option ℕ) : DiaryCall :=
  s.withRow caller id fun row =>
    (rescheduleRow row s.now newStart durationMinutes expectedVersion).map .moving

/-- The first part of `cancel`. -/
def beginCancel (s : Diary) (caller : DiaryCaller) (id : Uuid) (reason : Option String)
    (expectedVersion : Option ℕ) : DiaryCall :=
  s.withRow caller id fun row => (cancelRow row s.now expectedVersion).map fun _ => .cancelling row reason

/-- The first part of `record_outcome`. -/
def beginOutcome (s : Diary) (caller : DiaryCaller) (id : Uuid) (payload : OutcomePayload)
    (expectedVersion : Option ℕ) : DiaryCall :=
  match outcomeStatus payload.status with
  | none => .finished (.error (.validation "An outcome is either 'completed' or 'no_show'."))
  | some status =>
    s.withRow caller id fun row => (outcomeRow row expectedVersion).map fun _ => .closing row status payload

/-- `reschedule` looks its lock up, with `scalar_one_or_none`, and checks the version. -/
def findLock (s : Diary) (m : Move) : DiaryCall :=
  match s.tables.locks.held m.row.tenantId m.row.id with
  | _ :: _ :: _ => .finished (.error .multipleResultsFound)
  | locks =>
    if versionMismatch m.row m.expectedVersion then
      .finished (.error (.preconditionFailed "The resource was modified by someone else."))
    else .moved m locks.head?

def step (s : Diary) : DiaryStep → Diary
  | .tick microseconds => { s with now := s.now + microseconds }
  | .book caller payload id => { s with calls := s.calls ++ [s.beginBook caller payload id] }
  | .reschedule caller id newStart durationMinutes expectedVersion =>
    { s with calls := s.calls ++ [s.beginReschedule caller id newStart durationMinutes expectedVersion] }
  | .findLock k =>
    match s.calls[k]? with
    | some (.moving m) => s.setCall k (s.findLock m)
    | _ => s
  | .cancel caller id reason expectedVersion =>
    { s with calls := s.calls ++ [s.beginCancel caller id reason expectedVersion] }
  | .recordOutcome caller id payload expectedVersion =>
    { s with calls := s.calls ++ [s.beginOutcome caller id payload expectedVersion] }
  | .commit k =>
    match (s.calls[k]?).bind (·.write s.tables) with
    | none => s
    | some (.error e) => s.setCall k (.finished (.error e))
    | some (.ok tables) => { s.setCall k (.finished (.ok ())) with tables := tables }
  | .abort k =>
    match s.calls[k]? with
    | some (.finished _) => s
    | _ => s.setCall k (.finished (.error .aborted))

/-- No appointments yet. -/
def empty (now : ℤ) : Diary := ⟨now, ⟨.empty, .empty⟩, []⟩

end Diary

/-! ## Double booking -/

/-- The intervals have an instant in common. -/
def Appointment.Overlaps (a b : Appointment) : Prop := a.startAt < b.endAt ∧ b.startAt < a.endAt

instance (a b : Appointment) : Decidable (a.Overlaps b) := inferInstanceAs (Decidable (_ ∧ _))

theorem Appointment.Overlaps.symm {a b : Appointment} (h : a.Overlaps b) : b.Overlaps a := ⟨h.2, h.1⟩

/-- No two open appointments of one organizer overlap. -/
def DiaryTables.NoDoubleBooking (t : DiaryTables) : Prop :=
  ∀ a ∈ t.appointments.rows, ∀ b ∈ t.appointments.rows, a.organizerId = b.organizerId → a.IsOpen → b.IsOpen →
    a.Overlaps b → a = b

instance (t : DiaryTables) : Decidable t.NoDoubleBooking := inferInstanceAs (Decidable (∀ a ∈ _, ∀ b ∈ _, _))

/-- The other open appointments of the organizer that an interval meets are of the same workspace and start when it
does. -/
def DiaryTables.MeetsAtStart (t : DiaryTables) (row : Appointment) (startAt endAt : ℤ) : Prop :=
  ∀ b ∈ t.appointments.rows, b.id ≠ row.id → b.organizerId = row.organizerId → b.IsOpen → startAt < b.endAt →
    b.startAt < endAt → b.tenantId = row.tenantId ∧ b.startAt = startAt

instance (t : DiaryTables) (row : Appointment) (startAt endAt : ℤ) : Decidable (t.MeetsAtStart row startAt endAt) :=
  inferInstanceAs (Decidable (∀ b ∈ _, _))

/-- The times that a move keeps are still those of the row and of the lock. -/
def DiaryTables.KeptTimes (t : DiaryTables) (m : Move) (lock : Option SlotLock) (current : Appointment) : Prop :=
  (m.row.startAt = m.newStart → current.startAt = m.newStart) ∧ (m.row.endAt = m.newEnd → current.endAt = m.newEnd) ∧
    ∀ read ∈ lock, read.startAt = m.newStart →
      ∀ l ∈ t.locks.rows, l.appointmentId = read.appointmentId → l.startAt = m.newStart

instance (t : DiaryTables) (m : Move) (lock : Option SlotLock) (current : Appointment) :
    Decidable (t.KeptTimes m lock current) := inferInstanceAs (Decidable (_ ∧ _ ∧ ∀ read ∈ lock, _))

def DiaryCall.Foreseen (t : DiaryTables) : DiaryCall → Prop
  | .booking row => t.MeetsAtStart row row.startAt row.endAt
  | .moved m lock => ∀ current ∈ t.appointments.find? m.row.id, current.IsOpen →
      t.MeetsAtStart m.row m.newStart m.newEnd ∧ t.KeptTimes m lock current
  | _ => True

instance (t : DiaryTables) : ∀ call : DiaryCall, Decidable (call.Foreseen t)
  | .booking row => inferInstanceAs (Decidable (t.MeetsAtStart row row.startAt row.endAt))
  | .moved m _ => inferInstanceAs (Decidable (∀ current ∈ t.appointments.find? m.row.id, _))
  | .moving _ | .cancelling _ _ | .closing _ _ _ | .finished _ => inferInstanceAs (Decidable True)

/-- A commit that the constraint on locks can judge. -/
def Foreseen (s : Diary) : DiaryStep → Prop
  | .commit k => ∀ call ∈ s.calls[k]?, call.Foreseen s.tables
  | _ => True

instance (s : Diary) : ∀ l : DiaryStep, Decidable (Foreseen s l)
  | .commit k => inferInstanceAs (Decidable (∀ call ∈ s.calls[k]?, call.Foreseen s.tables))
  | .tick _ | .book _ _ _ | .reschedule _ _ _ _ _ | .findLock _ | .cancel _ _ _ _ | .recordOutcome _ _ _ _
  | .abort _ => inferInstanceAs (Decidable True)

/-! ## The invariant -/

/-- An open appointment has the lock of its slot. -/
def DiaryTables.Locked (t : DiaryTables) : Prop :=
  ∀ a ∈ t.appointments.rows, a.IsOpen → ∃ l ∈ t.locks.rows, l.appointmentId = a.id ∧ l.slot = a.slot

/-- A lock is that of an appointment, and the only one that it has. -/
structure DiaryTables.Owned (t : DiaryTables) : Prop where
  appointment : ∀ l ∈ t.locks.rows, ∃ a, t.appointments.find? l.appointmentId = some a
  unique : ∀ l ∈ t.locks.rows, ∀ l' ∈ t.locks.rows, l.appointmentId = l'.appointmentId → l.id = l'.id

structure DiaryTables.Kept (t : DiaryTables) : Prop where
  apart : t.NoDoubleBooking
  locked : t.Locked

/-- A lock is an old one, with its appointment, or it is new, as its appointment. -/
def DiaryTables.LocksKept (t t' : DiaryTables) : Prop :=
  t.locks.next ≤ t'.locks.next ∧ ∀ l' ∈ t'.locks.rows,
    (∃ l ∈ t.locks.rows, l.id = l'.id ∧ l.appointmentId = l'.appointmentId) ∨
      l'.id = t.locks.next ∧ t.appointments.find? l'.appointmentId = none ∧
        ∃ a, t'.appointments.find? l'.appointmentId = some a

/-- What no transaction does: remove an appointment, give it away, or open it again, or lock it another time. -/
structure DiaryTables.Keeps (t t' : DiaryTables) : Prop where
  appointments : ∀ id a, t.appointments.find? id = some a → ∃ a', t'.appointments.find? id = some a' ∧
    a'.tenantId = a.tenantId ∧ a'.organizerId = a.organizerId ∧ (a'.IsOpen → a.IsOpen)
  locks : t.LocksKept t'

/-- A lock that a call has read is, when it is still there, the lock of the appointment. -/
def DiaryTables.KnowsLock (t : DiaryTables) (id : Uuid) (read : SlotLock) : Prop :=
  read.appointmentId = id ∧ read.id < t.locks.next ∧
    ∀ l ∈ t.locks.rows, l.appointmentId = id ↔ l.id = read.id

/-- What is known of a call while it runs. -/
def DiaryCall.Sound (t : DiaryTables) : DiaryCall → Prop
  | .moving m => ∃ a, t.appointments.find? m.row.id = some a ∧ a.tenantId = m.row.tenantId ∧
      a.organizerId = m.row.organizerId
  | .moved m lock => (∀ read ∈ lock, t.KnowsLock m.row.id read) ∧
      ∃ a, t.appointments.find? m.row.id = some a ∧ a.tenantId = m.row.tenantId ∧
        a.organizerId = m.row.organizerId ∧ (a.IsOpen → lock.isSome = true)
  | .cancelling read _ => read.status ≠ .cancelled
  | .closing _ status _ => status ∉ openStatuses
  | .booking _ | .finished _ => True

section

variable {t t' : DiaryTables}

theorem DiaryTables.Locked.eq_of_slot (h : t.Locked) {a b : Appointment} (ha : a ∈ t.appointments.rows)
    (hb : b ∈ t.appointments.rows) (haopen : a.IsOpen) (hbopen : b.IsOpen) (hslot : a.slot = b.slot) : a = b := by
  obtain ⟨l, hl, hlid, hlslot⟩ := h a ha haopen
  obtain ⟨l', hl', hlid', hlslot'⟩ := h b hb hbopen
  have hsame : l = l' := SlotLocks.eq_of_slot hl hl' (by rw [hlslot, hlslot', hslot])
  refine Table.eq_of_key ha hb ?_
  rw [← hlid, ← hlid', hsame]

/-- One row is written; its lock keeps it from the others that it meets at its start. -/
theorem noDoubleBooking_of_row {row : Appointment} (hapart : t.NoDoubleBooking) (hlocked : t'.Locked)
    (hrow : row ∈ t'.appointments.rows) (hold : ∀ b ∈ t'.appointments.rows, b ≠ row → b ∈ t.appointments.rows)
    (hmeets : row.IsOpen → ∀ b ∈ t'.appointments.rows, b ≠ row → b.organizerId = row.organizerId → b.IsOpen →
      row.Overlaps b → b.slot = row.slot) : t'.NoDoubleBooking := by
  -- the row against another one
  have hother : ∀ b ∈ t'.appointments.rows, b.organizerId = row.organizerId → row.IsOpen → b.IsOpen →
      row.Overlaps b → b = row := by
    intro b hb horganizer hopen hbopen hoverlaps
    by_contra hne
    exact hne (hlocked.eq_of_slot hb hrow hbopen hopen (hmeets hopen b hb hne horganizer hbopen hoverlaps))
  intro a ha b hb horganizer haopen hbopen hoverlaps
  by_cases harow : a = row
  · subst harow
    exact (hother b hb horganizer.symm haopen hbopen hoverlaps).symm
  · by_cases hbrow : b = row
    · subst hbrow
      exact hother a ha horganizer hbopen haopen hoverlaps.symm
    · exact hapart a (hold a ha harow) b (hold b hb hbrow) horganizer haopen hbopen hoverlaps

theorem DiaryTables.Owned.of_keeps (h : t.Owned) (hkeeps : t.Keeps t') : t'.Owned where
  appointment l' hl' := by
    rcases hkeeps.locks.2 l' hl' with ⟨l, hl, -, hown⟩ | ⟨-, -, hnew⟩
    · obtain ⟨a, ha⟩ := h.appointment l hl
      obtain ⟨a', ha', -⟩ := hkeeps.appointments _ a ha
      exact ⟨a', hown ▸ ha'⟩
    · exact hnew
  unique l hl l' hl' hsame := by
    rcases hkeeps.locks.2 l hl with ⟨l₀, hl₀, hid, hown⟩ | ⟨hid, hnone, -⟩
    · rcases hkeeps.locks.2 l' hl' with ⟨l₀', hl₀', hid', hown'⟩ | ⟨-, hnone', -⟩
      · rw [← hid, ← hid']
        exact h.unique l₀ hl₀ l₀' hl₀' (by rw [hown, hown', hsame])
      · obtain ⟨a, ha⟩ := h.appointment l₀ hl₀
        rw [hown, hsame, hnone'] at ha
        cases ha
    · rcases hkeeps.locks.2 l' hl' with ⟨l₀', hl₀', -, hown'⟩ | ⟨hid', -, -⟩
      · obtain ⟨a, ha⟩ := h.appointment l₀' hl₀'
        rw [hown', ← hsame, hnone] at ha
        cases ha
      · rw [hid, hid']

/-- A lock that was read is not given to another appointment. -/
theorem DiaryTables.KnowsLock.mono {id : Uuid} {read : SlotLock} (h : t.KnowsLock id read) (hkeeps : t.Keeps t')
    {a : Appointment} (ha : t.appointments.find? id = some a) : t'.KnowsLock id read := by
  obtain ⟨hread, hdrawn, hknows⟩ := h
  refine ⟨hread, lt_of_lt_of_le hdrawn hkeeps.locks.1, fun l' hl' => ?_⟩
  rcases hkeeps.locks.2 l' hl' with ⟨l, hl, hid, hown⟩ | ⟨hid, hnone, -⟩
  · rw [← hid, ← hown]
    exact hknows l hl
  · refine iff_of_false (fun hsame => ?_) (by omega)
    rw [hsame, ha] at hnone
    cases hnone

theorem DiaryCall.Sound.mono {call : DiaryCall} (h : call.Sound t) (hkeeps : t.Keeps t') : call.Sound t' := by
  cases call with
  | moving m =>
    obtain ⟨a, hfind, htenant, horganizer⟩ := h
    obtain ⟨a', hfind', htenant', horganizer', -⟩ := hkeeps.appointments _ a hfind
    exact ⟨a', hfind', htenant'.trans htenant, horganizer'.trans horganizer⟩
  | moved m lock =>
    obtain ⟨hread, a, hfind, htenant, horganizer, hlock⟩ := h
    obtain ⟨a', hfind', htenant', horganizer', hopen⟩ := hkeeps.appointments _ a hfind
    exact ⟨fun read hlocked => (hread read hlocked).mono hkeeps hfind, a', hfind', htenant'.trans htenant,
      horganizer'.trans horganizer, fun h => hlock (hopen h)⟩
  | cancelling read reason => exact h
  | closing read status payload => exact h
  | booking row => trivial
  | finished result => trivial

/-! ### `book` -/

theorem book_ok {row : Appointment} (h : t.book row = .ok t') :
    t.appointments.append? [row] = some t'.appointments ∧
      t'.locks.rows = t.locks.rows ++ [row.lock t.locks.next] ∧ t'.locks.next = t.locks.next + 1 := by
  unfold DiaryTables.book at h
  split at h
  · rename_i appointments locks happointments hlocks
    cases h
    exact ⟨happointments, SlotLocks.rows_ofRows? hlocks⟩
  · cases h

theorem keeps_book {row : Appointment} (h : t.book row = .ok t') : t.Keeps t' := by
  obtain ⟨happend, hlocks, hnext⟩ := book_ok h
  refine ⟨fun id a hfind => ?_, by omega, fun l' hl' => ?_⟩
  · exact ⟨a, Table.find?_append?_of_some happend hfind, rfl, rfl, fun hopen => hopen⟩
  · rw [hlocks] at hl'
    rcases List.mem_append.mp hl' with hold | hnew
    · exact Or.inl ⟨l', hold, rfl, rfl⟩
    · obtain rfl := List.mem_singleton.mp hnew
      exact Or.inr ⟨rfl, Table.find?_of_append? happend (List.mem_singleton_self _), row,
        Table.find?_inserted happend (List.mem_singleton_self _)⟩

theorem DiaryTables.Locked.book {row : Appointment} (hlocked : t.Locked) (h : t.book row = .ok t') : t'.Locked := by
  obtain ⟨happend, hlocks, -⟩ := book_ok h
  intro a ha hopen
  rw [Table.rows_append? happend] at ha
  rw [hlocks]
  rcases List.mem_append.mp ha with hold | hnew
  · obtain ⟨l, hl, hlock⟩ := hlocked a hold hopen
    exact ⟨l, List.mem_append_left _ hl, hlock⟩
  · obtain rfl := List.mem_singleton.mp hnew
    exact ⟨a.lock t.locks.next, List.mem_append_right _ (List.mem_singleton_self _), rfl, rfl⟩

theorem DiaryTables.Kept.book {row : Appointment} (hkept : t.Kept) (h : t.book row = .ok t')
    (hmeets : t.MeetsAtStart row row.startAt row.endAt) : t'.Kept := by
  have hlocked := hkept.locked.book h
  have hrows := Table.rows_append? (book_ok h).1
  have hrow : row ∈ t'.appointments.rows :=
    Table.mem_of_find? (Table.find?_inserted (book_ok h).1 (List.mem_singleton_self _))
  have hold : ∀ b ∈ t'.appointments.rows, b ≠ row → b ∈ t.appointments.rows := by
    intro b hb hne
    rw [hrows] at hb
    rcases List.mem_append.mp hb with hb | hb
    · exact hb
    · exact absurd (List.mem_singleton.mp hb) hne
  refine ⟨noDoubleBooking_of_row hkept.apart hlocked hrow hold ?_, hlocked⟩
  intro _ b hb hne horganizer hbopen hoverlaps
  have hid : b.id ≠ row.id := fun heq => hne (Table.eq_of_key hb hrow heq)
  obtain ⟨htenant, hstart⟩ := hmeets b (hold b hb hne) hid horganizer hbopen hoverlaps.1 hoverlaps.2
  unfold Appointment.slot
  rw [htenant, horganizer, hstart]

/-! ### A row that is written again -/

section Rewritten

variable {row current : Appointment}

theorem locksKept_of_subset {appointments : Table Appointment.id} {locks : SlotLocks} {t : DiaryTables}
    (hsubset : ∀ l ∈ locks.rows, l ∈ t.locks.rows) (hnext : t.locks.next ≤ locks.next) :
    t.LocksKept ⟨appointments, locks⟩ := ⟨hnext, fun l hl => Or.inl ⟨l, hsubset l hl, rfl, rfl⟩⟩

theorem keeps_set (hfind : t.appointments.find? row.id = some current)
    (happointments : t'.appointments = t.appointments.set row) (htenant : row.tenantId = current.tenantId)
    (horganizer : row.organizerId = current.organizerId) (hopen : row.IsOpen → current.IsOpen)
    (hlocks : t.LocksKept t') : t.Keeps t' := by
  refine ⟨fun id a ha => ?_, hlocks⟩
  rw [happointments]
  by_cases hid : id = row.id
  · subst hid
    rw [hfind] at ha
    cases ha
    exact ⟨row, Table.find?_set_self hfind, htenant, horganizer, hopen⟩
  · exact ⟨a, (Table.find?_set_of_ne hid).trans ha, rfl, rfl, fun h => h⟩

theorem DiaryTables.Locked.set (hlocked : t.Locked) (happointments : t'.appointments = t.appointments.set row)
    (hothers : ∀ l ∈ t.locks.rows, l.appointmentId ≠ row.id → l ∈ t'.locks.rows)
    (hrow : row.IsOpen → ∃ l ∈ t'.locks.rows, l.appointmentId = row.id ∧ l.slot = row.slot) : t'.Locked := by
  intro a ha hopen
  by_cases heq : a = row
  · subst heq
    exact hrow hopen
  · rw [happointments] at ha
    obtain ⟨hold, hid⟩ := (Table.mem_set ha).resolve_left heq
    obtain ⟨l, hl, hlid, hslot⟩ := hlocked a hold hopen
    exact ⟨l, hothers l hl (hlid ▸ hid), hlid, hslot⟩

/-- A row that is written while it keeps its times, if it stays open. -/
theorem DiaryTables.Kept.set (hkept : t.Kept) (hfind : t.appointments.find? row.id = some current)
    (happointments : t'.appointments = t.appointments.set row)
    (hothers : ∀ l ∈ t.locks.rows, l.appointmentId ≠ row.id ∨ row.IsOpen → l ∈ t'.locks.rows)
    (hrow : row.IsOpen → current.IsOpen ∧ row.slot = current.slot ∧ row.endAt = current.endAt) : t'.Kept := by
  have hcurrent := Table.mem_of_find? hfind
  have hcurrentId : current.id = row.id := Table.key_of_find? hfind
  have hlocked : t'.Locked := by
    refine hkept.locked.set happointments (fun l hl hne => hothers l hl (Or.inl hne)) fun hopen => ?_
    obtain ⟨hcurrentOpen, hslot, -⟩ := hrow hopen
    obtain ⟨l, hl, hlid, hlslot⟩ := hkept.locked current hcurrent hcurrentOpen
    exact ⟨l, hothers l hl (Or.inr hopen), hlid.trans hcurrentId, hlslot.trans hslot.symm⟩
  have hmem : row ∈ t'.appointments.rows := by
    rw [happointments]
    exact Table.mem_of_find? (Table.find?_set_self hfind)
  have hothers : ∀ b ∈ t'.appointments.rows, b ≠ row → b ∈ t.appointments.rows ∧ b.id ≠ row.id := by
    intro b hb hne
    rw [happointments] at hb
    exact (Table.mem_set hb).resolve_left hne
  refine ⟨noDoubleBooking_of_row hkept.apart hlocked hmem (fun b hb hne => (hothers b hb hne).1) ?_, hlocked⟩
  intro hopen b hb hne horganizer hbopen hoverlaps
  obtain ⟨hold, hid⟩ := hothers b hb hne
  obtain ⟨hcurrentOpen, hslot, hend⟩ := hrow hopen
  simp only [Appointment.slot, Prod.mk.injEq] at hslot
  obtain ⟨-, hcurrentOrganizer, hstart, -⟩ := hslot
  have hoverlapsCurrent : b.Overlaps current := by
    unfold Appointment.Overlaps at hoverlaps ⊢
    omega
  have hsame := hkept.apart b hold current hcurrent (horganizer.trans hcurrentOrganizer) hbopen hcurrentOpen
    hoverlapsCurrent
  exact absurd (hsame ▸ hcurrentId) hid

end Rewritten

/-! ### `cancel` and `record_outcome` -/

theorem not_isOpen_cancel {read current : Appointment} {reason : Option String} (h : read.status ≠ .cancelled) :
    ¬ (read.cancel current reason).IsOpen := by
  have hstatus : (read.cancel current reason).status = .cancelled := flushed_eq fun heq => absurd heq h
  unfold Appointment.IsOpen
  rw [hstatus]
  decide

theorem DiaryTables.Kept.cancel {read : Appointment} {reason : Option String} (hkept : t.Kept)
    (hread : read.status ≠ .cancelled) (h : t.cancel read reason = .ok t') : t'.Kept ∧ t.Keeps t' := by
  unfold DiaryTables.cancel at h
  split at h
  · cases h
  · rename_i current hfind
    obtain rfl := Except.ok.inj h
    have hid : (read.cancel current reason).id = read.id := by
      show current.id = read.id
      exact Table.key_of_find? hfind
    rw [← hid] at hfind
    have hclosed := @not_isOpen_cancel read current reason hread
    refine ⟨hkept.set hfind rfl ?_ fun hopen => absurd hopen hclosed,
      keeps_set hfind rfl rfl rfl (fun hopen => absurd hopen hclosed)
        (locksKept_of_subset (fun l hl => List.mem_of_mem_filter hl) (le_refl _))⟩
    rintro l hl (hne | hopen)
    · have hother : l.appointmentId ≠ read.id := hid ▸ hne
      exact List.mem_filter.mpr ⟨hl, by simp [hother]⟩
    · exact absurd hopen hclosed

theorem isOpen_recordOutcome {read current : Appointment} {status : AppointmentStatus} {payload : OutcomePayload}
    (hstatus : status ∉ openStatuses) (h : (read.recordOutcome current status payload).IsOpen) : current.IsOpen := by
  unfold Appointment.IsOpen Appointment.recordOutcome flushed at h
  dsimp only at h
  split_ifs at h
  · exact h
  · exact absurd h hstatus

theorem DiaryTables.Kept.recordOutcome {read : Appointment} {status : AppointmentStatus} {payload : OutcomePayload}
    (hkept : t.Kept) (hstatus : status ∉ openStatuses) (h : t.recordOutcome read status payload = .ok t') :
    t'.Kept ∧ t.Keeps t' := by
  unfold DiaryTables.recordOutcome at h
  split at h
  · cases h
  · rename_i current hfind
    obtain rfl := Except.ok.inj h
    have hid : (read.recordOutcome current status payload).id = read.id := by
      show current.id = read.id
      exact Table.key_of_find? hfind
    rw [← hid] at hfind
    exact ⟨hkept.set hfind rfl (fun l hl _ => hl) fun hopen => ⟨isOpen_recordOutcome hstatus hopen, rfl, rfl⟩,
      keeps_set hfind rfl rfl rfl (isOpen_recordOutcome hstatus) (locksKept_of_subset (fun l hl => hl) (le_refl _))⟩

/-! ### `reschedule` -/

theorem move_ok {m : Move} {lock : Option SlotLock} (h : t.move m lock = .ok t') :
    ∃ current row, t.appointments.find? m.row.id = some current ∧ m.flushRow current = some row ∧
      m.flushLocks t.locks lock = .ok t'.locks ∧ t'.appointments = t.appointments.set row := by
  unfold DiaryTables.move at h
  split at h
  · cases h
  · rename_i current hfind
    split at h
    · cases h
    · rename_i row hrow
      split at h
      · cases h
      · rename_i locks hlocks
        obtain rfl := Except.ok.inj h
        exact ⟨current, row, hfind, hrow, hlocks, rfl⟩

theorem flushRow_eq {m : Move} {current row : Appointment} (h : m.flushRow current = some row) :
    row.id = current.id ∧ row.tenantId = current.tenantId ∧ row.organizerId = current.organizerId ∧
      row.status = current.status ∧ row.startAt = flushed m.row.startAt m.newStart current.startAt ∧
      row.endAt = flushed m.row.endAt m.newEnd current.endAt := by
  unfold Move.flushRow at h
  split_ifs at h
  obtain rfl := Option.some.inj h
  exact ⟨rfl, rfl, rfl, rfl, rfl, rfl⟩

/-- The flush writes its own lock, or none. -/
theorem flushLocks_rows {m : Move} {locks locks' : SlotLocks} {lock : Option SlotLock}
    (h : m.flushLocks locks lock = .ok locks') :
    (locks' = locks ∧ ∀ read ∈ lock, read.startAt = m.newStart ∧ read.endAt = m.newEnd) ∨
      ∃ read, lock = some read ∧ locks'.next = locks.next ∧
        locks'.rows = locks.rows.map fun l => if l.id = read.id then m.flushLock read l else l := by
  cases lock with
  | none =>
    obtain rfl := Except.ok.inj h
    exact Or.inl ⟨rfl, fun _ hread => absurd hread (Option.not_mem_none _)⟩
  | some read =>
    unfold Move.flushLocks at h
    dsimp only at h
    split_ifs at h with hkept
    · obtain rfl := Except.ok.inj h
      refine Or.inl ⟨rfl, fun read' hread' => ?_⟩
      rw [← Option.some.inj hread', hkept.1, hkept.2]
      exact ⟨rfl, rfl⟩
    · split at h
      · cases h
      · rename_i rows hrows
        obtain rfl := Except.ok.inj h
        obtain ⟨hmap, hnext⟩ := SlotLocks.rows_ofRows? hrows
        exact Or.inr ⟨read, rfl, hnext, hmap⟩

/-- The other locks stay. -/
theorem mem_flushLocks_of_ne {m : Move} {locks locks' : SlotLocks} {lock : Option SlotLock}
    (h : m.flushLocks locks lock = .ok locks') {l : SlotLock} (hl : l ∈ locks.rows)
    (hne : ∀ read ∈ lock, l.id ≠ read.id) : l ∈ locks'.rows := by
  rcases flushLocks_rows h with ⟨rfl, -⟩ | ⟨read, hlock, -, hrows⟩
  · exact hl
  · rw [hrows]
    exact List.mem_map.mpr ⟨l, hl, if_neg (hne read hlock)⟩

/-- The lock of the appointment is at its new start. -/
theorem mem_flushLocks_self {m : Move} {locks locks' : SlotLocks} {read : SlotLock}
    (h : m.flushLocks locks (some read) = .ok locks') {l : SlotLock} (hl : l ∈ locks.rows)
    (hid : l.id = read.id) (hkept : read.startAt = m.newStart → l.startAt = m.newStart) :
    ∃ l' ∈ locks'.rows, l'.appointmentId = l.appointmentId ∧
      l'.slot = (l.tenantId, l.resourceId, m.newStart, l.slotIndex) := by
  rcases flushLocks_rows h with ⟨rfl, hstart⟩ | ⟨read', hlock, -, hrows⟩
  · refine ⟨l, hl, rfl, ?_⟩
    unfold SlotLock.slot
    rw [hkept (hstart read rfl).1]
  · obtain rfl := Option.some.inj hlock
    refine ⟨m.flushLock read l, ?_, rfl, ?_⟩
    · rw [hrows]
      exact List.mem_map.mpr ⟨l, hl, if_pos hid⟩
    · unfold SlotLock.slot Move.flushLock
      rw [flushed_eq hkept]

theorem isOpen_of_flushRow {m : Move} {current row : Appointment} (h : m.flushRow current = some row)
    (hopen : row.IsOpen) : current.IsOpen := by
  obtain ⟨-, -, -, hstatus, -, -⟩ := flushRow_eq h
  unfold Appointment.IsOpen at hopen ⊢
  rw [← hstatus]
  exact hopen

/-- The times of the call are those of the row, if the ones that it keeps are still there. -/
theorem times_flushRow {m : Move} {current row : Appointment} {lock : Option SlotLock}
    (h : m.flushRow current = some row) (hkept : t.KeptTimes m lock current) :
    row.startAt = m.newStart ∧ row.endAt = m.newEnd := by
  obtain ⟨-, -, -, -, hstart, hend⟩ := flushRow_eq h
  rw [hstart, hend]
  exact ⟨flushed_eq hkept.1, flushed_eq hkept.2.1⟩

/-- The flush keeps the ids of the locks and their appointments. -/
theorem flushLocks_ids {m : Move} {locks locks' : SlotLocks} {lock : Option SlotLock}
    (h : m.flushLocks locks lock = .ok locks') : locks'.next = locks.next ∧
      ∀ l' ∈ locks'.rows, ∃ l ∈ locks.rows, l.id = l'.id ∧ l.appointmentId = l'.appointmentId := by
  rcases flushLocks_rows h with ⟨rfl, -⟩ | ⟨read, -, hnext, hrows⟩
  · exact ⟨rfl, fun l' hl' => ⟨l', hl', rfl, rfl⟩⟩
  · refine ⟨hnext, fun l' hl' => ?_⟩
    rw [hrows] at hl'
    obtain ⟨l, hl, rfl⟩ := List.mem_map.mp hl'
    refine ⟨l, hl, ?_⟩
    split_ifs
    · exact ⟨rfl, rfl⟩
    · exact ⟨rfl, rfl⟩

theorem keeps_move {m : Move} {lock : Option SlotLock} (h : t.move m lock = .ok t') : t.Keeps t' := by
  obtain ⟨current, row, hfind, hrow, hlocks, happointments⟩ := move_ok h
  obtain ⟨hid, htenant, horganizer, -, -, -⟩ := flushRow_eq hrow
  obtain ⟨hnext, hids⟩ := flushLocks_ids hlocks
  have hrowId : row.id = m.row.id := hid.trans (Table.key_of_find? hfind)
  rw [← hrowId] at hfind
  exact keeps_set hfind happointments htenant horganizer (isOpen_of_flushRow hrow)
    ⟨by omega, fun l' hl' => Or.inl (hids l' hl')⟩

/-- The lock moves with its appointment. -/
theorem DiaryTables.Locked.move {m : Move} {lock : Option SlotLock} (hlocked : t.Locked)
    (hsound : (DiaryCall.moved m lock).Sound t) (h : t.move m lock = .ok t')
    (hforeseen : (DiaryCall.moved m lock).Foreseen t) : t'.Locked := by
  obtain ⟨hread, current', hfind', -, -, hlock⟩ := hsound
  obtain ⟨current, row, hfind, hrow, hlocks, happointments⟩ := move_ok h
  obtain rfl : current' = current := Option.some.inj (hfind'.symm.trans hfind)
  obtain ⟨hid, htenant, horganizer, -, -, -⟩ := flushRow_eq hrow
  have hcurrentId : current'.id = m.row.id := Table.key_of_find? hfind
  refine hlocked.set happointments
    (fun l hl hne => mem_flushLocks_of_ne hlocks hl fun read hlock hsame => ?_) fun hopen => ?_
  · rw [hid, hcurrentId] at hne
    exact hne (((hread read hlock).2.2 l hl).mpr hsame)
  have hcurrentOpen := isOpen_of_flushRow hrow hopen
  obtain ⟨-, hkept⟩ := hforeseen current' hfind hcurrentOpen
  obtain ⟨read, rfl⟩ := Option.isSome_iff_exists.mp (hlock hcurrentOpen)
  obtain ⟨l, hl, hlid, hlslot⟩ := hlocked current' (Table.mem_of_find? hfind) hcurrentOpen
  obtain ⟨hreadOwn, -, hknows⟩ := hread read rfl
  have hown : l.appointmentId = m.row.id := hlid.trans hcurrentId
  obtain ⟨l', hl', hlid', hlslot'⟩ := mem_flushLocks_self hlocks hl ((hknows l hl).mp hown)
    fun hsame => hkept.2.2 read rfl hsame l hl (hown.trans hreadOwn.symm)
  refine ⟨l', hl', ?_, ?_⟩
  · rw [hlid', hlid, hid]
  · simp only [SlotLock.slot, Appointment.slot, Prod.mk.injEq] at hlslot
    obtain ⟨hltenant, hlresource, -, hlindex⟩ := hlslot
    rw [hlslot', hltenant, hlresource, hlindex, ← htenant, ← horganizer, ← (times_flushRow hrow hkept).1]
    rfl

/-- A move whose interval meets others only at its start, and that finds the times it keeps. -/
theorem DiaryTables.Kept.move {m : Move} {lock : Option SlotLock} (hkept : t.Kept)
    (hsound : (DiaryCall.moved m lock).Sound t) (h : t.move m lock = .ok t')
    (hforeseen : (DiaryCall.moved m lock).Foreseen t) : t'.Kept := by
  have hlocked := hkept.locked.move hsound h hforeseen
  obtain ⟨-, current', hfind', htenant', horganizer', -⟩ := hsound
  obtain ⟨current, row, hfind, hrow, -, happointments⟩ := move_ok h
  obtain rfl : current' = current := Option.some.inj (hfind'.symm.trans hfind)
  obtain ⟨hid, htenant, horganizer, -, -, -⟩ := flushRow_eq hrow
  have hrowId : row.id = m.row.id := hid.trans (Table.key_of_find? hfind)
  have hmem : row ∈ t'.appointments.rows := by
    rw [← hrowId] at hfind
    rw [happointments]
    exact Table.mem_of_find? (Table.find?_set_self hfind)
  have hothers : ∀ b ∈ t'.appointments.rows, b ≠ row → b ∈ t.appointments.rows ∧ b.id ≠ row.id := by
    intro b hb hne
    rw [happointments] at hb
    exact (Table.mem_set hb).resolve_left hne
  refine ⟨noDoubleBooking_of_row hkept.apart hlocked hmem (fun b hb hne => (hothers b hb hne).1) ?_, hlocked⟩
  intro hopen b hb hne hborganizer hbopen hoverlaps
  obtain ⟨hold, hbid⟩ := hothers b hb hne
  obtain ⟨hmeets, htimes⟩ := hforeseen current' hfind (isOpen_of_flushRow hrow hopen)
  obtain ⟨hrowStart, hrowEnd⟩ := times_flushRow hrow htimes
  obtain ⟨hbtenant, hbstart⟩ := hmeets b hold (hrowId ▸ hbid) (hborganizer.trans (horganizer.trans horganizer')) hbopen
    (hrowStart ▸ hoverlaps.1) (hrowEnd ▸ hoverlaps.2)
  unfold Appointment.slot
  rw [hbtenant, hborganizer, hbstart, hrowStart, htenant, htenant']

/-! ### Runs -/

structure Diary.Kept (s : Diary) : Prop where
  tables : s.tables.Kept
  owned : s.tables.Owned
  calls : ∀ call ∈ s.calls, call.Sound s.tables

variable {s : Diary}

theorem Diary.Kept.setCall (h : s.Kept) (k : ℕ) {call : DiaryCall} (hcall : call.Sound s.tables) :
    (s.setCall k call).Kept where
  tables := h.tables
  owned := h.owned
  calls := forall_mem_set h.calls hcall

theorem Diary.Kept.begin (h : s.Kept) {call : DiaryCall} (hcall : call.Sound s.tables) :
    Diary.Kept { s with calls := s.calls ++ [call] } where
  tables := h.tables
  owned := h.owned
  calls := forall_mem_concat h.calls hcall

/-- A call begins with a row that it can read. -/
theorem withRow_sound {caller : DiaryCaller} {id : Uuid} {check : Appointment → Except AppointmentError DiaryCall}
    (h : ∀ row call, s.tables.appointments.find? row.id = some row → check row = .ok call → call.Sound s.tables) :
    (s.withRow caller id check).Sound s.tables := by
  unfold Diary.withRow
  split
  · trivial
  · rename_i row hvisible
    split
    · trivial
    · rename_i call hcall
      unfold Diary.visible at hvisible
      obtain ⟨hfind, -⟩ := Option.filter_eq_some_iff.mp hvisible
      refine h row call ?_ hcall
      rw [← Table.key_of_find? hfind] at hfind
      exact hfind

theorem beginReschedule_sound (caller : DiaryCaller) (id : Uuid) (newStart : ℤ) (durationMinutes : Option ℤ)
    (expectedVersion : Option ℕ) :
    (s.beginReschedule caller id newStart durationMinutes expectedVersion).Sound s.tables := by
  refine withRow_sound fun row call hfind hcall => ?_
  cases hmove : rescheduleRow row s.now newStart durationMinutes expectedVersion with
  | error e =>
    rw [hmove] at hcall
    cases hcall
  | ok m =>
    rw [hmove] at hcall
    obtain rfl := Except.ok.inj hcall
    obtain ⟨hrow, -⟩ := rescheduleRow_ok hmove
    exact ⟨row, hrow ▸ hfind, by rw [hrow], by rw [hrow]⟩

theorem beginCancel_sound (caller : DiaryCaller) (id : Uuid) (reason : Option String) (expectedVersion : Option ℕ) :
    (s.beginCancel caller id reason expectedVersion).Sound s.tables := by
  refine withRow_sound fun row call _ hcall => ?_
  cases hcancel : cancelRow row s.now expectedVersion with
  | error e =>
    rw [hcancel] at hcall
    cases hcall
  | ok _ =>
    rw [hcancel] at hcall
    obtain rfl := Except.ok.inj hcall
    exact cancelRow_ok hcancel

theorem outcomeStatus_closed {text : String} {status : AppointmentStatus} (h : outcomeStatus text = some status) :
    status ∉ openStatuses := by
  unfold outcomeStatus at h
  split at h
  · cases h
    decide
  · cases h
    decide
  · cases h

theorem beginOutcome_sound (caller : DiaryCaller) (id : Uuid) (payload : OutcomePayload)
    (expectedVersion : Option ℕ) : (s.beginOutcome caller id payload expectedVersion).Sound s.tables := by
  unfold Diary.beginOutcome
  split
  · trivial
  · rename_i status hstatus
    refine withRow_sound fun row call _ hcall => ?_
    cases houtcome : outcomeRow row expectedVersion with
    | error e =>
      rw [houtcome] at hcall
      cases hcall
    | ok _ =>
      rw [houtcome] at hcall
      obtain rfl := Except.ok.inj hcall
      exact outcomeStatus_closed hstatus

theorem beginBook_sound (caller : DiaryCaller) (payload : BookPayload) (id : Uuid) :
    (s.beginBook caller payload id).Sound s.tables := by
  unfold Diary.beginBook
  split
  · trivial
  · trivial

/-- The lock that a move reads is its own. -/
theorem findLock_sound (h : s.Kept) {m : Move} (hm : (DiaryCall.moving m).Sound s.tables) :
    (s.findLock m).Sound s.tables := by
  obtain ⟨a, hfind, htenant, horganizer⟩ := hm
  unfold Diary.findLock
  split
  · trivial
  · rename_i hnone
    split_ifs
    · trivial
    · have hread : ∀ read ∈ (s.tables.locks.held m.row.tenantId m.row.id).head?,
          s.tables.KnowsLock m.row.id read := by
        intro read hread
        obtain ⟨hmem, -, hown⟩ := SlotLocks.mem_held.mp (List.mem_of_mem_head? hread)
        refine ⟨hown, s.tables.locks.drawn read hmem, fun l hl => ⟨fun hsame => ?_, fun hid => ?_⟩⟩
        · exact h.owned.unique l hl read hmem (hsame.trans hown.symm)
        · rw [List.inj_on_of_nodup_map s.tables.locks.ids_nodup hl hmem hid, hown]
      refine ⟨hread, a, hfind, htenant, horganizer, fun hopen => ?_⟩
      obtain ⟨l, hl, hlid, hlslot⟩ := h.tables.locked a (Table.mem_of_find? hfind) hopen
      simp only [SlotLock.slot, Appointment.slot, Prod.mk.injEq] at hlslot
      have hheld : l ∈ s.tables.locks.held m.row.tenantId m.row.id :=
        SlotLocks.mem_held.mpr ⟨hl, hlslot.1.trans htenant, hlid.trans (Table.key_of_find? hfind)⟩
      rw [List.isSome_head?]
      exact List.ne_nil_of_mem hheld

theorem write_kept (h : s.Kept) {call : DiaryCall} (hcall : call.Sound s.tables) (hforeseen : call.Foreseen s.tables)
    {tables : DiaryTables} (hwrite : call.write s.tables = some (.ok tables)) :
    tables.Kept ∧ s.tables.Keeps tables := by
  cases call with
  | booking row =>
    have hbook := Option.some.inj hwrite
    exact ⟨h.tables.book hbook hforeseen, keeps_book hbook⟩
  | moved m lock =>
    have hmove := Option.some.inj hwrite
    exact ⟨h.tables.move hcall hmove hforeseen, keeps_move hmove⟩
  | cancelling read reason => exact h.tables.cancel hcall (Option.some.inj hwrite)
  | closing read status payload => exact h.tables.recordOutcome hcall (Option.some.inj hwrite)
  | moving m => cases hwrite
  | finished result => cases hwrite

theorem Diary.Kept.step (h : s.Kept) (l : DiaryStep) (hc : Foreseen s l) : (s.step l).Kept := by
  cases l with
  | tick microseconds => exact ⟨h.tables, h.owned, h.calls⟩
  | book caller payload id => exact h.begin (beginBook_sound caller payload id)
  | reschedule caller id newStart durationMinutes expectedVersion =>
    exact h.begin (beginReschedule_sound caller id newStart durationMinutes expectedVersion)
  | cancel caller id reason expectedVersion => exact h.begin (beginCancel_sound caller id reason expectedVersion)
  | recordOutcome caller id payload expectedVersion =>
    exact h.begin (beginOutcome_sound caller id payload expectedVersion)
  | findLock k =>
    dsimp only [Diary.step]
    split
    · rename_i m hk
      exact h.setCall k (findLock_sound h (h.calls _ (List.mem_of_getElem? hk)))
    · exact h
  | commit k =>
    dsimp only [Diary.step]
    split
    · exact h
    · exact h.setCall k trivial
    · rename_i tables hwrite
      obtain ⟨call, hk, hwrite⟩ := Option.bind_eq_some_iff.mp hwrite
      obtain ⟨hkept, hkeeps⟩ := write_kept h (h.calls call (List.mem_of_getElem? hk)) (hc call hk) hwrite
      exact ⟨hkept, h.owned.of_keeps hkeeps,
        forall_mem_set (fun other hother => (h.calls other hother).mono hkeeps) trivial⟩
  | abort k =>
    dsimp only [Diary.step]
    split
    · exact h
    · exact h.setCall k trivial

/-- **Nobody is double-booked, in every run in which a booking or a move meets the other appointments of its organizer
only at its start, and a move finds the times that it keeps.** -/
theorem never_double_booked {now : ℤ} {steps : List DiaryStep} (h : Meets Diary.step Foreseen (.empty now) steps) :
    Always Diary.step (fun s => s.tables.NoDoubleBooking) (.empty now) steps := by
  refine always_of_inv Diary.Kept (fun _ hs => hs.tables.apart) (fun _ l hs hc => hs.step l hc) steps _ ?_ h
  exact ⟨⟨fun a ha => absurd ha List.not_mem_nil, fun a ha => absurd ha List.not_mem_nil⟩,
    ⟨fun l hl => absurd hl List.not_mem_nil, fun l hl => absurd hl List.not_mem_nil⟩,
    fun call hcall => absurd hcall List.not_mem_nil⟩

end

/-! ## A morning -/

/-- An administrator, who sees every record. -/
def asha : DiaryCaller := ⟨sampleUuid 't', sampleUuid 'u', fun _ => true, fun _ => true, fun _ => true⟩

/-- A visit that starts so many minutes after midnight. -/
def visitAt (minutes : ℤ) (durationMinutes : Option ℤ) : BookPayload where
  title := "Kitchen measurement"
  startAt := some (minutes * minute)
  durationMinutes := durationMinutes
  endAt := none
  locationType := none
  organizerId := none
  contactId := none
  dealId := none

/-- 10:00, which is taken when it is asked for again, and 10:30; the first moves to 11:00, its slot is booked, and the
second is cancelled. -/
def morning : List DiaryStep :=
  [.book asha (visitAt 600 none) (sampleUuid 'a'), .book asha (visitAt 600 (some 45)) (sampleUuid 'b'), .commit 0,
    .commit 1, .book asha (visitAt 630 none) (sampleUuid 'c'), .commit 2,
    .reschedule asha (sampleUuid 'a') (660 * minute) none (some 1), .findLock 3, .commit 3,
    .book asha (visitAt 600 none) (sampleUuid 'd'), .commit 4, .cancel asha (sampleUuid 'c') none none, .commit 5]

theorem never_double_booked_morning :
    Meets Diary.step Foreseen (.empty 0) morning ∧
      Always Diary.step (fun s => s.tables.NoDoubleBooking) (.empty 0) morning := by
  have hmeets : Meets Diary.step Foreseen (.empty 0) morning := by decide +kernel
  exact ⟨hmeets, never_double_booked hmeets⟩

/-- 10:00 to 10:30, and 10:15 to 10:45. -/
def quarterPast : List DiaryStep :=
  [.book asha (visitAt 600 none) (sampleUuid 'a'), .commit 0, .book asha (visitAt 615 none) (sampleUuid 'b'),
    .commit 1]

theorem quarterPast_overlaps :
    ¬ Always Diary.step (fun s => s.tables.NoDoubleBooking) (.empty 0) quarterPast := by
  intro h
  have hlast : ¬ (after Diary.step (.empty 0) quarterPast).tables.NoDoubleBooking := by decide +kernel
  exact hlast (always_last h)

end RevenueOS.Crm
