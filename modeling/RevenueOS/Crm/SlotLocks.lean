import RevenueOS.Crm.Appointments

/-!
# RevenueOS.Crm.SlotLocks — the locks mirror the appointments

The calls of `AppointmentService` (`application/crm/appointments.py`), one after the other: each reads what the one
before it left, and one that fails leaves nothing.

* `perform_call`: a call, from its first read to its commit.
* `locks_mirror`: after every sequence of calls an open appointment has one lock, which has its organizer, start and
  end; no lock is that of a cancelled one; and what a cancellation frees can be booked again.
-/

namespace RevenueOS.Crm

open RevenueOS.Lib RevenueOS.Workflows

/-! ## Calls one after the other -/

inductive AppointmentCall where
  | book (caller : DiaryCaller) (payload : BookPayload) (id : Uuid)
  | reschedule (caller : DiaryCaller) (id : Uuid) (newStart : ℤ) (durationMinutes : Option ℤ)
      (expectedVersion : Option ℕ)
  | cancel (caller : DiaryCaller) (id : Uuid) (reason : Option String) (expectedVersion : Option ℕ)
  | recordOutcome (caller : DiaryCaller) (id : Uuid) (payload : OutcomePayload) (expectedVersion : Option ℕ)

/-- The first step of a call. -/
def AppointmentCall.start : AppointmentCall → DiaryStep
  | .book caller payload id => .book caller payload id
  | .reschedule caller id newStart durationMinutes expectedVersion =>
    .reschedule caller id newStart durationMinutes expectedVersion
  | .cancel caller id reason expectedVersion => .cancel caller id reason expectedVersion
  | .recordOutcome caller id payload expectedVersion => .recordOutcome caller id payload expectedVersion

inductive ServiceStep where
  | tick (microseconds : ℕ)
  | call (c : AppointmentCall)

namespace Diary

/-- A call runs to its end before the next one. -/
def perform (s : Diary) : ServiceStep → Diary
  | .tick microseconds => s.step (.tick microseconds)
  | .call c => after step s [c.start, .findLock s.calls.length, .commit s.calls.length]

/-- What the call has read when it starts. -/
def started (s : Diary) : AppointmentCall → DiaryCall
  | .book caller payload id => s.beginBook caller payload id
  | .reschedule caller id newStart durationMinutes expectedVersion =>
    s.beginReschedule caller id newStart durationMinutes expectedVersion
  | .cancel caller id reason expectedVersion => s.beginCancel caller id reason expectedVersion
  | .recordOutcome caller id payload expectedVersion => s.beginOutcome caller id payload expectedVersion

/-- The second read, of a call that has one. -/
def lookedUp (s : Diary) : DiaryCall → DiaryCall
  | .moving m => s.findLock m
  | call => call

/-- The call before its commit. -/
def ready (s : Diary) (c : AppointmentCall) : DiaryCall := s.lookedUp (s.started c)

theorem step_start (s : Diary) (c : AppointmentCall) :
    s.step c.start = { s with calls := s.calls ++ [s.started c] } := by
  cases c with
  | book caller payload id => rfl
  | reschedule caller id newStart durationMinutes expectedVersion => rfl
  | cancel caller id reason expectedVersion => rfl
  | recordOutcome caller id payload expectedVersion => rfl

theorem step_findLock (s : Diary) (c : AppointmentCall) :
    step { s with calls := s.calls ++ [s.started c] } (.findLock s.calls.length) =
      { s with calls := s.calls ++ [s.ready c] } := by
  dsimp only [step]
  rw [List.getElem?_concat_length]
  unfold ready
  cases s.started c with
  | moving m =>
    show setCall _ _ (s.findLock m) = _
    unfold setCall
    dsimp only
    rw [List.set_append_right _ _ (le_refl _), Nat.sub_self, List.set_cons_zero]
    rfl
  | _ => rfl

/-- **A whole call**: what it has read is committed, or nothing is. -/
theorem perform_call (s : Diary) (c : AppointmentCall) : s.perform (.call c) =
    match (s.ready c).write s.tables with
    | none => { s with calls := s.calls ++ [s.ready c] }
    | some (.error e) => { s with calls := s.calls ++ [.finished (.error e)] }
    | some (.ok tables) => { s with tables := tables, calls := s.calls ++ [.finished (.ok ())] } := by
  dsimp only [perform, after, List.foldl]
  rw [step_start, step_findLock]
  dsimp only [step]
  rw [List.getElem?_concat_length, Option.bind_some]
  have hset : ∀ call, (s.calls ++ [s.ready c]).set s.calls.length call = s.calls ++ [call] := by
    intro call
    rw [List.set_append_right _ _ (le_refl _), Nat.sub_self, List.set_cons_zero]
  cases (s.ready c).write s.tables with
  | none => rfl
  | some result =>
    cases result with
    | error e =>
      dsimp only [setCall]
      rw [hset]
    | ok tables =>
      dsimp only [setCall]
      rw [hset]

/-- The call was answered without an error. -/
def Succeeds (s : Diary) (c : AppointmentCall) : Prop :=
  (s.perform (.call c)).calls.getLast? = some (.finished (.ok ()))

end Diary

theorem rescheduleRow_newStart {row : Appointment} {now newStart : ℤ} {durationMinutes : Option ℤ}
    {expectedVersion : Option ℕ} {m : Move}
    (h : rescheduleRow row now newStart durationMinutes expectedVersion = .ok m) : m.newStart = newStart := by
  unfold rescheduleRow at h
  dsimp only at h
  split_ifs at h
  split at h
  · cases h
  · rw [← Except.ok.inj h]

/-! ## What the locks mirror -/

/-- The lock of an appointment, as `book` writes it. -/
structure SlotLock.Mirrors (l : SlotLock) (a : Appointment) : Prop where
  appointment : l.appointmentId = a.id
  slot : l.slot = a.slot
  endAt : l.endAt = a.endAt

/-- What the tables hold of a call that was answered without an error: the booked row and its lock, the row at its new
start, the cancelled row, the row with its outcome. -/
def DiaryTables.HasDone (t : DiaryTables) (now : ℤ) : AppointmentCall → Prop
  | .book caller payload id => ∃ row, bookRow caller now payload id = .ok row ∧ t.appointments.find? id = some row ∧
      ∃ l ∈ t.locks.rows, l.Mirrors row
  | .reschedule _ id newStart _ _ => ∃ row, t.appointments.find? id = some row ∧ row.startAt = newStart
  | .cancel _ id _ _ => ∃ row, t.appointments.find? id = some row ∧ row.status = .cancelled
  | .recordOutcome _ id payload _ => ∃ row, t.appointments.find? id = some row ∧
      outcomeStatus payload.status = some row.status

/-- The locks are those of the appointments that are not cancelled. -/
structure DiaryTables.Mirrored (t : DiaryTables) : Prop where
  held : ∀ a ∈ t.appointments.rows, a.status ≠ .cancelled → ∃ l ∈ t.locks.rows, l.Mirrors a
  owner : ∀ l ∈ t.locks.rows, ∃ a ∈ t.appointments.rows, a.status ≠ .cancelled ∧ l.Mirrors a

section Mirrored

variable {t t' : DiaryTables}

/-- An appointment has one lock. -/
theorem DiaryTables.Mirrored.unique (h : t.Mirrored) {l l' : SlotLock} (hl : l ∈ t.locks.rows)
    (hl' : l' ∈ t.locks.rows) (hsame : l.appointmentId = l'.appointmentId) : l = l' := by
  obtain ⟨a, ha, -, hmirrors⟩ := h.owner l hl
  obtain ⟨a', ha', -, hmirrors'⟩ := h.owner l' hl'
  have hown : a = a' := Table.eq_of_key ha ha' (by rw [← hmirrors.appointment, ← hmirrors'.appointment, hsame])
  exact SlotLocks.eq_of_slot hl hl' (by rw [hmirrors.slot, hmirrors'.slot, hown])

theorem DiaryTables.Mirrored.book {row : Appointment} (hmirrored : t.Mirrored) (hstatus : row.status ≠ .cancelled)
    (h : t.book row = .ok t') : t'.Mirrored := by
  obtain ⟨happend, hlocks, -⟩ := book_ok h
  have hrows := Table.rows_append? happend
  refine ⟨fun a ha hopen => ?_, fun l hl => ?_⟩
  · rw [hrows] at ha
    rw [hlocks]
    rcases List.mem_append.mp ha with hold | hnew
    · obtain ⟨l, hl, hmirrors⟩ := hmirrored.held a hold hopen
      exact ⟨l, List.mem_append_left _ hl, hmirrors⟩
    · obtain rfl := List.mem_singleton.mp hnew
      exact ⟨_, List.mem_append_right _ (List.mem_singleton_self _), rfl, rfl, rfl⟩
  · rw [hlocks] at hl
    rw [hrows]
    rcases List.mem_append.mp hl with hold | hnew
    · obtain ⟨a, ha, hopen, hmirrors⟩ := hmirrored.owner l hold
      exact ⟨a, List.mem_append_left _ ha, hopen, hmirrors⟩
    · obtain rfl := List.mem_singleton.mp hnew
      exact ⟨row, List.mem_append_right _ (List.mem_singleton_self _), hstatus, rfl, rfl, rfl⟩

/-- One row is written again, and its lock with it. -/
theorem DiaryTables.Mirrored.set {current : Appointment} (hmirrored : t.Mirrored) (row : Appointment)
    (hfind : t.appointments.find? row.id = some current) (happointments : t'.appointments = t.appointments.set row)
    (hothers : ∀ l : SlotLock, l.appointmentId ≠ row.id → (l ∈ t'.locks.rows ↔ l ∈ t.locks.rows))
    (hheld : row.status ≠ .cancelled → ∃ l ∈ t'.locks.rows, l.appointmentId = row.id)
    (hown : ∀ l ∈ t'.locks.rows, l.appointmentId = row.id → row.status ≠ .cancelled ∧ l.Mirrors row) :
    t'.Mirrored := by
  refine ⟨fun a ha hopen => ?_, fun l hl => ?_⟩
  · rw [happointments] at ha
    rcases Table.mem_set ha with rfl | ⟨hold, hne⟩
    · obtain ⟨l, hl, hid⟩ := hheld hopen
      exact ⟨l, hl, (hown l hl hid).2⟩
    · obtain ⟨l, hl, hmirrors⟩ := hmirrored.held a hold hopen
      exact ⟨l, (hothers l (hmirrors.appointment ▸ hne)).mpr hl, hmirrors⟩
  · rw [happointments]
    by_cases hid : l.appointmentId = row.id
    · exact ⟨row, Table.mem_of_find? (Table.find?_set_self hfind), hown l hl hid⟩
    · obtain ⟨a, ha, hopen, hmirrors⟩ := hmirrored.owner l ((hothers l hid).mp hl)
      have hne : a.id ≠ row.id := hmirrors.appointment ▸ hid
      refine ⟨a, ?_, hopen, hmirrors⟩
      exact Table.mem_of_find? ((Table.find?_set_of_ne hne).trans (Table.find?_of_mem ha))

theorem status_cancel {row : Appointment} {reason : Option String} (h : row.status ≠ .cancelled) :
    (row.cancel row reason).status = .cancelled := flushed_eq fun hsame => absurd hsame h

theorem DiaryTables.Mirrored.cancel {row : Appointment} {reason : Option String} (hmirrored : t.Mirrored)
    (hfind : t.appointments.find? row.id = some row) (hstatus : row.status ≠ .cancelled)
    (h : t.cancel row reason = .ok t') : t'.Mirrored := by
  unfold DiaryTables.cancel at h
  rw [hfind] at h
  obtain rfl := Except.ok.inj h
  have hgone : ∀ l ∈ (t.locks.delete row.tenantId row.id).rows, l.appointmentId ≠ row.id := by
    intro l hl hid
    obtain ⟨hold, hkeep⟩ := List.mem_filter.mp hl
    obtain ⟨a, ha, -, hmirrors⟩ := hmirrored.owner l hold
    have hrow : a = row := Table.eq_of_key ha (Table.mem_of_find? hfind) (hmirrors.appointment.symm.trans hid)
    have htenant : l.tenantId = row.tenantId := by
      have hslot := hmirrors.slot
      simp only [SlotLock.slot, Appointment.slot, Prod.mk.injEq] at hslot
      rw [hslot.1, hrow]
    simp [htenant, hid] at hkeep
  refine hmirrored.set (row.cancel row reason) hfind rfl (fun l hne => ?_)
    (fun hopen => absurd (status_cancel hstatus) hopen) fun l hl hid => absurd hid (hgone l hl)
  have hother : l.appointmentId ≠ row.id := hne
  show l ∈ (t.locks.delete row.tenantId row.id).rows ↔ _
  unfold SlotLocks.delete
  rw [List.mem_filter]
  simp [hother]

theorem status_recordOutcome {row : Appointment} {status : AppointmentStatus} {payload : OutcomePayload} :
    (row.recordOutcome row status payload).status = status := flushed_eq fun hsame => hsame

theorem DiaryTables.Mirrored.recordOutcome {row : Appointment} {status : AppointmentStatus} {payload : OutcomePayload}
    (hmirrored : t.Mirrored) (hfind : t.appointments.find? row.id = some row) (hopen : row.status ≠ .cancelled)
    (hstatus : status ≠ .cancelled) (h : t.recordOutcome row status payload = .ok t') : t'.Mirrored := by
  unfold DiaryTables.recordOutcome at h
  rw [hfind] at h
  obtain rfl := Except.ok.inj h
  have hrow := Table.mem_of_find? hfind
  refine hmirrored.set (row.recordOutcome row status payload) hfind rfl (fun l _ => Iff.rfl) (fun _ => ?_)
    fun l hl hid => ⟨by rwa [status_recordOutcome], ?_⟩
  · obtain ⟨l, hl, hmirrors⟩ := hmirrored.held row hrow hopen
    exact ⟨l, hl, hmirrors.appointment⟩
  · obtain ⟨a, ha, -, hmirrors⟩ := hmirrored.owner l hl
    obtain rfl : a = row := Table.eq_of_key ha hrow (hmirrors.appointment.symm.trans hid)
    exact ⟨hid, hmirrors.slot, hmirrors.endAt⟩

/-- The one lock of an appointment is found. -/
theorem DiaryTables.Mirrored.held_eq (hmirrored : t.Mirrored) {row : Appointment}
    (hfind : t.appointments.find? row.id = some row) (hopen : row.status ≠ .cancelled) :
    ∃ l ∈ t.locks.rows, l.Mirrors row ∧ (t.locks.held row.tenantId row.id).head? = some l := by
  obtain ⟨l, hl, hmirrors⟩ := hmirrored.held row (Table.mem_of_find? hfind) hopen
  have htenant : l.tenantId = row.tenantId := by
    have hslot := hmirrors.slot
    simp only [SlotLock.slot, Appointment.slot, Prod.mk.injEq] at hslot
    exact hslot.1
  have hmem : l ∈ t.locks.held row.tenantId row.id := SlotLocks.mem_held.mpr ⟨hl, htenant, hmirrors.appointment⟩
  refine ⟨l, hl, hmirrors, ?_⟩
  cases hheld : t.locks.held row.tenantId row.id with
  | nil =>
    rw [hheld] at hmem
    exact absurd hmem List.not_mem_nil
  | cons l' rest =>
    obtain ⟨hl', -, hown⟩ := SlotLocks.mem_held.mp (hheld ▸ List.mem_cons_self : l' ∈ _)
    rw [List.head?_cons, hmirrored.unique hl' hl (hown.trans hmirrors.appointment.symm)]

/-- A move of a row that is still as it was read takes the lock along. -/
theorem DiaryTables.Mirrored.move {m : Move} (hmirrored : t.Mirrored)
    (hfind : t.appointments.find? m.row.id = some m.row) (hopen : m.row.status ≠ .cancelled)
    (h : t.move m (t.locks.held m.row.tenantId m.row.id).head? = .ok t') : t'.Mirrored := by
  obtain ⟨l, hl, hmirrors, hlock⟩ := hmirrored.held_eq hfind hopen
  rw [hlock] at h
  obtain ⟨current, row, hfind', hrow, hlocks, happointments⟩ := move_ok h
  obtain rfl : m.row = current := Option.some.inj (hfind.symm.trans hfind')
  obtain ⟨hid, htenant, horganizer, hstatus, hstart, hend⟩ := flushRow_eq hrow
  rw [flushed_eq fun hsame => hsame] at hstart hend
  have hown : ∀ l' ∈ t.locks.rows, l'.id = l.id ↔ l'.appointmentId = row.id := by
    intro l' hl'
    rw [hid, ← hmirrors.appointment]
    refine ⟨fun hsame => ?_, fun hsame => ?_⟩
    · rw [List.inj_on_of_nodup_map t.locks.ids_nodup hl' hl hsame]
    · rw [hmirrored.unique hl' hl hsame]
  -- the lock that was read has the new times after the flush
  have hmoved : ∀ l', l' ∈ t'.locks.rows ↔
      l' ∈ t.locks.rows ∧ l'.appointmentId ≠ row.id ∨ l' = { l with startAt := m.newStart, endAt := m.newEnd } := by
    intro l'
    rcases flushLocks_rows hlocks with ⟨hsame, htimes⟩ | ⟨read, hread, -, hrows⟩
    · obtain ⟨hlstart, hlend⟩ := htimes l rfl
      rw [hsame, ← hlstart, ← hlend]
      refine ⟨fun hl' => ?_, ?_⟩
      · by_cases hmine : l'.appointmentId = row.id
        · exact Or.inr (List.inj_on_of_nodup_map t.locks.ids_nodup hl' hl ((hown l' hl').mpr hmine))
        · exact Or.inl ⟨hl', hmine⟩
      · rintro (⟨hl', -⟩ | rfl)
        · exact hl'
        · exact hl
    · obtain rfl := Option.some.inj hread
      have hflush : m.flushLock l l = { l with startAt := m.newStart, endAt := m.newEnd } := by
        unfold Move.flushLock
        rw [flushed_eq fun hsame => hsame, flushed_eq fun hsame => hsame]
      rw [hrows, ← hflush]
      refine ⟨fun hl' => ?_, ?_⟩
      · obtain ⟨l₀, hl₀, rfl⟩ := List.mem_map.mp hl'
        split_ifs with hid'
        · exact Or.inr (by rw [List.inj_on_of_nodup_map t.locks.ids_nodup hl₀ hl hid'])
        · exact Or.inl ⟨hl₀, fun hmine => hid' ((hown l₀ hl₀).mpr hmine)⟩
      · rintro (⟨hl', hne⟩ | rfl)
        · exact List.mem_map.mpr ⟨l', hl', if_neg fun hid' => hne ((hown l' hl').mp hid')⟩
        · exact List.mem_map.mpr ⟨l, hl, if_pos rfl⟩
  have hnew : SlotLock.Mirrors { l with startAt := m.newStart, endAt := m.newEnd } row := by
    have hslot := hmirrors.slot
    simp only [SlotLock.slot, Appointment.slot, Prod.mk.injEq] at hslot
    obtain ⟨hltenant, hlresource, -, hlindex⟩ := hslot
    refine ⟨hmirrors.appointment.trans hid.symm, ?_, hend.symm⟩
    unfold SlotLock.slot Appointment.slot
    rw [hltenant, hlresource, hlindex, htenant, horganizer, hstart]
  refine hmirrored.set row (hid ▸ hfind) happointments (fun l' hne => ?_) (fun _ => ?_) fun l' hl' hsame => ?_
  · rw [hmoved]
    refine ⟨?_, fun hold => Or.inl ⟨hold, hne⟩⟩
    rintro (⟨hold, -⟩ | rfl)
    · exact hold
    · exact absurd hnew.appointment hne
  · exact ⟨_, (hmoved _).mpr (Or.inr rfl), hnew.appointment⟩
  · rcases (hmoved l').mp hl' with ⟨-, hne⟩ | rfl
    · exact absurd hsame hne
    · exact ⟨hstatus ▸ hopen, hnew⟩

end Mirrored

/-! ## Runs -/

/-- What a call commits, given what its reads have shown. -/
def ReadyFor (s : Diary) (c : AppointmentCall) : DiaryCall → Prop
  | .booking row => ∃ caller payload id, c = .book caller payload id ∧ bookRow caller s.now payload id = .ok row
  | .moved m lock => s.tables.appointments.find? m.row.id = some m.row ∧ m.row.status ≠ .cancelled ∧
      lock = (s.tables.locks.held m.row.tenantId m.row.id).head? ∧
      ∃ caller durationMinutes expectedVersion,
        c = .reschedule caller m.row.id m.newStart durationMinutes expectedVersion
  | .cancelling row _ => s.tables.appointments.find? row.id = some row ∧ row.status ≠ .cancelled ∧
      ∃ caller reason expectedVersion, c = .cancel caller row.id reason expectedVersion
  | .closing row status payload => s.tables.appointments.find? row.id = some row ∧ row.status ≠ .cancelled ∧
      status ≠ .cancelled ∧ outcomeStatus payload.status = some status ∧
        ∃ caller expectedVersion, c = .recordOutcome caller row.id payload expectedVersion
  | .moving _ => False
  | .finished result => ∃ e, result = .error e

section Runs

variable {s : Diary}

/-- A call that works on a row has read it. -/
theorem withRow_cases {caller : DiaryCaller} {id : Uuid} {check : Appointment → Except AppointmentError DiaryCall}
    {P : DiaryCall → Prop} (herror : ∀ e, P (.finished (.error e)))
    (hrow : ∀ row call, s.tables.appointments.find? id = some row → row.id = id → check row = .ok call → P call) :
    P (s.withRow caller id check) := by
  unfold Diary.withRow
  split
  · exact herror _
  · rename_i row hvisible
    split
    · exact herror _
    · rename_i call hcall
      obtain ⟨hfind, -⟩ := Option.filter_eq_some_iff.mp hvisible
      exact hrow row call hfind (Table.key_of_find? hfind) hcall

theorem ready_for (s : Diary) (c : AppointmentCall) : ReadyFor s c (s.ready c) := by
  unfold Diary.ready
  cases c with
  | book caller payload id =>
    dsimp only [Diary.started, Diary.beginBook]
    cases hrow : bookRow caller s.now payload id with
    | error e => exact ⟨e, rfl⟩
    | ok row => exact ⟨caller, payload, id, rfl, hrow⟩
  | reschedule caller id newStart durationMinutes expectedVersion =>
    refine @withRow_cases s caller id _ (fun call => ReadyFor s _ (s.lookedUp call)) (fun e => ⟨e, rfl⟩)
      fun row call hfind hid hcall => ?_
    cases hmove : rescheduleRow row s.now newStart durationMinutes expectedVersion with
    | error e =>
      rw [hmove] at hcall
      cases hcall
    | ok m =>
      rw [hmove] at hcall
      obtain rfl := Except.ok.inj hcall
      obtain ⟨rfl, hopen⟩ := rescheduleRow_ok hmove
      have hstart := rescheduleRow_newStart hmove
      show ReadyFor s _ (s.findLock m)
      unfold Diary.findLock
      split
      · exact ⟨_, rfl⟩
      · split_ifs
        · exact ⟨_, rfl⟩
        · exact ⟨hid ▸ hfind, fun hcancelled => absurd (hcancelled ▸ hopen) (by decide), rfl, caller, durationMinutes,
            expectedVersion, by rw [hid, hstart]⟩
  | cancel caller id reason expectedVersion =>
    refine @withRow_cases s caller id _ (fun call => ReadyFor s _ (s.lookedUp call)) (fun e => ⟨e, rfl⟩)
      fun row call hfind hid hcall => ?_
    cases hcancel : cancelRow row s.now expectedVersion with
    | error e =>
      rw [hcancel] at hcall
      cases hcall
    | ok _ =>
      rw [hcancel] at hcall
      obtain rfl := Except.ok.inj hcall
      exact ⟨hid ▸ hfind, cancelRow_ok hcancel, caller, reason, expectedVersion, by rw [hid]⟩
  | recordOutcome caller id payload expectedVersion =>
    dsimp only [Diary.started, Diary.beginOutcome]
    cases hstatus : outcomeStatus payload.status with
    | none => exact ⟨_, rfl⟩
    | some status =>
      refine @withRow_cases s caller id _ (fun call => ReadyFor s _ (s.lookedUp call)) (fun e => ⟨e, rfl⟩)
        fun row call hfind hid hcall => ?_
      cases houtcome : outcomeRow row expectedVersion with
      | error e =>
        rw [houtcome] at hcall
        cases hcall
      | ok _ =>
        rw [houtcome] at hcall
        obtain rfl := Except.ok.inj hcall
        refine ⟨hid ▸ hfind, outcomeRow_ok houtcome, ?_, hstatus, caller, expectedVersion, by rw [hid]⟩
        unfold outcomeStatus at hstatus
        split at hstatus
        · cases hstatus
          decide
        · cases hstatus
          decide
        · cases hstatus

theorem bookRow_ok {caller : DiaryCaller} {now : ℤ} {payload : BookPayload} {id : Uuid} {row : Appointment}
    (h : bookRow caller now payload id = .ok row) : row.id = id ∧ row.status = .scheduled := by
  unfold bookRow at h
  split at h
  · cases h
  · split at h
    · cases h
    · dsimp only at h
      split at h
      · cases h
      · split at h
        · cases h
        · split at h
          · cases h
          · split at h
            · cases h
            · split at h
              · cases h
              · split at h
                · cases h
                · obtain rfl := Except.ok.inj h
                  exact ⟨rfl, rfl⟩

theorem DiaryTables.Mirrored.write (h : s.tables.Mirrored) {c : AppointmentCall} {tables : DiaryTables}
    (hwrite : (s.ready c).write s.tables = some (.ok tables)) : tables.Mirrored := by
  have hready := ready_for s c
  cases hcall : s.ready c with
  | booking row =>
    rw [hcall] at hready hwrite
    obtain ⟨caller, payload, id, -, hrow⟩ := hready
    refine h.book ?_ (Option.some.inj hwrite)
    rw [(bookRow_ok hrow).2]
    decide
  | moving m =>
    rw [hcall] at hready
    exact hready.elim
  | moved m lock =>
    rw [hcall] at hready hwrite
    obtain ⟨hfind, hopen, rfl, -⟩ := hready
    exact h.move hfind hopen (Option.some.inj hwrite)
  | cancelling row reason =>
    rw [hcall] at hready hwrite
    obtain ⟨hfind, hopen, -⟩ := hready
    exact h.cancel hfind hopen (Option.some.inj hwrite)
  | closing row status payload =>
    rw [hcall] at hready hwrite
    obtain ⟨hfind, hopen, hstatus, -⟩ := hready
    exact h.recordOutcome hfind hopen hstatus (Option.some.inj hwrite)
  | finished result =>
    rw [hcall] at hwrite
    cases hwrite

theorem DiaryTables.Mirrored.perform (h : s.tables.Mirrored) (l : ServiceStep) : (s.perform l).tables.Mirrored := by
  cases l with
  | tick microseconds => exact h
  | call c =>
    rw [Diary.perform_call]
    split
    · exact h
    · exact h
    · rename_i tables hwrite
      exact h.write hwrite

/-- A call that succeeds has committed what it was about to write. -/
theorem perform_of_succeeds {c : AppointmentCall} (h : s.Succeeds c) :
    ∃ tables, (s.ready c).write s.tables = some (.ok tables) ∧ s.perform (.call c) =
      { s with tables := tables, calls := s.calls ++ [.finished (.ok ())] } := by
  unfold Diary.Succeeds at h
  have hperform := s.perform_call c
  cases hwrite : (s.ready c).write s.tables with
  | none =>
    rw [hwrite] at hperform
    rw [hperform] at h
    have hlast : s.ready c = .finished (.ok ()) := Option.some.inj (List.getLast?_concat.symm.trans h)
    have hready := ready_for s c
    rw [hlast] at hready
    obtain ⟨e, he⟩ := hready
    cases he
  | some result =>
    rw [hwrite] at hperform
    cases result with
    | error e =>
      rw [hperform] at h
      have hlast := List.getLast?_concat.symm.trans h
      cases hlast
    | ok tables => exact ⟨tables, rfl, hperform⟩

theorem hasDone_of_write {c : AppointmentCall} {tables : DiaryTables}
    (hwrite : (s.ready c).write s.tables = some (.ok tables)) : tables.HasDone s.now c := by
  have hready := ready_for s c
  cases hcall : s.ready c with
  | booking row =>
    rw [hcall] at hready hwrite
    obtain ⟨caller, payload, id, rfl, hrow⟩ := hready
    obtain ⟨happend, hlocks, -⟩ := book_ok (Option.some.inj hwrite)
    refine ⟨row, hrow, ?_, row.lock s.tables.locks.next, ?_, rfl, rfl, rfl⟩
    · rw [← (bookRow_ok hrow).1]
      exact Table.find?_inserted happend (List.mem_singleton_self _)
    · rw [hlocks]
      exact List.mem_append_right _ (List.mem_singleton_self _)
  | moving m =>
    rw [hcall] at hready
    exact hready.elim
  | moved m lock =>
    rw [hcall] at hready hwrite
    obtain ⟨hfind, -, -, caller, durationMinutes, expectedVersion, rfl⟩ := hready
    obtain ⟨current, row, hcurrent, hrow, -, happointments⟩ := move_ok (Option.some.inj hwrite)
    obtain rfl : m.row = current := Option.some.inj (hfind.symm.trans hcurrent)
    obtain ⟨hid, -, -, -, hstart, -⟩ := flushRow_eq hrow
    rw [flushed_eq fun hsame => hsame] at hstart
    refine ⟨row, ?_, hstart⟩
    rw [happointments, ← hid]
    exact Table.find?_set_self (hid ▸ hfind)
  | cancelling row reason =>
    rw [hcall] at hready hwrite
    obtain ⟨hfind, hopen, caller, reason', expectedVersion, rfl⟩ := hready
    have hcancel := Option.some.inj hwrite
    unfold DiaryTables.cancel at hcancel
    rw [hfind] at hcancel
    obtain rfl := Except.ok.inj hcancel
    exact ⟨row.cancel row reason, Table.find?_set_self hfind, status_cancel hopen⟩
  | closing row status payload =>
    rw [hcall] at hready hwrite
    obtain ⟨hfind, -, -, hstatus, caller, expectedVersion, rfl⟩ := hready
    have hrecord := Option.some.inj hwrite
    unfold DiaryTables.recordOutcome at hrecord
    rw [hfind] at hrecord
    obtain rfl := Except.ok.inj hrecord
    refine ⟨row.recordOutcome row status payload, Table.find?_set_self hfind, ?_⟩
    rw [status_recordOutcome]
    exact hstatus
  | finished result =>
    rw [hcall] at hwrite
    cases hwrite

end Runs

/-- What is promised of the locks. -/
structure DiaryTables.LocksMatch (t : DiaryTables) : Prop where
  /-- An open appointment has one lock, with its organizer, start and end. -/
  one : ∀ a ∈ t.appointments.rows, a.IsOpen → ∃ l ∈ t.locks.rows, (l.appointmentId = a.id ∧
    l.resourceId = a.organizerId ∧ l.startAt = a.startAt ∧ l.endAt = a.endAt) ∧
    ∀ l' ∈ t.locks.rows, l'.appointmentId = a.id → l' = l
  /-- No lock is that of a cancelled appointment. -/
  released : ∀ l ∈ t.locks.rows, ∀ a ∈ t.appointments.rows, a.id = l.appointmentId → a.status ≠ .cancelled

/-- A call that succeeds has done what it was asked for. -/
def KeepsWord (s : Diary) : ServiceStep → Prop
  | .call c => s.Succeeds c → (s.perform (.call c)).tables.HasDone s.now c
  | .tick _ => True

theorem keepsWord (s : Diary) (l : ServiceStep) : KeepsWord s l := by
  cases l with
  | tick microseconds => trivial
  | call c =>
    intro hsucceeds
    obtain ⟨tables, hwrite, hperform⟩ := perform_of_succeeds hsucceeds
    rw [hperform]
    exact hasDone_of_write hwrite

/-- The booking goes through, and the row and its lock are in the tables. -/
def Diary.Books (s : Diary) (caller : DiaryCaller) (payload : BookPayload) (id : Uuid) : Prop :=
  s.Succeeds (.book caller payload id) ∧
    (s.perform (.call (.book caller payload id))).tables.HasDone s.now (.book caller payload id)

/-- After a cancellation the organizer can be booked again at that start: whatever `book` accepts, it commits. -/
def FreesSlot (s : Diary) : ServiceStep → Prop
  | .call (.cancel caller id reason expectedVersion) => s.Succeeds (.cancel caller id reason expectedVersion) →
    ∀ a ∈ s.tables.appointments.find? id, ∀ caller' payload id' row, bookRow caller' s.now payload id' = .ok row →
      row.tenantId = a.tenantId → row.organizerId = a.organizerId → row.startAt = a.startAt →
      s.tables.appointments.find? id' = none →
      (s.perform (.call (.cancel caller id reason expectedVersion))).Books caller' payload id'
  | _ => True

theorem DiaryTables.Mirrored.locksMatch {t : DiaryTables} (h : t.Mirrored) : t.LocksMatch where
  one a ha hopen := by
    have hstatus : a.status ≠ .cancelled := by
      intro hcancelled
      unfold Appointment.IsOpen at hopen
      rw [hcancelled] at hopen
      exact absurd hopen (by decide)
    obtain ⟨l, hl, hmirrors⟩ := h.held a ha hstatus
    have hslot := hmirrors.slot
    simp only [SlotLock.slot, Appointment.slot, Prod.mk.injEq] at hslot
    refine ⟨l, hl, ⟨hmirrors.appointment, hslot.2.1, hslot.2.2.1, hmirrors.endAt⟩, fun l' hl' hown => ?_⟩
    exact h.unique hl' hl (hown.trans hmirrors.appointment.symm)
  released l hl a ha hown := by
    obtain ⟨a', ha', hstatus, hmirrors⟩ := h.owner l hl
    rw [Table.eq_of_key ha ha' (hown.trans hmirrors.appointment)]
    exact hstatus

/-- A row that is not there yet, at a slot that no lock holds, is booked. -/
theorem book_of_free {t : DiaryTables} {row : Appointment} (hid : t.appointments.find? row.id = none)
    (hslot : ∀ l ∈ t.locks.rows, l.slot ≠ row.slot) : ∃ t', t.book row = .ok t' := by
  have hlocks : ∃ locks, SlotLocks.ofRows? (t.locks.rows ++ [row.lock t.locks.next]) (t.locks.next + 1) =
      some locks := by
    unfold SlotLocks.ofRows?
    rw [dif_pos]
    · exact ⟨_, rfl⟩
    · refine ⟨forall_mem_concat (fun l hl => Nat.lt_succ_of_lt (t.locks.drawn l hl)) (Nat.lt_succ_self _), ?_, ?_⟩
      · rw [List.map_append]
        refine List.nodup_append.mpr ⟨t.locks.ids_nodup, List.nodup_singleton _, ?_⟩
        intro x hx y hy hsame
        obtain ⟨l, hl, rfl⟩ := List.mem_map.mp hx
        rw [List.mem_singleton.mp hy] at hsame
        exact absurd hsame (Nat.ne_of_lt (t.locks.drawn l hl))
      · rw [List.map_append]
        refine List.nodup_append.mpr ⟨t.locks.slots_nodup, List.nodup_singleton _, ?_⟩
        intro x hx y hy hsame
        obtain ⟨l, hl, rfl⟩ := List.mem_map.mp hx
        rw [List.mem_singleton.mp hy] at hsame
        exact hslot l hl hsame
  obtain ⟨appointments, happend⟩ := Table.exists_append? hid
  obtain ⟨locks, hlocks⟩ := hlocks
  refine ⟨⟨appointments, locks⟩, ?_⟩
  unfold DiaryTables.book
  rw [happend, hlocks]

/-- A cancellation leaves no lock at its slot. -/
theorem DiaryTables.Mirrored.slot_free {t t' : DiaryTables} (h : t.Mirrored) {row : Appointment}
    {reason : Option String} (hfind : t.appointments.find? row.id = some row) (hopen : row.status ≠ .cancelled)
    (hcancel : t.cancel row reason = .ok t') : ∀ l ∈ t'.locks.rows, l.slot ≠ row.slot := by
  unfold DiaryTables.cancel at hcancel
  rw [hfind] at hcancel
  obtain rfl := Except.ok.inj hcancel
  intro l hl hslot
  obtain ⟨hold, hkeep⟩ := List.mem_filter.mp hl
  obtain ⟨own, hown, hmirrors⟩ := h.held row (Table.mem_of_find? hfind) hopen
  obtain rfl : l = own := SlotLocks.eq_of_slot hold hown (hslot.trans hmirrors.slot.symm)
  simp only [SlotLock.slot, Appointment.slot, Prod.mk.injEq] at hslot
  simp [hslot.1, hmirrors.appointment] at hkeep

/-- What a cancellation that succeeds has done. -/
theorem cancel_of_succeeds {s : Diary} {caller : DiaryCaller} {id : Uuid} {reason : Option String}
    {expectedVersion : Option ℕ} (h : s.Succeeds (.cancel caller id reason expectedVersion)) {a : Appointment}
    (ha : s.tables.appointments.find? id = some a) :
    ∃ reason' tables, a.status ≠ .cancelled ∧ s.tables.cancel a reason' = .ok tables ∧
      s.perform (.call (.cancel caller id reason expectedVersion)) =
        { s with tables := tables, calls := s.calls ++ [.finished (.ok ())] } := by
  obtain ⟨tables, hwrite, hperform⟩ := perform_of_succeeds h
  have hready := ready_for s (.cancel caller id reason expectedVersion)
  cases hcall : s.ready (.cancel caller id reason expectedVersion) with
  | booking row =>
    rw [hcall] at hready
    obtain ⟨_, _, _, hc, -⟩ := hready
    cases hc
  | moving m =>
    rw [hcall] at hready
    exact hready.elim
  | moved m lock =>
    rw [hcall] at hready
    obtain ⟨-, -, -, _, _, _, hc⟩ := hready
    cases hc
  | closing row status payload =>
    rw [hcall] at hready
    obtain ⟨-, -, -, -, _, _, hc⟩ := hready
    cases hc
  | finished result =>
    rw [hcall] at hwrite
    cases hwrite
  | cancelling row reason' =>
    rw [hcall] at hready hwrite
    obtain ⟨hfind, hopen, _, _, _, hc⟩ := hready
    obtain rfl : id = row.id := by
      injection hc
    obtain rfl : a = row := Option.some.inj (ha.symm.trans hfind)
    exact ⟨reason', tables, hopen, Option.some.inj hwrite, hperform⟩

theorem DiaryTables.Mirrored.freesSlot {s : Diary} (h : s.tables.Mirrored) (l : ServiceStep) : FreesSlot s l := by
  cases l with
  | tick microseconds => trivial
  | call c =>
    cases c with
    | cancel caller id reason expectedVersion =>
      intro hsucceeds a ha caller' payload id' row hrow htenant horganizer hstart hfresh
      obtain ⟨reason', tables, hopen, hcancel, hperform⟩ := cancel_of_succeeds hsucceeds ha
      have haid : a.id = id := Table.key_of_find? ha
      have hslot : row.slot = a.slot := by
        unfold Appointment.slot
        rw [htenant, horganizer, hstart]
      have hfree : ∀ l ∈ tables.locks.rows, l.slot ≠ row.slot := by
        rw [hslot]
        exact h.slot_free (haid ▸ ha) hopen hcancel
      have hnew : tables.appointments.find? row.id = none := by
        unfold DiaryTables.cancel at hcancel
        rw [haid, ha] at hcancel
        obtain rfl := Except.ok.inj hcancel
        rw [(bookRow_ok hrow).1]
        refine (Table.find?_set_of_ne fun hsame => ?_).trans hfresh
        rw [hsame, show (a.cancel a reason').id = id from haid, ha] at hfresh
        cases hfresh
      obtain ⟨tables', hbook⟩ := book_of_free hnew hfree
      rw [hperform]
      suffices hdone : Diary.Succeeds _ (.book caller' payload id') from ⟨hdone, keepsWord _ (.call _) hdone⟩
      unfold Diary.Succeeds
      rw [Diary.perform_call]
      have hready : Diary.ready { s with tables := tables, calls := s.calls ++ [.finished (.ok ())] }
          (.book caller' payload id') = .booking row := by
        dsimp only [Diary.ready, Diary.started, Diary.beginBook]
        rw [hrow]
        rfl
      rw [hready]
      dsimp only [DiaryCall.write]
      rw [hbook]
      exact List.getLast?_concat
    | book caller payload id => trivial
    | reschedule caller id newStart durationMinutes expectedVersion => trivial
    | recordOutcome caller id payload expectedVersion => trivial

/-- **The locks mirror the appointments**, after every sequence of calls; a call that succeeds has done what it was
asked for, and a cancellation frees its slot. -/
theorem locks_mirror (now : ℤ) (steps : List ServiceStep) :
    Always Diary.perform (fun s => s.tables.LocksMatch) (.empty now) steps ∧
      Meets Diary.perform (fun s l => KeepsWord s l ∧ FreesSlot s l) (.empty now) steps := by
  have hstart : (Diary.empty now).tables.Mirrored :=
    ⟨fun a ha => absurd ha List.not_mem_nil, fun l hl => absurd hl List.not_mem_nil⟩
  constructor
  · exact always_of_inv (fun s => s.tables.Mirrored) (fun _ h => h.locksMatch)
      (fun s l h (_ : True) => h.perform l) steps _ hstart (meets_of_forall (fun _ _ => trivial) steps _)
  · exact meets_of_inv (fun s => s.tables.Mirrored) (fun s l h => ⟨⟨keepsWord s l, h.freesSlot l⟩, h.perform l⟩) steps _
      hstart

/-- 10:00 is booked, and cancelled. -/
def cancelledVisit : List ServiceStep :=
  [.call (.book asha (visitAt 600 none) (sampleUuid 'a')), .call (.cancel asha (sampleUuid 'a') none none)]

theorem locks_mirror_cancelledVisit : (after Diary.perform (.empty 0) cancelledVisit).tables.LocksMatch ∧
    (after Diary.perform (.empty 0) (cancelledVisit.take 1)).tables.HasDone 0
      (.book asha (visitAt 600 none) (sampleUuid 'a')) ∧
    (after Diary.perform (.empty 0) cancelledVisit).Books asha (visitAt 600 none) (sampleUuid 'b') := by
  obtain ⟨halways, ⟨hbooked, -⟩, ⟨-, hfrees⟩, -⟩ := locks_mirror 0 cancelledVisit
  refine ⟨always_last halways, hbooked rfl, ?_⟩
  exact hfrees rfl _ rfl asha (visitAt 600 none) (sampleUuid 'b') _ rfl rfl rfl rfl rfl

end RevenueOS.Crm
