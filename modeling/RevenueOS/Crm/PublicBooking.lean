import RevenueOS.Crm.Appointments
import RevenueOS.Lib.Except
import RevenueOS.Py.Json
import Mathlib.Data.List.Perm.Subperm

/-!
# RevenueOS.Crm.PublicBooking — slots that anybody may claim

`claim_public_slot` (`application/appointments/booking.py`), for claims that overlap.  A claim writes a lock and an
appointment in one transaction.  The lock is unique for its resource, start and index, and the index is the one that
the request names; how many may be booked at once is not looked at.

* `capacity_respected`: in a run in which every request names an index below the capacity of its resource, no more
  are booked for a start than the capacity.  `secondIndex_overbooks` is a run with two in a slot for one.

`UUID` and `datetime.fromisoformat` are parameters.  Left out: the columns that nothing here reads (the expiry of a
lock, its idempotency key, the location and the intake), and the audit record.  What else the database may refuse is a
call that is aborted.
-/

namespace RevenueOS.Crm

open RevenueOS.Py RevenueOS.Lib RevenueOS.Workflows

/-! ## `claim_public_slot` -/

inductive PublicError where
  | validation (message : String)
  | conflict (message : String)
  | raised (e : PyError)
  /-- The connection was lost, or the process, or the database refused a value. -/
  | aborted
deriving DecidableEq

/-- `UUID(text)` and `ensure_utc(datetime.fromisoformat(text))`; `none` is a `ValueError`. -/
structure BookingText where
  uuid : String → Option Uuid
  instant : String → Option ℤ

structure PublicLock where
  tenantId : Uuid
  resourceId : Uuid
  startAt : ℤ
  endAt : ℤ
  slotIndex : ℤ
  appointmentId : Uuid
deriving DecidableEq

structure PublicAppointment where
  id : Uuid
  tenantId : Uuid
  resourceId : Uuid
  title : String
  startAt : ℤ
  endAt : ℤ
  status : AppointmentStatus
  version : ℕ
deriving DecidableEq

/-- The two rows of a claim. -/
structure Claim where
  lock : PublicLock
  appointment : PublicAppointment
deriving DecidableEq

/-- The fields that a request must have. -/
def requiredFields : List String := ["tenant_id", "resource_id", "start_at", "end_at"]

/-- A text of the request, as its value. -/
def parsed {α : Type} (parse : String → Option α) (value : Json) : Except PublicError α :=
  match parse value.text with
  | some a => .ok a
  | none => .error (.raised .valueError)

/-- The index that a request names. -/
def slotIndexOf (body : Dict) : Except PublicError ℤ :=
  match (body.getD "slot_index" (.int 0)).toInt with
  | .ok n => .ok n
  | .error e => .error (.raised e)

/-- What a request claims, unless it is refused before anything is written. -/
def claimOf (text : BookingText) (body : Dict) (appointmentId : Uuid) : Except PublicError Claim :=
  match requiredFields.find? fun field => !body.has field with
  | some field => .error (.validation ("'" ++ field ++ "' is required."))
  | none => do
    let tenantId ← parsed text.uuid (body.get "tenant_id")
    let resourceId ← parsed text.uuid (body.get "resource_id")
    let startAt ← parsed text.instant (body.get "start_at")
    let endAt ← parsed text.instant (body.get "end_at")
    if endAt ≤ startAt then .error (.validation "The appointment must end after it starts.")
    else
      let slotIndex ← slotIndexOf body
      .ok ⟨⟨tenantId, resourceId, startAt, endAt, slotIndex, appointmentId⟩,
        ⟨appointmentId, tenantId, resourceId, slice (body.getD "title" (.str "Appointment")).text 250, startAt, endAt,
          .scheduled, 1⟩⟩

/-! ## The tables -/

/-- A resource and a start. -/
def PublicLock.place (l : PublicLock) : Uuid × Uuid × ℤ := (l.tenantId, l.resourceId, l.startAt)

def PublicAppointment.place (a : PublicAppointment) : Uuid × Uuid × ℤ := (a.tenantId, a.resourceId, a.startAt)

/-- `slot_locks` and `appointments`, with the constraint `resource_slot` and the ids. -/
structure PublicTables where
  locks : List PublicLock
  appointments : List PublicAppointment
  slots_nodup : (locks.map fun l => (l.place, l.slotIndex)).Nodup
  ids_nodup : (appointments.map (·.id)).Nodup

namespace PublicTables

def empty : PublicTables := ⟨[], [], List.nodup_nil, List.nodup_nil⟩

/-- The transaction of a claim; `none` is an `IntegrityError`. -/
def insert? (t : PublicTables) (c : Claim) : Option PublicTables :=
  if h : ((t.locks ++ [c.lock]).map fun l => (l.place, l.slotIndex)).Nodup ∧
      ((t.appointments ++ [c.appointment]).map (·.id)).Nodup then
    some ⟨t.locks ++ [c.lock], t.appointments ++ [c.appointment], h.1, h.2⟩
  else none

/-- How many are booked at a place. -/
def booked (t : PublicTables) (place : Uuid × Uuid × ℤ) : ℕ :=
  t.appointments.countP fun a => a.status = .scheduled ∧ a.place = place

end PublicTables

/-! ## Claims that overlap -/

inductive PublicCall where
  | claiming (c : Claim)
  | finished (result : Except PublicError Uuid)

structure PublicDesk where
  tables : PublicTables
  calls : List PublicCall

inductive PublicStep where
  | claim (body : Dict) (id : Uuid)
  | commit (k : ℕ)
  | abort (k : ℕ)

/-- What a constraint makes of a claim. -/
def slotJustTaken : PublicError := .conflict "That slot has just been taken. Please choose another time."

namespace PublicDesk

def empty : PublicDesk := ⟨.empty, []⟩

variable (text : BookingText)

def begin (body : Dict) (id : Uuid) : PublicCall :=
  match claimOf text body id with
  | .ok c => .claiming c
  | .error e => .finished (.error e)

def step (s : PublicDesk) : PublicStep → PublicDesk
  | .claim body id => { s with calls := s.calls ++ [begin text body id] }
  | .commit k =>
    match s.calls[k]? with
    | some (.claiming c) =>
      match s.tables.insert? c with
      | some tables => ⟨tables, s.calls.set k (.finished (.ok c.appointment.id))⟩
      | none => { s with calls := s.calls.set k (.finished (.error slotJustTaken)) }
    | _ => s
  | .abort k =>
    match s.calls[k]? with
    | some (.claiming _) => { s with calls := s.calls.set k (.finished (.error .aborted)) }
    | _ => s

end PublicDesk

/-! ## Capacity -/

section Capacity

variable (capacity : Uuid → Uuid → ℕ)

/-- No place has more appointments than its resource can take. -/
def PublicTables.WithinCapacity (t : PublicTables) : Prop :=
  ∀ tenantId resourceId startAt, t.booked (tenantId, resourceId, startAt) ≤ capacity tenantId resourceId

/-- An index of the resource. -/
def PublicLock.Offered (l : PublicLock) : Prop := 0 ≤ l.slotIndex ∧ l.slotIndex < capacity l.tenantId l.resourceId

/-- The request names an index of its resource. -/
def NamesOffered (text : BookingText) (_ : PublicDesk) : PublicStep → Prop
  | .claim body _ => ∀ tenantId resourceId slotIndex, parsed text.uuid (body.get "tenant_id") = .ok tenantId →
      parsed text.uuid (body.get "resource_id") = .ok resourceId → slotIndexOf body = .ok slotIndex →
      0 ≤ slotIndex ∧ slotIndex < capacity tenantId resourceId
  | _ => True

/-- The rows of a claim are of the place and the index that the request names. -/
theorem claimOf_ok {text : BookingText} {body : Dict} {id : Uuid} {c : Claim} (h : claimOf text body id = .ok c) :
    parsed text.uuid (body.get "tenant_id") = .ok c.lock.tenantId ∧
      parsed text.uuid (body.get "resource_id") = .ok c.lock.resourceId ∧ slotIndexOf body = .ok c.lock.slotIndex ∧
      c.appointment.place = c.lock.place := by
  unfold claimOf at h
  split at h
  · cases h
  · obtain ⟨tenantId, htenant, h⟩ := bind_eq_ok.mp h
    obtain ⟨resourceId, hresource, h⟩ := bind_eq_ok.mp h
    obtain ⟨startAt, -, h⟩ := bind_eq_ok.mp h
    obtain ⟨endAt, -, h⟩ := bind_eq_ok.mp h
    split_ifs at h
    obtain ⟨slotIndex, hindex, h⟩ := bind_eq_ok.mp h
    obtain rfl := Except.ok.inj h
    exact ⟨htenant, hresource, hindex, rfl⟩

structure PublicTables.Kept (t : PublicTables) : Prop where
  places : t.appointments.map (·.place) = t.locks.map (·.place)
  offered : ∀ l ∈ t.locks, l.Offered capacity

def PublicCall.Sound : PublicCall → Prop
  | .claiming c => c.appointment.place = c.lock.place ∧ c.lock.Offered capacity
  | .finished _ => True

structure PublicDesk.Kept (s : PublicDesk) : Prop where
  tables : s.tables.Kept capacity
  calls : ∀ call ∈ s.calls, call.Sound capacity

variable {capacity}

/-- The locks of a place have different indices, all below the capacity. -/
theorem PublicTables.Kept.withinCapacity {t : PublicTables} (h : t.Kept capacity) : t.WithinCapacity capacity := by
  intro tenantId resourceId startAt
  have hscheduled : t.booked (tenantId, resourceId, startAt) ≤
      (t.appointments.map (·.place)).count (tenantId, resourceId, startAt) := by
    unfold PublicTables.booked
    rw [List.count_eq_countP, List.countP_map]
    refine List.countP_mono_left fun a _ ha => ?_
    simpa using (of_decide_eq_true ha).2
  have hlocks : (t.locks.map (·.place)).count (tenantId, resourceId, startAt) ≤ capacity tenantId resourceId := by
    let here := t.locks.filter fun l => l.place = (tenantId, resourceId, startAt)
    have hhere : ∀ l ∈ here, l.place = (tenantId, resourceId, startAt) :=
      fun l hl => of_decide_eq_true (List.mem_filter.mp hl).2
    have hindices : (here.map fun l => l.slotIndex.toNat).Nodup := by
      have hslots : (here.map fun l => (l.place, l.slotIndex)).Nodup :=
        (List.filter_sublist.map _).nodup t.slots_nodup
      refine List.pairwise_map.mpr ((List.pairwise_map.mp hslots).imp_of_mem fun {a b} ha hb hne hsame => hne ?_)
      obtain ⟨ha0, -⟩ := h.offered a (List.mem_of_mem_filter ha)
      obtain ⟨hb0, -⟩ := h.offered b (List.mem_of_mem_filter hb)
      rw [hhere a ha, hhere b hb, show a.slotIndex = b.slotIndex by omega]
    have hrange : (here.map fun l => l.slotIndex.toNat) ⊆ List.range (capacity tenantId resourceId) := by
      intro n hn
      obtain ⟨l, hl, rfl⟩ := List.mem_map.mp hn
      obtain ⟨hzero, hlt⟩ := h.offered l (List.mem_of_mem_filter hl)
      have hplace := hhere l hl
      simp only [PublicLock.place, Prod.mk.injEq] at hplace
      rw [hplace.1, hplace.2.1] at hlt
      rw [List.mem_range]
      omega
    have hlength := (List.subperm_of_subset hindices hrange).length_le
    rw [List.length_map, List.length_range] at hlength
    rw [List.count_eq_countP, List.countP_map, List.countP_eq_length_filter]
    refine le_trans (le_of_eq ?_) hlength
    congr 1
    refine List.filter_congr fun l _ => ?_
    rw [Bool.eq_iff_iff, decide_eq_true_iff]
    exact beq_iff_eq
  rw [h.places] at hscheduled
  exact hscheduled.trans hlocks

theorem insert?_eq {t t' : PublicTables} {c : Claim} (h : t.insert? c = some t') :
    t'.locks = t.locks ++ [c.lock] ∧ t'.appointments = t.appointments ++ [c.appointment] := by
  unfold PublicTables.insert? at h
  split_ifs at h
  rw [← Option.some.inj h]
  exact ⟨rfl, rfl⟩

theorem PublicTables.Kept.insert {t t' : PublicTables} {c : Claim} (hkept : t.Kept capacity)
    (hplace : c.appointment.place = c.lock.place) (hoffered : c.lock.Offered capacity)
    (h : t.insert? c = some t') : t'.Kept capacity := by
  obtain ⟨hlocks, happointments⟩ := insert?_eq h
  refine ⟨?_, ?_⟩
  · rw [hlocks, happointments, List.map_append, List.map_append, hkept.places]
    show _ ++ [c.appointment.place] = _ ++ [c.lock.place]
    rw [hplace]
  · rw [hlocks]
    exact forall_mem_concat hkept.offered hoffered

theorem PublicDesk.Kept.step {text : BookingText} {s : PublicDesk} (h : s.Kept capacity) (l : PublicStep)
    (hnames : NamesOffered capacity text s l) : (s.step text l).Kept capacity := by
  cases l with
  | claim body id =>
    refine ⟨h.tables, forall_mem_concat h.calls ?_⟩
    unfold PublicDesk.begin
    split
    · rename_i c hc
      obtain ⟨htenant, hresource, hindex, hplace⟩ := claimOf_ok hc
      exact ⟨hplace, hnames _ _ _ htenant hresource hindex⟩
    · trivial
  | commit k =>
    dsimp only [PublicDesk.step]
    split
    · rename_i c hk
      obtain ⟨hplace, hoffered⟩ := h.calls _ (List.mem_of_getElem? hk)
      split
      · rename_i tables hinsert
        exact ⟨h.tables.insert hplace hoffered hinsert, forall_mem_set h.calls trivial⟩
      · exact ⟨h.tables, forall_mem_set h.calls trivial⟩
    · exact h
  | abort k =>
    dsimp only [PublicDesk.step]
    split
    · exact ⟨h.tables, forall_mem_set h.calls trivial⟩
    · exact h

/-- **No slot is overbooked** in a run in which every request names an index below the capacity of its resource. -/
theorem capacity_respected {text : BookingText} {steps : List PublicStep}
    (h : Meets (PublicDesk.step text) (NamesOffered capacity text) .empty steps) :
    Always (PublicDesk.step text) (fun s => s.tables.WithinCapacity capacity) .empty steps := by
  refine always_of_inv (PublicDesk.Kept capacity) (fun _ hs => hs.tables.withinCapacity)
    (fun _ l hs hnames => hs.step l hnames) steps .empty ?_ h
  exact ⟨⟨rfl, fun l hl => absurd hl List.not_mem_nil⟩, fun call hcall => absurd hcall List.not_mem_nil⟩

end Capacity

/-! ## A workshop -/

/-- Two times of a day. -/
def workshopText : BookingText where
  uuid text := if h : text.length = 36 then some ⟨text, h⟩ else none
  instant text :=
    if text = "2026-03-02T10:00:00+00:00" then some 1772445600000000
    else if text = "2026-03-02T11:00:00+00:00" then some 1772449200000000
    else none

/-- A request for the hour at ten, with this index. -/
def workshopRequest (slotIndex : ℤ) : Dict :=
  [("tenant_id", .str "0195f1a2-0000-7000-8000-000000000001"),
    ("resource_id", .str "0195f1a2-0000-7000-8000-000000000002"),
    ("start_at", .str "2026-03-02T10:00:00+00:00"), ("end_at", .str "2026-03-02T11:00:00+00:00"),
    ("slot_index", .int slotIndex)]

/-- Two requests, and one that comes too late. -/
def threeGuests (capacity : ℤ) : List PublicStep :=
  [.claim (workshopRequest 0) (sampleUuid 'a'), .claim (workshopRequest (capacity - 1)) (sampleUuid 'b'),
    .claim (workshopRequest 0) (sampleUuid 'c'), .commit 0, .commit 1, .commit 2]

theorem capacity_respected_threeGuests :
    Meets (PublicDesk.step workshopText) (NamesOffered (fun _ _ => 2) workshopText) .empty (threeGuests 2) ∧
      Always (PublicDesk.step workshopText) (fun s => s.tables.WithinCapacity fun _ _ => 2) .empty
        (threeGuests 2) := by
  have hnames : ∀ n : ℤ, 0 ≤ n → n < 2 → ∀ s id,
      NamesOffered (fun _ _ => 2) workshopText s (.claim (workshopRequest n) id) := by
    intro n hzero hlt s id _ _ slotIndex _ _ hindex
    obtain rfl : n = slotIndex := Except.ok.inj hindex
    exact ⟨hzero, hlt⟩
  have hmeets : Meets (PublicDesk.step workshopText) (NamesOffered (fun _ _ => 2) workshopText) .empty
      (threeGuests 2) :=
    ⟨hnames 0 (by decide) (by decide) _ _, hnames (2 - 1) (by decide) (by decide) _ _,
      hnames 0 (by decide) (by decide) _ _, trivial, trivial, trivial, trivial⟩
  exact ⟨hmeets, capacity_respected hmeets⟩

/-- Two requests for a slot of one, which name different indices. -/
def secondIndex : List PublicStep :=
  [.claim (workshopRequest 0) (sampleUuid 'a'), .claim (workshopRequest 1) (sampleUuid 'b'), .commit 0, .commit 1]

theorem secondIndex_overbooks :
    ¬ Always (PublicDesk.step workshopText) (fun s => s.tables.WithinCapacity fun _ _ => 1) .empty secondIndex := by
  intro h
  have hend := always_last h ⟨"0195f1a2-0000-7000-8000-000000000001", by decide⟩
    ⟨"0195f1a2-0000-7000-8000-000000000002", by decide⟩ 1772445600000000
  have hbooked : ¬ (after (PublicDesk.step workshopText) .empty secondIndex).tables.booked
      (⟨"0195f1a2-0000-7000-8000-000000000001", by decide⟩, ⟨"0195f1a2-0000-7000-8000-000000000002", by decide⟩,
        1772445600000000) ≤ 1 := by
    decide +kernel
  exact hbooked hend

end RevenueOS.Crm
