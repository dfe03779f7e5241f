import RevenueOS.Messaging.Event
import RevenueOS.Lib.Table
import RevenueOS.Lib.Trace
import Mathlib.Data.List.Sort

/-!
# RevenueOS.Messaging.Outbox — the outbox poller

`CLAIM_SQL`, `OutboxDispatcher.run_once` and `_dispatch_row` (`infrastructure/messaging/outbox.py`), for any
number of dispatchers.

A dispatcher claims rows in one statement: unprocessed, due, and not locked by another one.  It then calls the
handlers of each row in turn, inside the claiming transaction, writes what came of it, and commits the writes of
the whole batch at the end; until then it holds the locks of the rows.  A handler returns or raises as it likes,
a different way each time.  A crash, or an error outside a handler, undoes the transaction but no handler call.
`log` keeps the committed dispatches; the program does not.

* `step_ok`: what any step does to the rows, in any state that dispatchers reach.
* `outbox_keeps_events`: so does every step of every run.
-/

namespace RevenueOS.Messaging

open RevenueOS.Py RevenueOS.Lib RevenueOS.Workflows

/-! ## Subscriptions -/

/-- `MAX_ATTEMPTS`. -/
def maxAttempts : ℕ := 8

/-- `BACKOFF_BASE_SECONDS`. -/
def backoffBaseSeconds : ℕ := 2

structure Dispatcher (η : Type) where
  handlers : List (String × List η)
  wildcard : List η
  batch : ℕ

namespace Dispatcher

variable {η : Type}

/-- `handlers.setdefault(event_type, []).append(handler)`. -/
def appendHandler : List (String × List η) → String → η → List (String × List η)
  | [], eventType, h => [(eventType, [h])]
  | (t, hs) :: rest, eventType, h =>
    if t = eventType then (t, hs ++ [h]) :: rest else (t, hs) :: appendHandler rest eventType h

/-- `subscribe`. -/
def subscribe (d : Dispatcher η) (eventType : String) (h : η) : Dispatcher η :=
  if eventType = "*" then { d with wildcard := d.wildcard ++ [h] }
  else { d with handlers := appendHandler d.handlers eventType h }

/-- `handlers_for`. -/
def handlersFor (d : Dispatcher η) (eventType : String) : List η :=
  (d.handlers.lookup eventType).getD [] ++ d.wildcard

theorem lookup_appendHandler (eventType other : String) (h : η) : ∀ hs : List (String × List η),
    ((appendHandler hs eventType h).lookup other).getD [] =
      (hs.lookup other).getD [] ++ (if other = eventType then [h] else [])
  | [] => by
    by_cases heq : other = eventType
    · simp [appendHandler, heq]
    · have hne : (other == eventType) = false := beq_eq_false_iff_ne.mpr heq
      simp [appendHandler, List.lookup_cons, hne, heq]
  | (t, l) :: rest => by
    have hrest := lookup_appendHandler eventType other h rest
    unfold appendHandler
    by_cases ht : t = eventType
    · rw [if_pos ht]
      by_cases heq : other = t
      · simp [heq, ht]
      · have hne : (other == t) = false := beq_eq_false_iff_ne.mpr heq
        have hne' : other ≠ eventType := ht ▸ heq
        simp [List.lookup_cons, hne, hne']
    · rw [if_neg ht]
      by_cases heq : other = t
      · simp [heq, ht]
      · have hne : (other == t) = false := beq_eq_false_iff_ne.mpr heq
        simp only [List.lookup_cons, hne, hrest]

/-- A handler is called for the event types it subscribed to, or for all of them. -/
theorem mem_handlersFor_subscribe {d : Dispatcher η} {eventType other : String} {h g : η} :
    g ∈ (d.subscribe eventType h).handlersFor other ↔
      g ∈ d.handlersFor other ∨ (g = h ∧ (eventType = "*" ∨ eventType = other)) := by
  unfold subscribe
  split_ifs with hall
  · simp [handlersFor, hall, or_assoc]
  · unfold handlersFor
    rw [lookup_appendHandler]
    by_cases heq : other = eventType
    · simp [heq, hall]
      tauto
    · simp [heq, hall, Ne.symm heq]

end Dispatcher

/-! ## Rows -/

/-- The primary key of the partitioned table. -/
abbrev RowKey := Uuid × ℤ

def EventOutbox.key (row : EventOutbox) : RowKey := (row.id, row.occurredAt)

abbrev OutboxTable := Table EventOutbox.key

/-- The two `UPDATE`s of `_dispatch_row`. -/
inductive RowUpdate where
  | dispatched (now : ℤ)
  | failed (attempts : ℕ) (error : String) (availableAt : ℤ) (processedAt : Option ℤ)

namespace RowUpdate

def apply (u : RowUpdate) (row : EventOutbox) : EventOutbox :=
  match u with
  | dispatched now => { row with processedAt := some now }
  | failed attempts error availableAt processedAt =>
    { row with
      attempts := attempts
      lastError := some error
      availableAt := some availableAt
      processedAt := processedAt }

def isFailure : RowUpdate → Bool
  | dispatched _ => false
  | failed .. => true

theorem key_apply (u : RowUpdate) (row : EventOutbox) : (u.apply row).key = row.key := by cases u <;> rfl

end RowUpdate

/-- What a raised exception is recorded as. -/
def failure (row : EventOutbox) (error : String) (now : ℤ) : RowUpdate :=
  let attempts := row.attempts + 1
  .failed attempts (slice error 2000) (now + backoffBaseSeconds ^ min attempts 6)
    (if maxAttempts ≤ attempts then some now else none)

/-- A dispatch of a row, with the handlers that returned in it. -/
structure Dispatch (η : Type) where
  key : RowKey
  update : RowUpdate
  returned : List η

section

variable {η : Type}

/-- The table after the writes of a transaction. -/
def applyAll (t : OutboxTable) (records : List (Dispatch η)) : OutboxTable :=
  records.foldl (fun t r => t.modify r.key r.update.apply (fun row h => (r.update.key_apply row).trans h)) t

theorem applyAll_cons (t : OutboxTable) (r : Dispatch η) (records : List (Dispatch η)) :
    applyAll t (r :: records) =
      applyAll (t.modify r.key r.update.apply (fun row h => (r.update.key_apply row).trans h)) records := rfl

theorem find?_modify_of_ne (t : OutboxTable) (r : Dispatch η) {k : RowKey} (h : k ≠ r.key) :
    (t.modify r.key r.update.apply (fun row h => (r.update.key_apply row).trans h)).find? k = t.find? k := by
  rw [Table.find?_modify]
  cases hfind : t.find? k with
  | none => rfl
  | some row =>
    rw [Option.map_some, Table.modifyRow, if_neg]
    rw [Table.key_of_find? hfind]
    exact h

theorem find?_modify_self (t : OutboxTable) (r : Dispatch η) :
    (t.modify r.key r.update.apply (fun row h => (r.update.key_apply row).trans h)).find? r.key =
      (t.find? r.key).map r.update.apply := by
  rw [Table.find?_modify]
  cases hfind : t.find? r.key with
  | none => rfl
  | some row => rw [Option.map_some, Option.map_some, Table.modifyRow, if_pos (Table.key_of_find? hfind)]

theorem find?_applyAll_of_not_mem {k : RowKey} : ∀ {records : List (Dispatch η)} (t : OutboxTable),
    k ∉ records.map Dispatch.key → (applyAll t records).find? k = t.find? k
  | [], _, _ => rfl
  | r :: records, t, h => by
    rw [List.map_cons, List.mem_cons, not_or] at h
    rw [applyAll_cons, find?_applyAll_of_not_mem _ h.2, find?_modify_of_ne t r h.1]

/-- A row with one write of the transaction gets that write. -/
theorem find?_applyAll_of_mem : ∀ {records : List (Dispatch η)} (t : OutboxTable) {r : Dispatch η},
    (records.map Dispatch.key).Nodup → r ∈ records →
      (applyAll t records).find? r.key = (t.find? r.key).map r.update.apply
  | [], _, _, _, h => absurd h List.not_mem_nil
  | x :: records, t, r, hnodup, h => by
    rw [List.map_cons, List.nodup_cons] at hnodup
    rw [applyAll_cons]
    rcases List.mem_cons.mp h with rfl | h
    · rw [find?_applyAll_of_not_mem _ hnodup.1, find?_modify_self]
    · have hne : r.key ≠ x.key := fun heq => hnodup.1 (heq ▸ List.mem_map.mpr ⟨r, h, rfl⟩)
      rw [find?_applyAll_of_mem _ hnodup.2 h, find?_modify_of_ne t x hne]

/-- The writes invent no row. -/
theorem find?_of_applyAll {k : RowKey} {row' : EventOutbox} : ∀ {records : List (Dispatch η)} {t : OutboxTable},
    (applyAll t records).find? k = some row' → ∃ row, t.find? k = some row
  | [], _, h => ⟨row', h⟩
  | r :: records, t, h => by
    rw [applyAll_cons] at h
    obtain ⟨row, hrow⟩ := find?_of_applyAll h
    rw [Table.find?_modify] at hrow
    obtain ⟨row, hrow, -⟩ := Option.map_eq_some_iff.mp hrow
    exact ⟨row, hrow⟩

/-- The failed dispatches of a row in the log. -/
def failures (log : List (Dispatch η)) (k : RowKey) : ℕ :=
  log.countP (fun r => decide (r.key = k) && r.update.isFailure)

theorem failures_of_not_mem {records : List (Dispatch η)} {k : RowKey} (h : k ∉ records.map Dispatch.key) :
    failures records k = 0 := by
  unfold failures
  rw [List.countP_eq_zero]
  intro r hr
  have hne : r.key ≠ k := fun heq => h (heq ▸ List.mem_map.mpr ⟨r, hr, rfl⟩)
  simp [hne]

theorem failures_of_mem : ∀ {records : List (Dispatch η)} {r : Dispatch η}, (records.map Dispatch.key).Nodup →
    r ∈ records → failures records r.key = if r.update.isFailure then 1 else 0
  | [], _, _, h => absurd h List.not_mem_nil
  | x :: records, r, hnodup, h => by
    rw [List.map_cons, List.nodup_cons] at hnodup
    have hcons : ∀ k, failures (x :: records) k =
        failures records k + if (decide (x.key = k) && x.update.isFailure) = true then 1 else 0 := by
      intro k
      unfold failures
      rw [List.countP_cons]
    rw [hcons]
    rcases List.mem_cons.mp h with rfl | h
    · rw [failures_of_not_mem hnodup.1]
      simp
    · have hne : x.key ≠ r.key := fun heq => hnodup.1 (heq ▸ List.mem_map.mpr ⟨r, h, rfl⟩)
      rw [failures_of_mem hnodup.2 h]
      simp [hne]

end

/-! ## Dispatchers -/

/-- Where a dispatcher stands: the rows it has still to dispatch, of which it is at the first, with the handlers
that have returned and those to be called; and the writes of its transaction so far. -/
inductive DispatcherPhase (η : Type) where
  | idle
  | working (rows : List EventOutbox) (returned todo : List η) (records : List (Dispatch η))

structure OutboxState (ι η : Type) where
  table : OutboxTable
  locks : RowKey → Option ι
  phase : ι → DispatcherPhase η
  log : List (Dispatch η)

inductive OutboxStep (ι : Type) where
  | add (id : Uuid) (event : DomainEvent)
  | claim (i : ι) (now : ℤ)
  | call (i : ι) (error : Option String) (now : ℤ)
  | record (i : ι) (now : ℤ)
  | commit (i : ι)
  | crash (i : ι)

section Run

variable {ι η : Type} [DecidableEq ι] (dispatchers : ι → Dispatcher η)

namespace OutboxState

def start : OutboxState ι η := ⟨⟨[], List.nodup_nil⟩, fun _ => none, fun _ => .idle, []⟩

/-- The rows `CLAIM_SQL` returns and locks. -/
def claimed (s : OutboxState ι η) (batch : ℕ) (now : ℤ) : List EventOutbox :=
  ((s.table.rows.filter (fun row => row.processedAt.isNone && row.availableAt.all (· ≤ now) &&
    (s.locks row.key).isNone)).insertionSort (fun a b => a.occurredAt ≤ b.occurredAt)).take batch

/-- The handlers of the first row. -/
def firstHandlers (d : Dispatcher η) : List EventOutbox → List η
  | [] => []
  | row :: _ => d.handlersFor row.eventType

/-- The dispatcher at the first of `rows`. -/
def atRows (d : Dispatcher η) (rows : List EventOutbox) (records : List (Dispatch η)) : DispatcherPhase η :=
  .working rows [] (firstHandlers d rows) records

def setPhase (s : OutboxState ι η) (i : ι) (phase : DispatcherPhase η) : OutboxState ι η :=
  { s with phase := Function.update s.phase i phase }

/-- The end of a transaction. -/
def release (s : OutboxState ι η) (i : ι) : OutboxState ι η :=
  { s with
    locks := fun k => if s.locks k = some i then none else s.locks k
    phase := Function.update s.phase i .idle }

def step (s : OutboxState ι η) : OutboxStep ι → OutboxState ι η
  | .add id event => { s with table := s.table.insert (outboxRow id event) }
  | .claim i now =>
    match s.phase i with
    | .idle =>
      let rows := s.claimed (dispatchers i).batch now
      { s.setPhase i (atRows (dispatchers i) rows []) with
        locks := fun k => if k ∈ rows.map EventOutbox.key then some i else s.locks k }
    | _ => s
  | .call i error now =>
    match s.phase i with
    | .working (row :: rest) returned (h :: todo) records =>
      match error with
      | none => s.setPhase i (.working (row :: rest) (returned ++ [h]) todo records)
      | some error =>
        -- the exception keeps the handlers after `h` from being called
        s.setPhase i (atRows (dispatchers i) rest (records ++ [⟨row.key, failure row error now, returned⟩]))
    | _ => s
  | .record i now =>
    match s.phase i with
    | .working (row :: rest) returned [] records =>
      s.setPhase i (atRows (dispatchers i) rest (records ++ [⟨row.key, .dispatched now, returned⟩]))
    | _ => s
  | .commit i =>
    match s.phase i with
    | .working [] _ _ records =>
      { s.release i with table := applyAll s.table records, log := s.log ++ records }
    | _ => s
  | .crash i => s.release i

/-- The row a step calls a handler for. -/
def calling (s : OutboxState ι η) : OutboxStep ι → Option RowKey
  | .call i _ _ =>
    match s.phase i with
    | .working (row :: _) _ (_ :: _) _ => some row.key
    | _ => none
  | _ => none

end OutboxState

/-! ## The invariant -/

/-- What a write of the transaction rests on, for the row it is about. -/
def Earned (d : Dispatcher η) (row : EventOutbox) (r : Dispatch η) : Prop :=
  match r.update with
  | .dispatched _ => r.returned = d.handlersFor row.eventType
  | .failed attempts _ _ processedAt =>
    attempts = row.attempts + 1 ∧ (processedAt ≠ none ↔ maxAttempts ≤ row.attempts + 1)

/-- A working dispatcher holds the locks of its rows, which are as it claimed them. -/
structure Holds (d : Dispatcher η) (s : OutboxState ι η) (i : ι) (rows : List EventOutbox)
    (returned todo : List η) (records : List (Dispatch η)) : Prop where
  pending : ∀ row ∈ rows, s.table.find? row.key = some row ∧ row.processedAt = none ∧ s.locks row.key = some i
  recorded : ∀ r ∈ records, ∃ row, s.table.find? r.key = some row ∧ row.processedAt = none ∧
    s.locks r.key = some i ∧ Earned d row r
  distinct : (records.map Dispatch.key ++ rows.map EventOutbox.key).Nodup
  current : ∀ row rest, rows = row :: rest → returned ++ todo = d.handlersFor row.eventType

structure OutboxInv (dispatchers : ι → Dispatcher η) (s : OutboxState ι η) : Prop where
  holds : ∀ i rows returned todo records, s.phase i = .working rows returned todo records →
    Holds (dispatchers i) s i rows returned todo records
  counted : ∀ k row, s.table.find? k = some row →
    failures s.log k = row.attempts ∧ (row.processedAt = none → row.attempts < maxAttempts)
  logged : ∀ r ∈ s.log, ∃ row, s.table.find? r.key = some row

variable {dispatchers}

omit [DecidableEq ι] in
/-- A dispatcher keeps its hold while its locked rows stay as they are. -/
theorem Holds.frame {d : Dispatcher η} {s s' : OutboxState ι η} {i : ι} {rows : List EventOutbox}
    {returned todo : List η} {records : List (Dispatch η)} (h : Holds d s i rows returned todo records)
    (hrows : ∀ k row, s.locks k = some i → s.table.find? k = some row →
      s'.table.find? k = some row ∧ s'.locks k = some i) : Holds d s' i rows returned todo records where
  pending row hrow := by
    obtain ⟨hfind, hnone, hlock⟩ := h.pending row hrow
    obtain ⟨hfind', hlock'⟩ := hrows _ _ hlock hfind
    exact ⟨hfind', hnone, hlock'⟩
  recorded r hr := by
    obtain ⟨row, hfind, hnone, hlock, hearned⟩ := h.recorded r hr
    obtain ⟨hfind', hlock'⟩ := hrows _ _ hlock hfind
    exact ⟨row, hfind', hnone, hlock', hearned⟩
  distinct := h.distinct
  current := h.current

omit [DecidableEq ι] in
/-- The first row done, its dispatch recorded. -/
theorem Holds.next {d : Dispatcher η} {s : OutboxState ι η} {i : ι} {row : EventOutbox} {rest : List EventOutbox}
    {returned todo : List η} {records : List (Dispatch η)}
    (h : Holds d s i (row :: rest) returned todo records) {u : RowUpdate} {done : List η}
    (hearned : Earned d row ⟨row.key, u, done⟩) (returned' todo' : List η)
    (hcurrent : ∀ next others, rest = next :: others → returned' ++ todo' = d.handlersFor next.eventType) :
    Holds d s i rest returned' todo' (records ++ [⟨row.key, u, done⟩]) where
  pending r hr := h.pending r (List.mem_cons_of_mem _ hr)
  recorded r hr := by
    rcases List.mem_append.mp hr with hr | hr
    · exact h.recorded r hr
    · obtain ⟨hfind, hnone, hlock⟩ := h.pending row List.mem_cons_self
      rw [List.mem_singleton.mp hr]
      exact ⟨row, hfind, hnone, hlock, hearned⟩
  distinct := by
    have hdistinct := h.distinct
    rw [List.map_append, List.append_assoc]
    exact hdistinct
  current := hcurrent

/-- A dispatcher that moves on holds what its new phase says; the others are not concerned. -/
theorem OutboxInv.setPhase {s : OutboxState ι η} (h : OutboxInv dispatchers s) {i : ι} {phase : DispatcherPhase η}
    (hi : ∀ rows returned todo records, phase = .working rows returned todo records →
      Holds (dispatchers i) s i rows returned todo records) : OutboxInv dispatchers (s.setPhase i phase) where
  holds j rows returned todo records hj := by
    refine Holds.frame (s := s) ?_ (fun _ _ hlock hfind => ⟨hfind, hlock⟩)
    change Function.update s.phase i phase j = _ at hj
    by_cases hji : j = i
    · subst hji
      rw [Function.update_self] at hj
      exact hi _ _ _ _ hj
    · rw [Function.update_of_ne hji] at hj
      exact h.holds j _ _ _ _ hj
  counted := h.counted
  logged := h.logged

omit [DecidableEq ι] in
theorem OutboxInv.add {s : OutboxState ι η} (h : OutboxInv dispatchers s) (id : Uuid) (event : DomainEvent) :
    OutboxInv dispatchers { s with table := s.table.insert (outboxRow id event) } where
  holds j rows returned todo records hj :=
    (h.holds j rows returned todo records hj).frame
      (fun _ _ hlock hfind => ⟨Table.find?_insert_of_some hfind, hlock⟩)
  counted k row hfind := by
    obtain rfl := Table.key_of_find? hfind
    rcases Table.mem_insert (Table.mem_of_find? hfind) with hold | ⟨rfl, hfree⟩
    · exact h.counted row.key row (Table.find?_of_mem hold)
    · -- a new row: nothing in the log is about it
      refine ⟨failures_of_not_mem ?_, fun _ => Nat.zero_lt_succ _⟩
      intro hmem
      obtain ⟨r, hr, hkey⟩ := List.mem_map.mp hmem
      obtain ⟨row, hrow⟩ := h.logged r hr
      rw [hkey, hfree] at hrow
      cases hrow
  logged r hr := by
    obtain ⟨row, hrow⟩ := h.logged r hr
    exact ⟨row, Table.find?_insert_of_some hrow⟩

omit [DecidableEq ι] in
theorem mem_claimed {s : OutboxState ι η} {batch : ℕ} {now : ℤ} {row : EventOutbox} (h : row ∈ s.claimed batch now) :
    row ∈ s.table.rows ∧ row.processedAt = none ∧ s.locks row.key = none := by
  have hmem := List.mem_of_mem_take h
  rw [List.mem_insertionSort, List.mem_filter] at hmem
  obtain ⟨hrow, hconditions⟩ := hmem
  simp only [Bool.and_eq_true, Option.isNone_iff_eq_none] at hconditions
  exact ⟨hrow, hconditions.1.1, hconditions.2⟩

omit [DecidableEq ι] in
theorem nodup_claimed (s : OutboxState ι η) (batch : ℕ) (now : ℤ) :
    ((s.claimed batch now).map EventOutbox.key).Nodup := by
  unfold OutboxState.claimed
  refine List.Nodup.sublist ((List.take_sublist _ _).map _) ?_
  rw [((List.perm_insertionSort _ _).map EventOutbox.key).nodup_iff]
  exact List.Nodup.sublist (List.filter_sublist.map _) s.table.keys_nodup

theorem OutboxInv.claim {s : OutboxState ι η} (h : OutboxInv dispatchers s) (i : ι) (now : ℤ) :
    OutboxInv dispatchers
      { s.setPhase i (OutboxState.atRows (dispatchers i) (s.claimed (dispatchers i).batch now) []) with
        locks := fun k => if k ∈ (s.claimed (dispatchers i).batch now).map EventOutbox.key then some i
          else s.locks k } where
  holds j rows returned todo records hj := by
    change Function.update s.phase i _ j = _ at hj
    by_cases hji : j = i
    · subst hji
      rw [Function.update_self, OutboxState.atRows, DispatcherPhase.working.injEq] at hj
      obtain ⟨rfl, rfl, rfl, rfl⟩ := hj
      refine ⟨fun row hrow => ?_, fun r hr => absurd hr List.not_mem_nil, nodup_claimed _ _ _, ?_⟩
      · obtain ⟨hmem, hnone, -⟩ := mem_claimed hrow
        exact ⟨Table.find?_of_mem hmem, hnone, if_pos (List.mem_map.mpr ⟨row, hrow, rfl⟩)⟩
      · rintro row rest heq
        rw [heq]
        rfl
    · rw [Function.update_of_ne hji] at hj
      refine (h.holds j _ _ _ _ hj).frame fun k row hlock hfind => ⟨hfind, ?_⟩
      have hfree : k ∉ (s.claimed (dispatchers i).batch now).map EventOutbox.key := by
        intro hmem
        obtain ⟨r, hr, rfl⟩ := List.mem_map.mp hmem
        rw [(mem_claimed hr).2.2] at hlock
        cases hlock
      exact (if_neg hfree).trans hlock
  counted := h.counted
  logged := h.logged

/-- The end of a transaction frees only its own rows. -/
theorem OutboxInv.release {s s' : OutboxState ι η} (h : OutboxInv dispatchers s) {i : ι}
    (hphase : s'.phase = (s.release i).phase) (hlocks : s'.locks = (s.release i).locks)
    (hrows : ∀ k row, s.locks k ≠ some i → s.table.find? k = some row → s'.table.find? k = some row)
    (j : ι) (rows : List EventOutbox) (returned todo : List η) (records : List (Dispatch η))
    (hj : s'.phase j = .working rows returned todo records) :
    Holds (dispatchers j) s' j rows returned todo records := by
  rw [hphase] at hj
  change Function.update s.phase i .idle j = _ at hj
  have hji : j ≠ i := by
    rintro rfl
    rw [Function.update_self] at hj
    cases hj
  rw [Function.update_of_ne hji] at hj
  refine (h.holds j _ _ _ _ hj).frame fun k row hlock hfind => ?_
  have hne : s.locks k ≠ some i := by
    rw [hlock]
    exact fun heq => hji (Option.some.inj heq)
  refine ⟨hrows k row hne hfind, ?_⟩
  rw [hlocks]
  exact (if_neg hne).trans hlock

omit [DecidableEq ι] in
/-- What a commit does to a row: nothing, or the one write its transaction has for it. -/
theorem commit_row {d : Dispatcher η} {s : OutboxState ι η} {i : ι} {returned todo : List η}
    {records : List (Dispatch η)} (h : Holds d s i [] returned todo records) {k : RowKey} {row : EventOutbox}
    (hfind : s.table.find? k = some row) :
    ((applyAll s.table records).find? k = some row ∧ k ∉ records.map Dispatch.key) ∨
      ∃ r ∈ records, r.key = k ∧ row.processedAt = none ∧ Earned d row r ∧ s.locks k = some i ∧
        (applyAll s.table records).find? k = some (r.update.apply row) := by
  have hnodup : (records.map Dispatch.key).Nodup := by simpa using h.distinct
  by_cases hmem : k ∈ records.map Dispatch.key
  · right
    obtain ⟨r, hr, rfl⟩ := List.mem_map.mp hmem
    obtain ⟨row', hfind', hnone, hlock, hearned⟩ := h.recorded r hr
    obtain rfl : row = row' := Option.some.inj (hfind.symm.trans hfind')
    refine ⟨r, hr, rfl, hnone, hearned, hlock, ?_⟩
    rw [find?_applyAll_of_mem _ hnodup hr, hfind, Option.map_some]
  · exact Or.inl ⟨(find?_applyAll_of_not_mem _ hmem).trans hfind, hmem⟩

omit [DecidableEq ι] in
/-- The failures of a row count its committed failed dispatches. -/
theorem counted_commit {d : Dispatcher η} {s : OutboxState ι η} {i : ι} {returned todo : List η}
    {records : List (Dispatch η)} (h : Holds d s i [] returned todo records) {k : RowKey} {row row' : EventOutbox}
    (hfind : s.table.find? k = some row)
    (hcount : failures s.log k = row.attempts ∧ (row.processedAt = none → row.attempts < maxAttempts))
    (hfind' : (applyAll s.table records).find? k = some row') :
    failures (s.log ++ records) k = row'.attempts ∧ (row'.processedAt = none → row'.attempts < maxAttempts) := by
  have hsum : failures (s.log ++ records) k = failures s.log k + failures records k := List.countP_append
  rw [hsum, hcount.1]
  rcases commit_row h hfind with ⟨hsame, hmem⟩ | ⟨r, hr, rfl, -, hearned, -, hnew⟩
  · obtain rfl : row = row' := Option.some.inj (hsame.symm.trans hfind')
    rw [failures_of_not_mem hmem]
    exact ⟨rfl, hcount.2⟩
  · have hnodup : (records.map Dispatch.key).Nodup := by simpa using h.distinct
    obtain rfl : r.update.apply row = row' := Option.some.inj (hnew.symm.trans hfind')
    rw [failures_of_mem hnodup hr]
    unfold Earned at hearned
    cases hupdate : r.update with
    | dispatched now => exact ⟨rfl, fun hnone => by cases hnone⟩
    | failed attempts error availableAt processedAt =>
      rw [hupdate] at hearned
      obtain ⟨rfl, hprocessed⟩ := hearned
      refine ⟨rfl, fun hnone => ?_⟩
      change processedAt = none at hnone
      exact Nat.lt_of_not_le (fun hle => hprocessed.mpr hle hnone)

theorem OutboxInv.commit {s : OutboxState ι η} (h : OutboxInv dispatchers s) {i : ι} {returned todo : List η}
    {records : List (Dispatch η)} (hi : s.phase i = .working [] returned todo records) :
    OutboxInv dispatchers { s.release i with table := applyAll s.table records, log := s.log ++ records } where
  holds := by
    refine h.release rfl rfl fun k row hlock hfind => ?_
    rcases commit_row (h.holds i _ _ _ _ hi) hfind with ⟨hsame, -⟩ | ⟨r, -, -, -, -, hlocked, -⟩
    · exact hsame
    · exact absurd hlocked hlock
  counted k row' hfind' := by
    obtain ⟨row, hfind⟩ := find?_of_applyAll hfind'
    exact counted_commit (h.holds i _ _ _ _ hi) hfind (h.counted k row hfind) hfind'
  logged r hr := by
    have hrow : ∃ row, s.table.find? r.key = some row := by
      rcases List.mem_append.mp hr with hr | hr
      · exact h.logged r hr
      · obtain ⟨row, hfind, -⟩ := (h.holds i _ _ _ _ hi).recorded r hr
        exact ⟨row, hfind⟩
    obtain ⟨row, hfind⟩ := hrow
    rcases commit_row (h.holds i _ _ _ _ hi) hfind with ⟨hsame, -⟩ | ⟨r', -, -, -, -, -, hnew⟩
    · exact ⟨row, hsame⟩
    · exact ⟨_, hnew⟩

theorem OutboxInv.crash {s : OutboxState ι η} (h : OutboxInv dispatchers s) (i : ι) :
    OutboxInv dispatchers (s.release i) where
  holds := h.release rfl rfl (fun _ _ _ hfind => hfind)
  counted := h.counted
  logged := h.logged

theorem earned_failure (d : Dispatcher η) (row : EventOutbox) (error : String) (now : ℤ) (returned : List η) :
    Earned d row ⟨row.key, failure row error now, returned⟩ := by
  unfold Earned failure
  refine ⟨rfl, ?_⟩
  split_ifs with hle
  · simp [hle]
  · simp [hle]

/-- **One step** keeps the invariant. -/
theorem OutboxInv.step {s : OutboxState ι η} (h : OutboxInv dispatchers s) (l : OutboxStep ι) :
    OutboxInv dispatchers (s.step dispatchers l) := by
  cases l with
  | add id event => exact h.add id event
  | claim i now =>
    simp only [OutboxState.step]
    split
    · exact h.claim i now
    · exact h
  | call i error now =>
    simp only [OutboxState.step]
    split
    · rename_i row rest returned g todo records hi
      have hold := h.holds i _ _ _ _ hi
      cases error with
      | none =>
        refine h.setPhase fun rows ret todo' recs heq => ?_
        rw [DispatcherPhase.working.injEq] at heq
        obtain ⟨rfl, rfl, rfl, rfl⟩ := heq
        refine ⟨hold.pending, hold.recorded, hold.distinct, fun first others heq => ?_⟩
        rw [List.append_assoc]
        exact hold.current first others heq
      | some error =>
        refine h.setPhase fun rows ret todo' recs heq => ?_
        rw [OutboxState.atRows, DispatcherPhase.working.injEq] at heq
        obtain ⟨rfl, rfl, rfl, rfl⟩ := heq
        refine hold.next (earned_failure _ row error now returned) _ _ ?_
        rintro next others rfl
        rfl
    · exact h
  | record i now =>
    simp only [OutboxState.step]
    split
    · rename_i row rest returned records hi
      have hold := h.holds i _ _ _ _ hi
      have hall : returned = (dispatchers i).handlersFor row.eventType := by
        have hcurrent := hold.current row rest rfl
        rwa [List.append_nil] at hcurrent
      refine h.setPhase fun rows ret todo' recs heq => ?_
      rw [OutboxState.atRows, DispatcherPhase.working.injEq] at heq
      obtain ⟨rfl, rfl, rfl, rfl⟩ := heq
      refine hold.next (u := .dispatched now) hall _ _ ?_
      rintro next others rfl
      rfl
    · exact h
  | commit i =>
    simp only [OutboxState.step]
    split
    · rename_i returned todo records hi
      exact h.commit hi
    · exact h
  | crash i => exact h.crash i

/-! ## No event is lost -/

/-- How the write of `processed_at` of a row comes about: the commit of a dispatch in which all its handlers
returned, or of its eighth failed one. -/
def Settles (dispatchers : ι → Dispatcher η) (s : OutboxState ι η) (l : OutboxStep ι) (k : RowKey)
    (row : EventOutbox) : Prop :=
  ∃ i returned todo records, l = .commit i ∧ s.phase i = .working [] returned todo records ∧
    ∃ r ∈ records, r.key = k ∧
      ((r.update.isFailure = false ∧ r.returned = (dispatchers i).handlersFor row.eventType) ∨
        (r.update.isFailure = true ∧ failures (s.step dispatchers l).log k = maxAttempts))

/-- What a step may do to the rows.  None disappears; its attempts do not decrease; once processed it stays as it
is, and no handler is called for it; and it becomes processed only as `Settles` says. -/
structure StepOk (dispatchers : ι → Dispatcher η) (s : OutboxState ι η) (l : OutboxStep ι) : Prop where
  rows : ∀ k row, s.table.find? k = some row → ∃ row', (s.step dispatchers l).table.find? k = some row' ∧
    row.attempts ≤ row'.attempts ∧ (row.processedAt ≠ none → row' = row) ∧
    (row.processedAt = none → row'.processedAt ≠ none → Settles dispatchers s l k row)
  calls : ∀ k, s.calling l = some k → ∃ row, s.table.find? k = some row ∧ row.processedAt = none

/-- A commit writes what its dispatches earned. -/
theorem commit_settles {s : OutboxState ι η} (h : OutboxInv dispatchers s) {i : ι} {returned todo : List η}
    {records : List (Dispatch η)} (hi : s.phase i = .working [] returned todo records) {k : RowKey}
    {row : EventOutbox} (hfind : s.table.find? k = some row) :
    ∃ row', (applyAll s.table records).find? k = some row' ∧ row.attempts ≤ row'.attempts ∧
      (row.processedAt ≠ none → row' = row) ∧
      (row.processedAt = none → row'.processedAt ≠ none → Settles dispatchers s (.commit i) k row) := by
  have hold := h.holds i _ _ _ _ hi
  rcases commit_row hold hfind with ⟨hsame, -⟩ | ⟨r, hr, rfl, hnone, hearned, -, hnew⟩
  · exact ⟨row, hsame, Nat.le_refl _, fun _ => rfl, fun hnone hsome => absurd hnone hsome⟩
  · have hlog : (s.step dispatchers (.commit i)).log = s.log ++ records := by
      simp only [OutboxState.step, hi]
    have hcount := (counted_commit hold hfind (h.counted r.key row hfind) hnew).1
    have hbound := (h.counted r.key row hfind).2 hnone
    unfold Earned at hearned
    unfold Settles
    rw [hlog]
    cases hupdate : r.update with
    | dispatched now =>
      rw [hupdate] at hearned hnew
      exact ⟨_, hnew, Nat.le_refl _, fun hsome => absurd hnone hsome, fun _ _ =>
        ⟨i, returned, todo, records, rfl, hi, r, hr, rfl, Or.inl ⟨by rw [hupdate]; rfl, hearned⟩⟩⟩
    | failed attempts error availableAt processedAt =>
      rw [hupdate] at hearned hnew hcount
      obtain ⟨rfl, hprocessed⟩ := hearned
      refine ⟨_, hnew, Nat.le_succ _, fun hsome => absurd hnone hsome, fun _ hsome =>
        ⟨i, returned, todo, records, rfl, hi, r, hr, rfl, Or.inr ⟨by rw [hupdate]; rfl, ?_⟩⟩⟩
      have heighth : maxAttempts ≤ row.attempts + 1 := hprocessed.mp hsome
      have hattempts : failures (s.log ++ records) r.key = row.attempts + 1 := hcount
      omega

/-- Only a new event and the commit of a transaction touch the table. -/
theorem step_table (s : OutboxState ι η) (l : OutboxStep ι) :
    (s.step dispatchers l).table = s.table ∨
      (∃ id event, (s.step dispatchers l).table = s.table.insert (outboxRow id event)) ∨
      ∃ i returned todo records, l = .commit i ∧ s.phase i = .working [] returned todo records ∧
        (s.step dispatchers l).table = applyAll s.table records := by
  cases l with
  | add id event => exact Or.inr (Or.inl ⟨id, event, rfl⟩)
  | claim i now =>
    left
    simp only [OutboxState.step]
    split <;> rfl
  | call i error now =>
    left
    simp only [OutboxState.step]
    split
    · split <;> rfl
    · rfl
  | record i now =>
    left
    simp only [OutboxState.step]
    split <;> rfl
  | commit i =>
    simp only [OutboxState.step]
    split
    · rename_i returned todo records hi
      exact Or.inr (Or.inr ⟨i, returned, todo, records, rfl, hi, rfl⟩)
    · exact Or.inl rfl
  | crash i => exact Or.inl rfl

omit [DecidableEq ι] in
/-- A handler is only called for a row that is not processed. -/
theorem calling_unprocessed {s : OutboxState ι η} (h : OutboxInv dispatchers s) {l : OutboxStep ι} {k : RowKey}
    (hcall : s.calling l = some k) : ∃ row, s.table.find? k = some row ∧ row.processedAt = none := by
  cases l with
  | call i error now =>
    simp only [OutboxState.calling] at hcall
    split at hcall
    · rename_i row rest returned g todo records hi
      obtain ⟨hfind, hnone, -⟩ := (h.holds i _ _ _ _ hi).pending row List.mem_cons_self
      exact ⟨row, Option.some.inj hcall ▸ hfind, hnone⟩
    · cases hcall
  | _ => cases hcall

/-- **What a step does** in any state that dispatchers reach. -/
theorem step_ok {s : OutboxState ι η} (h : OutboxInv dispatchers s) (l : OutboxStep ι) : StepOk dispatchers s l := by
  have hsame : ∀ {k : RowKey} {row : EventOutbox}, (s.step dispatchers l).table.find? k = some row →
      ∃ row', (s.step dispatchers l).table.find? k = some row' ∧ row.attempts ≤ row'.attempts ∧
        (row.processedAt ≠ none → row' = row) ∧
        (row.processedAt = none → row'.processedAt ≠ none → Settles dispatchers s l k row) := fun hfind =>
    ⟨_, hfind, Nat.le_refl _, fun _ => rfl, fun hnone hsome => absurd hnone hsome⟩
  refine ⟨fun k row hfind => ?_, fun k hcall => calling_unprocessed h hcall⟩
  rcases @step_table ι η _ dispatchers s l with htable | ⟨id, event, htable⟩ |
    ⟨i, returned, todo, records, rfl, hi, htable⟩
  · refine hsame ?_
    rw [htable]
    exact hfind
  · refine hsame ?_
    rw [htable]
    exact Table.find?_insert_of_some hfind
  · rw [htable]
    exact commit_settles h hi hfind

omit [DecidableEq ι] in
theorem OutboxInv.start : OutboxInv dispatchers (OutboxState.start : OutboxState ι η) := by
  refine ⟨?_, ?_, ?_⟩
  · intro i rows returned todo records hi
    cases hi
  · intro k row hfind
    cases hfind
  · intro r hr
    cases hr

/-- No handler is called for a processed row. -/
theorem not_called_again {k : RowKey} {row : EventOutbox} (hprocessed : row.processedAt ≠ none) :
    ∀ (steps : List (OutboxStep ι)) (s : OutboxState ι η), OutboxInv dispatchers s → s.table.find? k = some row →
      Meets (OutboxState.step dispatchers) (fun s l => s.calling l ≠ some k) s steps
  | [], _, _, _ => trivial
  | l :: steps, s, h, hfind => by
    have hok := step_ok h l
    refine ⟨fun hcall => ?_, ?_⟩
    · obtain ⟨row', hfind', hnone⟩ := hok.calls k hcall
      rw [hfind] at hfind'
      exact hprocessed (Option.some.inj hfind' ▸ hnone)
    · obtain ⟨row', hfind', -, hsame, -⟩ := hok.rows k row hfind
      obtain rfl := hsame hprocessed
      exact not_called_again hprocessed steps _ (h.step l) hfind'

/-- **The outbox loses no event.**  Along every run of any number of dispatchers, with handlers that return or
raise at will and crashes at any point, every step treats the rows as `StepOk` says; and once a row is processed,
no handler is called for it in the rest of the run. -/
theorem outbox_keeps_events (dispatchers : ι → Dispatcher η) (steps : List (OutboxStep ι)) :
    Meets (OutboxState.step dispatchers) (StepOk dispatchers) .start steps ∧
      ∀ before later, steps = before ++ later → ∀ k row,
        (after (OutboxState.step dispatchers) .start before).table.find? k = some row → row.processedAt ≠ none →
        Meets (OutboxState.step dispatchers) (fun s l => s.calling l ≠ some k)
          (after (OutboxState.step dispatchers) .start before) later := by
  constructor
  · exact meets_of_inv (OutboxInv dispatchers) (fun s l h => ⟨step_ok h l, h.step l⟩) steps _ .start
  · rintro before later - k row hfind hprocessed
    have hinv : OutboxInv dispatchers (after (OutboxState.step dispatchers) .start before) :=
      inv_after (OutboxInv dispatchers) (fun s l h _ => h.step l) before _ .start
        (meets_of_forall (fun _ _ => trivial) before _)
    exact not_called_again hprocessed later _ hinv hfind

end Run

end RevenueOS.Messaging
