import RevenueOS.Communications.Messages
import RevenueOS.Crm.Appointments
import RevenueOS.Shared.Pagination

/-!
# RevenueOS.Crm.Listing — lists with an order of their own

`list_conversations` (`application/crm/inbox.py`), `list_appointments` (`application/crm/appointments.py`) and
`list_tasks` (`application/crm/tasks.py`).  Each sorts its rows by what a reader wants to see first and passes them to
`paginate_cursor`, which adds the order of the ids and cuts by the ids alone.

* `lists_complete_iff`: a list is read completely exactly if, in its order, each cut between two pages is a cut of the
  ids.  `appointments_skipped` are two appointments of which the second is never shown.

The clock stands while a list is read.  The names that are shown beside a row are left out.
-/

namespace RevenueOS.Crm

open RevenueOS.Lib RevenueOS.Py RevenueOS.Shared RevenueOS.Workflows RevenueOS.Communications

/-! ## `scoped_query` -/

inductive Scope where
  | global
  | branch
  | team
  | self
deriving DecidableEq

/-- The user who asks. -/
structure Principal where
  tenantId : Uuid
  userId : Uuid
  scope : Scope
  branchIds : List Uuid
  teamIds : List Uuid

/-- The columns that a query is scoped by; not every model has all of them. -/
structure ScopeColumns (Row : Type) where
  tenantId : Row → Uuid
  deleted : Row → Bool
  branchId : Option (Row → Option Uuid)
  teamId : Option (Row → Option Uuid)
  assigneeId : Option (Row → Option Uuid)

/-- A column is one of some ids; a model without the column is not restricted. -/
def withColumn {Row : Type} (column : Option (Row → Option Uuid)) (ids : List Uuid) (row : Row) : Bool :=
  match column with
  | none => true
  | some column => (column row).any fun id => ids.contains id

/-- `_tenant_query` and `_apply_scope`. -/
def scopedQuery {Row : Type} (columns : ScopeColumns Row) (user : Principal) (row : Row) : Bool :=
  columns.tenantId row = user.tenantId && !columns.deleted row &&
    match user.scope with
    | .global => true
    | .branch => withColumn columns.branchId user.branchIds row
    | .team => withColumn columns.teamId user.teamIds row
    | .self => withColumn columns.assigneeId [user.userId] row

inductive ListError where
  | validationError (message : String)
  | cursor (e : PyError)

/-- An empty status is none. -/
def givenStatus (status : Option String) : Option String := status.filter fun s => s ≠ ""

/-- The check of a status that is given. -/
def checkStatus (statuses : List String) (status : Option String) : Except ListError Unit :=
  match givenStatus status with
  | none => .ok ()
  | some s => if s ∈ statuses then .ok () else .error (.validationError ("Unknown status: " ++ Py.reprStr s ++ "."))

/-- The condition on the status. -/
def hasStatus (status : Option String) (value : String) : Bool := (givenStatus status).all fun s => value = s

/-! ## The lists -/

section Lists

variable (text : CursorText Uuid)

/-- The end of each list: the statement goes to `paginate_cursor`. -/
def listed {Row : Type} (id : Row → Uuid) (statuses : List String) (status : Option String) (stmt : Statement Row)
    (pageSize : Option ℤ) (cursor : Option String) : Except ListError (Page Row) := do
  checkStatus statuses status
  match paginateCursor text id stmt pageSize true cursor with
  | .ok page => .ok page
  | .error e => .error (.cursor e)

def conversationStatusValue : ConversationStatus → String
  | .active => "active"
  | .resolved => "resolved"
  | .archived => "archived"
  | .spam => "spam"

/-- `CONVERSATION_STATUSES`. -/
def conversationStatuses : List String := ["active", "resolved", "archived", "spam"]

def conversationColumns : ScopeColumns Conversation :=
  ⟨(·.tenantId), (·.deletedAt.isSome), some (·.branchId), some (·.teamId), some (·.assigneeId)⟩

def conversationMatches (user : Principal) (status : Option String) (mine : Bool) (c : Conversation) : Bool :=
  scopedQuery conversationColumns user c && hasStatus status (conversationStatusValue c.status) &&
    (!mine || c.assigneeId = some user.userId)

/-- The latest activity first. -/
def conversationOrder : OrderBy Conversation :=
  (OrderBy.nullsLast (.desc fun t => t) (·.lastMessageAt)).thenBy (.desc (·.createdAt))

/-- `list_conversations`. -/
def listConversations (user : Principal) (status : Option String) (mine : Bool) (table : List Conversation)
    (pageSize : Option ℤ) (cursor : Option String) : Except ListError (Page Conversation) :=
  listed text (·.id) conversationStatuses status
    ⟨table.filter (conversationMatches user status mine), conversationOrder⟩ pageSize cursor

/-- An appointment with the branch that it is scoped by. -/
structure ListedAppointment extends Appointment where
  branchId : Option Uuid

/-- `STATUSES` of the appointments. -/
def appointmentStatuses : List String := ["scheduled", "confirmed", "completed", "cancelled", "no_show"]

def appointmentColumns : ScopeColumns ListedAppointment :=
  ⟨(·.tenantId), (·.deleted), some (·.branchId), none, none⟩

def appointmentMatches (user : Principal) (status : Option String) (upcoming : Bool) (now : ℤ)
    (a : ListedAppointment) : Bool :=
  scopedQuery appointmentColumns user a && hasStatus status a.status.value &&
    (!upcoming || (now ≤ a.endAt && a.status ∈ openStatuses))

/-- `list_appointments`. -/
def listAppointments (user : Principal) (status : Option String) (upcoming : Bool) (now : ℤ)
    (table : List ListedAppointment) (pageSize : Option ℤ) (cursor : Option String) :
    Except ListError (Page ListedAppointment) :=
  listed text (·.id) appointmentStatuses status
    ⟨table.filter (appointmentMatches user status upcoming now), .asc (·.startAt)⟩ pageSize cursor

inductive TaskStatus where
  | open
  | inProgress
  | completed
  | cancelled
deriving DecidableEq

def TaskStatus.value : TaskStatus → String
  | .open => "open"
  | .inProgress => "in_progress"
  | .completed => "completed"
  | .cancelled => "cancelled"

/-- The columns of a task that its list reads. -/
structure ListedTask where
  id : Uuid
  tenantId : Uuid
  assigneeId : Option Uuid
  dueAt : Option ℤ
  status : TaskStatus
  createdAt : ℤ
  deletedAt : Option ℤ

/-- `STATUSES` of the tasks. -/
def taskStatuses : List String := ["open", "in_progress", "completed", "cancelled"]

/-- `OPEN_STATUSES` of the tasks. -/
def openTaskStatuses : List TaskStatus := [.open, .inProgress]

def taskColumns : ScopeColumns ListedTask := ⟨(·.tenantId), (·.deletedAt.isSome), none, none, some (·.assigneeId)⟩

def taskMatches (user : Principal) (status : Option String) (mine overdue : Bool) (now : ℤ) (t : ListedTask) : Bool :=
  scopedQuery taskColumns user t && hasStatus status t.status.value && (!mine || t.assigneeId = some user.userId) &&
    (!overdue || (t.dueAt.any (fun due => due < now) && t.status ∈ openTaskStatuses))

/-- The earliest deadline first. -/
def taskOrder : OrderBy ListedTask :=
  (OrderBy.nullsLast (.asc fun t => t) (·.dueAt)).thenBy (.desc (·.createdAt))

/-- `list_tasks`. -/
def listTasks (user : Principal) (status : Option String) (mine overdue : Bool) (now : ℤ) (table : List ListedTask)
    (pageSize : Option ℤ) (cursor : Option String) : Except ListError (Page ListedTask) :=
  listed text (·.id) taskStatuses status ⟨table.filter (taskMatches user status mine overdue now), taskOrder⟩
    pageSize cursor

end Lists

/-! ## When a list is read completely -/

/-- In the order of the statement, each cut between two pages is a cut of the ids: the ids before it are greater than
that of the last row of the page, and those after it are smaller. -/
def CutsIds {Row : Type} (id : Row → Uuid) (order : OrderBy Row) (pageSize : Option ℤ) (rows : List Row) : Prop :=
  PageCuts id true (clampPageSize pageSize) ((Statement.fullOrder id ⟨rows, order⟩ true).sort rows)

theorem listed_readsAll_iff {text : CursorText Uuid} {Row : Type} {id : Row → Uuid} {statuses : List String}
    {status : Option String} {order : OrderBy Row} {table : List Row} {p : Row → Bool} {pageSize : Option ℤ}
    (hids : (table.map id).Nodup) (hstatus : checkStatus statuses status = .ok ()) :
    ReadsAll (listed text id statuses status ⟨table.filter p, order⟩ pageSize) (table.filter p) ↔
      CutsIds id order pageSize (table.filter p) := by
  have hrows : ((table.filter p).map id).Nodup := (List.filter_sublist.map id).nodup hids
  have hperm := (Statement.fullOrder id ⟨table.filter p, order⟩ true).perm_sort (table.filter p)
  have hpages : PagesOf text id true (clampPageSize pageSize)
      ((Statement.fullOrder id ⟨table.filter p, order⟩ true).sort (table.filter p))
      (listed text id statuses status ⟨table.filter p, order⟩ pageSize) := by
    intro last
    have hread := @paginateCursor_eq Row Uuid _ text id true ⟨table.filter p, order⟩ hrows last pageSize
    unfold listed
    rw [hstatus, hread]
    rfl
  exact readsAll_iff (clampPageSize_bounds pageSize).1 hpages ((hperm.map id).nodup_iff.mpr hrows) hperm

/-- **When the lists are read completely**: exactly if each cut between two pages is a cut of the ids. -/
theorem lists_complete_iff (text : CursorText Uuid) (user : Principal) (status : Option String) (now : ℤ)
    (pageSize : Option ℤ) :
    (∀ (mine : Bool) (table : List Conversation), (table.map (·.id)).Nodup →
      checkStatus conversationStatuses status = .ok () →
      (ReadsAll (listConversations text user status mine table pageSize)
          (table.filter (conversationMatches user status mine)) ↔
        CutsIds (·.id) conversationOrder pageSize (table.filter (conversationMatches user status mine)))) ∧
    (∀ (upcoming : Bool) (table : List ListedAppointment), (table.map (·.id)).Nodup →
      checkStatus appointmentStatuses status = .ok () →
      (ReadsAll (listAppointments text user status upcoming now table pageSize)
          (table.filter (appointmentMatches user status upcoming now)) ↔
        CutsIds (·.id) (.asc (·.startAt)) pageSize (table.filter (appointmentMatches user status upcoming now)))) ∧
    ∀ (mine overdue : Bool) (table : List ListedTask), (table.map (·.id)).Nodup →
      checkStatus taskStatuses status = .ok () →
      (ReadsAll (listTasks text user status mine overdue now table pageSize)
          (table.filter (taskMatches user status mine overdue now)) ↔
        CutsIds (·.id) taskOrder pageSize (table.filter (taskMatches user status mine overdue now))) :=
  ⟨fun _ _ hids hstatus => listed_readsAll_iff hids hstatus, fun _ _ hids hstatus => listed_readsAll_iff hids hstatus,
    fun _ _ _ hids hstatus => listed_readsAll_iff hids hstatus⟩

/-- A user who sees the whole workspace. -/
def manager : Principal := ⟨sampleUuid 't', sampleUuid 'm', .global, [], []⟩

/-- An appointment of an hour. -/
def hourFrom (id : Uuid) (startAt : ℤ) : ListedAppointment where
  id := id
  tenantId := sampleUuid 't'
  organizerId := sampleUuid 'm'
  title := "Site visit"
  contactId := none
  dealId := none
  locationType := .physical
  startAt := startAt
  endAt := startAt + 3600000000
  status := .scheduled
  outcome := none
  outcomeNote := none
  cancelledReason := none
  rescheduledFromId := none
  version := 1
  deleted := false
  end_after_start := by omega
  branchId := none

/-- The one that was booked last comes first. -/
theorem lists_complete_pair :
    ReadsAll (listAppointments uuidText manager none false 0
      [hourFrom (sampleUuid 'a') 90, hourFrom (sampleUuid 'b') 30] (some 1))
      [hourFrom (sampleUuid 'a') 90, hourFrom (sampleUuid 'b') 30] := by
  have hcuts : CutsIds (·.id) (.asc (·.startAt)) (some 1)
      [hourFrom (sampleUuid 'a') 90, hourFrom (sampleUuid 'b') 30] := by
    refine pageCuts_of_pairwise (?_ : List.Pairwise _ [hourFrom (sampleUuid 'b') 30, hourFrom (sampleUuid 'a') 90])
    decide +kernel
  exact ((lists_complete_iff uuidText manager none 0 (some 1)).2.1 false _ (by decide) rfl).mpr hcuts

/-- Two appointments, the earlier of which was booked first, on pages of one: the second page is empty. -/
theorem appointments_skipped :
    ¬ ReadsAll (listAppointments uuidText manager none false 0
      [hourFrom (sampleUuid 'a') 30, hourFrom (sampleUuid 'b') 90] (some 1))
      [hourFrom (sampleUuid 'a') 30, hourFrom (sampleUuid 'b') 90] := by
  intro h
  have hcuts := (listed_readsAll_iff (by decide) rfl).mp h
  obtain ⟨-, hafter⟩ := hcuts 0 (hourFrom (sampleUuid 'a') 30) rfl (by decide) (by decide)
  have hlater : Ahead true (sampleUuid 'a') (sampleUuid 'b') :=
    hafter (hourFrom (sampleUuid 'b') 90)
      (show hourFrom (sampleUuid 'b') 90 ∈ [hourFrom (sampleUuid 'b') 90] from List.mem_cons_self)
  exact absurd hlater (by decide +kernel)

end RevenueOS.Crm
