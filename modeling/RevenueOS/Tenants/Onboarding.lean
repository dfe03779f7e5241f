import RevenueOS.Lib.Except
import RevenueOS.Lib.Trace
import RevenueOS.Py.Json
import Mathlib.Data.Fintype.Pi

/-!
# RevenueOS.Tenants.Onboarding — the onboarding of a tenant

`domain/tenants/onboarding.py` on any JSON that `tenants.onboarding_state` holds, and `update_onboarding_step` and
`finish_onboarding` (`application/tenants/onboarding.py`) on the row, which they lock.  `normalize_state` raises where
the status of a step is a list or an object; everything else it does not know, it leaves out.

* `progress_is_kept`: a completed step stays completed, completed onboarding stays as it is, and every change is one
  version and one record.
* `steps_in_order`: in the onboarding of a new tenant nothing is completed before what it depends on.
* `can_always_finish`: whatever is stored, four requests complete it.

Permissions and the idempotency reservation, which answers a repeated request without reading the row, are left out.
-/

namespace RevenueOS.Tenants

open RevenueOS.Py RevenueOS.Lib

/-! ## Steps -/

inductive StepCode where
  | welcome | tenant | industry | channels | team | billing
deriving DecidableEq

instance : Fintype StepCode where
  elems := {.welcome, .tenant, .industry, .channels, .team, .billing}
  complete step := by cases step <;> decide

namespace StepCode

def text : StepCode → String
  | welcome => "welcome"
  | tenant => "tenant"
  | industry => "industry"
  | channels => "channels"
  | team => "team"
  | billing => "billing"

/-- `STEPS`, in order. -/
def all : List StepCode := [welcome, tenant, industry, channels, team, billing]

def required : StepCode → Bool
  | welcome => true
  | tenant => true
  | industry => true
  | _ => false

def dependencies : StepCode → List StepCode
  | welcome => []
  | tenant => [welcome]
  | industry => [tenant]
  | channels => [industry]
  | team => [tenant]
  | billing => [tenant]

/-- `STEP_BY_CODE.get(code)`. -/
def ofText? (code : String) : Option StepCode := all.find? fun step => step.text = code

theorem mem_all (step : StepCode) : step ∈ all := by
  cases step <;> decide

theorem ofText_text (step : StepCode) : ofText? step.text = some step := by
  cases step <;> decide

end StepCode

inductive StepStatus where
  | pending | inProgress | completed | skipped
deriving DecidableEq

namespace StepStatus

def text : StepStatus → String
  | pending => "pending"
  | inProgress => "in_progress"
  | completed => "completed"
  | skipped => "skipped"

/-- `STEP_STATUSES`. -/
def all : List StepStatus := [pending, inProgress, completed, skipped]

def ofText? (status : String) : Option StepStatus := all.find? fun s => s.text = status

theorem ofText_text (status : StepStatus) : ofText? status.text = some status := by
  cases status <;> decide

end StepStatus

inductive OnboardingStatus where
  | notStarted | inProgress | completed
deriving DecidableEq

def OnboardingStatus.text : OnboardingStatus → String
  | notStarted => "not_started"
  | inProgress => "in_progress"
  | completed => "completed"

structure StepState where
  status : StepStatus
  updatedAt : Option String
deriving DecidableEq

/-- What `normalize_state` returns; `schema_version`, `provider_activation_claimed` and `required` are constants. -/
structure OnboardingState where
  status : OnboardingStatus
  steps : StepCode → StepState
  completedAt : Option String
deriving DecidableEq

/-- `now.isoformat()`. -/
structure Instant where
  text : String
  short : text.length ≤ 64

/-- `all(state["steps"][step.code]["status"] == "completed" for step in STEPS if step.required)`. -/
def requiredDone (steps : StepCode → StepState) : Bool :=
  StepCode.all.all fun step => !step.required || (steps step).status == .completed

/-- `any(item["status"] != "pending" for item in state["steps"].values())`. -/
def anyStarted (steps : StepCode → StepState) : Bool := StepCode.all.any fun step => (steps step).status != .pending

/-! ## `normalize_state` -/

/-- A text or `None`. -/
def textOrNull : Option String → Json
  | some text => .str text
  | none => .null

def OnboardingState.toJson (state : OnboardingState) : Json :=
  .obj [("schema_version", .int 1), ("status", .str state.status.text), ("provider_activation_claimed", .bool false),
    ("steps", .obj (StepCode.all.map fun step => (step.text, .obj
      [("status", .str (state.steps step).status.text), ("required", .bool step.required),
        ("updated_at", textOrNull (state.steps step).updatedAt)]))),
    ("completed_at", textOrNull state.completedAt)]

/-- The body of the loop: what a candidate makes of a step that is pending. -/
def readStep : Json → Except PyError StepState
  | .obj candidate => do
    let known ← Json.inNames (StepStatus.all.map StepStatus.text) (Dict.get candidate "status")
    let status :=
      if known then ((Dict.get candidate "status").str?.bind StepStatus.ofText?).getD .pending else .pending
    let updatedAt := (Dict.get candidate "updated_at").str?.filter fun text => text.length ≤ 64
    return ⟨status, updatedAt⟩
  | _ => .ok ⟨.pending, none⟩

/-- The loop over `STEPS`. -/
def readSteps (rawSteps : Dict) : Except PyError (StepCode → StepState) := do
  let welcome ← readStep (rawSteps.get "welcome")
  let tenant ← readStep (rawSteps.get "tenant")
  let industry ← readStep (rawSteps.get "industry")
  let channels ← readStep (rawSteps.get "channels")
  let team ← readStep (rawSteps.get "team")
  let billing ← readStep (rawSteps.get "billing")
  return fun
    | .welcome => welcome
    | .tenant => tenant
    | .industry => industry
    | .channels => channels
    | .team => team
    | .billing => billing

/-- `value if isinstance(value, dict) else {}`. -/
def dictOrEmpty (value : Json) : Dict := value.dict?.getD []

/-- `normalize_state`. -/
def normalizeState (value : Json) : Except PyError OnboardingState := do
  let raw := dictOrEmpty value
  let steps ← readSteps (dictOrEmpty (raw.get "steps"))
  if (raw.get "status").str? = some "completed" ∧ requiredDone steps then
    return ⟨.completed, steps, (raw.get "completed_at").str?⟩
  else if anyStarted steps then return ⟨.inProgress, steps, none⟩
  else return ⟨.notStarted, steps, none⟩

/-! ## Transitions -/

inductive OnboardingError where
  | conflict (message : String) (missingSteps : List String)
  | validation (message : String)
  | notFound (message : String)
  | python (e : PyError)
deriving DecidableEq

/-- The target statuses that a request may name. -/
def targetOf? : String → Option StepStatus
  | "in_progress" => some .inProgress
  | "completed" => some .completed
  | "skipped" => some .skipped
  | _ => none

/-- `updated["steps"][step_code]` with the new status and time. -/
def OnboardingState.mark (state : OnboardingState) (step : StepCode) (target : StepStatus) (now : Instant) :
    OnboardingState :=
  { state with status := .inProgress, steps := Function.update state.steps step ⟨target, some now.text⟩ }

/-- `transition_step`. -/
def transitionStep (value : Json) (stepCode targetStatus : String) (now : Instant) :
    Except OnboardingError OnboardingState := do
  let state ← (normalizeState value).mapError .python
  if state.status = .completed then .error (.conflict "Completed onboarding cannot be modified." [])
  else
    match StepCode.ofText? stepCode with
    | none => .error (.validation "Unknown onboarding step.")
    | some step =>
      match targetOf? targetStatus with
      | none => .error (.validation "Invalid onboarding step status.")
      | some target =>
        if target = .skipped ∧ step.required then
          .error (.validation "Required onboarding steps cannot be skipped.")
        else if (state.steps step).status = .completed ∧ target ≠ .completed then
          .error (.conflict "Completed onboarding steps cannot move backwards." [])
        else if (state.steps step).status = target then .ok state
        else
          let missing := step.dependencies.filter fun dependency => (state.steps dependency).status ≠ .completed
          if target = .completed ∧ missing ≠ [] then
            .error (.conflict "Onboarding step dependencies are incomplete." (missing.map StepCode.text))
          else .ok (state.mark step target now)

/-- `complete_onboarding`. -/
def completeOnboarding (value : Json) (now : Instant) : Except OnboardingError OnboardingState := do
  let state ← (normalizeState value).mapError .python
  if state.status = .completed then return state
  else
    let missing := StepCode.all.filter fun step => step.required ∧ (state.steps step).status ≠ .completed
    if missing ≠ [] then
      .error (.conflict "Required onboarding steps are incomplete." (missing.map StepCode.text))
    else return { state with status := .completed, completedAt := some now.text }

/-! ## Requests -/

/-- The audit record and the event of a change. -/
inductive OnboardingRecord where
  | updated (step : String) (old new : String)
  | completed (old new : String)
deriving DecidableEq

/-- The columns of a tenant that onboarding reads or writes, and what it recorded. -/
structure TenantRow where
  onboardingState : Json
  version : ℕ
  records : List OnboardingRecord

inductive OnboardingRequest where
  | update (step status : String) (now : Instant)
  | finish (now : Instant)

/-- `if after != before`: the row with the new state. -/
def TenantRow.store (row : TenantRow) (before later : OnboardingState) (record : OnboardingRecord) : TenantRow :=
  if later = before then row
  else ⟨later.toJson, row.version + 1, row.records ++ [record]⟩

/-- The status of a step under its code, as `before["steps"][step]["status"]`. -/
def OnboardingState.statusOf (state : OnboardingState) (code : String) : String :=
  ((StepCode.ofText? code).map fun step => (state.steps step).status.text).getD ""

/-- `update_onboarding_step` and `finish_onboarding`: the answer and the row. -/
def TenantRow.handle (row : TenantRow) : OnboardingRequest → Except OnboardingError (OnboardingState × TenantRow)
  | .update step status now => do
    let before ← (normalizeState row.onboardingState).mapError .python
    let later ← transitionStep before.toJson step status now
    return (later, row.store before later (.updated step (before.statusOf step) (later.statusOf step)))
  | .finish now => do
    let before ← (normalizeState row.onboardingState).mapError .python
    let later ← completeOnboarding before.toJson now
    return (later, row.store before later (.completed before.status.text later.status.text))

/-- A request that is refused leaves the row as it is. -/
def TenantRow.step (row : TenantRow) (request : OnboardingRequest) : TenantRow :=
  match row.handle request with
  | .ok (_, row') => row'
  | .error _ => row

/-! ## What is read back -/

def StepState.Short (state : StepState) : Prop := ∀ text, state.updatedAt = some text → text.length ≤ 64

/-- The status of the whole fits the steps. -/
structure OnboardingState.Normal (state : OnboardingState) : Prop where
  short : ∀ step, (state.steps step).Short
  done : state.status = .completed → requiredDone state.steps = true
  started : state.status = .inProgress → anyStarted state.steps = true
  untouched : state.status = .notStarted → anyStarted state.steps = false
  unfinished : state.status ≠ .completed → state.completedAt = none

theorem readSteps_ok_iff {raw : Dict} {steps : StepCode → StepState} :
    readSteps raw = .ok steps ↔ ∀ step : StepCode, readStep (raw.get step.text) = .ok (steps step) := by
  unfold readSteps
  constructor
  · intro h
    obtain ⟨welcome, hwelcome, h⟩ := bind_eq_ok.mp h
    obtain ⟨tenant, htenant, h⟩ := bind_eq_ok.mp h
    obtain ⟨industry, hindustry, h⟩ := bind_eq_ok.mp h
    obtain ⟨channels, hchannels, h⟩ := bind_eq_ok.mp h
    obtain ⟨team, hteam, h⟩ := bind_eq_ok.mp h
    obtain ⟨billing, hbilling, h⟩ := bind_eq_ok.mp h
    obtain rfl := pure_eq_ok.mp h
    intro step
    cases step with
    | welcome => exact hwelcome
    | tenant => exact htenant
    | industry => exact hindustry
    | channels => exact hchannels
    | team => exact hteam
    | billing => exact hbilling
  · intro h
    refine bind_eq_ok.mpr ⟨_, h .welcome, bind_eq_ok.mpr ⟨_, h .tenant, bind_eq_ok.mpr ⟨_, h .industry,
      bind_eq_ok.mpr ⟨_, h .channels, bind_eq_ok.mpr ⟨_, h .team, bind_eq_ok.mpr ⟨_, h .billing, ?_⟩⟩⟩⟩⟩⟩
    refine congrArg Except.ok (funext fun step => ?_)
    cases step <;> rfl

theorem short_of_readStep {value : Json} {state : StepState} (h : readStep value = .ok state) : state.Short := by
  intro text htext
  unfold readStep at h
  split at h
  · obtain ⟨known, -, h⟩ := bind_eq_ok.mp h
    obtain rfl := pure_eq_ok.mp h
    exact of_decide_eq_true (Option.filter_eq_some_iff.mp htext).2
  · obtain rfl := Except.ok.inj h
    cases htext

theorem filter_textOrNull {text : Option String} (h : ∀ t, text = some t → t.length ≤ 64) :
    (textOrNull text).str?.filter (fun t => t.length ≤ 64) = text := by
  cases text with
  | none => rfl
  | some t => exact Option.filter_some_pos (decide_eq_true (h t rfl))

theorem readStep_stored (step : StepCode) {state : StepState} (h : state.Short) :
    readStep (.obj [("status", .str state.status.text), ("required", .bool step.required),
      ("updated_at", textOrNull state.updatedAt)]) = .ok state := by
  have hknown : (StepStatus.all.map StepStatus.text).contains state.status.text = true := by
    cases state.status <;> decide
  show (do
    let known ← Json.inNames (StepStatus.all.map StepStatus.text) (.str state.status.text)
    let status := if known then ((StepStatus.ofText? state.status.text)).getD .pending else .pending
    let updatedAt := (textOrNull state.updatedAt).str?.filter fun text => text.length ≤ 64
    return StepState.mk status updatedAt) = Except.ok state
  rw [filter_textOrNull h, StepStatus.ofText_text]
  simp only [Json.inNames, hknown, bind, Except.bind, if_true, Option.getD_some, pure, Except.pure]

theorem get_stored (f : StepCode → Json) (step : StepCode) :
    Dict.get (StepCode.all.map fun step => (step.text, f step)) step.text = f step := by
  cases step <;> rfl

theorem normal_of_normalizeState {value : Json} {state : OnboardingState} (h : normalizeState value = .ok state) :
    state.Normal := by
  unfold normalizeState at h
  obtain ⟨steps, hsteps, h⟩ := bind_eq_ok.mp h
  have hshort : ∀ step, (steps step).Short := fun step => short_of_readStep (readSteps_ok_iff.mp hsteps step)
  split_ifs at h with hdone hstarted
  · obtain rfl := pure_eq_ok.mp h
    exact ⟨hshort, fun _ => hdone.2, nofun, nofun, fun hne => absurd rfl hne⟩
  · obtain rfl := pure_eq_ok.mp h
    exact ⟨hshort, nofun, fun _ => hstarted, nofun, fun _ => rfl⟩
  · obtain rfl := pure_eq_ok.mp h
    exact ⟨hshort, nofun, nofun, fun _ => Bool.eq_false_iff.mpr hstarted, fun _ => rfl⟩

/-- Reading back what was stored changes nothing. -/
theorem normalizeState_toJson {state : OnboardingState} (h : state.Normal) : normalizeState state.toJson = .ok state := by
  have hsteps : readSteps (StepCode.all.map fun step => (step.text, .obj
      [("status", .str (state.steps step).status.text), ("required", .bool step.required),
        ("updated_at", textOrNull (state.steps step).updatedAt)])) = .ok state.steps := by
    refine readSteps_ok_iff.mpr fun step => ?_
    rw [get_stored]
    exact readStep_stored step (h.short step)
  show (do
    let steps ← readSteps (StepCode.all.map fun step => (step.text, .obj
      [("status", .str (state.steps step).status.text), ("required", .bool step.required),
        ("updated_at", textOrNull (state.steps step).updatedAt)]))
    if some state.status.text = some "completed" ∧ requiredDone steps then
      return OnboardingState.mk .completed steps (textOrNull state.completedAt).str?
    else if anyStarted steps then return OnboardingState.mk .inProgress steps none
    else return OnboardingState.mk .notStarted steps none) = Except.ok state
  rw [hsteps]
  simp only [bind, Except.bind, pure, Except.pure]
  obtain ⟨status, steps, completedAt⟩ := state
  cases status with
  | completed =>
    rw [if_pos ⟨rfl, h.done rfl⟩]
    cases completedAt <;> rfl
  | inProgress =>
    obtain rfl : completedAt = none := h.unfinished nofun
    have hother : some "in_progress" ≠ some "completed" := by decide
    rw [if_neg (fun hc => hother hc.1), if_pos (h.started rfl)]
  | notStarted =>
    obtain rfl : completedAt = none := h.unfinished nofun
    have hother : some "not_started" ≠ some "completed" := by decide
    rw [if_neg (fun hc => hother hc.1), if_neg (by rw [h.untouched rfl]; decide)]

/-! ## What a request can do -/

/-- What a request makes of the state. -/
inductive Change (before : OnboardingState) : OnboardingState → Prop
  | same : Change before before
  | mark {step : StepCode} {target : StepStatus} {now : Instant} (hopen : before.status ≠ .completed)
      (hstep : (before.steps step).status ≠ .completed) (htarget : target ≠ .pending)
      (hskip : target = .skipped → step.required = false)
      (hready : target = .completed → ∀ d ∈ step.dependencies, (before.steps d).status = .completed) :
      Change before (before.mark step target now)
  | finish {now : Instant} (hopen : before.status ≠ .completed) (hdone : requiredDone before.steps = true) :
      Change before { before with status := .completed, completedAt := some now.text }

theorem anyStarted_of_step {steps : StepCode → StepState} (step : StepCode) (h : (steps step).status ≠ .pending) :
    anyStarted steps = true := List.any_eq_true.mpr ⟨step, step.mem_all, bne_iff_ne.mpr h⟩

theorem requiredDone_iff {steps : StepCode → StepState} :
    requiredDone steps = true ↔ ∀ step : StepCode, step.required = true → (steps step).status = .completed := by
  unfold requiredDone
  rw [List.all_eq_true]
  constructor
  · intro h step hrequired
    have hstep := h step step.mem_all
    rwa [hrequired, Bool.not_true, Bool.false_or, beq_iff_eq] at hstep
  · intro h step _
    cases hrequired : step.required with
    | false => rfl
    | true =>
      rw [Bool.not_true, Bool.false_or, beq_iff_eq]
      exact h step hrequired

theorem Change.normal {before later : OnboardingState} (hchange : Change before later) (h : before.Normal) :
    later.Normal := by
  cases hchange with
  | same => exact h
  | @mark step target now hopen hstep htarget hskip hready =>
    have hmarked : ((before.mark step target now).steps step) = ⟨target, some now.text⟩ := Function.update_self ..
    refine ⟨fun other => ?_, nofun, fun _ => ?_, nofun, fun _ => h.unfinished hopen⟩
    · by_cases hother : other = step
      · subst hother
        intro text htext
        rw [hmarked] at htext
        obtain rfl := Option.some.inj htext
        exact now.short
      · show (Function.update before.steps step _ other).Short
        rw [Function.update_of_ne hother]
        exact h.short other
    · refine anyStarted_of_step step ?_
      rw [hmarked]
      exact htarget
  | finish hopen hdone => exact ⟨h.short, fun _ => hdone, nofun, nofun, fun hne => absurd rfl hne⟩

theorem targetOf_ne_pending {text : String} {target : StepStatus} (h : targetOf? text = some target) :
    target ≠ .pending := by
  rintro rfl
  unfold targetOf? at h
  split at h <;> cases h

theorem change_of_transition {value : Json} {before later : OnboardingState} {code status : String} {now : Instant}
    (hvalue : normalizeState value = .ok before) (h : transitionStep value code status now = .ok later) :
    Change before later := by
  unfold transitionStep at h
  rw [hvalue] at h
  obtain ⟨_, hstate, h⟩ := bind_eq_ok.mp h
  obtain rfl := Except.ok.inj hstate
  by_cases hopen : before.status = .completed
  · rw [if_pos hopen] at h
    cases h
  rw [if_neg hopen] at h
  cases hcode : StepCode.ofText? code with
  | none =>
    rw [hcode] at h
    cases h
  | some step =>
    cases htarget : targetOf? status with
    | none =>
      rw [hcode, htarget] at h
      cases h
    | some target =>
      rw [hcode, htarget] at h
      dsimp only at h
      split_ifs at h with hskip hback hsame hmissing
      · obtain rfl := Except.ok.inj h
        exact .same
      · obtain rfl := Except.ok.inj h
        refine .mark hopen (fun hstep => ?_) (targetOf_ne_pending htarget) (fun htar => ?_) fun htar d hd => ?_
        · exact hback ⟨hstep, fun htar => hsame (hstep.trans htar.symm)⟩
        · exact Bool.eq_false_iff.mpr fun hrequired => hskip ⟨htar, hrequired⟩
        · have hnone := not_not.mp fun hne => hmissing ⟨htar, hne⟩
          have hall := List.filter_eq_nil_iff.mp hnone d hd
          exact not_not.mp fun hne => hall (decide_eq_true hne)

theorem change_of_complete {value : Json} {before later : OnboardingState} {now : Instant}
    (hvalue : normalizeState value = .ok before) (h : completeOnboarding value now = .ok later) :
    Change before later := by
  unfold completeOnboarding at h
  rw [hvalue] at h
  obtain ⟨_, hstate, h⟩ := bind_eq_ok.mp h
  obtain rfl := Except.ok.inj hstate
  dsimp only at h
  split_ifs at h with hopen hmissing
  · obtain rfl := pure_eq_ok.mp h
    exact .same
  · obtain rfl := pure_eq_ok.mp h
    refine .finish hopen (requiredDone_iff.mpr fun step hrequired => ?_)
    have hnone := List.filter_eq_nil_iff.mp (not_not.mp hmissing) step step.mem_all
    exact not_not.mp fun hne => hnone (decide_eq_true ⟨hrequired, hne⟩)

/-- The row holds this state. -/
def TenantRow.Reads (row : TenantRow) (state : OnboardingState) : Prop :=
  normalizeState row.onboardingState = .ok state

/-- The row after a change is stored: it holds the new state, and a state that is new is one version and one record. -/
theorem TenantRow.store_cases {row : TenantRow} {before later : OnboardingState} (h : row.Reads before)
    (hchange : Change before later) (record : OnboardingRecord) : (row.store before later record).Reads later ∧
      (row.store before later record = row ∧ later = before ∨ later ≠ before ∧
        (row.store before later record).version = row.version + 1 ∧
          (row.store before later record).records = row.records ++ [record]) := by
  unfold TenantRow.store
  split_ifs with hsame
  · rw [hsame]
    exact ⟨h, .inl ⟨rfl, rfl⟩⟩
  · exact ⟨normalizeState_toJson (hchange.normal (normal_of_normalizeState h)), .inr ⟨hsame, rfl, rfl⟩⟩

/-- The audit record of a request that makes one state of another. -/
def OnboardingRequest.record (request : OnboardingRequest) (before later : OnboardingState) : OnboardingRecord :=
  match request with
  | .update step _ _ => .updated step (before.statusOf step) (later.statusOf step)
  | .finish _ => .completed before.status.text later.status.text

/-- A request that is accepted stores what it answers, and one that is not leaves the row as it is. -/
theorem TenantRow.step_cases {row : TenantRow} {before : OnboardingState} (h : row.Reads before)
    (request : OnboardingRequest) : ∃ later, Change before later ∧ (row.step request).Reads later ∧
      (∀ answer row', row.handle request = .ok (answer, row') → answer = later) ∧
      (row.step request = row ∧ later = before ∨ later ≠ before ∧
        (row.step request).version = row.version + 1 ∧
          (row.step request).records = row.records ++ [request.record before later]) := by
  have hstored : normalizeState before.toJson = .ok before := normalizeState_toJson (normal_of_normalizeState h)
  have hread : (normalizeState row.onboardingState).mapError OnboardingError.python = .ok before :=
    mapError_eq_ok.mpr h
  unfold TenantRow.step
  cases hhandle : row.handle request with
  | error e => exact ⟨before, .same, h, nofun, .inl ⟨rfl, rfl⟩⟩
  | ok answer =>
    obtain ⟨later, row'⟩ := answer
    have hanswer : ∀ answer row'', (.ok (later, row') : Except OnboardingError _) = .ok (answer, row'') →
        answer = later := by
      rintro _ _ ⟨⟩
      rfl
    cases request with
    | update step status now =>
      unfold TenantRow.handle at hhandle
      rw [hread] at hhandle
      obtain ⟨_, hbefore, hhandle⟩ := bind_eq_ok.mp hhandle
      obtain rfl := Except.ok.inj hbefore
      obtain ⟨later', hlater, hhandle⟩ := bind_eq_ok.mp hhandle
      cases pure_eq_ok.mp hhandle
      have hchange := change_of_transition hstored hlater
      obtain ⟨hreads, hcases⟩ := TenantRow.store_cases h hchange
        (.updated step (before.statusOf step) (later.statusOf step))
      exact ⟨_, hchange, hreads, hanswer, hcases⟩
    | finish now =>
      unfold TenantRow.handle at hhandle
      rw [hread] at hhandle
      obtain ⟨_, hbefore, hhandle⟩ := bind_eq_ok.mp hhandle
      obtain rfl := Except.ok.inj hbefore
      obtain ⟨later', hlater, hhandle⟩ := bind_eq_ok.mp hhandle
      cases pure_eq_ok.mp hhandle
      have hchange := change_of_complete hstored hlater
      obtain ⟨hreads, hcases⟩ := TenantRow.store_cases h hchange (.completed before.status.text later.status.text)
      exact ⟨_, hchange, hreads, hanswer, hcases⟩

/-! ## Runs -/

/-- What is completed is not touched. -/
theorem Change.kept {before later : OnboardingState} (h : Change before later) :
    (∀ step, (before.steps step).status = .completed → later.steps step = before.steps step) ∧
      (before.status = .completed → later = before) := by
  cases h with
  | same => exact ⟨fun _ _ => rfl, fun _ => rfl⟩
  | mark hopen hstep htarget hskip hready =>
    refine ⟨fun step hdone => Function.update_of_ne ?_ _ _, fun hdone => absurd hdone hopen⟩
    rintro rfl
    exact hstep hdone
  | finish hopen hdone => exact ⟨fun _ _ => rfl, fun hdone => absurd hdone hopen⟩

/-- A state keeps what is completed in another. -/
structure OnboardingState.Keeps (before later : OnboardingState) : Prop where
  steps : ∀ step, (before.steps step).status = .completed → later.steps step = before.steps step
  whole : before.status = .completed → later = before

theorem OnboardingState.Keeps.change {before state later : OnboardingState} (h : before.Keeps state)
    (hchange : Change state later) : before.Keeps later := by
  obtain ⟨hkept, hfinal⟩ := hchange.kept
  refine ⟨fun step hdone => ?_, fun hdone => ?_⟩
  · have hstate := h.steps step hdone
    exact (hkept step (hstate.symm ▸ hdone)).trans hstate
  · have hstate := h.whole hdone
    exact (hfinal (hstate.symm ▸ hdone)).trans hstate

/-- What a request is on record for: the row is the same, or it holds another state, is one version on, and has one
record more, of that very change; and a request that is accepted is answered with the state that the row then holds. -/
structure TenantRow.Recorded (row : TenantRow) (request : OnboardingRequest) : Prop where
  cases : row.step request = row ∨ ∃ before later, row.Reads before ∧ (row.step request).Reads later ∧ later ≠ before ∧
    (row.step request).version = row.version + 1 ∧
      (row.step request).records = row.records ++ [request.record before later]
  answered : ∀ answer row', row.handle request = .ok (answer, row') → (row.step request).Reads answer

theorem TenantRow.recorded {row : TenantRow} {before : OnboardingState} (h : row.Reads before)
    (request : OnboardingRequest) : row.Recorded request := by
  obtain ⟨later, -, hlater, hanswer, hcases⟩ := TenantRow.step_cases h request
  refine ⟨?_, fun answer row' hhandle => hanswer answer row' hhandle ▸ hlater⟩
  obtain ⟨hrow, -⟩ | ⟨hne, hversion, hrecords⟩ := hcases
  · exact .inl hrow
  · exact .inr ⟨before, later, h, hlater, hne, hversion, hrecords⟩

theorem TenantRow.keeps_run {row : TenantRow} {before : OnboardingState} (h : row.Reads before)
    (requests : List OnboardingRequest) :
    ∃ later, (after TenantRow.step row requests).Reads later ∧ before.Keeps later := by
  refine inv_run (fun r : TenantRow => ∃ later, r.Reads later ∧ before.Keeps later) (fun r request hr => ?_) requests
    row ⟨before, h, fun _ _ => rfl, fun _ => rfl⟩
  obtain ⟨state, hreads, hkeeps⟩ := hr
  obtain ⟨later, hchange, hlater, -⟩ := TenantRow.step_cases hreads request
  exact ⟨later, hlater, hkeeps.change hchange⟩

/-- **Progress is kept**: from whatever can be read, any requests leave every completed step as it is, and completed
onboarding altogether; and every request that changes the row is one version and the one record of what it changed. -/
theorem progress_is_kept {row : TenantRow} {before : OnboardingState} (h : row.Reads before)
    (requests : List OnboardingRequest) :
    (∃ later, (after TenantRow.step row requests).Reads later ∧ before.Keeps later) ∧
      Meets TenantRow.step TenantRow.Recorded row requests := by
  refine ⟨TenantRow.keeps_run h requests, ?_⟩
  refine meets_of_inv (fun r : TenantRow => ∃ state, r.Reads state) (fun r request hr => ?_) requests row ⟨before, h⟩
  obtain ⟨state, hreads⟩ := hr
  obtain ⟨later, -, hlater, -⟩ := TenantRow.step_cases hreads request
  exact ⟨TenantRow.recorded hreads request, later, hlater⟩

/-- What an earlier version stored: one step is completed, the other has a status that is not known any more. -/
def legacyRow : TenantRow :=
  ⟨.obj [("steps", .obj [("welcome", .obj [("status", .str "completed")]),
    ("tenant", .obj [("status", .str "done"), ("updated_at", .int 5)])])], 3, []⟩

def legacyState : OnboardingState :=
  ⟨.inProgress, fun step => ⟨if step = .welcome then .completed else .pending, none⟩, none⟩

theorem legacy_reads : legacyRow.Reads legacyState := by
  have hsteps : readSteps [("welcome", .obj [("status", .str "completed")]),
      ("tenant", .obj [("status", .str "done"), ("updated_at", .int 5)])] = .ok legacyState.steps := by
    refine readSteps_ok_iff.mpr fun step => eq_ok_of_toOption ?_
    cases step <;> decide +kernel
  show (readSteps [("welcome", .obj [("status", .str "completed")]),
    ("tenant", .obj [("status", .str "done"), ("updated_at", .int 5)])] >>= _) = _
  rw [hsteps]
  rfl

def noon : Instant := ⟨"2026-01-05T12:00:00+00:00", by decide⟩

/-- Somebody tries to take the welcome back, completes the tenant, and tries to leave it for later. -/
def takenBack : List OnboardingRequest :=
  [.update "welcome" "in_progress" noon, .update "tenant" "completed" noon, .update "tenant" "skipped" noon]

/-- Two of the requests are refused, and the other is one version and one record. -/
theorem legacy_progress_is_kept : ((∃ later, (after TenantRow.step legacyRow takenBack).Reads later ∧
      legacyState.Keeps later) ∧ Meets TenantRow.step TenantRow.Recorded legacyRow takenBack) ∧
    (after TenantRow.step legacyRow takenBack).version = legacyRow.version + 1 ∧
      (after TenantRow.step legacyRow takenBack).records = [.updated "tenant" "pending" "completed"] :=
  ⟨progress_is_kept legacy_reads takenBack, by decide +kernel, by decide +kernel⟩

/-- Nothing is completed before what it depends on, and no required step is skipped. -/
structure OnboardingState.InOrder (state : OnboardingState) : Prop where
  ready : ∀ step, (state.steps step).status = .completed →
    ∀ d ∈ step.dependencies, (state.steps d).status = .completed
  required : ∀ step : StepCode, step.required = true → (state.steps step).status ≠ .skipped
  finished : state.status = .completed → requiredDone state.steps = true ∧ state.completedAt ≠ none

theorem Change.inOrder {before later : OnboardingState} (hchange : Change before later) (h : before.InOrder) :
    later.InOrder := by
  cases hchange with
  | same => exact h
  | @mark step target now hopen hstep htarget hskip hready =>
    have hmarked : ((before.mark step target now).steps step) = ⟨target, some now.text⟩ := Function.update_self ..
    have hother : ∀ other, other ≠ step → (before.mark step target now).steps other = before.steps other :=
      fun other hne => Function.update_of_ne hne _ _
    -- a step that was completed before is not the one that is marked
    have hdone : ∀ other, (before.steps other).status = .completed →
        ((before.mark step target now).steps other).status = .completed := by
      intro other hcompleted
      rw [hother other fun heq => hstep (heq ▸ hcompleted)]
      exact hcompleted
    refine ⟨fun other hcompleted d hd => ?_, fun other hrequired => ?_, nofun⟩
    · by_cases heq : other = step
      · subst heq
        rw [hmarked] at hcompleted
        exact hdone d (hready hcompleted d hd)
      · rw [hother other heq] at hcompleted
        exact hdone d (h.ready other hcompleted d hd)
    · by_cases heq : other = step
      · subst heq
        rw [hmarked]
        intro hskipped
        rw [hskip hskipped] at hrequired
        cases hrequired
      · rw [hother other heq]
        exact h.required other hrequired
  | finish hopen hdone => exact ⟨h.ready, h.required, fun _ => ⟨hdone, nofun⟩⟩

/-- The row of a tenant that has done nothing yet. -/
def TenantRow.fresh : TenantRow := ⟨.obj [], 1, []⟩

/-- **In the onboarding of a new tenant no step is completed before what it depends on**, whatever is asked for and in
whatever order; a required step is never skipped, and completed onboarding has them all and the time. -/
theorem steps_in_order (requests : List OnboardingRequest) :
    ∃ state, (after TenantRow.step TenantRow.fresh requests).Reads state ∧ state.InOrder := by
  refine @inv_run TenantRow OnboardingRequest TenantRow.step (fun r => ∃ state, r.Reads state ∧ state.InOrder)
    (fun r request hr => ?_) requests TenantRow.fresh
    ⟨⟨.notStarted, fun _ => ⟨.pending, none⟩, none⟩, ?_, nofun, nofun, nofun⟩
  · obtain ⟨state, hreads, horder⟩ := hr
    obtain ⟨later, hchange, hlater, -⟩ := TenantRow.step_cases hreads request
    exact ⟨later, hlater, hchange.inOrder horder⟩
  · show normalizeState (.obj []) = .ok _
    have hsteps : readSteps [] = .ok fun _ => ⟨.pending, none⟩ := readSteps_ok_iff.mpr fun _ => rfl
    unfold normalizeState
    show (readSteps [] >>= _) = _
    rw [hsteps]
    rfl

/-! ## It can always be finished -/

/-- The state after a request to complete a step that can be completed. -/
def OnboardingState.withDone (state : OnboardingState) (step : StepCode) (now : Instant) : OnboardingState :=
  if (state.steps step).status = .completed then state else state.mark step .completed now

theorem OnboardingState.withDone_step (state : OnboardingState) (step : StepCode) (now : Instant) :
    ((state.withDone step now).steps step).status = .completed := by
  unfold OnboardingState.withDone
  split_ifs with hdone
  · exact hdone
  · show ((Function.update state.steps step _) step).status = _
    rw [Function.update_self]

theorem OnboardingState.withDone_kept {state : OnboardingState} {other : StepCode} (step : StepCode) (now : Instant)
    (h : (state.steps other).status = .completed) : ((state.withDone step now).steps other).status = .completed := by
  unfold OnboardingState.withDone
  split_ifs with hdone
  · exact h
  · show ((Function.update state.steps step _) other).status = _
    have hne : other ≠ step := by
      rintro rfl
      exact hdone h
    rw [Function.update_of_ne hne]
    exact h

theorem OnboardingState.withDone_other {state : OnboardingState} {step other : StepCode} {now : Instant}
    (hne : other ≠ step) : (state.withDone step now).steps other = state.steps other := by
  unfold OnboardingState.withDone
  split_ifs
  · rfl
  · exact Function.update_of_ne hne _ _

theorem OnboardingState.withDone_open {state : OnboardingState} (step : StepCode) (now : Instant)
    (h : state.status ≠ .completed) : (state.withDone step now).status ≠ .completed := by
  unfold OnboardingState.withDone
  split_ifs with hdone
  · exact h
  · exact nofun

/-- A step whose dependencies are completed can be completed. -/
theorem TenantRow.reads_done {row : TenantRow} {state : OnboardingState} (h : row.Reads state)
    (hopen : state.status ≠ .completed) (step : StepCode) (now : Instant)
    (hready : ∀ d ∈ step.dependencies, (state.steps d).status = .completed) :
    (row.step (.update step.text "completed" now)).Reads (state.withDone step now) := by
  have hnormal := normal_of_normalizeState h
  have hmissing : step.dependencies.filter (fun d => decide ((state.steps d).status ≠ .completed)) = [] :=
    List.filter_eq_nil_iff.mpr fun d hd => by simp [hready d hd]
  have htransition : transitionStep state.toJson step.text "completed" now = .ok (state.withDone step now) := by
    unfold transitionStep OnboardingState.withDone
    rw [normalizeState_toJson hnormal]
    show (if state.status = .completed then _ else _) = _
    rw [if_neg hopen, StepCode.ofText_text]
    show (if StepStatus.completed = .skipped ∧ step.required = true then _ else _) = _
    rw [if_neg (fun hc => absurd hc.1 (by decide)), if_neg (fun hc => hc.2 rfl)]
    by_cases hdone : (state.steps step).status = .completed
    · rw [if_pos hdone, if_pos hdone]
    · rw [if_neg hdone, if_neg hdone]
      show (if StepStatus.completed = .completed ∧ step.dependencies.filter _ ≠ [] then _ else _) = _
      rw [if_neg (fun hc => hc.2 hmissing)]
  have hhandle : row.handle (.update step.text "completed" now) = .ok (state.withDone step now,
      row.store state (state.withDone step now) (.updated step.text (state.statusOf step.text)
        ((state.withDone step now).statusOf step.text))) := by
    unfold TenantRow.handle
    rw [show normalizeState row.onboardingState = .ok state from h]
    show (transitionStep state.toJson step.text "completed" now >>= _) = _
    rw [htransition]
    rfl
  unfold TenantRow.step
  rw [hhandle]
  refine (TenantRow.store_cases h ?_ _).1
  unfold OnboardingState.withDone
  split_ifs with hdone
  · exact .same
  · exact .mark hopen hdone nofun nofun fun _ => hready

theorem TenantRow.reads_finished {row : TenantRow} {state : OnboardingState} (h : row.Reads state)
    (hopen : state.status ≠ .completed) (hdone : requiredDone state.steps = true) (now : Instant) :
    (row.step (.finish now)).Reads { state with status := .completed, completedAt := some now.text } := by
  have hnormal := normal_of_normalizeState h
  have hmissing : StepCode.all.filter (fun step => decide (step.required = true ∧
      (state.steps step).status ≠ .completed)) = [] := by
    refine List.filter_eq_nil_iff.mpr fun step _ hstep => ?_
    obtain ⟨hrequired, hne⟩ := of_decide_eq_true hstep
    exact hne (requiredDone_iff.mp hdone step hrequired)
  have hcomplete : completeOnboarding state.toJson now =
      .ok { state with status := .completed, completedAt := some now.text } := by
    unfold completeOnboarding
    rw [normalizeState_toJson hnormal]
    show (if state.status = .completed then _ else _) = _
    rw [if_neg hopen]
    show (if StepCode.all.filter _ ≠ [] then _ else _) = _
    rw [if_neg (fun hne => hne hmissing)]
    rfl
  have hhandle : row.handle (.finish now) = .ok ({ state with status := .completed, completedAt := some now.text },
      row.store state { state with status := .completed, completedAt := some now.text }
        (.completed state.status.text OnboardingStatus.completed.text)) := by
    unfold TenantRow.handle
    rw [show normalizeState row.onboardingState = .ok state from h]
    show (completeOnboarding state.toJson now >>= _) = _
    rw [hcomplete]
    rfl
  unfold TenantRow.step
  rw [hhandle]
  exact (TenantRow.store_cases h (.finish hopen hdone) _).1

/-- The requests that complete what is required. -/
def finishing (now : Instant) : List OnboardingRequest :=
  [.update "welcome" "completed" now, .update "tenant" "completed" now, .update "industry" "completed" now, .finish now]

/-- **Onboarding can always be finished**: whatever is stored, as long as it can be read, completing the three required
steps in order completes it, and leaves the other steps as they are. -/
theorem can_always_finish {row : TenantRow} {before : OnboardingState} (h : row.Reads before) (now : Instant) :
    ∃ later, (after TenantRow.step row (finishing now)).Reads later ∧ later.status = .completed ∧
      ∀ step : StepCode, step.required = false → later.steps step = before.steps step := by
  by_cases hopen : before.status = .completed
  · obtain ⟨later, hreads, hkeeps⟩ := TenantRow.keeps_run h (finishing now)
    obtain rfl := hkeeps.whole hopen
    exact ⟨later, hreads, hopen, fun _ _ => rfl⟩
  · have hwelcome := TenantRow.reads_done h hopen .welcome now nofun
    have hopen₁ := before.withDone_open .welcome now hopen
    have htenant := TenantRow.reads_done hwelcome hopen₁ .tenant now (by
      simp [StepCode.dependencies, OnboardingState.withDone_step])
    have hopen₂ := OnboardingState.withDone_open .tenant now hopen₁
    have hindustry := TenantRow.reads_done htenant hopen₂ .industry now (by
      simp [StepCode.dependencies, OnboardingState.withDone_step])
    have hopen₃ := OnboardingState.withDone_open .industry now hopen₂
    have hdone : requiredDone
        (((before.withDone .welcome now).withDone .tenant now).withDone .industry now).steps = true := by
      refine requiredDone_iff.mpr fun step hrequired => ?_
      cases step with
      | welcome =>
        exact OnboardingState.withDone_kept _ now (OnboardingState.withDone_kept _ now (before.withDone_step .welcome now))
      | tenant => exact OnboardingState.withDone_kept _ now (OnboardingState.withDone_step _ .tenant now)
      | industry => exact OnboardingState.withDone_step _ .industry now
      | channels => cases hrequired
      | team => cases hrequired
      | billing => cases hrequired
    refine ⟨_, TenantRow.reads_finished hindustry hopen₃ hdone now, rfl, fun step hoptional => ?_⟩
    show ((((before.withDone .welcome now).withDone .tenant now).withDone .industry now).steps step) = _
    rw [OnboardingState.withDone_other, OnboardingState.withDone_other, OnboardingState.withDone_other]
    all_goals
      rintro rfl
      cases hoptional

theorem legacy_can_finish : ∃ later, (after TenantRow.step legacyRow (finishing noon)).Reads later ∧
    later.status = .completed ∧ ∀ step : StepCode, step.required = false → later.steps step = legacyState.steps step :=
  can_always_finish legacy_reads noon

end RevenueOS.Tenants
