import RevenueOS.Lib.Trace
import RevenueOS.Lib.Slots
import RevenueOS.Py.Json
import RevenueOS.Workflows.Triggers

/-!
# RevenueOS.Leads.Baseline — the starting baseline of a workspace

`BaselineService` (`application/leads/baseline.py`) on one tenant.  A capture reads the stored baseline in one
transaction, measures, and in a second transaction selects the settings document and writes it back whole.  The
`UPDATE` waits for another writer and then writes what was computed from the selected document, so it takes effect
with its commit.  The figures come from the metrics service and are arguments of the step that measures.

* `baselines_kept`: in a run whose writes find what their capture read, and fewer than ten superseded baselines, none
  is lost and none is replaced unless its capture asked for that.
-/

namespace RevenueOS.Leads

open RevenueOS.Py RevenueOS.Lib RevenueOS.Workflows

/-! ## A capture -/

/-- `CAPTURED_METRICS`. -/
def capturedMetrics : List String :=
  ["open_total", "awaiting_first_response", "unassigned", "no_next_action", "overdue_follow_ups", "answered_total",
    "median_first_response_minutes", "longest_wait_minutes"]

/-- `x is None`. -/
def isNone : Json → Bool
  | .null => true
  | _ => false

/-- `_gaps`. -/
def gaps (metrics : Dict) : List String :=
  (if !(metrics.get "open_total").truthy then ["No open prospects yet, so there is nothing to measure."] else []) ++
  (if isNone (metrics.get "median_first_response_minutes") then
    ["No prospect has been replied to yet, so there is no typical " ++ "response time to record."] else []) ++
  (if isNone (metrics.get "longest_wait_minutes") && (metrics.get "open_total").truthy then
    ["Every open prospect has already been replied to."] else [])

/-- A stored baseline, but for the entries that are the same in every one. -/
structure Baseline where
  capturedAt : ℤ
  capturedBy : Uuid
  metrics : Dict
  insufficientData : List String
  note : Option String

structure CaptureRequest where
  userId : Uuid
  replace : Bool
  note : Option String

/-- `captured`. -/
def CaptureRequest.captured (request : CaptureRequest) (metrics : Dict) (now : ℤ) : Baseline where
  capturedAt := now
  capturedBy := request.userId
  metrics := capturedMetrics.map fun key => (key, metrics.get key)
  insufficientData := gaps metrics
  note :=
    let note := strip (request.note.getD "")
    if note = "" then none else some note

/-- The two entries of `tenants.settings`. -/
structure BaselineSettings where
  baseline : Option Baseline
  superseded : List Baseline

/-- `superseded[-10:]`. -/
def lastTen (superseded : List Baseline) : List Baseline := superseded.drop (superseded.length - 10)

/-- The document that is written: `existing` was read in the first transaction, `current` in the second. -/
def BaselineSettings.written (current : BaselineSettings) (existing : Option Baseline) (captured : Baseline) :
    BaselineSettings where
  baseline := some captured
  superseded :=
    match existing with
    | none => current.superseded
    | some existing => lastTen (current.superseded ++ [existing])

/-! ## Calls -/

inductive BaselineCall where
  | called (request : CaptureRequest)
  /-- `read` returned and the call was not refused. -/
  | judged (request : CaptureRequest) (existing : Option Baseline)
  | measured (request : CaptureRequest) (existing : Option Baseline) (captured : Baseline)
  /-- The second transaction selected the settings. -/
  | loaded (request : CaptureRequest) (existing : Option Baseline) (captured : Baseline) (current : BaselineSettings)
  /-- `ValidationError`, with the `captured_at` of its details. -/
  | refused (capturedAt : ℤ)
  | returned (captured : Baseline)
  | failed

/-- The committed settings, and the calls. -/
structure BaselineState where
  settings : BaselineSettings
  calls : List BaselineCall

inductive CaptureStep where
  | call (request : CaptureRequest)
  | read (k : ℕ)
  | measure (k : ℕ) (metrics : Dict) (now : ℤ)
  | load (k : ℕ)
  | save (k : ℕ)
  /-- The call ends with an exception, or with its process. -/
  | fail (k : ℕ)

namespace BaselineState

def start : BaselineState := ⟨⟨none, []⟩, []⟩

def setCall (s : BaselineState) (k : ℕ) (call : BaselineCall) : BaselineState := { s with calls := s.calls.set k call }

def step (s : BaselineState) : CaptureStep → BaselineState
  | .call request => { s with calls := s.calls ++ [.called request] }
  | .read k =>
    match s.calls[k]? with
    | some (.called request) =>
      match s.settings.baseline with
      | none => s.setCall k (.judged request none)
      | some existing =>
        if request.replace then s.setCall k (.judged request (some existing))
        else s.setCall k (.refused existing.capturedAt)
    | _ => s
  | .measure k metrics now =>
    match s.calls[k]? with
    | some (.judged request existing) => s.setCall k (.measured request existing (request.captured metrics now))
    | _ => s
  | .load k =>
    match s.calls[k]? with
    | some (.measured request existing captured) => s.setCall k (.loaded request existing captured s.settings)
    | _ => s
  | .save k =>
    match s.calls[k]? with
    | some (.loaded _ existing captured current) =>
      ⟨current.written existing captured, s.calls.set k (.returned captured)⟩
    | _ => s
  | .fail k =>
    match s.calls[k]? with
    | some (.returned _) => s
    | some (.refused _) => s
    | some _ => s.setCall k .failed
    | none => s

end BaselineState

/-! ## What a step does -/

/-- What a step of the system does to it. -/
inductive BaselineMove (s : BaselineState) : CaptureStep → BaselineState → Prop where
  | idle {l : CaptureStep} : BaselineMove s l s
  | called (request : CaptureRequest) :
      BaselineMove s (.call request) { s with calls := s.calls ++ [.called request] }
  | judged {l : CaptureStep} {k : ℕ} {request : CaptureRequest} {existing : Option Baseline}
      (h : existing ≠ none → request.replace = true) : BaselineMove s l (s.setCall k (.judged request existing))
  | ended {l : CaptureStep} {k : ℕ} {call : BaselineCall}
      (hcall : call = .failed ∨ ∃ t, call = .refused t) : BaselineMove s l (s.setCall k call)
  | measured {l : CaptureStep} {k : ℕ} {request : CaptureRequest} {existing : Option Baseline} {captured : Baseline}
      (hk : s.calls[k]? = some (.judged request existing)) :
      BaselineMove s l (s.setCall k (.measured request existing captured))
  | loaded {l : CaptureStep} {k : ℕ} {request : CaptureRequest} {existing : Option Baseline} {captured : Baseline}
      (hk : s.calls[k]? = some (.measured request existing captured)) :
      BaselineMove s l (s.setCall k (.loaded request existing captured s.settings))
  | saved {k : ℕ} {request : CaptureRequest} {existing : Option Baseline} {captured : Baseline}
      {current : BaselineSettings} (hk : s.calls[k]? = some (.loaded request existing captured current)) :
      BaselineMove s (.save k) ⟨current.written existing captured, s.calls.set k (.returned captured)⟩

theorem baselineMove_step (s : BaselineState) (l : CaptureStep) : BaselineMove s l (s.step l) := by
  cases l with
  | call request => exact .called request
  | read k =>
    dsimp only [BaselineState.step]
    split
    · rename_i request hk
      split
      · exact .judged (fun h => absurd rfl h)
      · split_ifs with hreplace
        · exact .judged (fun _ => hreplace)
        · exact .ended (Or.inr ⟨_, rfl⟩)
    · exact .idle
  | measure k metrics now =>
    dsimp only [BaselineState.step]
    split
    · rename_i request existing hk
      exact .measured hk
    · exact .idle
  | load k =>
    dsimp only [BaselineState.step]
    split
    · rename_i request existing captured hk
      exact .loaded hk
    · exact .idle
  | save k =>
    dsimp only [BaselineState.step]
    split
    · rename_i request existing captured current hk
      exact .saved hk
    · exact .idle
  | fail k =>
    dsimp only [BaselineState.step]
    split
    · exact .idle
    · exact .idle
    · exact .ended (Or.inl rfl)
    · exact .idle

/-! ## No baseline is lost -/

/-- Every baseline whose capture returned is the stored one or superseded. -/
def BaselineState.Kept (s : BaselineState) : Prop :=
  ∀ (k : ℕ) (captured : Baseline), s.calls[k]? = some (.returned captured) →
    s.settings.baseline = some captured ∨ captured ∈ s.settings.superseded

/-- A step that takes the stored baseline away is the write of a capture that was told to replace it. -/
def ReplacesOnRequest (s : BaselineState) (l : CaptureStep) : Prop :=
  ∀ b, s.settings.baseline = some b → (s.step l).settings.baseline = some b ∨
    ∃ k request existing captured current, l = .save k ∧
      s.calls[k]? = some (.loaded request existing captured current) ∧ request.replace = true

/-- A write finds in the settings the baseline and the list that its capture read, and room for one more. -/
def Undisturbed (s : BaselineState) : CaptureStep → Prop
  | .save k =>
    match s.calls[k]? with
    | some (.loaded _ existing _ current) =>
      s.settings.baseline = existing ∧ s.settings.superseded = current.superseded ∧
        (existing ≠ none → current.superseded.length < 10)
    | _ => True
  | _ => True

/-- The baseline a call found, when it goes on with one. -/
def BaselineCall.replaces : BaselineCall → Prop
  | .judged request existing => existing ≠ none → request.replace = true
  | .measured request existing _ => existing ≠ none → request.replace = true
  | .loaded request existing _ _ => existing ≠ none → request.replace = true
  | _ => True

structure BaselineState.Inv (s : BaselineState) : Prop where
  kept : s.Kept
  replaces : ∀ (k : ℕ) (call : BaselineCall), s.calls[k]? = some call → call.replaces

/-- A call that has not returned takes another state that is no return. -/
theorem BaselineState.Inv.setCall {s : BaselineState} (h : s.Inv) {k : ℕ} {call : BaselineCall}
    (hcall : call.replaces) (hreturned : ∀ captured, call ≠ .returned captured) : (s.setCall k call).Inv where
  kept j captured hj := by
    rcases getElem?_set_cases hj with ⟨-, heq⟩ | ⟨-, hj⟩
    · exact absurd heq.symm (hreturned captured)
    · exact h.kept j captured hj
  replaces j c hj := by
    rcases getElem?_set_cases hj with ⟨-, rfl⟩ | ⟨-, hj⟩
    · exact hcall
    · exact h.replaces j c hj

theorem lastTen_of_short {superseded : List Baseline} (h : superseded.length ≤ 10) :
    lastTen superseded = superseded := by
  rw [lastTen, Nat.sub_eq_zero_of_le h, List.drop_zero]

/-- What an undisturbed write leaves in the settings. -/
theorem mem_written {s : BaselineState} {existing : Option Baseline} {captured b : Baseline}
    {current : BaselineSettings} (hbaseline : s.settings.baseline = existing)
    (hsuperseded : s.settings.superseded = current.superseded)
    (hroom : existing ≠ none → current.superseded.length < 10)
    (hb : s.settings.baseline = some b ∨ b ∈ s.settings.superseded) :
    b ∈ (current.written existing captured).superseded := by
  rw [hbaseline, hsuperseded] at hb
  cases existing with
  | none => exact hb.resolve_left (Option.some_ne_none b).symm
  | some e =>
    have hshort : (current.superseded ++ [e]).length ≤ 10 := by
      rw [List.length_append]
      exact hroom (Option.some_ne_none e)
    show b ∈ lastTen (current.superseded ++ [e])
    rw [lastTen_of_short hshort, List.mem_append, List.mem_singleton]
    rcases hb with hb | hb
    · exact Or.inr (Option.some.inj hb).symm
    · exact Or.inl hb

theorem undisturbed_save {s : BaselineState} {k : ℕ} {request : CaptureRequest} {existing : Option Baseline}
    {captured : Baseline} {current : BaselineSettings} (h : Undisturbed s (.save k))
    (hk : s.calls[k]? = some (.loaded request existing captured current)) :
    s.settings.baseline = existing ∧ s.settings.superseded = current.superseded ∧
      (existing ≠ none → current.superseded.length < 10) := by
  dsimp only [Undisturbed] at h
  rw [hk] at h
  exact h

theorem BaselineState.Inv.move {s s' : BaselineState} {l : CaptureStep} (h : s.Inv) (hc : Undisturbed s l)
    (hmove : BaselineMove s l s') : s'.Inv := by
  cases hmove with
  | idle => exact h
  | called request =>
    refine ⟨fun j captured hj => ?_, fun j call hj => ?_⟩
    · rcases getElem?_concat_cases hj with heq | hj
      · cases heq
      · exact h.kept j captured hj
    · rcases getElem?_concat_cases hj with rfl | hj
      · trivial
      · exact h.replaces j call hj
  | judged hreplace => exact h.setCall hreplace (fun _ => BaselineCall.noConfusion)
  | ended hcall =>
    rcases hcall with rfl | ⟨t, rfl⟩
    · exact h.setCall trivial (fun _ => BaselineCall.noConfusion)
    · exact h.setCall trivial (fun _ => BaselineCall.noConfusion)
  | measured hk =>
    have hreplaces := h.replaces _ _ hk
    exact h.setCall hreplaces (fun _ => BaselineCall.noConfusion)
  | loaded hk =>
    have hreplaces := h.replaces _ _ hk
    exact h.setCall hreplaces (fun _ => BaselineCall.noConfusion)
  | @saved k request existing captured current hk =>
    obtain ⟨hbaseline, hsuperseded, hroom⟩ := undisturbed_save hc hk
    refine ⟨fun j b hj => ?_, fun j call hj => ?_⟩
    · rcases getElem?_set_cases hj with ⟨-, heq⟩ | ⟨-, hj⟩
      · cases heq
        exact Or.inl rfl
      · exact Or.inr (mem_written hbaseline hsuperseded hroom (h.kept j b hj))
    · rcases getElem?_set_cases hj with ⟨-, rfl⟩ | ⟨-, hj⟩
      · trivial
      · exact h.replaces j call hj

/-- Only a write changes the settings. -/
theorem BaselineMove.settings_cases {s s' : BaselineState} {l : CaptureStep} (hmove : BaselineMove s l s') :
    s'.settings = s.settings ∨ ∃ k request existing captured current, l = .save k ∧
      s.calls[k]? = some (.loaded request existing captured current) := by
  cases hmove with
  | saved hk => exact Or.inr ⟨_, _, _, _, _, rfl, hk⟩
  | _ => exact Or.inl rfl

theorem BaselineState.Inv.replaces_on_request {s : BaselineState} {l : CaptureStep} (h : s.Inv)
    (hc : Undisturbed s l) : ReplacesOnRequest s l := by
  intro b hb
  rcases (baselineMove_step s l).settings_cases with hsame | ⟨k, request, existing, captured, current, rfl, hk⟩
  · rw [hsame]
    exact Or.inl hb
  · -- the capture read the baseline that is stored, so it was told to replace it
    obtain ⟨hbaseline, -, -⟩ := undisturbed_save hc hk
    have hexisting : existing ≠ none := by
      rw [← hbaseline, hb]
      exact Option.some_ne_none b
    exact Or.inr ⟨k, request, existing, captured, current, rfl, hk, h.replaces _ _ hk hexisting⟩

theorem baselineInv_start : BaselineState.start.Inv where
  kept k captured h := by cases h
  replaces k call h := by cases h

/-- **No baseline is lost or replaced unasked while every write finds what its capture read.** -/
theorem baselines_kept (steps : List CaptureStep) (h : Meets BaselineState.step Undisturbed .start steps) :
    Always BaselineState.step BaselineState.Kept .start steps ∧
      Meets BaselineState.step ReplacesOnRequest .start steps := by
  have hstep : ∀ s l, s.Inv → Undisturbed s l → (s.step l).Inv :=
    fun s l hs hc => hs.move hc (baselineMove_step s l)
  constructor
  · exact always_of_inv BaselineState.Inv (fun _ hs => hs.kept) hstep steps _ baselineInv_start h
  · exact meets_of_meets BaselineState.Inv (fun s l hs hc => ⟨hs.replaces_on_request hc, hstep s l hs hc⟩) steps _
      baselineInv_start h

/-! ## Two captures at once -/

def capturer (replace : Bool) : CaptureRequest := ⟨sampleUuid 'u', replace, none⟩

/-- A capture, and one that replaces it when it is over. -/
def replacedRun : List CaptureStep :=
  [.call (capturer false), .read 0, .measure 0 [] 1, .load 0, .save 0,
    .call (capturer true), .read 1, .measure 1 [] 2, .load 1, .save 1]

theorem baselines_kept_replaced : Meets BaselineState.step Undisturbed .start replacedRun ∧
    Always BaselineState.step BaselineState.Kept .start replacedRun ∧
      Meets BaselineState.step ReplacesOnRequest .start replacedRun :=
  have h : Meets BaselineState.step Undisturbed .start replacedRun :=
    ⟨trivial, trivial, trivial, trivial, ⟨rfl, rfl, fun h => absurd rfl h⟩, trivial, trivial, trivial, trivial,
      ⟨rfl, rfl, fun _ => Nat.zero_lt_succ 9⟩, trivial⟩
  ⟨h, baselines_kept _ h⟩

/-- Two captures that both find the workspace without a baseline. -/
def overlappingRun : List CaptureStep :=
  [.call (capturer false), .call (capturer false), .read 0, .read 1, .measure 0 [] 1, .measure 1 [] 2,
    .load 0, .save 0, .load 1, .save 1]

theorem overlapping_captures_lose : ¬ (Always BaselineState.step BaselineState.Kept .start overlappingRun ∧
    Meets BaselineState.step ReplacesOnRequest .start overlappingRun) := by
  rintro ⟨h, -⟩
  rcases always_last h 0 ((capturer false).captured [] 1) rfl with hstored | hsuperseded
  · have htime : (2 : ℤ) = 1 := congrArg Baseline.capturedAt (Option.some.inj hstored)
    exact absurd htime (by decide)
  · cases hsuperseded

end RevenueOS.Leads
