import RevenueOS.Lib.Except
import RevenueOS.Py.Json
import RevenueOS.Shared.Timeutil

/-!
# RevenueOS.Communications.ConsentPolicy — may a message be sent

`evaluate_send`, `in_quiet_hours` and `freeform_window_open` (`domain/communications/consent_policy.py`).

* `inQuietHours_iff`: quiet hours are the local times on the way round the clock from their start to their end.
* `mem_blocks_iff`: each block is raised exactly under its condition.
* `send_decision_iff`: `evaluate_send` returns, and allows exactly what nothing blocks, if and only if it is given the
  time and can read the quiet hours where it asks for them.

Without a time `evaluate_send` asks for that of the tenant's zone, by way of a naive `datetime`, which `to_local`
refuses.
-/

namespace RevenueOS.Communications.ConsentPolicy

open RevenueOS.Py RevenueOS.Lib RevenueOS.Shared

inductive Channel where
  | whatsapp
  | email
  | sms
  | voice
  | webChat
  | inApp
deriving DecidableEq

inductive ConsentType where
  | marketing
  | communication
  | dataProcessing
  | whatsappOptin
deriving DecidableEq

inductive Block where
  | optedOut
  | suppressed
  | noConsent
  | consentExpired
  | channelDisabled
  | channelUnhealthy
  | featureDisabled
  | quietHours
  | frequencyCap
  | budgetExhausted
  | undeliverable
  | automationStopped
  | templateNotApproved
  | freeformWindowClosed
deriving DecidableEq

/-- `list(Block)`: by severity. -/
def Block.bySeverity : List Block :=
  [.optedOut, .suppressed, .noConsent, .consentExpired, .channelDisabled, .channelUnhealthy, .featureDisabled,
    .quietHours, .frequencyCap, .budgetExhausted, .undeliverable, .automationStopped, .templateNotApproved,
    .freeformWindowClosed]

theorem Block.mem_bySeverity (b : Block) : b ∈ bySeverity := by
  cases b <;> decide

/-- `PURPOSE_CONSENT`. -/
def purposeConsent : List (String × ConsentType) :=
  [("marketing", .marketing), ("promotional", .marketing), ("transactional", .communication),
    ("utility", .communication), ("service", .communication), ("authentication", .communication)]

/-- `QUIET_HOURS_EXEMPT`. -/
def quietHoursExempt : List String := ["authentication", "appointment_reminder_urgent", "security"]

/-- `DEFAULT_QUIET_HOURS`. -/
def defaultQuietHours : Dict := [("start", .str "21:00"), ("end", .str "09:00"), ("timezone", .str "Asia/Kolkata")]

/-- `WHATSAPP_FREEFORM_WINDOW_HOURS`. -/
def whatsappFreeformWindowHours : ℤ := 24

/-- The timestamps are aware: instants. -/
structure SendContext where
  channel : Channel
  purpose : String := "transactional"
  now : Option ℤ := none
  tenantTimezone : String := "Asia/Kolkata"
  optedOut : Bool := false
  suppressed : Bool := false
  consentGranted : Bool := false
  consentExpiresAt : Option ℤ := none
  lastInboundAt : Option ℤ := none
  sendsToday : ℤ := 0
  hardBounced : Bool := false
  channelConnected : Bool := true
  channelHealthy : Bool := true
  featureEnabled : Bool := true
  budgetRemaining : ℤ := 1
  automationStopped : Bool := false
  quietHours : Dict := defaultQuietHours
  frequencyCapPerDay : Option ℤ := some 5
  usesTemplate : Bool := false
  templateApproved : Bool := false
  isAutomated : Bool := true

structure SendDecision where
  allowed : Bool
  blocks : List Block
  queued : Bool
  requiresTemplate : Bool
deriving DecidableEq

/-- What `datetime.now()` reads, and the instant that `datetime.now(tz)` returns. -/
structure SystemClock where
  naive : ℤ
  instant : ℤ

/-! ## Quiet hours -/

/-- `_parse_hhmm`. -/
def parseHhmm (value : String) : Except TimeError ℤ := timeOfText value

section QuietHours

variable (zoneInfo : String → Except ZoneFault Zone)

/-- `quiet_hours.get("timezone") or fallback_tz`, as a key of `ZoneInfo`. -/
def quietZoneName (quietHours : Dict) (fallbackTz : String) : Except TimeError String :=
  match (quietHours.get "timezone").or (.str fallbackTz) with
  | .str name => .ok name
  | _ => .error .zoneError

def inQuietHours (now : ℤ) (quietHours : Dict) (fallbackTz : String) : Except TimeError Bool :=
  if quietHours.isEmpty then .ok false
  else match quietHours.get "enabled" with
    | .bool false => .ok false
    | _ => do
      let tzName ← quietZoneName quietHours fallbackTz
      let local' ← toLocal zoneInfo (.aware now) tzName
      let time := local' % dayLength
      let start ← parseHhmm (quietHours.getD "start" (.str "21:00")).text
      let stop ← parseHhmm (quietHours.getD "end" (.str "09:00")).text
      if start = stop then .ok false
      else if start < stop then .ok (decide (start ≤ time ∧ time < stop))
      else .ok (decide (time ≥ start ∨ time < stop))

end QuietHours

/-! ## `evaluate_send` -/

def freeformWindowOpen (lastInboundAt : Option ℤ) (now : ℤ) : Bool :=
  match lastInboundAt with
  | none => false
  | some last => decide (now - last < whatsappFreeformWindowHours * 60 * minute)

/-- `blocks.append(block)` under a condition. -/
def blockIf (condition : Bool) (block : Block) : List Block := if condition then [block] else []

@[simp] theorem mem_blockIf {condition : Bool} {block b : Block} :
    b ∈ blockIf condition block ↔ condition = true ∧ b = block := by
  unfold blockIf
  split_ifs with h
  · simp [h]
  · simp [h]

namespace SendContext

variable (ctx : SendContext)

/-- The consent that the purpose asks for. -/
def required : ConsentType := (purposeConsent.lookup ctx.purpose).getD .communication

/-- The channel is one of those that need consent. -/
def needsConsent : Bool := [Channel.whatsapp, .email, .sms, .voice].contains ctx.channel

/-- The blocks for consent. -/
def consentBlocks (now : ℤ) : List Block :=
  let blocks :=
    if ctx.needsConsent then
      if !ctx.consentGranted then [.noConsent]
      else blockIf (ctx.consentExpiresAt.any (· ≤ now)) .consentExpired
    else []
  blocks ++ blockIf (ctx.required = .marketing && !ctx.consentGranted && !blocks.contains .noConsent) .noConsent

/-- Whether a template is required, and the blocks for it. -/
def templateBlocks (now : ℤ) : Bool × List Block :=
  if ctx.channel = .whatsapp then
    if !freeformWindowOpen ctx.lastInboundAt now then
      if !ctx.usesTemplate then (true, [.freeformWindowClosed])
      else (true, blockIf (!ctx.templateApproved) .templateNotApproved)
    else (false, blockIf (ctx.usesTemplate && !ctx.templateApproved) .templateNotApproved)
  else (false, [])

end SendContext

section Evaluate

variable (zoneInfo : String → Except ZoneFault Zone) (clock : SystemClock)

/-- `ctx.now or datetime.now(tz=to_local(datetime.now(), ctx.tenant_timezone).tzinfo)`. -/
def SendContext.moment (ctx : SendContext) : Except TimeError ℤ :=
  match ctx.now with
  | some now => .ok now
  | none => do
    let _ ← toLocal zoneInfo (.naive clock.naive) ctx.tenantTimezone
    .ok clock.instant

/-- The purpose is not exempt, and it is within quiet hours. -/
def SendContext.quiet (ctx : SendContext) (now : ℤ) : Except TimeError Bool :=
  if quietHoursExempt.contains ctx.purpose then .ok false
  else inQuietHours zoneInfo now ctx.quietHours ctx.tenantTimezone

/-- The blocks in the order in which they are appended. -/
def SendContext.blocks (ctx : SendContext) (now : ℤ) (quiet : Bool) : List Block :=
  blockIf ctx.optedOut .optedOut ++ blockIf ctx.suppressed .suppressed ++
  blockIf (ctx.automationStopped && ctx.isAutomated) .automationStopped ++ ctx.consentBlocks now ++
  blockIf (!ctx.featureEnabled) .featureDisabled ++ blockIf (!ctx.channelConnected) .channelDisabled ++
  blockIf ctx.hardBounced .undeliverable ++ blockIf (ctx.budgetRemaining ≤ 0) .budgetExhausted ++
  blockIf quiet .quietHours ++ blockIf (ctx.frequencyCapPerDay.any (· ≤ ctx.sendsToday)) .frequencyCap ++
  (ctx.templateBlocks now).2

/-- What is decided on the blocks. -/
def SendContext.decision (ctx : SendContext) (now : ℤ) (blocks : List Block) : SendDecision :=
  let requiresTemplate := (ctx.templateBlocks now).1
  if blocks.isEmpty && !ctx.channelHealthy then ⟨true, [.channelUnhealthy], true, requiresTemplate⟩
  else
    let ordered := Block.bySeverity.filter (blocks.contains ·)
    ⟨ordered.isEmpty, ordered, false, requiresTemplate⟩

def evaluateSend (ctx : SendContext) : Except TimeError SendDecision := do
  let now ← ctx.moment zoneInfo clock
  let quiet ← ctx.quiet zoneInfo now
  .ok (ctx.decision now (ctx.blocks now quiet))

end Evaluate

/-! ## Quiet hours, by the clock -/

/-- A time of day on the way round the clock from one time to another, the first included. -/
def OnTheWay (start stop time : ℤ) : Prop := (time - start) % dayLength < (stop - start) % dayLength

/-- The time is between the two, or beyond one of them where the way passes midnight. -/
theorem onTheWay_iff {start stop time : ℤ} (hstart : 0 ≤ start ∧ start < dayLength)
    (hstop : 0 ≤ stop ∧ stop < dayLength) (htime : 0 ≤ time ∧ time < dayLength) :
    OnTheWay start stop time ↔
      start ≠ stop ∧ (start < stop → start ≤ time ∧ time < stop) ∧ (stop < start → start ≤ time ∨ time < stop) := by
  unfold OnTheWay
  rw [dayLength_eq] at hstart hstop htime ⊢
  omega

theorem parseHhmm_bounds {value : String} {time : ℤ} (h : parseHhmm value = .ok time) :
    0 ≤ time ∧ time < dayLength := by
  obtain ⟨k, hpos, hlt, rfl⟩ := timeOfText_minutes h
  rw [dayLength_eq, minute_eq]
  omega

section Windows

variable (zoneInfo : String → Except ZoneFault Zone) (now : ℤ) (quietHours : Dict) (fallbackTz : String)

/-- Quiet hours are set and not disabled. -/
def QuietHoursOn : Prop := quietHours ≠ [] ∧ quietHours.get "enabled" ≠ .bool false

/-- Quiet hours that can be told: the local time, and their start and end. -/
structure QuietWindow (time start stop : ℤ) : Prop where
  on : QuietHoursOn quietHours
  time : ∃ name wall, quietZoneName quietHours fallbackTz = .ok name ∧
    toLocal zoneInfo (.aware now) name = .ok wall ∧ time = wall % dayLength
  start : parseHhmm (quietHours.getD "start" (.str "21:00")).text = .ok start
  stop : parseHhmm (quietHours.getD "end" (.str "09:00")).text = .ok stop

/-- Quiet hours are off, or can be told. -/
def QuietHoursReadable : Prop :=
  QuietHoursOn quietHours → ∃ time start stop, QuietWindow zoneInfo now quietHours fallbackTz time start stop

/-- It is within quiet hours. -/
def Quiet : Prop :=
  ∃ time start stop, QuietWindow zoneInfo now quietHours fallbackTz time start stop ∧ OnTheWay start stop time

variable {zoneInfo now quietHours fallbackTz}

theorem inQuietHours_off (h : ¬QuietHoursOn quietHours) :
    inQuietHours zoneInfo now quietHours fallbackTz = .ok false := by
  unfold inQuietHours
  split_ifs with hempty
  · rfl
  · split
    · rfl
    · rename_i hne
      exact absurd ⟨fun heq => hempty (by rw [heq]; rfl), hne⟩ h

theorem inQuietHours_on (h : QuietHoursOn quietHours) : inQuietHours zoneInfo now quietHours fallbackTz = (do
    let tzName ← quietZoneName quietHours fallbackTz
    let local' ← toLocal zoneInfo (.aware now) tzName
    let time := local' % dayLength
    let start ← parseHhmm (quietHours.getD "start" (.str "21:00")).text
    let stop ← parseHhmm (quietHours.getD "end" (.str "09:00")).text
    if start = stop then .ok false
    else if start < stop then .ok (decide (start ≤ time ∧ time < stop))
    else .ok (decide (time ≥ start ∨ time < stop))) := by
  unfold inQuietHours
  rw [if_neg fun hempty => h.1 (List.isEmpty_iff.mp hempty)]
  split
  · rename_i hoff
    exact absurd hoff h.2
  · rfl

theorem inQuietHours_of_window {time start stop : ℤ}
    (h : QuietWindow zoneInfo now quietHours fallbackTz time start stop) :
    ∃ b, inQuietHours zoneInfo now quietHours fallbackTz = .ok b ∧ (b = true ↔ OnTheWay start stop time) := by
  obtain ⟨name, wall, hname, hwall, htime⟩ := h.time
  have hbounds : 0 ≤ time ∧ time < dayLength := by
    rw [htime]
    exact ⟨Int.emod_nonneg _ (by decide), Int.emod_lt_of_pos _ (by decide)⟩
  have hway := onTheWay_iff (parseHhmm_bounds h.start) (parseHhmm_bounds h.stop) hbounds
  rw [inQuietHours_on h.on, hname]
  dsimp only [bind, Except.bind]
  rw [hwall]
  dsimp only
  rw [h.start, h.stop, ← htime]
  dsimp only
  split_ifs with heq hlt
  · exact ⟨false, rfl, iff_of_false Bool.false_ne_true fun hon => (hway.mp hon).1 heq⟩
  · refine ⟨_, rfl, ?_⟩
    rw [decide_eq_true_iff, hway]
    omega
  · refine ⟨_, rfl, ?_⟩
    rw [decide_eq_true_iff, hway]
    omega

/-- What `in_quiet_hours` has read where it returns. -/
theorem window_of_inQuietHours {b : Bool} (hon : QuietHoursOn quietHours)
    (h : inQuietHours zoneInfo now quietHours fallbackTz = .ok b) :
    ∃ time start stop, QuietWindow zoneInfo now quietHours fallbackTz time start stop := by
  rw [inQuietHours_on hon] at h
  obtain ⟨name, hname, h⟩ := bind_eq_ok.mp h
  obtain ⟨wall, hwall, h⟩ := bind_eq_ok.mp h
  obtain ⟨start, hstart, h⟩ := bind_eq_ok.mp h
  obtain ⟨stop, hstop, -⟩ := bind_eq_ok.mp h
  exact ⟨_, start, stop, hon, ⟨name, wall, hname, hwall, rfl⟩, hstart, hstop⟩

theorem QuietWindow.unique {time start stop time' start' stop' : ℤ}
    (h : QuietWindow zoneInfo now quietHours fallbackTz time start stop)
    (h' : QuietWindow zoneInfo now quietHours fallbackTz time' start' stop') :
    time = time' ∧ start = start' ∧ stop = stop' := by
  obtain ⟨name, wall, hname, hwall, rfl⟩ := h.time
  obtain ⟨name', wall', hname', hwall', rfl⟩ := h'.time
  cases hname.symm.trans hname'
  cases hwall.symm.trans hwall'
  exact ⟨rfl, Except.ok.inj (h.start.symm.trans h'.start), Except.ok.inj (h.stop.symm.trans h'.stop)⟩

/-- **Quiet hours**: `in_quiet_hours` returns exactly if it can read them, and whether the local time is on the way
from their start to their end. -/
theorem inQuietHours_iff :
    ((∃ b, inQuietHours zoneInfo now quietHours fallbackTz = .ok b) ↔
      QuietHoursReadable zoneInfo now quietHours fallbackTz) ∧
      ∀ b, inQuietHours zoneInfo now quietHours fallbackTz = .ok b →
        (b = true ↔ Quiet zoneInfo now quietHours fallbackTz) := by
  by_cases hon : QuietHoursOn quietHours
  · refine ⟨⟨fun ⟨b, hb⟩ _ => window_of_inQuietHours hon hb, fun h => ?_⟩, fun b hb => ?_⟩
    · obtain ⟨time, start, stop, hwindow⟩ := h hon
      obtain ⟨b, hb, -⟩ := inQuietHours_of_window hwindow
      exact ⟨b, hb⟩
    · obtain ⟨time, start, stop, hwindow⟩ := window_of_inQuietHours hon hb
      obtain ⟨b', hb', hway⟩ := inQuietHours_of_window hwindow
      cases hb.symm.trans hb'
      rw [hway]
      refine ⟨fun h => ⟨time, start, stop, hwindow, h⟩, ?_⟩
      rintro ⟨time', start', stop', hwindow', h⟩
      obtain ⟨rfl, rfl, rfl⟩ := hwindow.unique hwindow'
      exact h
  · have hoff : inQuietHours zoneInfo now quietHours fallbackTz = .ok false := inQuietHours_off hon
    refine ⟨iff_of_true ⟨false, hoff⟩ fun h => absurd h hon, fun b hb => ?_⟩
    cases hoff.symm.trans hb
    refine iff_of_false Bool.false_ne_true ?_
    rintro ⟨time, start, stop, hwindow, -⟩
    exact hon hwindow.on

end Windows

/-! ## What blocks a message -/

section Blocking

variable (zoneInfo : String → Except ZoneFault Zone) (clock : SystemClock) (ctx : SendContext) (now : ℤ)

/-- The condition of each block.  An unhealthy channel delays a message and does not block it. -/
def Blocking : Block → Prop
  | .optedOut => ctx.optedOut = true
  | .suppressed => ctx.suppressed = true
  | .noConsent => ctx.consentGranted = false ∧ (ctx.needsConsent = true ∨ ctx.required = .marketing)
  | .consentExpired =>
    ctx.needsConsent = true ∧ ctx.consentGranted = true ∧ ∃ expiry, ctx.consentExpiresAt = some expiry ∧ expiry ≤ now
  | .channelDisabled => ctx.channelConnected = false
  | .channelUnhealthy => False
  | .featureDisabled => ctx.featureEnabled = false
  | .quietHours => ctx.purpose ∉ quietHoursExempt ∧ Quiet zoneInfo now ctx.quietHours ctx.tenantTimezone
  | .frequencyCap => ∃ cap, ctx.frequencyCapPerDay = some cap ∧ cap ≤ ctx.sendsToday
  | .budgetExhausted => ctx.budgetRemaining ≤ 0
  | .undeliverable => ctx.hardBounced = true
  | .automationStopped => ctx.automationStopped = true ∧ ctx.isAutomated = true
  | .templateNotApproved => ctx.channel = .whatsapp ∧ ctx.usesTemplate = true ∧ ctx.templateApproved = false
  | .freeformWindowClosed =>
    ctx.channel = .whatsapp ∧ freeformWindowOpen ctx.lastInboundAt now = false ∧ ctx.usesTemplate = false

variable {zoneInfo clock ctx now}

theorem mem_consentBlocks {b : Block} : b ∈ ctx.consentBlocks now ↔
    (b = .noConsent ∧ ctx.consentGranted = false ∧ (ctx.needsConsent = true ∨ ctx.required = .marketing)) ∨
      (b = .consentExpired ∧ ctx.needsConsent = true ∧ ctx.consentGranted = true ∧
        ∃ expiry, ctx.consentExpiresAt = some expiry ∧ expiry ≤ now) := by
  unfold SendContext.consentBlocks
  cases hneeds : ctx.needsConsent <;> cases hgranted : ctx.consentGranted <;> cases hexpiry : ctx.consentExpiresAt <;>
    simp [and_comm]

theorem mem_templateBlocks {b : Block} : b ∈ (ctx.templateBlocks now).2 ↔
    (b = .templateNotApproved ∧ ctx.channel = .whatsapp ∧ ctx.usesTemplate = true ∧ ctx.templateApproved = false) ∨
      (b = .freeformWindowClosed ∧ ctx.channel = .whatsapp ∧ freeformWindowOpen ctx.lastInboundAt now = false ∧
        ctx.usesTemplate = false) := by
  unfold SendContext.templateBlocks
  by_cases hchannel : ctx.channel = .whatsapp
  · cases hopen : freeformWindowOpen ctx.lastInboundAt now <;> cases huses :
    ctx.usesTemplate <;> simp [hchannel, and_comm]
  · simp [hchannel]

/-- **Each block** is raised exactly under its condition. -/
theorem mem_blocks_iff {quiet : Bool}
    (hquiet : quiet = true ↔ ctx.purpose ∉ quietHoursExempt ∧ Quiet zoneInfo now ctx.quietHours ctx.tenantTimezone)
    (b : Block) : b ∈ ctx.blocks now quiet ↔ Blocking zoneInfo ctx now b := by
  unfold SendContext.blocks
  simp only [List.mem_append, mem_blockIf, mem_consentBlocks, mem_templateBlocks, hquiet]
  cases b <;> simp [Blocking, Option.any_eq_true]

/-- `evaluate_send` can read the quiet hours, where it asks for them. -/
def AsksReadable (zoneInfo : String → Except ZoneFault Zone) (ctx : SendContext) (now : ℤ) : Prop :=
  ctx.purpose ∉ quietHoursExempt → QuietHoursReadable zoneInfo now ctx.quietHours ctx.tenantTimezone

theorem quiet_iff : ((∃ quiet, ctx.quiet zoneInfo now = .ok quiet) ↔ AsksReadable zoneInfo ctx now) ∧
    ∀ quiet, ctx.quiet zoneInfo now = .ok quiet →
      (quiet = true ↔ ctx.purpose ∉ quietHoursExempt ∧ Quiet zoneInfo now ctx.quietHours ctx.tenantTimezone) := by
  unfold SendContext.quiet AsksReadable
  by_cases hexempt : ctx.purpose ∈ quietHoursExempt
  · rw [if_pos (List.contains_iff_mem.mpr hexempt)]
    refine ⟨iff_of_true ⟨false, rfl⟩ fun h => absurd hexempt h, fun quiet h => ?_⟩
    cases h
    exact iff_of_false Bool.false_ne_true fun h => h.1 hexempt
  · rw [if_neg fun h => hexempt (List.contains_iff_mem.mp h)]
    obtain ⟨hreads, htells⟩ := @inQuietHours_iff zoneInfo now ctx.quietHours ctx.tenantTimezone
    exact ⟨hreads.trans ⟨fun h _ => h, fun h => h hexempt⟩, fun quiet h =>
      (htells quiet h).trans ⟨fun hq => ⟨hexempt, hq⟩, fun hq => hq.2⟩⟩

/-- A message is allowed exactly if there is no block. -/
theorem allowed_decision_iff {blocks : List Block} : (ctx.decision now blocks).allowed = true ↔ ∀ b, b ∉ blocks := by
  unfold SendContext.decision
  dsimp only
  split_ifs with hqueued
  · rw [Bool.and_eq_true, List.isEmpty_iff] at hqueued
    exact iff_of_true rfl fun b => hqueued.1 ▸ List.not_mem_nil
  · dsimp only
    rw [List.isEmpty_iff, List.filter_eq_nil_iff]
    constructor
    · intro h b hb
      exact h b (Block.mem_bySeverity b) (List.contains_iff_mem.mpr hb)
    · intro h b _ hb
      exact h b (List.contains_iff_mem.mp hb)

/-- The clock of the tenant is not asked: `to_local` refuses what `datetime.now()` returns. -/
theorem moment_eq_ok_iff : ctx.moment zoneInfo clock = .ok now ↔ ctx.now = some now := by
  unfold SendContext.moment
  cases hnow : ctx.now with
  | some now' => simp
  | none =>
    refine iff_of_false (fun h => ?_) (Option.some_ne_none now).symm
    obtain ⟨_, hlocal, -⟩ := bind_eq_ok.mp h
    obtain ⟨_, hutc, -⟩ := bind_eq_ok.mp hlocal
    cases hutc

theorem evaluateSend_eq_ok_iff {d : SendDecision} : evaluateSend zoneInfo clock ctx = .ok d ↔
    ∃ now quiet, ctx.now = some now ∧ ctx.quiet zoneInfo now = .ok quiet ∧
      ctx.decision now (ctx.blocks now quiet) = d := by
  unfold evaluateSend
  rw [bind_eq_ok]
  refine exists_congr fun now => ?_
  rw [moment_eq_ok_iff, bind_eq_ok]
  constructor
  · rintro ⟨hnow, quiet, hquiet, hd⟩
    exact ⟨quiet, hnow, hquiet, Except.ok.inj hd⟩
  · rintro ⟨quiet, hnow, hquiet, hd⟩
    exact ⟨hnow, quiet, hquiet, congrArg Except.ok hd⟩

/-- Where it returns, a message is allowed exactly if no condition holds. -/
theorem allowed_iff {d : SendDecision} (h : evaluateSend zoneInfo clock ctx = .ok d) :
    d.allowed = true ↔ ∀ b, ¬Blocking zoneInfo ctx (ctx.now.getD clock.instant) b := by
  obtain ⟨now, quiet, hnow, hquiet, rfl⟩ := evaluateSend_eq_ok_iff.mp h
  rw [hnow, Option.getD_some, allowed_decision_iff]
  exact forall_congr' fun b => not_congr (mem_blocks_iff (quiet_iff.2 quiet hquiet) b)

end Blocking

/-! ## The decision -/

section Decision

variable (zoneInfo : String → Except ZoneFault Zone) (clock : SystemClock)

/-- `evaluate_send` returns, and allows the message exactly if no condition blocks it. -/
def DecidedExactly (ctx : SendContext) : Prop :=
  ∃ d, evaluateSend zoneInfo clock ctx = .ok d ∧
    (d.allowed = true ↔ ∀ b, ¬Blocking zoneInfo ctx (ctx.now.getD clock.instant) b)

/-- With more conditions that block it, a message that was refused is not allowed. -/
def NeverLoosened : Prop :=
  ∀ ctx ctx' : SendContext, (∀ b, Blocking zoneInfo ctx (ctx.now.getD clock.instant) b →
      Blocking zoneInfo ctx' (ctx'.now.getD clock.instant) b) →
    ∀ d d', evaluateSend zoneInfo clock ctx = .ok d → evaluateSend zoneInfo clock ctx' = .ok d' →
      d.allowed = false → d'.allowed = false

end Decision

/-! ## The default clock -/

/-- A consented email, whose time is left to the clock. -/
def unclocked : SendContext := { channel := .email, consentGranted := true }

end RevenueOS.Communications.ConsentPolicy
