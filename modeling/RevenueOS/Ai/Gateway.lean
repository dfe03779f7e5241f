import RevenueOS.Ai.Guards
import RevenueOS.Integrations.Circuit

/-!
# RevenueOS.Ai.Gateway — what reaches a model provider

`AIGateway._complete` up to the answer of a provider: the input guard, the assembly of the messages, the budget and
the models of the route, one after the other, behind the breakers of their providers (`Integrations.Circuit`).  The
clients, the budget, the answers and the clock are parameters.  What becomes of an answer is left out.

Every message of an assembly is kept with where it comes from.

* `provider_guarded_iff`: what reaches a provider is guarded exactly if no user message after the first says anything,
  and a context block is empty if there is such a message.
-/

namespace RevenueOS.Ai

open RevenueOS.Py RevenueOS.Lib RevenueOS.Integrations

/-! ## The models and the routes -/

inductive Provider where
  | anthropic | openai | google | «local»
deriving DecidableEq

inductive Task where
  | chat | generate | classify | qualifyLead | extract | summarize | rag | analyze | transcribe | translate | embed
deriving DecidableEq

/-- The providers of `MODELS`. -/
def models : List (String × Provider) :=
  [("claude-sonnet-4-20250514", .anthropic), ("claude-haiku-3-5-20241022", .anthropic),
    ("gpt-4o-2024-08-06", .openai), ("gpt-4o-mini-2024-07-18", .openai), ("gemini-2.0-flash-001", .google),
    ("whisper-1", .openai), ("text-embedding-3-small", .openai)]

/-- The models of a route, the primary one first. -/
structure RoutePolicy where
  primary : String
  fallbacks : List String

/-- `route_for`; every task has a route for the tier `basic`. -/
def routeFor (task : Task) (tier : String) : RoutePolicy :=
  match task with
  | .chat | .generate | .analyze =>
    if tier = "pro" then ⟨"claude-sonnet-4-20250514", ["gpt-4o-2024-08-06"]⟩
    else ⟨"gpt-4o-mini-2024-07-18", ["gemini-2.0-flash-001"]⟩
  | .classify | .qualifyLead | .extract =>
    ⟨"gpt-4o-mini-2024-07-18", ["gemini-2.0-flash-001", "claude-haiku-3-5-20241022"]⟩
  | .summarize => ⟨"claude-haiku-3-5-20241022", ["gemini-2.0-flash-001"]⟩
  | .rag | .translate => ⟨"gpt-4o-mini-2024-07-18", ["gemini-2.0-flash-001"]⟩
  | .transcribe => ⟨"whisper-1", []⟩
  | .embed => ⟨"text-embedding-3-small", []⟩

/-! ## The assembly -/

/-- A message: a `dict` of texts. -/
abbrev Message := List (String × String)

/-- `message.get("role") == "user"`. -/
def Message.isUser (m : Message) : Bool := m.lookup "role" = some "user"

/-- `message.get("content", "")`. -/
def Message.content (m : Message) : String := (m.lookup "content").getD ""

def Message.of (role content : String) : Message := [("role", role), ("content", content)]

structure AIRequest where
  task : Task
  tier : String
  messages : List Message
  untrustedContext : List String
  systemPrompt : Option String

/-- The messages with role user. -/
def AIRequest.users (r : AIRequest) : List Message := r.messages.filter Message.isUser

/-- Where a message of an assembly comes from. -/
inductive Origin where
  | system
  | context
  | guarded
  | passedOn
deriving DecidableEq

structure Placed where
  origin : Origin
  message : Message

section Alnum

variable (isAlnum : Char → Bool)

/-- The text that is guarded: the contents of the user messages. -/
def AIRequest.combined (r : AIRequest) : String := join "\n" (r.users.map Message.content)

/-- `_guard_input`. -/
def guardInput (r : AIRequest) : GuardResult :=
  let result := scanInput isAlnum r.combined false
  if result.blocked then result
  else
    match r.untrustedContext.find? fun block => (scanInput isAlnum block true).blocked with
    | some block => scanInput isAlnum block true
    | none => result

/-- The last loop of `_assemble`; `text` is the text of the guard, which is placed once. -/
def placeMessages : List Message → String → List Placed
  | [], _ => []
  | m :: ms, text =>
    if m.isUser ∧ text ≠ "" then ⟨.guarded, .of "user" text⟩ :: placeMessages ms ""
    else ⟨.passedOn, m⟩ :: placeMessages ms text

/-- `_assemble`. -/
def assemble (r : AIRequest) (guard : GuardResult) : List Placed :=
  ((r.systemPrompt.filter (· ≠ "")).map fun system => ⟨.system, .of "system" system⟩).toList ++
    r.untrustedContext.map (fun block => ⟨.context, .of "user" (scanInput isAlnum block true).text⟩) ++
    placeMessages r.messages guard.text

end Alnum

/-! ## The providers -/

/-- What `_complete` finds: whether a client is there and configured, the checker of the budget with its answer, the
answer of each model, if its call does not raise, the clock, and the times at which its breaker is asked and told. -/
structure Surroundings where
  clients : Provider → Bool
  budget : Option (Bool × ℤ)
  answer : String → Option String
  clock : Clock
  asked : String → ℚ
  told : String → ℚ

/-- A call of a client. -/
structure ProviderCall where
  provider : Provider
  model : String
  messages : List Placed

inductive Outcome where
  | degraded (reason : String) (warnings : List String)
  | answered (provider : Provider) (model text : String)

/-- `_complete` up to an answer: the calls it made, its breakers and how it ended. -/
structure Completed where
  calls : List ProviderCall
  breakers : Provider → CircuitBreaker
  outcome : Outcome

/-- The policy `registry.get` gives the breaker of a provider. -/
def circuitPolicy (provider : Provider) : CircuitPolicy := if provider = .anthropic then anthropicPolicy else {}

/-- `", ".join(attempted) or "none configured"`. -/
def attemptedText (attempted : List String) : String :=
  if attempted = [] then "attempted: none configured" else "attempted: " ++ join ", " attempted

variable (w : Surroundings) (messages : List Placed)

/-- The loop over the models of the route. -/
def tryModels : List String → List String → (Provider → CircuitBreaker) → Completed
  | [], attempted, breakers => ⟨[], breakers, .degraded "all_providers_unavailable" [attemptedText attempted]⟩
  | model :: rest, attempted, breakers =>
    match models.lookup model with
    | none => tryModels rest attempted breakers
    | some provider =>
      if w.clients provider = false then tryModels rest (attempted ++ [model]) breakers
      else
        let policy : TimedPolicy := ⟨circuitPolicy provider, w.clock⟩
        let (allowed, breaker) := (breakers provider).allow policy (w.asked model)
        if allowed = false then tryModels rest (attempted ++ [model]) (Function.update breakers provider breaker)
        else
          match w.answer model with
          | none =>
            let failed := breaker.recordFailure policy (w.told model)
            let after := tryModels rest (attempted ++ [model]) (Function.update breakers provider failed)
            { after with calls := ⟨provider, model, messages⟩ :: after.calls }
          | some text =>
            ⟨[⟨provider, model, messages⟩],
              Function.update breakers provider (breaker.recordSuccess policy (w.told model)),
              .answered provider model text⟩

/-- `_complete`. -/
def complete (isAlnum : Char → Bool) (breakers : Provider → CircuitBreaker) (r : AIRequest) : Completed :=
  let policy := routeFor r.task r.tier
  let guard := guardInput isAlnum r
  if guard.blocked then ⟨[], breakers, .degraded "input_guard_blocked" guard.reasons⟩
  else
    match w.budget with
    | some (false, remaining) =>
      ⟨[], breakers,
        .degraded "budget_exhausted" ["Monthly AI budget exhausted (remaining " ++ toString remaining ++ ")."]⟩
    | _ => tryModels w (assemble isAlnum r guard) (policy.primary :: policy.fallbacks) [] breakers

/-! ## Nothing unguarded -/

/-- The calls of `scan_input` that `_complete` makes. -/
def AIRequest.scans (isAlnum : Char → Bool) (r : AIRequest) : List GuardResult :=
  scanInput isAlnum r.combined false :: r.untrustedContext.map fun block => scanInput isAlnum block true

/-- **Nothing unguarded**: a message with role user is the text of a scan that did not block, the guarded text is
placed once at most, and no user message of the request that says something is passed on as it is. -/
structure Guarded (isAlnum : Char → Bool) (r : AIRequest) (messages : List Placed) : Prop where
  scanned : ∀ p ∈ messages, p.message.isUser = true →
    ∃ scan ∈ r.scans isAlnum, scan.blocked = false ∧ p.message.content = scan.text
  once : messages.countP (·.origin = .guarded) ≤ 1
  not_raw : ∀ p ∈ messages, p.origin = .passedOn → p.message.isUser = true → p.message.content = ""

/-- **The condition**: a user message after the first says nothing, and then a context block is empty too. -/
def OnlyFirstSpeaks (r : AIRequest) : Prop :=
  ∀ m ∈ r.users.tail, m.content = "" ∧ "" ∈ r.untrustedContext

/-! ### What is called -/

theorem messages_of_tryModels {w : Surroundings} {messages : List Placed} :
    ∀ {route attempted : List String} {breakers : Provider → CircuitBreaker},
      ∀ call ∈ (tryModels w messages route attempted breakers).calls, call.messages = messages
  | [], _, _, _, h => (List.not_mem_nil h).elim
  | model :: rest, attempted, breakers, call, h => by
    unfold tryModels at h
    split at h
    · exact messages_of_tryModels call h
    · next provider _ =>
      dsimp only at h
      split_ifs at h
      · exact messages_of_tryModels call h
      · exact messages_of_tryModels call h
      · split at h
        · rcases List.mem_cons.mp h with rfl | h
          · rfl
          · exact messages_of_tryModels call h
        · obtain rfl := List.mem_singleton.mp h
          rfl

/-- A provider is called with the assembly, after a guard that did not block. -/
theorem messages_of_complete {w : Surroundings} {isAlnum : Char → Bool} {breakers : Provider → CircuitBreaker}
    {r : AIRequest} {call : ProviderCall} (h : call ∈ (complete w isAlnum breakers r).calls) :
    (guardInput isAlnum r).blocked = false ∧ call.messages = assemble isAlnum r (guardInput isAlnum r) := by
  unfold complete at h
  dsimp only at h
  split_ifs at h with hblocked
  · exact (List.not_mem_nil h).elim
  · refine ⟨Bool.not_eq_true _ ▸ hblocked, ?_⟩
    split at h
    · exact (List.not_mem_nil h).elim
    · exact messages_of_tryModels call h

section Guard

variable {isAlnum : Char → Bool} {r : AIRequest}

/-- A guard that does not block is the scan of the user messages, and no scan blocks. -/
theorem guardInput_of_not_blocked (h : (guardInput isAlnum r).blocked = false) :
    guardInput isAlnum r = scanInput isAlnum r.combined false ∧ ∀ scan ∈ r.scans isAlnum, scan.blocked = false := by
  unfold guardInput at h ⊢
  dsimp only at h ⊢
  split_ifs at h ⊢ with hresult
  · rw [hresult] at h
    cases h
  · cases hfind : r.untrustedContext.find? fun block => (scanInput isAlnum block true).blocked with
    | some block =>
      rw [hfind] at h
      have hblock := List.find?_some hfind
      dsimp only at h hblock
      rw [h] at hblock
      cases hblock
    | none =>
      refine ⟨rfl, fun scan hscan => ?_⟩
      rcases List.mem_cons.mp hscan with rfl | hscan
      · simpa using hresult
      · obtain ⟨block, hblock, rfl⟩ := List.mem_map.mp hscan
        simpa using List.find?_eq_none.mp hfind block hblock

theorem isUser_of (role content : String) : (Message.of role content).isUser = decide (role = "user") := by
  simp [Message.isUser, Message.of]

theorem content_of (role content : String) : (Message.of role content).content = content := by
  have hlookup : (Message.of role content).lookup "content" = some content := by
    simp [Message.of, List.lookup_cons]
  rw [Message.content, hlookup, Option.getD_some]

/-! ### What is placed -/

/-- What the loop passes on as it is: the user messages, but for the first if there is a text to place. -/
theorem passedOn_iff {ms : List Message} {text : String} {m : Message} (hm : m.isUser = true) :
    ⟨.passedOn, m⟩ ∈ placeMessages ms text ↔
      m ∈ if text = "" then ms.filter Message.isUser else (ms.filter Message.isUser).tail := by
  induction ms generalizing text with
  | nil => simp [placeMessages]
  | cons m' ms ih =>
    unfold placeMessages
    by_cases huser : m'.isUser = true
    · by_cases htext : text = ""
      · simp [huser, htext, ih]
      · simp [huser, htext, ih]
    · have hne : m ≠ m' := by
        rintro rfl
        exact huser hm
      simp [huser, hne, ih]

/-- With no text to place, every message is passed on. -/
theorem origin_of_place_empty {ms : List Message} {p : Placed} (h : p ∈ placeMessages ms "") :
    p.origin = .passedOn := by
  induction ms with
  | nil => cases h
  | cons m ms ih =>
    unfold placeMessages at h
    rw [if_neg fun hplace => hplace.2 rfl] at h
    rcases List.mem_cons.mp h with rfl | h
    · rfl
    · exact ih h

/-- What the loop does not pass on is the text. -/
theorem guarded_of_place {ms : List Message} {text : String} {p : Placed} (h : p ∈ placeMessages ms text) :
    p.origin = .passedOn ∨ p = ⟨.guarded, .of "user" text⟩ := by
  induction ms with
  | nil => cases h
  | cons m ms ih =>
    unfold placeMessages at h
    split_ifs at h with hplace
    · rcases List.mem_cons.mp h with rfl | h
      · exact .inr rfl
      · exact .inl (origin_of_place_empty h)
    · rcases List.mem_cons.mp h with rfl | h
      · exact .inl rfl
      · exact ih h

/-- The text is placed once at most. -/
theorem countP_place_le (ms : List Message) (text : String) :
    (placeMessages ms text).countP (·.origin = .guarded) ≤ 1 := by
  induction ms with
  | nil => exact Nat.zero_le 1
  | cons m ms ih =>
    unfold placeMessages
    split_ifs with hplace
    · have hnone : (placeMessages ms "").countP (·.origin = .guarded) = 0 := by
        refine List.countP_eq_zero.mpr fun p hp => ?_
        rw [origin_of_place_empty hp]
        decide
      rw [List.countP_cons_of_pos (by rfl), hnone]
    · rw [List.countP_cons_of_neg (by simp)]
      exact ih

/-- A message of the assembly with role user: the text of a scan of the context, the guarded text, or a message that
is passed on. -/
theorem mem_assemble {guard : GuardResult} {p : Placed} (h : p ∈ assemble isAlnum r guard)
    (huser : p.message.isUser = true) :
    (∃ block ∈ r.untrustedContext, p = ⟨.context, .of "user" (scanInput isAlnum block true).text⟩) ∨
      p ∈ placeMessages r.messages guard.text := by
  unfold assemble at h
  rcases List.mem_append.mp h with h | h
  · rcases List.mem_append.mp h with h | h
    · obtain ⟨system, -, rfl⟩ := Option.map_eq_some_iff.mp (Option.mem_toList.mp h)
      rw [isUser_of] at huser
      exact absurd (of_decide_eq_true huser) (by decide)
    · obtain ⟨block, hblock, rfl⟩ := List.mem_map.mp h
      exact .inl ⟨block, hblock, rfl⟩
  · exact .inr h

theorem once_assemble (guard : GuardResult) : (assemble isAlnum r guard).countP (·.origin = .guarded) ≤ 1 := by
  unfold assemble
  rw [List.countP_append, List.countP_append]
  have hsystem : ((r.systemPrompt.filter (· ≠ "")).map fun system =>
      (⟨.system, .of "system" system⟩ : Placed)).toList.countP (·.origin = .guarded) = 0 := by
    refine List.countP_eq_zero.mpr fun p hp => ?_
    obtain ⟨system, -, rfl⟩ := Option.map_eq_some_iff.mp (Option.mem_toList.mp hp)
    exact (by decide : ¬decide (Origin.system = Origin.guarded) = true)
  have hcontext : (r.untrustedContext.map fun block =>
      (⟨.context, .of "user" (scanInput isAlnum block true).text⟩ : Placed)).countP (·.origin = .guarded) = 0 := by
    refine List.countP_eq_zero.mpr fun p hp => ?_
    obtain ⟨block, -, rfl⟩ := List.mem_map.mp hp
    exact (by decide : ¬decide (Origin.context = Origin.guarded) = true)
  rw [hsystem, hcontext, Nat.zero_add]
  exact countP_place_le r.messages guard.text

/-! ### When the text is empty -/

theorem append_ne_empty {s t : String} (h : s ≠ "" ∨ t ≠ "") : s ++ t ≠ "" := by
  rw [Ne, String.append_eq_empty_iff]
  tauto

/-- The user messages that are passed on: those after the first, or one that says nothing. -/
theorem combined_empty (h : r.combined = "") : r.users.tail = [] ∧ ∀ m ∈ r.users, m.content = "" := by
  unfold AIRequest.combined at h
  cases husers : r.users with
  | nil => exact ⟨rfl, fun m hm => (List.not_mem_nil hm).elim⟩
  | cons m ms =>
    rw [husers] at h
    cases ms with
    | nil =>
      refine ⟨rfl, fun m' hm' => ?_⟩
      obtain rfl := List.mem_singleton.mp hm'
      exact h
    | cons m' ms =>
      -- the separator is in the text
      refine absurd h (append_ne_empty (.inl (append_ne_empty (.inr ?_))))
      decide

theorem scan_combined_mem : scanInput isAlnum r.combined false ∈ r.scans isAlnum := List.mem_cons_self

theorem scan_block_mem {block : String} (h : block ∈ r.untrustedContext) :
    scanInput isAlnum block true ∈ r.scans isAlnum :=
  List.mem_cons_of_mem _ (List.mem_map_of_mem h)

/-- What is passed on as it is, where the guard did not block. -/
theorem passedOn_assemble_iff (h : (scanInput isAlnum r.combined false).blocked = false) {m : Message}
    (hm : m.isUser = true) : ⟨.passedOn, m⟩ ∈ assemble isAlnum r (scanInput isAlnum r.combined false) ↔
      m ∈ if r.combined = "" then r.users else r.users.tail := by
  have hplace := @passedOn_iff r.messages (scanInput isAlnum r.combined false).text m hm
  simp only [text_scanInput_eq_iff h] at hplace
  refine Iff.trans ⟨fun hmem => ?_, fun hmem => List.mem_append_right _ hmem⟩ hplace
  rcases mem_assemble hmem hm with ⟨block, -, heq⟩ | hmem
  · cases (Placed.mk.inj heq).1
  · exact hmem

/-- Under the condition, what is passed on says nothing, and some scan returned the empty text. -/
theorem passedOn_empty (hscan : (scanInput isAlnum r.combined false).blocked = false) (h : OnlyFirstSpeaks r)
    {m : Message} (hm : m ∈ if r.combined = "" then r.users else r.users.tail) :
    m.content = "" ∧ ∃ scan ∈ r.scans isAlnum, scan.text = "" := by
  split_ifs at hm with hcombined
  · exact ⟨(combined_empty hcombined).2 m hm, _, scan_combined_mem, (text_scanInput_eq_iff hscan).mpr hcombined⟩
  · obtain ⟨hcontent, hblock⟩ := h m hm
    exact ⟨hcontent, _, scan_block_mem hblock, rfl⟩

/-- **An assembly is guarded exactly if** the condition holds of the request. -/
theorem guarded_assemble_iff (h : (guardInput isAlnum r).blocked = false) :
    Guarded isAlnum r (assemble isAlnum r (guardInput isAlnum r)) ↔ OnlyFirstSpeaks r := by
  obtain ⟨hguard, hscans⟩ := guardInput_of_not_blocked h
  rw [hguard]
  have hscan := hscans _ scan_combined_mem
  constructor
  · intro hguarded m hm
    have huser : m.isUser = true := (List.mem_filter.mp (List.mem_of_mem_tail hm)).2
    have hne : r.combined ≠ "" := by
      intro hcombined
      rw [(combined_empty hcombined).1] at hm
      cases hm
    have hmem := (passedOn_assemble_iff hscan huser).mpr (by rw [if_neg hne]; exact hm)
    have hcontent := hguarded.not_raw _ hmem rfl huser
    obtain ⟨scan, hmade, hpassed, htext⟩ := hguarded.scanned _ hmem huser
    have hempty := htext.symm.trans hcontent
    refine ⟨hcontent, ?_⟩
    rcases List.mem_cons.mp hmade with rfl | hmade
    · exact absurd ((text_scanInput_eq_iff hscan).mp hempty) hne
    · obtain ⟨block, hblock, rfl⟩ := List.mem_map.mp hmade
      rw [(text_scanInput_eq_iff hpassed).mp hempty] at hblock
      exact hblock
  · intro hcondition
    have hraw : ∀ p ∈ assemble isAlnum r (scanInput isAlnum r.combined false), p.origin = .passedOn →
        p.message.isUser = true → p.message.content = "" ∧ ∃ scan ∈ r.scans isAlnum, scan.text = "" := by
      rintro ⟨origin, m⟩ hp rfl huser
      exact passedOn_empty hscan hcondition ((passedOn_assemble_iff hscan huser).mp hp)
    refine ⟨fun p hp huser => ?_, once_assemble _, fun p hp horigin huser => (hraw p hp horigin huser).1⟩
    by_cases horigin : p.origin = .passedOn
    · obtain ⟨hcontent, scan, hmade, htext⟩ := hraw p hp horigin huser
      exact ⟨scan, hmade, hscans scan hmade, hcontent.trans htext.symm⟩
    · rcases mem_assemble hp huser with ⟨block, hblock, rfl⟩ | hplace
      · exact ⟨_, scan_block_mem hblock, hscans _ (scan_block_mem hblock), content_of _ _⟩
      · obtain rfl := (guarded_of_place hplace).resolve_left horigin
        exact ⟨_, scan_combined_mem, hscan, content_of _ _⟩

end Guard

/-- **What reaches a provider is guarded exactly if** only the first user message says something. -/
theorem provider_guarded_iff (w : Surroundings) (isAlnum : Char → Bool) (breakers : Provider → CircuitBreaker)
    (r : AIRequest) (call : ProviderCall) (hcall : call ∈ (complete w isAlnum breakers r).calls) :
    Guarded isAlnum r call.messages ↔ OnlyFirstSpeaks r := by
  obtain ⟨hguard, hmessages⟩ := messages_of_complete hcall
  rw [hmessages]
  exact guarded_assemble_iff hguard

instance (r : AIRequest) : Decidable (OnlyFirstSpeaks r) :=
  inferInstanceAs (Decidable (∀ m ∈ r.users.tail, m.content = "" ∧ "" ∈ r.untrustedContext))

/-- Configured clients, no budget, an answer, and a clock that stands still. -/
def sampleSurroundings : Surroundings := ⟨fun _ => true, none, fun _ => some "Hello", .exact, fun _ => 0, fun _ => 0⟩

def sampleRequest (messages : List Message) : AIRequest := ⟨.chat, "basic", messages, [], none⟩

/-- One user message, between others. -/
theorem provider_guarded_oneUser :
    ∃ call ∈ (complete sampleSurroundings Char.isAlphanum (fun _ => .fresh)
        (sampleRequest [.of "assistant" "Hello", .of "user" "a@b.in"])).calls,
      Guarded Char.isAlphanum (sampleRequest [.of "assistant" "Hello", .of "user" "a@b.in"]) call.messages := by
  obtain ⟨call, hcall⟩ := List.exists_mem_of_ne_nil
    (complete sampleSurroundings Char.isAlphanum (fun _ => .fresh)
      (sampleRequest [.of "assistant" "Hello", .of "user" "a@b.in"])).calls (by decide +kernel)
  exact ⟨call, hcall, (provider_guarded_iff _ _ _ _ call hcall).mpr (by decide)⟩

/-- The second user message reaches the provider with the address that is in it. -/
theorem second_user_raw :
    ∃ call ∈ (complete sampleSurroundings Char.isAlphanum (fun _ => .fresh)
        (sampleRequest [.of "user" "Hi", .of "user" "a@b.in"])).calls,
      ⟨.passedOn, .of "user" "a@b.in"⟩ ∈ call.messages ∧
        ¬Guarded Char.isAlphanum (sampleRequest [.of "user" "Hi", .of "user" "a@b.in"]) call.messages := by
  obtain ⟨call, hcall⟩ := List.exists_mem_of_ne_nil
    (complete sampleSurroundings Char.isAlphanum (fun _ => .fresh)
      (sampleRequest [.of "user" "Hi", .of "user" "a@b.in"])).calls (by decide +kernel)
  obtain ⟨hguard, hmessages⟩ := messages_of_complete hcall
  obtain ⟨heq, hscans⟩ := guardInput_of_not_blocked hguard
  have hraw : ⟨.passedOn, .of "user" "a@b.in"⟩ ∈ call.messages := by
    rw [hmessages, heq]
    exact (passedOn_assemble_iff (hscans _ scan_combined_mem) (by decide)).mpr (by decide)
  refine ⟨call, hcall, hraw, fun hguarded => ?_⟩
  exact absurd (hguarded.not_raw _ hraw rfl (by decide)) (by decide)

end RevenueOS.Ai
