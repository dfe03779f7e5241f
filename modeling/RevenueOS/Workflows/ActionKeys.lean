import RevenueOS.Py.Numerals
import RevenueOS.Workflows.Actions
import RevenueOS.Workflows.Worklist
import RevenueOS.Workflows.CrashFree

/-!
# RevenueOS.Workflows.ActionKeys — the keys of the action runner

`action_idempotency_key` joins the execution, the node and the attempt with colons, and a node id may hold colons
itself; the execution id is a UUID and the attempt is a number, so the first and the last colon tell the parts.

* `actionKey_iff`, `correlation_iff`: which keys and which correlations are equal.
* `turn_calls`: a turn calls the runner for at most one node, which it had not visited.
* `action_keys_exact`: no key is passed to the runner twice within one run.
-/

namespace RevenueOS.Workflows

open RevenueOS.Py RevenueOS.Lib

variable {W : Type}

/-! ## Keys -/

/-- Texts up to a character that is in none of them. -/
theorem append_cons_inj {c : Char} : ∀ {l l' r r' : List Char}, c ∉ l → c ∉ l' → l ++ c :: r = l' ++ c :: r' →
    l = l' ∧ r = r'
  | [], [], _, _, _, _, h => ⟨rfl, (List.cons.inj h).2⟩
  | [], d :: l', _, _, _, hl', h => absurd ((List.cons.inj h).1 ▸ List.mem_cons_self) hl'
  | d :: l, [], _, _, hl, _, h => absurd ((List.cons.inj h).1 ▸ List.mem_cons_self) hl
  | d :: l, d' :: l', r, r', hl, hl', h => by
    obtain ⟨rfl, htail⟩ := List.cons.inj h
    obtain ⟨rfl, rfl⟩ := append_cons_inj (fun hc => hl (List.mem_cons_of_mem d hc))
      (fun hc => hl' (List.mem_cons_of_mem d hc)) htail
    exact ⟨rfl, rfl⟩

/-- The execution id is a UUID: its text has no colon. -/
def NoColon (s : String) : Prop := ':' ∉ s.toList

instance (s : String) : Decidable (NoColon s) := inferInstanceAs (Decidable (¬_))

theorem noColon_intText (k : ℤ) : NoColon (toString k) := by
  intro h
  rcases mem_intText h with h | h
  · exact absurd h (by decide)
  · exact absurd h (by decide)

section Keys

variable {e e' x x' : String} {k k' : ℤ}

/-- Within one execution the last colon tells the node from the attempt. -/
theorem actionKey_same (h : actionIdempotencyKey e x k = actionIdempotencyKey e x' k') : x = x' ∧ k = k' := by
  have hlogical := congrArg (fun s => beforeLast s ':') h
  unfold actionIdempotencyKey at h hlogical
  rw [beforeLast_append _ _ (noColon_intText k), beforeLast_append _ _ (noColon_intText k')] at hlogical
  obtain rfl := (String.append_right_inj _).mp hlogical
  exact ⟨rfl, intText_injective ((String.append_right_inj _).mp h)⟩

/-- The first colon ends the execution id. -/
theorem execution_eq {r r' : String} (he : NoColon e) (he' : NoColon e') (h : e ++ ":" ++ r = e' ++ ":" ++ r') :
    e = e' := by
  have hchars := congrArg String.toList h
  simp only [String.toList_append, List.append_assoc] at hchars
  exact String.toList_inj.mp (append_cons_inj he he' hchars).1

/-- **Keys** are equal only for one execution, one node and one attempt. -/
theorem actionKey_iff (he : NoColon e) (he' : NoColon e') :
    actionIdempotencyKey e x k = actionIdempotencyKey e' x' k' ↔ e = e' ∧ x = x' ∧ k = k' := by
  constructor
  · intro h
    have hsame : e = e' := by
      refine @execution_eq e e' (x ++ ":" ++ toString k) (x' ++ ":" ++ toString k') he he' ?_
      simpa only [actionIdempotencyKey, String.append_assoc] using h
    subst hsame
    exact ⟨rfl, actionKey_same h⟩
  · rintro ⟨rfl, rfl, rfl⟩
    rfl

/-- **Correlations** are equal for the attempts of one node in one execution. -/
theorem correlation_iff {sha256 : String → String} (hsha : Function.Injective sha256) (he : NoColon e)
    (he' : NoColon e') : actionCorrelation sha256 (actionIdempotencyKey e x k) =
      actionCorrelation sha256 (actionIdempotencyKey e' x' k') ↔ e = e' ∧ x = x' := by
  unfold actionCorrelation actionIdempotencyKey
  rw [beforeLast_append _ _ (noColon_intText k), beforeLast_append _ _ (noColon_intText k'), String.append_right_inj]
  constructor
  · intro h
    have hlogical := hsha h
    obtain rfl := execution_eq he he' hlogical
    exact ⟨rfl, (String.append_right_inj _).mp hlogical⟩
  · rintro ⟨rfl, rfl⟩
    rfl

end Keys

/-! ## The calls of one action -/

/-- The execution id is a UUID, whatever the runner does to the context. -/
def UuidContexts (env : Env W) : Prop := ∀ action inputs ctx key w, NoColon ctx.executionId →
  NoColon (env.runAction action inputs ctx key w).2.1.executionId

/-- A call for an attempt of the node. -/
def CalledFor (x : String) (least : ℤ) (c : ActionCall) : Prop :=
  c.nodeId = x ∧ ∃ e k, NoColon e ∧ least ≤ k ∧ c.key = actionIdempotencyKey e x k

/-- Attempts of the node, from `least` on, after `calls`: one key each, and the execution id stays a UUID. -/
structure KeyedRun (x : String) (least : ℤ) (calls : List ActionCall) (run : ActionRun W) : Prop where
  context : NoColon run.context.executionId
  keys : ∃ new, run.calls = calls ++ new ∧ (∀ c ∈ new, CalledFor x least c) ∧ (new.map (·.key)).Nodup

section Attempts

variable {env : Env W}

/-- **The attempts of one action.** -/
theorem attemptLoop_keys (henv : UuidContexts env) {policy : Dict} {action x : String} {inputs : Json} {top : ℤ} :
    ∀ (left : ℕ) (attempt : ℤ) (ctx : ExecutionContext) (w : W) (calls : List ActionCall), NoColon ctx.executionId →
      KeyedRun x attempt calls (attemptLoop env policy action x inputs top left attempt ctx w calls) := by
  intro left
  induction left with
  | zero =>
    intro attempt ctx w calls hctx
    exact ⟨hctx, [], (List.append_nil calls).symm, by simp, List.nodup_nil⟩
  | succ left ih =>
    intro attempt ctx w calls hctx
    have hnext := henv action inputs ctx (actionIdempotencyKey ctx.executionId x attempt) w hctx
    have hcall : CalledFor x attempt ⟨x, action, inputs, actionIdempotencyKey ctx.executionId x attempt⟩ :=
      ⟨rfl, ctx.executionId, attempt, hctx, le_rfl, rfl⟩
    -- one call and no more
    have hone : ∃ new, calls ++ [⟨x, action, inputs, actionIdempotencyKey ctx.executionId x attempt⟩] = calls ++ new ∧
        (∀ c ∈ new, CalledFor x attempt c) ∧ (new.map (·.key)).Nodup :=
      ⟨_, rfl, by simpa using hcall, List.nodup_singleton _⟩
    rw [attemptLoop]
    dsimp only
    by_cases hdry : ctx.dryRun = true
    · rw [if_pos hdry]
      exact ⟨hctx, [], (List.append_nil calls).symm, by simp, List.nodup_nil⟩
    · rw [if_neg hdry]
      split
      · exact ⟨hnext, hone⟩
      · exact ⟨hnext, hone⟩
      · exact ⟨hnext, hone⟩
      · split
        · split
          · exact ⟨hnext, hone⟩
          · obtain ⟨hafter, new, hnew, hall, hnodup⟩ := ih (attempt + 1) _ _ _ hnext
            refine ⟨hafter, ⟨x, action, inputs, actionIdempotencyKey ctx.executionId x attempt⟩ :: new, ?_, ?_, ?_⟩
            · rw [hnew, List.append_assoc]
              rfl
            · intro c hc
              rcases List.mem_cons.mp hc with rfl | hc
              · exact hcall
              · obtain ⟨hid, e, k, he, hk, hkey⟩ := hall c hc
                exact ⟨hid, e, k, he, by omega, hkey⟩
            · rw [List.map_cons, List.nodup_cons]
              refine ⟨fun hmem => ?_, hnodup⟩
              obtain ⟨c, hc, hkey⟩ := List.mem_map.mp hmem
              obtain ⟨-, e, k, he, hk, hkey'⟩ := hall c hc
              have := ((actionKey_iff he hctx).mp (hkey'.symm.trans hkey)).2.2
              omega
        · exact ⟨hnext, hone⟩

theorem runWithRetry_keys (henv : UuidContexts env) (policy node : Dict) (ctx : ExecutionContext) (w : W)
    (hctx : NoColon ctx.executionId) :
    KeyedRun (Dict.get node "id").text 1 [] (runWithRetry env policy node ctx w) := by
  unfold runWithRetry
  split
  · exact ⟨hctx, [], rfl, by simp, List.nodup_nil⟩
  · exact attemptLoop_keys henv _ _ ctx w [] hctx

end Attempts

/-! ## The calls of a run -/

/-- What a turn does that calls the runner for no node. -/
structure Silent (plan : Plan) (σ σ' : Loop W) : Prop where
  context : σ'.context = σ.context
  calls : σ'.calls = σ.calls
  visited : ∀ x, plan.typeOf x ≠ some .loop → x ∈ σ.visited → x ∈ σ'.visited

/-- What a turn does that runs the action `x`. -/
structure Runs (env : Env W) (plan : Plan) (σ σ' : Loop W) (x : String) (node : Dict) (w : W) : Prop where
  lookup : plan.nodes.lookup x = some node
  type : plan.typeOf x ≠ some .loop
  fresh : x ∉ σ.visited
  context : σ'.context = (runWithRetry env plan.globalPolicy node σ.context w).context
  calls : σ'.calls = σ.calls ++ (runWithRetry env plan.globalPolicy node σ.context w).calls
  visited : σ'.visited = insertId σ.visited x

section Turns

variable {env : Env W} {plan : Plan} {deadline : Instant} {σ σ₀ : Loop W} {x : String} {node : Dict}

theorem silent_extend {r : Except PyError (List String)} (h : Silent plan σ₀ σ) :
    Silent plan σ₀ (σ.extend r).loop := by
  cases r with
  | ok next => exact ⟨h.context, h.calls, h.visited⟩
  | error e => exact h

theorem processCondition_silent (h : Silent plan σ₀ σ) : Silent plan σ₀ (processCondition plan x node σ).loop := by
  unfold processCondition
  split
  · exact h
  · exact silent_extend ⟨h.context, h.calls, h.visited⟩

theorem processDelay_silent (h : Silent plan σ₀ σ) : Silent plan σ₀ (processDelay env plan x node σ).loop := by
  unfold processDelay
  split
  · exact h
  · dsimp only
    split
    · exact ⟨h.context, h.calls, h.visited⟩
    · exact ⟨h.context, h.calls, h.visited⟩

theorem processApproval_silent (h : Silent plan σ₀ σ) : Silent plan σ₀ (processApproval plan x σ).loop := by
  unfold processApproval
  dsimp only
  split
  · exact ⟨h.context, h.calls, h.visited⟩
  · exact ⟨h.context, h.calls, h.visited⟩

theorem processLoop_silent (ht : plan.typeOf x = some .loop) (h : Silent plan σ₀ σ) :
    Silent plan σ₀ (processLoop plan x node σ).loop := by
  unfold processLoop
  split
  · exact h
  · dsimp only
    split_ifs
    · exact ⟨h.context, h.calls, h.visited⟩
    · exact ⟨h.context, h.calls, h.visited⟩
    · refine silent_extend ⟨h.context, h.calls, fun y hy hmem => ?_⟩
      have hne : y ≠ x := by
        rintro rfl
        exact hy ht
      exact List.mem_filter.mpr ⟨h.visited y hy hmem, bne_iff_ne.mpr hne⟩

/-- An action leaves the calls of its attempts. -/
theorem processAction_calls_eq : (processAction env plan x node σ).loop.calls =
      σ.calls ++ (runWithRetry env plan.globalPolicy node σ.context σ.world).calls ∧
    (processAction env plan x node σ).loop.context =
      (runWithRetry env plan.globalPolicy node σ.context σ.world).context ∧
    (processAction env plan x node σ).loop.visited = σ.visited := by
  unfold processAction
  dsimp only
  split
  · exact ⟨rfl, rfl, rfl⟩
  · split_ifs
    · exact ⟨rfl, rfl, rfl⟩
    · generalize nextNodes plan x _ none = r
      cases r with
      | ok next => exact ⟨rfl, rfl, rfl⟩
      | error e => exact ⟨rfl, rfl, rfl⟩

/-- **One turn** calls the runner for no node, or for one that it had not visited. -/
theorem turn_calls (env : Env W) (plan : Plan) (deadline : Instant) (σ : Loop W) :
    Silent plan σ (turn env plan deadline σ).loop ∨
      ∃ x node w, Runs env plan σ (turn env plan deadline σ).loop x node w := by
  have hself : Silent plan σ σ := ⟨rfl, rfl, fun _ _ h => h⟩
  unfold turn
  split
  · exact .inl hself
  · next x rest hq =>
    dsimp only
    split_ifs with hkilled hlate hskip
    · exact .inl ⟨rfl, rfl, fun _ _ h => h⟩
    · exact .inl ⟨rfl, rfl, fun _ _ h => h⟩
    · exact .inl ⟨rfl, rfl, fun _ _ h => h⟩
    · generalize hσ' : ({ σ with queue := rest, world := _, visited := insertId σ.visited x } : Loop W) = σ'
      have hsilent : Silent plan σ σ' := by
        subst hσ'
        exact ⟨rfl, rfl, fun y _ hy => mem_insertId.mpr (.inl hy)⟩
      unfold processNode
      split
      · exact .inl hsilent
      · next node hl =>
        have hentered : Silent plan σ (σ'.enter x) := ⟨hsilent.context, hsilent.calls, hsilent.visited⟩
        split
        · exact .inl (processCondition_silent hentered)
        · exact .inl (processDelay_silent hentered)
        · exact .inl (processApproval_silent hentered)
        · next ht => exact .inl (processLoop_silent ((typeOf_of_lookup hl).trans ht) hentered)
        · refine .inl (silent_extend ⟨hentered.context, hentered.calls, hentered.visited⟩)
        · next ht =>
          have hne : plan.typeOf x ≠ some .loop := by
            rw [typeOf_of_lookup hl, ht]
            decide
          obtain ⟨hcalls, hcontext, hvisited⟩ := @processAction_calls_eq W env plan (σ'.enter x) x node
          refine .inr ⟨x, node, σ'.world, hl, hne, fun hx => hskip ⟨hx, hne⟩, ?_, ?_, ?_⟩
          · rw [hcontext, hentered.context]
            rfl
          · rw [hcalls, hentered.calls, hentered.context]
            rfl
          · rw [hvisited, ← hσ']
            rfl
        · exact .inl (silent_extend hentered)

end Turns

/-- The loop invariant: the calls are for nodes that were visited, and no key was used twice. -/
structure KeysOnce (plan : Plan) (σ : Loop W) : Prop where
  context : NoColon σ.context.executionId
  called : ∀ c ∈ σ.calls, plan.typeOf c.nodeId ≠ some .loop ∧ c.nodeId ∈ σ.visited ∧ CalledFor c.nodeId 1 c
  once : (σ.calls.map (·.key)).Nodup

section Runs

variable {env : Env W} {plan : Plan} {doc : Dict} {σ σ' : Loop W}

theorem KeysOnce.silent (h : KeysOnce plan σ) (hs : Silent plan σ σ') : KeysOnce plan σ' := by
  refine ⟨hs.context ▸ h.context, fun c hc => ?_, hs.calls ▸ h.once⟩
  obtain ⟨ht, hv, hcalled⟩ := h.called c (hs.calls ▸ hc)
  exact ⟨ht, hs.visited c.nodeId ht hv, hcalled⟩

theorem KeysOnce.runs (h : KeysOnce plan σ) (hc : Compiled doc plan) (henv : UuidContexts env) {x : String}
    {node : Dict} {w : W} (hr : Runs env plan σ σ' x node w) : KeysOnce plan σ' := by
  have hid : (Dict.get node "id").text = x := by
    rw [(hc.node hr.lookup).1.2]
    rfl
  obtain ⟨hcontext, new, hnew, hcalled, hnodup⟩ := runWithRetry_keys henv plan.globalPolicy node σ.context w h.context
  rw [List.nil_append] at hnew
  rw [hid] at hcalled
  have hcalls : σ'.calls = σ.calls ++ new := by rw [hr.calls, hnew]
  refine ⟨hr.context ▸ hcontext, fun c hc => ?_, ?_⟩
  · rw [hcalls] at hc
    rw [hr.visited]
    rcases List.mem_append.mp hc with hc | hc
    · obtain ⟨ht, hv, hcalled⟩ := h.called c hc
      exact ⟨ht, mem_insertId.mpr (.inl hv), hcalled⟩
    · have hfor := hcalled c hc
      rw [hfor.1]
      exact ⟨hr.type, mem_insertId.mpr (.inr rfl), hfor⟩
  · rw [hcalls, List.map_append, List.nodup_append]
    refine ⟨h.once, hnodup, ?_⟩
    -- an earlier call was for a node that had been visited
    rintro key hkey key' hkey' rfl
    obtain ⟨c, hc, rfl⟩ := List.mem_map.mp hkey
    obtain ⟨c', hc', heq⟩ := List.mem_map.mp hkey'
    obtain ⟨-, hv, -, e, k, he, -, hck⟩ := h.called c hc
    obtain ⟨-, e', k', he', -, hck'⟩ := hcalled c' hc'
    have hsame := ((actionKey_iff he he').mp (hck.symm.trans (heq.symm.trans hck'))).2.1
    exact hr.fresh (hsame ▸ hv)

/-- **One turn** uses no key again. -/
theorem KeysOnce.step (h : KeysOnce plan σ) (hc : Compiled doc plan) (henv : UuidContexts env) (deadline : Instant) :
    KeysOnce plan (turn env plan deadline σ).loop := by
  rcases turn_calls env plan deadline σ with hs | ⟨x, node, w, hr⟩
  · exact h.silent hs
  · exact h.runs hc henv hr

/-- **A run** passes no key twice. -/
theorem execute_keys (hc : Compiled doc plan) (henv : UuidContexts env) (n : ℕ) {ctx : ExecutionContext}
    (hctx : NoColon ctx.executionId) (resumeFrom : Option (List String)) (w : W) :
    ((execute env plan n ctx resumeFrom w).loop.calls.map (·.key)).Nodup := by
  have hstart : KeysOnce plan (startLoop plan ctx resumeFrom w) :=
    ⟨hctx, fun c hc => absurd hc List.not_mem_nil, List.nodup_nil⟩
  exact (execute_inv hstart (fun deadline _ h => h.step hc henv deadline) n).once

end Runs

/-- **Action keys are exact**: a key tells the execution, the node and the attempt, a correlation the execution and the
node, and one run of a compiled plan, from its entry nodes or resumed, passes no key twice. -/
theorem action_keys_exact (sha256 : {digest : String → String // Function.Injective digest}) :
    (∀ e e' x x' k k', NoColon e → NoColon e' →
      (actionIdempotencyKey e x k = actionIdempotencyKey e' x' k' ↔ e = e' ∧ x = x' ∧ k = k') ∧
      (actionCorrelation sha256.1 (actionIdempotencyKey e x k) =
        actionCorrelation sha256.1 (actionIdempotencyKey e' x' k') ↔ e = e' ∧ x = x')) ∧
    ∀ py doc plan, compileWorkflow py doc = .ok plan → ∀ (W : Type) (env : Env W),
      UuidContexts env → ∀ n ctx resumeFrom w, NoColon ctx.executionId →
        ((execute env plan n ctx resumeFrom w).loop.calls.map (·.key)).Nodup := by
  refine ⟨fun e e' x x' k k' he he' => ⟨actionKey_iff he he', correlation_iff sha256.2 he he'⟩, ?_⟩
  intro py doc plan hplan W env henv n ctx resumeFrom w hctx
  exact execute_keys (compileWorkflow_ok hplan) henv n hctx resumeFrom w

/-- Nodes with a colon in their ids, and a run that retries. -/
theorem action_keys_sample : actionIdempotencyKey "e" "a:1" 1 ≠ actionIdempotencyKey "e" "a" 1 ∧
    ∃ plan, compileWorkflow plainInterpreter diamondRefund = .ok plan ∧
      ((execute failingEnv plan 9 sampleContext none ()).loop.calls.map (·.key)).Nodup := by
  have hexact := action_keys_exact ⟨id, Function.injective_id⟩
  refine ⟨fun h => ?_, ?_⟩
  · have hnode := ((hexact.1 "e" "e" "a:1" "a" 1 1 (by decide) (by decide)).1.mp h).2.1
    exact absurd hnode (by decide)
  · have hok : (compileWorkflow plainInterpreter diamondRefund).toOption.isSome = true := by decide +kernel
    exact ⟨_, eq_ok_get hok, hexact.2 plainInterpreter diamondRefund _ (eq_ok_get hok) Unit failingEnv
      (fun _ _ _ _ _ h => h) 9 sampleContext none () (by decide)⟩

end RevenueOS.Workflows
