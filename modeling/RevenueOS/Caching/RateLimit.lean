import RevenueOS.Lib.SlidingWindow
import RevenueOS.Lib.Table
import RevenueOS.Lib.Trace
import Mathlib.Data.Int.ConditionallyCompleteOrder

/-!
# RevenueOS.Caching.RateLimit — the sliding window of the rate limiter

`RateLimiter._eval` and its script (`infrastructure/caching/rate_limit.py`).  The sorted set of a subject holds an
entry for each call that was allowed and is not yet trimmed; the key may expire between two calls.  Where Redis gives
no answer, or the script fails, the call is allowed and nothing is counted.

* `limit_holds`: the calls that are allowed keep the limit in every interval of the window's length.
* `retry_after_iff`: a refused call is allowed again when it was told to come back exactly if the wait was at most a
  second, or a whole number of seconds; the conversion to seconds rounds the others down.

Times are milliseconds since the epoch; the numbers of the script are exact.
-/

namespace RevenueOS.Caching

open RevenueOS.Lib

/-! ## `RateLimiter._eval` -/

structure LimitPolicy where
  name : String
  limit : ℤ
  windowSeconds : ℤ

structure LimitDecision where
  allowed : Bool
  remaining : ℤ
  retryAfterSeconds : ℤ
  policy : String
deriving DecidableEq

/-- A member of the sorted set of a subject. -/
structure Entry where
  member : String
  score : ℤ
deriving DecidableEq

/-- The key of a subject. -/
abbrev SortedSet := Table Entry.member

/-- `ZREMRANGEBYSCORE key 0 bound`. -/
def trim (key : SortedSet) (bound : ℤ) : SortedSet :=
  key.deleteWhere fun e => 0 ≤ e.score && e.score ≤ bound

/-- `PEXPIRE key window`, which deletes the key if the time is not positive. -/
def pexpire (key : SortedSet) (window : ℤ) : SortedSet := if window ≤ 0 then .empty else key

/-- The score of the first member by rank. -/
def oldest? (key : SortedSet) : Option ℤ := (key.rows.map Entry.score).min?

/-- `_SCRIPT`: what it returns, unless it fails, and the key after it. -/
def script (key : SortedSet) (now window limit : ℤ) (member : String) : Option (ℤ × ℤ × ℤ) × SortedSet :=
  let key := trim key (now - window)
  let count : ℤ := key.rows.length
  if count < limit then (some (1, limit - count - 1, 0), pexpire (key.upsert ⟨member, now⟩) window)
  else
    match oldest? key with
    | some oldest => (some (0, 0, window - (now - oldest)), key)
    | none => (none, key)

/-- The decision of `_eval` on the reply of Redis. -/
def decisionOf (policy : LimitPolicy) : Option (ℤ × ℤ × ℤ) → LimitDecision
  | none => ⟨true, policy.limit, 0, policy.name⟩
  | some (allowed, remaining, retry) =>
    ⟨allowed ≠ 0, remaining, if allowed ≠ 0 then 0 else max 1 (retry.tdiv 1000), policy.name⟩

def LimitPolicy.windowMs (policy : LimitPolicy) : ℤ := policy.windowSeconds * 1000

/-- A call for the subject: whether its key has expired since the last one, and whether Redis answers. -/
structure Call where
  now : ℕ
  member : String
  expired : Bool
  answered : Bool

/-- The key that a call finds. -/
def found (key : SortedSet) (c : Call) : SortedSet := if c.expired then .empty else key

/-- `_eval`: the decision, and the key after it. -/
def evalLimit (policy : LimitPolicy) (key : SortedSet) (c : Call) : LimitDecision × SortedSet :=
  if c.answered then
    let reply := script (found key c) c.now policy.windowMs policy.limit c.member
    (decisionOf policy reply.1, reply.2)
  else (decisionOf policy none, found key c)

/-- The key after a call has trimmed it. -/
def live (policy : LimitPolicy) (key : SortedSet) (c : Call) : SortedSet :=
  trim (found key c) (c.now - policy.windowMs)

section Script

variable {p : LimitPolicy} {key : SortedSet} {c : Call} {oldest : ℤ}

theorem mem_trim {bound : ℤ} {e : Entry} (h : e ∈ (trim key bound).rows) : e ∈ key.rows :=
  (List.mem_filter.mp h).1

theorem mem_found {e : Entry} (h : e ∈ (found key c).rows) : e ∈ key.rows := by
  unfold found at h
  split_ifs at h with hexpired
  · cases h
  · exact h

/-- Trimming leaves the entries of the window. -/
theorem rows_trim {bound : ℤ} (hscores : ∀ e ∈ key.rows, 0 ≤ e.score) :
    (trim key bound).rows = key.rows.filter (bound < ·.score) := by
  refine List.filter_congr fun e he => ?_
  have hscore := hscores e he
  rw [Bool.eq_iff_iff, Bool.not_eq_true', Bool.and_eq_false_iff, decide_eq_false_iff_not, decide_eq_false_iff_not,
    decide_eq_true_iff]
  omega

theorem oldest_iff : oldest? key = some oldest ↔ IsLeast {t | ∃ e ∈ key.rows, e.score = t} oldest := by
  unfold oldest?
  rw [List.min?_eq_some_iff]
  constructor
  · rintro ⟨hmem, hle⟩
    refine ⟨List.mem_map.mp hmem, ?_⟩
    rintro t ⟨e, he, rfl⟩
    exact hle _ (List.mem_map_of_mem he)
  · rintro ⟨⟨e, he, rfl⟩, hle⟩
    refine ⟨List.mem_map_of_mem he, fun t ht => ?_⟩
    exact hle (List.mem_map.mp ht)

theorem exists_oldest (h : 0 < key.rows.length) : ∃ oldest, oldest? key = some oldest := by
  unfold oldest?
  refine Option.isSome_iff_exists.mp (List.isSome_min?_of_ne_nil ?_)
  exact List.ne_nil_of_length_pos (List.length_map Entry.score ▸ h)

/-- A call for which there is room. -/
theorem evalLimit_of_room (hanswered : c.answered = true) (hroom : ((live p key c).rows.length : ℤ) < p.limit) :
    evalLimit p key c = (⟨true, p.limit - (live p key c).rows.length - 1, 0, p.name⟩,
      pexpire ((live p key c).upsert ⟨c.member, c.now⟩) p.windowMs) := by
  unfold live at hroom ⊢
  unfold evalLimit script
  rw [if_pos hanswered]
  dsimp only
  rw [if_pos hroom]
  rfl

/-- A call for which there is none. -/
theorem evalLimit_of_full (hanswered : c.answered = true) (hfull : p.limit ≤ (live p key c).rows.length)
    (holdest : oldest? (live p key c) = some oldest) :
    evalLimit p key c =
      (⟨false, 0, max 1 ((p.windowMs - (c.now - oldest)).tdiv 1000), p.name⟩, live p key c) := by
  unfold live at hfull holdest ⊢
  unfold evalLimit script
  rw [if_pos hanswered]
  dsimp only
  rw [if_neg (not_lt.mpr hfull), holdest]
  rfl

/-- Without an entry the script fails. -/
theorem evalLimit_of_failing (hanswered : c.answered = true) (hfull : p.limit ≤ (live p key c).rows.length)
    (hnone : oldest? (live p key c) = none) :
    evalLimit p key c = (⟨true, p.limit, 0, p.name⟩, live p key c) := by
  unfold live at hfull hnone ⊢
  unfold evalLimit script
  rw [if_pos hanswered]
  dsimp only
  rw [if_neg (not_lt.mpr hfull), hnone]
  rfl

theorem evalLimit_of_outage (h : c.answered = false) :
    evalLimit p key c = (⟨true, p.limit, 0, p.name⟩, found key c) := by
  unfold evalLimit
  rw [if_neg (by simp [h])]
  rfl

end Script

/-! ## The limit -/

/-- The key of a subject, and the times of the calls that were allowed, the latest first. -/
structure LimitRun where
  key : SortedSet
  allowed : List ℤ

namespace LimitRun

def start : LimitRun := ⟨.empty, []⟩

variable (p : LimitPolicy)

def decision (s : LimitRun) (c : Call) : LimitDecision := (evalLimit p s.key c).1

def step (s : LimitRun) (c : Call) : LimitRun :=
  ⟨(evalLimit p s.key c).2, if (s.decision p c).allowed then c.now :: s.allowed else s.allowed⟩

end LimitRun

/-- Redis runs the script, and has expired no key of a call in the window. -/
def Served (p : LimitPolicy) (s : LimitRun) (c : Call) : Prop :=
  c.answered = true ∧ (c.expired = true → ∀ e ∈ s.key.rows, e.score + p.windowMs ≤ c.now)

/-- What the limiter promises of a call. -/
structure Limited (p : LimitPolicy) (s : LimitRun) (c : Call) : Prop where
  /-- At most `limit` of the calls so far are in an interval of the window's length. -/
  interval : ∀ a : ℤ, ((s.step p c).allowed.countP fun t => a ≤ t && t < a + p.windowMs) ≤ p.limit ∧
    ((s.step p c).allowed.countP fun t => a < t && t ≤ a + p.windowMs) ≤ p.limit
  /-- A call is refused if `limit` calls were allowed in the window before it. -/
  refused : (s.decision p c).allowed = false → p.limit ≤ since (c.now - p.windowMs) s.allowed
  /-- What remains is the rest of the limit. -/
  remaining : (s.decision p c).remaining = p.limit - since (c.now - p.windowMs) (s.step p c).allowed

/-- What holds between two calls, given those to come. -/
structure LimitRun.Inv (p : LimitPolicy) (s : LimitRun) (later : List Call) : Prop where
  scores : ∀ e ∈ s.key.rows, 0 ≤ e.score
  fresh : ∀ e ∈ s.key.rows, ∀ c ∈ later, e.member ≠ c.member
  past : ∀ t ∈ s.allowed, ∀ c ∈ later, t ≤ c.now
  ordered : s.allowed.Pairwise (· ≥ ·)
  paced : Paced p.limit.toNat p.windowMs s.allowed
  /-- The entries of a window are the calls allowed in it. -/
  counted : ∀ c ∈ later, s.key.rows.countP (c.now - p.windowMs < ·.score) = since (c.now - p.windowMs) s.allowed

section Runs

variable {p : LimitPolicy} {s : LimitRun} {c : Call} {later : List Call}

/-- A key that expires holds no entry of the window. -/
theorem Served.countP_found (h : Served p s c) {bound : ℤ} (hbound : c.now - p.windowMs ≤ bound) :
    (found s.key c).rows.countP (bound < ·.score) = s.key.rows.countP (bound < ·.score) := by
  unfold found
  split_ifs with hexpired
  · refine (List.countP_eq_zero.mpr fun e he hlate => ?_).symm
    have hold := h.2 hexpired e he
    have hlate := of_decide_eq_true hlate
    omega
  · rfl

/-- After the trim, too. -/
theorem LimitRun.Inv.countP_live (h : s.Inv p (c :: later)) (hserved : Served p s c) {bound : ℤ}
    (hbound : c.now - p.windowMs ≤ bound) :
    (live p s.key c).rows.countP (bound < ·.score) = s.key.rows.countP (bound < ·.score) := by
  rw [← hserved.countP_found hbound, live, rows_trim fun e he => h.scores e (mem_found he), List.countP_filter]
  refine List.countP_congr fun e _ => ?_
  rw [Bool.and_eq_true, decide_eq_true_iff, decide_eq_true_iff]
  omega

/-- The entries left after the trim are the calls that were allowed in the window. -/
theorem LimitRun.Inv.length_live (h : s.Inv p (c :: later)) (hserved : Served p s c) :
    (live p s.key c).rows.length = since (c.now - p.windowMs) s.allowed := by
  have hall : (live p s.key c).rows.countP (c.now - p.windowMs < ·.score) = (live p s.key c).rows.length := by
    rw [List.countP_eq_length, live, rows_trim fun e he => h.scores e (mem_found he)]
    exact fun e he => (List.mem_filter.mp he).2
  rw [← hall, h.countP_live hserved (le_refl _), h.counted c List.mem_cons_self]

/-- What a call does, where the limit is positive. -/
theorem LimitRun.Inv.cases (hlimit : 0 < p.limit) (hwindow : 0 < p.windowMs) (h : s.Inv p (c :: later))
    (hserved : Served p s c) :
    ((since (c.now - p.windowMs) s.allowed : ℤ) < p.limit ∧ (s.decision p c).allowed = true ∧
        (s.decision p c).remaining = p.limit - since (c.now - p.windowMs) s.allowed - 1 ∧
        (s.step p c).allowed = (c.now : ℤ) :: s.allowed ∧
        (s.step p c).key.rows = (live p s.key c).rows ++ [⟨c.member, c.now⟩]) ∨
      (p.limit ≤ since (c.now - p.windowMs) s.allowed ∧ (s.decision p c).allowed = false ∧
        (s.decision p c).remaining = 0 ∧ (s.step p c).allowed = s.allowed ∧
        (s.step p c).key.rows = (live p s.key c).rows) := by
  have hlength := h.length_live hserved
  by_cases hroom : ((live p s.key c).rows.length : ℤ) < p.limit
  · left
    have heval := evalLimit_of_room hserved.1 hroom
    have hfree : (live p s.key c).find? c.member = none := by
      refine List.find?_eq_none.mpr fun e he hsame => ?_
      exact h.fresh e (mem_found (mem_trim he)) c List.mem_cons_self (of_decide_eq_true hsame)
    unfold LimitRun.step LimitRun.decision
    rw [heval, ← hlength]
    refine ⟨hroom, rfl, rfl, rfl, ?_⟩
    unfold pexpire
    rw [if_neg (not_le.mpr hwindow)]
    exact Table.rows_upsert_of_none hfree
  · right
    rw [not_lt] at hroom
    have hsome : 0 < (live p s.key c).rows.length := by omega
    obtain ⟨oldest, holdest⟩ := exists_oldest hsome
    have heval := evalLimit_of_full hserved.1 hroom holdest
    unfold LimitRun.step LimitRun.decision
    rw [heval, ← hlength]
    exact ⟨hroom, rfl, rfl, rfl, rfl⟩

theorem LimitRun.Inv.step (hlimit : 0 < p.limit) (hwindow : 0 < p.windowMs) (h : s.Inv p (c :: later))
    (hserved : Served p s c) (hlater : ∀ c' ∈ later, c.now ≤ c'.now) (hdistinct : ∀ c' ∈ later, c.member ≠ c'.member) :
    (s.step p c).Inv p later := by
  have hbound : ∀ c' ∈ later, (c.now : ℤ) - p.windowMs ≤ c'.now - p.windowMs := fun c' hc' => by
    have := hlater c' hc'
    omega
  have hlive : ∀ e ∈ (live p s.key c).rows, e ∈ s.key.rows := fun e he => mem_found (mem_trim he)
  have hcounted : ∀ c' ∈ later, (live p s.key c).rows.countP (c'.now - p.windowMs < ·.score) =
      since (c'.now - p.windowMs) s.allowed := fun c' hc' => by
    rw [h.countP_live hserved (hbound c' hc'), h.counted c' (List.mem_cons_of_mem c hc')]
  rcases h.cases hlimit hwindow hserved with ⟨hroom, -, -, hallowed, hrows⟩ | ⟨-, -, -, hallowed, hrows⟩
  · refine ⟨?_, ?_, ?_, ?_, ?_, ?_⟩
    · rw [hrows]
      intro e he
      rcases List.mem_append.mp he with hold | hnew
      · exact h.scores e (hlive e hold)
      · rw [List.mem_singleton.mp hnew]
        exact Int.natCast_nonneg c.now
    · rw [hrows]
      intro e he c' hc'
      rcases List.mem_append.mp he with hold | hnew
      · exact h.fresh e (hlive e hold) c' (List.mem_cons_of_mem c hc')
      · rw [List.mem_singleton.mp hnew]
        exact hdistinct c' hc'
    · rw [hallowed]
      intro t ht c' hc'
      rcases List.mem_cons.mp ht with rfl | hold
      · exact Int.ofNat_le.mpr (hlater c' hc')
      · exact h.past t hold c' (List.mem_cons_of_mem c hc')
    · rw [hallowed, List.pairwise_cons]
      exact ⟨fun t ht => h.past t ht c List.mem_cons_self, h.ordered⟩
    · rw [hallowed]
      exact ⟨by omega, h.paced⟩
    · rw [hallowed, hrows]
      intro c' hc'
      rw [List.countP_append, hcounted c' hc', since_cons, List.countP_cons, List.countP_nil]
      simp only [decide_eq_true_eq, Nat.zero_add]
  · refine ⟨?_, ?_, ?_, ?_, ?_, ?_⟩
    · rw [hrows]
      exact fun e he => h.scores e (hlive e he)
    · rw [hrows]
      exact fun e he c' hc' => h.fresh e (hlive e he) c' (List.mem_cons_of_mem c hc')
    · rw [hallowed]
      exact fun t ht c' hc' => h.past t ht c' (List.mem_cons_of_mem c hc')
    · rw [hallowed]
      exact h.ordered
    · rw [hallowed]
      exact h.paced
    · rw [hallowed, hrows]
      exact hcounted

/-- What the invariant gives after a call. -/
theorem LimitRun.Inv.limited (hlimit : 0 < p.limit) (hwindow : 0 < p.windowMs) (h : s.Inv p (c :: later))
    (hserved : Served p s c) (hafter : (s.step p c).Inv p later) : Limited p s c where
  interval a := by
    have hclosed := @Paced.interval_le _ _ (fun t => decide (a ≤ t) && decide (t < a + p.windowMs)) (fun t t' ht ht' => by
      simp only [Bool.and_eq_true, decide_eq_true_eq] at ht ht'
      omega) _ hafter.ordered hafter.paced
    have hopen := @Paced.interval_le _ _ (fun t => decide (a < t) && decide (t ≤ a + p.windowMs)) (fun t t' ht ht' => by
      simp only [Bool.and_eq_true, decide_eq_true_eq] at ht ht'
      omega) _ hafter.ordered hafter.paced
    omega
  refused hrefused := by
    rcases h.cases hlimit hwindow hserved with ⟨-, hallowed, -⟩ | ⟨hfull, -⟩
    · rw [hallowed] at hrefused
      cases hrefused
    · exact hfull
  remaining := by
    rcases h.cases hlimit hwindow hserved with ⟨-, -, hremaining, hallowed, -⟩ | ⟨hfull, -, hremaining, hallowed, -⟩
    · have hnow : (c.now : ℤ) - p.windowMs < c.now := by omega
      rw [hremaining, hallowed]
      rw [since_cons, if_pos hnow]
      push_cast
      omega
    · have hkept := h.paced.since_le h.ordered fun t ht => h.past t ht c List.mem_cons_self
      rw [hremaining, hallowed]
      omega

/-- **The sliding window holds**: for calls at times that do not decrease, with members of their own, no interval of
the window's length holds more than `limit` that were allowed, a call is refused if there is no room for it, and what
remains is what is left of the limit. -/
theorem limit_holds {calls : List Call} (hlimit : 0 < p.limit) (hwindow : 0 < p.windowSeconds)
    (horder : calls.Pairwise fun c c' => c.now ≤ c'.now) (hdistinct : (calls.map Call.member).Nodup)
    (hserved : Meets (LimitRun.step p) (Served p) .start calls) :
    Meets (LimitRun.step p) (Limited p) .start calls := by
  have hwindow : 0 < p.windowMs := Int.mul_pos hwindow (by decide)
  have hrun : ∀ (calls : List Call) (s : LimitRun), (calls.Pairwise fun c c' => c.now ≤ c'.now) →
      (calls.map Call.member).Nodup → s.Inv p calls → Meets (LimitRun.step p) (Served p) s calls →
        Meets (LimitRun.step p) (Limited p) s calls := by
    intro calls
    induction calls with
    | nil => exact fun _ _ _ _ _ => trivial
    | cons c later ih =>
      intro s horder hdistinct h hserved
      obtain ⟨hlater, hrest⟩ := List.pairwise_cons.mp horder
      rw [List.map_cons, List.nodup_cons] at hdistinct
      have hfresh : ∀ c' ∈ later, c.member ≠ c'.member := fun c' hc' hsame =>
        hdistinct.1 (hsame ▸ List.mem_map_of_mem hc')
      have hafter := h.step hlimit hwindow hserved.1 hlater hfresh
      exact ⟨h.limited hlimit hwindow hserved.1 hafter, ih _ hrest hdistinct.2 hafter hserved.2⟩
  refine hrun calls .start horder hdistinct ⟨?_, ?_, ?_, .nil, trivial, fun _ _ => rfl⟩ hserved
  · exact fun e he => absurd he List.not_mem_nil
  · exact fun e he => absurd he List.not_mem_nil
  · exact fun t ht => absurd ht List.not_mem_nil

end Runs

instance (p : LimitPolicy) (s : LimitRun) (c : Call) : Decidable (Served p s c) :=
  inferInstanceAs (Decidable (c.answered = true ∧ (c.expired = true → ∀ e ∈ s.key.rows, e.score + p.windowMs ≤ c.now)))

/-- Two calls in a second, a third that is refused, and one after the key has expired. -/
def twoInASecond : List Call :=
  [⟨1000, "a", false, true⟩, ⟨1400, "b", false, true⟩, ⟨1900, "c", false, true⟩, ⟨2400, "d", true, true⟩]

theorem limit_holds_twoInASecond : (0 : ℤ) < 2 ∧ (0 : ℤ) < 1 ∧ (twoInASecond.Pairwise fun c c' => c.now ≤ c'.now) ∧
    (twoInASecond.map Call.member).Nodup ∧ Meets (LimitRun.step ⟨"two", 2, 1⟩) (Served ⟨"two", 2, 1⟩) .start twoInASecond ∧
      Meets (LimitRun.step ⟨"two", 2, 1⟩) (Limited ⟨"two", 2, 1⟩) .start twoInASecond := by
  have horder : twoInASecond.Pairwise fun c c' => c.now ≤ c'.now := by decide
  have hdistinct : (twoInASecond.map Call.member).Nodup := by decide
  have hserved : Meets (LimitRun.step ⟨"two", 2, 1⟩) (Served ⟨"two", 2, 1⟩) .start twoInASecond := by decide
  exact ⟨by decide, by decide, horder, hdistinct, hserved,
    @limit_holds ⟨"two", 2, 1⟩ twoInASecond (by decide) (by decide) horder hdistinct hserved⟩

/-! ## The wait -/

/-- The oldest call in the window of a call that was not forgotten with the key. -/
def OldestInWindow (p : LimitPolicy) (key : SortedSet) (c : Call) (oldest : ℤ) : Prop :=
  IsLeast {t | c.now - p.windowMs < t ∧ ∃ e ∈ (found key c).rows, e.score = t} oldest

/-- The wait for the oldest call to leave the window is at most a second, or a whole number of seconds. -/
def WholeSeconds (p : LimitPolicy) (key : SortedSet) (c : Call) : Prop :=
  ∀ oldest, OldestInWindow p key c oldest →
    p.windowMs - (c.now - oldest) ≤ 1000 ∨ (1000 : ℤ) ∣ p.windowMs - (c.now - oldest)

/-- What the wait of a refused call promises: the next call, from then on, is allowed. -/
def RetryHonoured (p : LimitPolicy) (s : LimitRun) (c : Call) : Prop :=
  ∀ next : Call, (c.now : ℤ) + 1000 * (s.decision p c).retryAfterSeconds ≤ next.now →
    ((s.step p c).decision p next).allowed = true

/-- A key that calls have left: no score is negative, and it holds at most `limit` entries. -/
structure Filled (p : LimitPolicy) (key : SortedSet) : Prop where
  scores : ∀ e ∈ key.rows, 0 ≤ e.score
  few : (key.rows.length : ℤ) ≤ max 0 p.limit

section Waits

variable {p : LimitPolicy} {key : SortedSet} {s : LimitRun} {c : Call} {oldest : ℤ}

theorem Filled.found (h : Filled p key) : Filled p (found key c) := by
  unfold Caching.found
  split_ifs
  · exact ⟨fun e he => absurd he List.not_mem_nil, le_max_left 0 p.limit⟩
  · exact h

theorem Filled.live (h : Filled p key) : Filled p (live p key c) := by
  have hfound : Filled p (Caching.found key c) := h.found
  refine ⟨fun e he => hfound.scores e (mem_trim he), le_trans ?_ hfound.few⟩
  exact Int.ofNat_le.mpr (List.length_filter_le _ _)

theorem Filled.evalLimit (h : Filled p key) : Filled p (evalLimit p key c).2 := by
  cases hanswered : c.answered with
  | false =>
    rw [evalLimit_of_outage hanswered]
    exact h.found
  | true =>
    have hlive : Filled p (Caching.live p key c) := h.live
    by_cases hroom : ((Caching.live p key c).rows.length : ℤ) < p.limit
    · rw [evalLimit_of_room hanswered hroom]
      show Filled p (pexpire _ _)
      unfold pexpire
      split_ifs
      · exact ⟨fun e he => absurd he List.not_mem_nil, le_max_left 0 p.limit⟩
      · refine ⟨fun e he => ?_, ?_⟩
        · rcases Table.mem_upsert he with rfl | hold
          · exact Int.natCast_nonneg c.now
          · exact hlive.scores e hold
        · have hlength := Table.length_upsert_le (Caching.live p key c) ⟨c.member, c.now⟩
          omega
    · rw [not_lt] at hroom
      cases holdest : oldest? (Caching.live p key c) with
      | none =>
        rw [evalLimit_of_failing hanswered hroom holdest]
        exact hlive
      | some oldest =>
        rw [evalLimit_of_full hanswered hroom holdest]
        exact hlive

theorem Filled.of_run (history : List Call) : Filled p (after (LimitRun.step p) LimitRun.start history).key := by
  refine inv_after (fun s : LimitRun => Filled p s.key) (C := fun _ _ => True) (fun s c h _ => h.evalLimit) history
    LimitRun.start ?_ (meets_of_forall (fun _ _ => trivial) history LimitRun.start)
  exact ⟨fun e he => absurd he List.not_mem_nil, le_max_left 0 p.limit⟩

/-- The script finds the oldest call in the window. -/
theorem Filled.oldest_iff (h : Filled p key) :
    oldest? (Caching.live p key c) = some oldest ↔ OldestInWindow p key c oldest := by
  have hset : {t | ∃ e ∈ (Caching.live p key c).rows, e.score = t} =
      {t | c.now - p.windowMs < t ∧ ∃ e ∈ (Caching.found key c).rows, e.score = t} := by
    ext t
    have hfound : Filled p (Caching.found key c) := h.found
    rw [Caching.live, rows_trim hfound.scores]
    constructor
    · rintro ⟨e, he, rfl⟩
      obtain ⟨hmem, hlate⟩ := List.mem_filter.mp he
      exact ⟨of_decide_eq_true hlate, e, hmem, rfl⟩
    · rintro ⟨hlate, e, he, rfl⟩
      exact ⟨e, List.mem_filter.mpr ⟨he, decide_eq_true hlate⟩, rfl⟩
  rw [Caching.oldest_iff, hset]
  rfl

/-- A call that is refused: the window is full, and the wait is that of its oldest call. -/
theorem refused_cases (hfilled : Filled p key) (h : (evalLimit p key c).1.allowed = false) :
    c.answered = true ∧ 0 < p.limit ∧ (live p key c).rows.length = p.limit ∧
      ∃ oldest, OldestInWindow p key c oldest ∧ evalLimit p key c =
        (⟨false, 0, max 1 ((p.windowMs - (c.now - oldest)).tdiv 1000), p.name⟩, live p key c) := by
  cases hanswered : c.answered with
  | false =>
    rw [evalLimit_of_outage hanswered] at h
    cases h
  | true =>
    by_cases hroom : ((live p key c).rows.length : ℤ) < p.limit
    · rw [evalLimit_of_room hanswered hroom] at h
      cases h
    · rw [not_lt] at hroom
      cases holdest : oldest? (live p key c) with
      | none =>
        rw [evalLimit_of_failing hanswered hroom holdest] at h
        cases h
      | some oldest =>
        have hfew := (hfilled.live (c := c)).few
        have hsome : 0 < (live p key c).rows.length := by
          obtain ⟨⟨e, he, -⟩, -⟩ := oldest_iff.mp holdest
          exact List.length_pos_of_mem he
        exact ⟨rfl, by omega, by omega, oldest, hfilled.oldest_iff.mp holdest,
          evalLimit_of_full hanswered hroom holdest⟩

/-- The wait, rounded down to seconds but not to less than one, is long enough exactly for whole seconds. -/
theorem wait_le_iff {wait : ℤ} (h : 0 < wait) :
    wait ≤ 1000 * max 1 (wait.tdiv 1000) ↔ wait ≤ 1000 ∨ (1000 : ℤ) ∣ wait := by
  rw [Int.tdiv_eq_ediv_of_nonneg (le_of_lt h)]
  omega

/-- The oldest call leaves the window when its wait is over. -/
theorem length_live_lt {next : Call} (hfilled : Filled p key) (holdest : IsLeast {t | ∃ e ∈ key.rows, e.score = t} oldest)
    (hlater : oldest + p.windowMs ≤ next.now) : (live p key next).rows.length < key.rows.length := by
  obtain ⟨⟨e, he, rfl⟩, -⟩ := holdest
  unfold live found
  split_ifs
  · exact List.length_pos_of_mem he
  · rw [rows_trim hfilled.scores, List.length_filter_lt_length_iff_exists]
    refine ⟨e, he, ?_⟩
    rw [decide_eq_true_iff]
    omega

/-- Until then the window stays full. -/
theorem refused_again {next : Call} (hfilled : Filled p key) (hfull : p.limit ≤ key.rows.length)
    (holdest : IsLeast {t | ∃ e ∈ key.rows, e.score = t} oldest) (hanswered : next.answered = true)
    (hexpired : next.expired = false) (hearly : next.now < oldest + p.windowMs) :
    (evalLimit p key next).1.allowed = false := by
  have hsame : (live p key next).rows = key.rows := by
    unfold live found
    rw [if_neg (by simp [hexpired]), rows_trim hfilled.scores, List.filter_eq_self]
    intro e he
    have hle := holdest.2 ⟨e, he, rfl⟩
    rw [decide_eq_true_iff]
    omega
  have hfound : oldest? (live p key next) = some oldest := by
    rw [oldest_iff, hsame]
    exact holdest
  rw [evalLimit_of_full hanswered (by rw [hsame]; exact hfull) hfound]

/-- **A refused call may come back when it was told exactly if** the wait is at most a second, or a whole number of
seconds. -/
theorem retry_after_iff (p : LimitPolicy) (history : List Call) (c : Call)
    (hrefused : ((after (LimitRun.step p) .start history).decision p c).allowed = false) :
    RetryHonoured p (after (LimitRun.step p) .start history) c ↔
      WholeSeconds p (after (LimitRun.step p) .start history).key c := by
  have hfilled := Filled.of_run (p := p) history
  generalize after (LimitRun.step p) .start history = s at hrefused hfilled ⊢
  obtain ⟨hanswered, hlimit, hfull, oldest, holdest, heval⟩ := refused_cases hfilled hrefused
  have hlive : Filled p (live p s.key c) := hfilled.live
  have hleast := oldest_iff.mp (hfilled.oldest_iff.mpr holdest)
  have hwait : 0 < p.windowMs - (c.now - oldest) := by
    have := holdest.1.1
    omega
  have hwhole : WholeSeconds p s.key c ↔
      p.windowMs - (c.now - oldest) ≤ 1000 * max 1 ((p.windowMs - (c.now - oldest)).tdiv 1000) := by
    rw [wait_le_iff hwait]
    exact ⟨fun h => h oldest holdest, fun h oldest' holdest' => holdest.unique holdest' ▸ h⟩
  have hhonoured : RetryHonoured p s c ↔ ∀ next : Call,
      (c.now : ℤ) + 1000 * max 1 ((p.windowMs - (c.now - oldest)).tdiv 1000) ≤ next.now →
        (evalLimit p (live p s.key c) next).1.allowed = true := by
    unfold RetryHonoured LimitRun.step LimitRun.decision
    rw [heval]
  rw [hwhole, hhonoured]
  constructor
  · intro h
    by_contra hearly
    -- a call at that very time finds every call of the window
    let next : Call :=
      ⟨(c.now + 1000 * max 1 ((p.windowMs - (c.now - oldest)).tdiv 1000)).toNat, "", false, true⟩
    have hnow : (next.now : ℤ) = c.now + 1000 * max 1 ((p.windowMs - (c.now - oldest)).tdiv 1000) :=
      Int.toNat_of_nonneg (by omega)
    have hallowed := h next (le_of_eq hnow.symm)
    have hstill : (next.now : ℤ) < oldest + p.windowMs := by omega
    have hrefused := refused_again hlive (le_of_eq hfull.symm) hleast rfl rfl hstill
    rw [hrefused] at hallowed
    cases hallowed
  · intro hlong next hnext
    have hlater : oldest + p.windowMs ≤ next.now := by omega
    have hroom := length_live_lt hlive hleast hlater
    cases hagain : next.answered with
    | false => rw [evalLimit_of_outage hagain]
    | true => rw [evalLimit_of_room hagain (by omega)]

end Waits

/-- `POLICIES["login_ip"]`. -/
def loginIp : LimitPolicy := ⟨"login_ip", 5, 900⟩

/-- Five calls at one time, and one more half a second later. -/
def sixCalls : List Call :=
  [⟨1000, "a", false, true⟩, ⟨1000, "b", false, true⟩, ⟨1000, "c", false, true⟩, ⟨1000, "d", false, true⟩,
    ⟨1000, "e", false, true⟩]

/-- A call after a whole number of seconds. -/
theorem retry_after_iff_wholeSeconds :
    ((after (LimitRun.step loginIp) .start sixCalls).decision loginIp ⟨3000, "f", false, true⟩).allowed = false ∧
      (RetryHonoured loginIp (after (LimitRun.step loginIp) .start sixCalls) ⟨3000, "f", false, true⟩ ↔
        WholeSeconds loginIp (after (LimitRun.step loginIp) .start sixCalls).key ⟨3000, "f", false, true⟩) := by
  have hrefused : ((after (LimitRun.step loginIp) .start sixCalls).decision loginIp
      ⟨3000, "f", false, true⟩).allowed = false := by decide
  exact ⟨hrefused, retry_after_iff loginIp sixCalls ⟨3000, "f", false, true⟩ hrefused⟩

/-- Half a second later the wait is rounded down: who comes back in time is refused again. -/
theorem sixCalls_refused_again :
    ((after (LimitRun.step loginIp) .start sixCalls).decision loginIp ⟨1500, "f", false, true⟩) =
        ⟨false, 0, 899, "login_ip"⟩ ∧
      ¬RetryHonoured loginIp (after (LimitRun.step loginIp) .start sixCalls) ⟨1500, "f", false, true⟩ := by
  have hrefused : ((after (LimitRun.step loginIp) .start sixCalls).decision loginIp ⟨1500, "f", false, true⟩) =
      ⟨false, 0, 899, "login_ip"⟩ := by decide
  refine ⟨hrefused, fun h => ?_⟩
  have hallowed := h ⟨900500, "g", false, true⟩ (by rw [hrefused]; decide)
  have hagain : (((after (LimitRun.step loginIp) .start sixCalls).step loginIp ⟨1500, "f", false, true⟩).decision
      loginIp ⟨900500, "g", false, true⟩).allowed = false := by decide
  rw [hagain] at hallowed
  cases hallowed

end RevenueOS.Caching
