import RevenueOS.Lib.Trace
import RevenueOS.Lib.Slots

/-!
# RevenueOS.Auth.Lockout — the lock of an account after failed logins

`lockout_state` and `next_lockout` (`infrastructure/auth/passwords.py`) and the two phases of `login`
(`application/auth/service.py`) on one account.  The first phase reads the counter and the deadline, the second
writes them from what the first one read.  Whether the password verifies is an argument of a login, and whether the
account and its tenant are active one of its first phase.  A login whose password was accepted opens a session or
asks for the second factor.

* `temporaryLock_iff`: a lock ends with its deadline exactly if no login records a fifth failure in a row.
-/

namespace RevenueOS.Auth

open RevenueOS.Lib

/-! ## The lock -/

/-- `MAX_FAILED_ATTEMPTS`. -/
def maxFailedAttempts : ℕ := 5

/-- `LOCKOUT_MINUTES`, in seconds. -/
def lockoutSeconds : ℕ := 15 * 60

/-- `lockout_state`: whether the account is locked, and for how many seconds. -/
def lockoutState (now failedCount : ℕ) (lockedUntil : Option ℕ) : Bool × ℕ :=
  match lockedUntil with
  | some deadline => if now < deadline then (true, deadline - now) else (decide (maxFailedAttempts ≤ failedCount), 0)
  | none => (decide (maxFailedAttempts ≤ failedCount), 0)

/-- `next_lockout`. -/
def nextLockout (now failedCount : ℕ) : Option ℕ :=
  if maxFailedAttempts ≤ failedCount + 1 then some (now + lockoutSeconds) else none

/-! ## Logins -/

inductive LoginCall where
  /-- The login began; `correct` says that the password verifies. -/
  | begun (correct : Bool)
  /-- The first phase found no lock. -/
  | resolved (correct accountOk : Bool) (failedCount : ℕ)
  /-- "This account is temporarily locked after repeated failed attempts." -/
  | locked
  /-- "Email or password is incorrect." -/
  | refused
  | accepted
deriving DecidableEq

structure AccountState where
  now : ℕ
  failedCount : ℕ
  lockedUntil : Option ℕ
  logins : List LoginCall
deriving DecidableEq

inductive LoginStep where
  | tick (seconds : ℕ)
  | begin (correct : Bool)
  | resolve (k : ℕ) (accountOk : Bool)
  | record (k : ℕ)
  /-- The process of a login ends. -/
  | drop (k : ℕ)

namespace AccountState

def start : AccountState := ⟨0, 0, none, []⟩

def setLogin (s : AccountState) (k : ℕ) (call : LoginCall) : AccountState := { s with logins := s.logins.set k call }

def step (s : AccountState) : LoginStep → AccountState
  | .tick seconds => { s with now := s.now + seconds }
  | .begin correct => { s with logins := s.logins ++ [.begun correct] }
  | .resolve k accountOk =>
    match s.logins[k]? with
    | some (.begun correct) =>
      if (lockoutState s.now s.failedCount s.lockedUntil).1 then s.setLogin k .locked
      else s.setLogin k (.resolved correct accountOk s.failedCount)
    | _ => s
  | .record k =>
    match s.logins[k]? with
    | some (.resolved correct accountOk failedCount) =>
      if !correct then
        { s.setLogin k .refused with failedCount := failedCount + 1, lockedUntil := nextLockout s.now failedCount }
      else if !accountOk then s.setLogin k .refused
      else { s.setLogin k .accepted with failedCount := 0, lockedUntil := none }
    | _ => s
  | .drop k =>
    match s.logins[k]? with
    | some (.begun _) => s.setLogin k .refused
    | some (.resolved _ _ _) => s.setLogin k .refused
    | _ => s

/-- The state after a login of the active account with the correct password. -/
def afterLogin (s : AccountState) : AccountState :=
  after step s [.begin true, .resolve s.logins.length true, .record s.logins.length]

end AccountState

/-! ## Temporary locks -/

/-- The login was accepted and reset the counter. -/
structure Accepts (s : AccountState) : Prop where
  accepted : s.afterLogin.logins[s.logins.length]? = some .accepted
  reset : s.afterLogin.failedCount = 0 ∧ s.afterLogin.lockedUntil = none

/-- Once the deadline has passed, a login with the correct password is accepted. -/
def AccountState.TemporaryLock (s : AccountState) : Prop :=
  ∀ seconds, (∀ deadline, s.lockedUntil = some deadline → deadline ≤ s.now + seconds) →
    Accepts (s.step (.tick seconds))

/-- A login that records a failure read fewer than four failures. -/
def NoFifthFailure (s : AccountState) : LoginStep → Prop
  | .record k =>
    match s.logins[k]? with
    | some (.resolved false _ failedCount) => failedCount + 1 < maxFailedAttempts
    | _ => True
  | _ => True

theorem lockoutState_of_passed {now failedCount : ℕ} {lockedUntil : Option ℕ}
    (h : ∀ deadline, lockedUntil = some deadline → deadline ≤ now) :
    (lockoutState now failedCount lockedUntil).1 = decide (maxFailedAttempts ≤ failedCount) := by
  unfold lockoutState
  cases lockedUntil with
  | none => rfl
  | some deadline =>
    dsimp only
    have hpassed := h deadline rfl
    rw [if_neg (by omega)]

/-- What a login with the correct password does. -/
theorem afterLogin_eq (s : AccountState) : s.afterLogin =
    if (lockoutState s.now s.failedCount s.lockedUntil).1 then { s with logins := s.logins ++ [.locked] }
    else ⟨s.now, 0, none, s.logins ++ [.accepted]⟩ := by
  have hlast : ∀ call : LoginCall, (s.logins ++ [call])[s.logins.length]? = some call :=
    fun call => List.getElem?_concat_length
  have hset : ∀ call call' : LoginCall, (s.logins ++ [call]).set s.logins.length call' = s.logins ++ [call'] := by
    intro call call'
    rw [List.set_append_right _ _ (Nat.le_refl _), Nat.sub_self, List.set_cons_zero]
  have hresolve : (s.step (.begin true)).step (.resolve s.logins.length true) =
      if (lockoutState s.now s.failedCount s.lockedUntil).1 then { s with logins := s.logins ++ [.locked] }
      else { s with logins := s.logins ++ [.resolved true true s.failedCount] } := by
    dsimp only [AccountState.step, AccountState.setLogin]
    rw [hlast]
    dsimp only
    rw [hset, hset]
  show ((s.step (.begin true)).step (.resolve s.logins.length true)).step (.record s.logins.length) = _
  rw [hresolve]
  by_cases hlocked : (lockoutState s.now s.failedCount s.lockedUntil).1 = true
  · rw [if_pos hlocked, if_pos hlocked]
    dsimp only [AccountState.step]
    rw [hlast]
  · rw [if_neg hlocked, if_neg hlocked]
    dsimp only [AccountState.step, AccountState.setLogin]
    rw [hlast]
    dsimp only
    rw [if_neg (by decide), if_neg (by decide), hset]

/-- A login after the deadline is judged by the counter alone. -/
theorem accepts_iff {s : AccountState} (h : ∀ deadline, s.lockedUntil = some deadline → deadline ≤ s.now) :
    Accepts s ↔ s.failedCount < maxFailedAttempts := by
  have hafter := afterLogin_eq s
  rw [lockoutState_of_passed h] at hafter
  by_cases hcount : s.failedCount < maxFailedAttempts
  · have hopen : ¬ decide (maxFailedAttempts ≤ s.failedCount) = true := by
      rw [decide_eq_true_iff]
      omega
    rw [if_neg hopen] at hafter
    refine ⟨fun _ => hcount, fun _ => ⟨?_, ?_⟩⟩
    · rw [hafter]
      exact List.getElem?_concat_length
    · rw [hafter]
      exact ⟨rfl, rfl⟩
  · have hlocked : decide (maxFailedAttempts ≤ s.failedCount) = true := by
      rw [decide_eq_true_iff]
      omega
    rw [if_pos hlocked] at hafter
    refine ⟨fun haccepts => ?_, fun hlt => absurd hlt hcount⟩
    have hlast := haccepts.accepted
    rw [hafter, List.getElem?_concat_length] at hlast
    cases hlast

/-- A lock is temporary while fewer than five failures are counted: no deadline is looked at after it has passed. -/
theorem temporaryLock_iff_count (s : AccountState) : s.TemporaryLock ↔ s.failedCount < maxFailedAttempts := by
  constructor
  · intro h
    have hpassed : ∀ deadline, s.lockedUntil = some deadline → deadline ≤ s.now + s.lockedUntil.getD 0 := by
      intro deadline hdeadline
      rw [hdeadline, Option.getD_some]
      omega
    exact (@accepts_iff (s.step (.tick _)) hpassed).mp (h _ hpassed)
  · intro hcount seconds hpassed
    exact (@accepts_iff (s.step (.tick seconds)) hpassed).mpr hcount

/-- A step keeps the count below five exactly if it records no fifth failure. -/
theorem count_step {s : AccountState} (h : s.failedCount < maxFailedAttempts) (l : LoginStep) :
    (s.step l).failedCount < maxFailedAttempts ↔ NoFifthFailure s l := by
  cases l with
  | tick seconds => exact iff_of_true h trivial
  | begin correct => exact iff_of_true h trivial
  | resolve k accountOk =>
    refine iff_of_true ?_ trivial
    dsimp only [AccountState.step]
    split
    · split_ifs
      · exact h
      · exact h
    · exact h
  | record k =>
    dsimp only [AccountState.step, NoFifthFailure]
    cases hk : s.logins[k]? with
    | none => exact iff_of_true h trivial
    | some call =>
      cases call with
      | resolved correct accountOk failedCount =>
        cases correct with
        | false => exact Iff.rfl
        | true =>
          refine iff_of_true ?_ trivial
          cases accountOk with
          | false => exact h
          | true => exact Nat.zero_lt_succ 4
      | _ => exact iff_of_true h trivial
  | drop k =>
    refine iff_of_true ?_ trivial
    dsimp only [AccountState.step]
    split
    · exact h
    · exact h
    · exact h

/-- **Locks are temporary exactly if no login records a fifth failure in a row.** -/
theorem temporaryLock_iff (steps : List LoginStep) :
    Always AccountState.step AccountState.TemporaryLock .start steps ↔
      Meets AccountState.step NoFifthFailure .start steps := by
  refine always_iff_meets_of_step (fun s l hs => ?_) steps _ ((temporaryLock_iff_count _).mpr (by decide))
  rw [temporaryLock_iff_count] at hs ⊢
  exact count_step hs l

/-! ## Five failures -/

/-- A login with a wrong password, one after the other. -/
def failedLogin (k : ℕ) : List LoginStep := [.begin false, .resolve k true, .record k]

def fiveFailures : List LoginStep := (List.range 5).flatMap failedLogin

/-- A day after the fifth failure the correct password is still refused. -/
theorem fiveFailures_lock_forever :
    ¬ Always AccountState.step AccountState.TemporaryLock .start fiveFailures := by
  intro h
  have hpassed : ∀ deadline, (after AccountState.step .start fiveFailures).lockedUntil = some deadline →
      deadline ≤ (after AccountState.step .start fiveFailures).now + 86400 := by
    intro deadline hdeadline
    have hlocked : (after AccountState.step .start fiveFailures).lockedUntil = some 900 := by decide
    rw [hlocked] at hdeadline
    cases hdeadline
    decide
  have haccepted := (always_last h 86400 hpassed).accepted
  exact absurd haccepted (by decide)

end RevenueOS.Auth
