import RevenueOS.Auth.Lockout

/-!
# RevenueOS.Auth.Guesses — guesses at a password, at the same time

Logins with wrong passwords on one account, in any overlap of their two phases.  A login writes the counter it read
plus one, so a failure that another login recorded in between is forgotten, and with it the lock.

* `guesses_counted_iff`: every guess is counted, up to the lock, exactly if every login that records its failure finds
  the counter that it read.
-/

namespace RevenueOS.Auth

open RevenueOS.Lib

/-! ## Guesses -/

/-- A step of logins that all have a wrong password. -/
inductive GuessStep where
  | tick (seconds : ℕ)
  | begin
  | resolve (k : ℕ) (accountOk : Bool)
  | record (k : ℕ)

def GuessStep.toLogin : GuessStep → LoginStep
  | .tick seconds => .tick seconds
  | .begin => .begin false
  | .resolve k accountOk => .resolve k accountOk
  | .record k => .record k

namespace AccountState

def guess (s : AccountState) (l : GuessStep) : AccountState := s.step l.toLogin

def Locked (s : AccountState) : Prop := (lockoutState s.now s.failedCount s.lockedUntil).1 = true

/-- The guesses that were answered with "Email or password is incorrect." -/
def refusals (s : AccountState) : ℕ := s.logins.countP (· = .refused)

/-- Every login was answered. -/
def Finished (s : AccountState) : Prop := ∀ login ∈ s.logins, login = .refused ∨ login = .locked

/-- No guess is lost, on an account that had some failures before. -/
structure NoneLost (failures : ℕ) (s : AccountState) : Prop where
  counted : s.failedCount = failures + s.refusals ∨ s.Locked
  bounded : failures + s.refusals ≤ maxFailedAttempts
  finished : s.Finished → s.failedCount = failures + s.logins.length ∨ s.Locked

end AccountState

/-- A login that records its failure finds the counter that it read. -/
def CountUnmoved (s : AccountState) : GuessStep → Prop
  | .record k =>
    match s.logins[k]? with
    | some (.resolved _ _ failedCount) => s.failedCount = failedCount
    | _ => True
  | _ => True

/-! ## What holds while every guess is counted -/

/-- What is known of a login, given the counter. -/
def LoginCall.Guess (failedCount : ℕ) : LoginCall → Prop
  | .begun correct => correct = false
  | .resolved correct _ count => correct = false ∧ count < maxFailedAttempts ∧ count ≤ failedCount
  | .locked => maxFailedAttempts ≤ failedCount
  | .refused => True
  | .accepted => False

structure AccountState.Counted (failures : ℕ) (s : AccountState) : Prop where
  count : s.failedCount = failures + s.refusals
  bounded : s.failedCount ≤ maxFailedAttempts
  passed : s.failedCount < maxFailedAttempts → ∀ deadline, s.lockedUntil = some deadline → deadline ≤ s.now
  logins : ∀ (k : ℕ) (login : LoginCall), s.logins[k]? = some login → login.Guess s.failedCount

theorem locked_of_count {s : AccountState} (h : maxFailedAttempts ≤ s.failedCount) : s.Locked := by
  unfold AccountState.Locked lockoutState
  cases s.lockedUntil with
  | none => exact decide_eq_true h
  | some deadline =>
    dsimp only
    split_ifs
    · rfl
    · exact decide_eq_true h

theorem AccountState.Counted.locked_iff {failures : ℕ} {s : AccountState} (h : s.Counted failures) :
    s.Locked ↔ maxFailedAttempts ≤ s.failedCount := by
  refine ⟨fun hlocked => ?_, locked_of_count⟩
  by_contra hopen
  have hcount : s.failedCount < maxFailedAttempts := by omega
  unfold AccountState.Locked at hlocked
  rw [lockoutState_of_passed (h.passed hcount), decide_eq_true_iff] at hlocked
  omega

theorem AccountState.Counted.noneLost {failures : ℕ} {s : AccountState} (h : s.Counted failures) :
    s.NoneLost failures where
  counted := Or.inl h.count
  bounded := h.count ▸ h.bounded
  finished hfinished := by
    by_cases hlocked : LoginCall.locked ∈ s.logins
    · obtain ⟨k, hk⟩ := List.mem_iff_getElem?.mp hlocked
      exact Or.inr (locked_of_count (h.logins k _ hk))
    · -- every login was refused
      have hall : ∀ login ∈ s.logins, decide (login = LoginCall.refused) = true := by
        intro login hmem
        refine decide_eq_true ((hfinished login hmem).resolve_right ?_)
        rintro rfl
        exact hlocked hmem
      have hlength : s.refusals = s.logins.length := List.countP_eq_length.mpr hall
      exact Or.inl (hlength ▸ h.count)

/-! ## A step -/

section Step

variable {failures : ℕ} {s : AccountState}

theorem LoginCall.Guess.mono {login : LoginCall} {count count' : ℕ} (h : login.Guess count) (hle : count ≤ count') :
    login.Guess count' := by
  cases login with
  | begun correct => exact h
  | resolved correct accountOk read => exact ⟨h.1, h.2.1, Nat.le_trans h.2.2 hle⟩
  | locked => exact Nat.le_trans h hle
  | refused => trivial
  | accepted => exact h

theorem refusals_setLogin {k : ℕ} {old : LoginCall} (hk : s.logins[k]? = some old) (hold : old ≠ .refused)
    (login : LoginCall) : (s.setLogin k login).refusals = s.refusals + if login = .refused then 1 else 0 := by
  have hset := @countP_set_of_some _ s.logins login old k (fun x => decide (x = LoginCall.refused)) hk
  simp only [decide_eq_true_iff, if_neg hold] at hset
  exact hset

/-- A login takes a state in which it is not refused, and the counter stays. -/
theorem AccountState.Counted.setLogin (h : s.Counted failures) {k : ℕ} {old login : LoginCall}
    (hk : s.logins[k]? = some old) (hold : old ≠ .refused) (hlogin : login.Guess s.failedCount)
    (hnew : login ≠ .refused) : (s.setLogin k login).Counted failures where
  count := by
    rw [refusals_setLogin hk hold, if_neg hnew]
    exact h.count
  bounded := h.bounded
  passed := h.passed
  logins j x hj := by
    rcases getElem?_set_cases hj with ⟨-, rfl⟩ | ⟨-, hj⟩
    · exact hlogin
    · exact h.logins j x hj

theorem AccountState.Counted.resolve (h : s.Counted failures) {k : ℕ} (accountOk : Bool) {correct : Bool}
    (hk : s.logins[k]? = some (.begun correct)) :
    (if (lockoutState s.now s.failedCount s.lockedUntil).1 then s.setLogin k .locked
      else s.setLogin k (.resolved correct accountOk s.failedCount)).Counted failures := by
  have hlocked := h.locked_iff
  unfold AccountState.Locked at hlocked
  split_ifs with hlock
  · exact h.setLogin hk LoginCall.noConfusion (hlocked.mp hlock) LoginCall.noConfusion
  · refine h.setLogin hk LoginCall.noConfusion ⟨h.logins k _ hk, ?_, Nat.le_refl _⟩ LoginCall.noConfusion
    rw [hlocked] at hlock
    omega

/-- The failure of a login that finds the counter it read. -/
theorem AccountState.Counted.record (h : s.Counted failures) {k count : ℕ} {correct accountOk : Bool}
    (hk : s.logins[k]? = some (.resolved correct accountOk count)) (hcount : s.failedCount = count) :
    AccountState.Counted failures
      { s.setLogin k .refused with failedCount := count + 1, lockedUntil := nextLockout s.now count } := by
  obtain ⟨-, hlt, -⟩ := h.logins k _ hk
  have hrefusals := refusals_setLogin hk LoginCall.noConfusion .refused
  have hfailures := h.count
  refine ⟨?_, hlt, fun hopen deadline hdeadline => ?_, fun j x hj => ?_⟩
  · show count + 1 = failures + (s.setLogin k .refused).refusals
    rw [hrefusals, if_pos rfl]
    omega
  · -- below five failures no deadline is set
    have hnone : nextLockout s.now count = none := if_neg (Nat.not_le.mpr hopen)
    rw [hnone] at hdeadline
    cases hdeadline
  · rcases getElem?_set_cases hj with ⟨-, rfl⟩ | ⟨-, hj⟩
    · trivial
    · exact (h.logins j x hj).mono (by rw [hcount]; exact Nat.le_succ count)

theorem AccountState.Counted.guess (h : s.Counted failures) (l : GuessStep) (hc : CountUnmoved s l) :
    (s.guess l).Counted failures := by
  cases l with
  | tick seconds =>
    refine ⟨h.count, h.bounded, fun hopen deadline hdeadline => ?_, h.logins⟩
    have hpassed := h.passed hopen deadline hdeadline
    show deadline ≤ s.now + seconds
    omega
  | begin =>
    refine ⟨?_, h.bounded, h.passed, fun j x hj => ?_⟩
    · have hcount := h.count
      unfold AccountState.refusals at hcount
      show s.failedCount = failures + (s.logins ++ [LoginCall.begun false]).countP (· = .refused)
      rw [List.countP_append, List.countP_singleton, if_neg (by decide)]
      exact hcount
    · rcases getElem?_concat_cases hj with rfl | hj
      · rfl
      · exact h.logins j x hj
  | resolve k accountOk =>
    dsimp only [AccountState.guess, GuessStep.toLogin, AccountState.step]
    split
    · rename_i correct hk
      exact h.resolve accountOk hk
    · exact h
  | record k =>
    dsimp only [AccountState.guess, GuessStep.toLogin, AccountState.step, CountUnmoved] at hc ⊢
    split
    · rename_i correct accountOk count hk
      rw [hk] at hc
      obtain ⟨rfl, -, -⟩ := h.logins k _ hk
      exact h.record hk hc
    · exact h

/-- A failure that overwrites another is lost, or is the sixth. -/
theorem countUnmoved_of_noneLost (h : s.Counted failures) (l : GuessStep) (hnext : (s.guess l).NoneLost failures) :
    CountUnmoved s l := by
  cases l with
  | record k =>
    dsimp only [CountUnmoved]
    split
    · rename_i correct accountOk count hk
      obtain ⟨rfl, hlt, hle⟩ := h.logins k _ hk
      have hstep : s.guess (.record k) =
          { s.setLogin k .refused with failedCount := count + 1, lockedUntil := nextLockout s.now count } := by
        dsimp only [AccountState.guess, GuessStep.toLogin, AccountState.step]
        rw [hk]
        rfl
      have hrefusals : (s.guess (.record k)).refusals = s.refusals + 1 := by
        rw [hstep]
        exact refusals_setLogin hk LoginCall.noConfusion .refused
      have hfailures := h.count
      have hbounded := hnext.bounded
      by_contra hmoved
      rcases hnext.counted with hcounted | hlocked
      · rw [hrefusals, hstep] at hcounted
        dsimp only at hcounted
        omega
      · -- the counter that was read is below four, so the lock is gone
        rw [hstep] at hlocked
        unfold AccountState.Locked nextLockout at hlocked
        have hopen : ¬ maxFailedAttempts ≤ count + 1 := by omega
        rw [if_neg hopen] at hlocked
        exact hopen (of_decide_eq_true hlocked)
    · trivial
  | _ => trivial

end Step

/-- **Every guess is counted, up to the lock, exactly if every login that records its failure finds the counter it
read.** -/
theorem guesses_counted_iff {now failedCount : ℕ} {lockedUntil : Option ℕ}
    (hopen : (lockoutState now failedCount lockedUntil).1 = false) (steps : List GuessStep) :
    Always AccountState.guess (AccountState.NoneLost failedCount) ⟨now, failedCount, lockedUntil, []⟩ steps ↔
      Meets AccountState.guess CountUnmoved ⟨now, failedCount, lockedUntil, []⟩ steps := by
  have hstart : AccountState.Counted failedCount ⟨now, failedCount, lockedUntil, []⟩ := by
    unfold lockoutState at hopen
    refine ⟨rfl, ?_, fun _ deadline hdeadline => ?_, fun k x hk => by cases hk⟩
    · cases lockedUntil with
      | none =>
        have hlt := of_decide_eq_false hopen
        dsimp only
        omega
      | some deadline =>
        dsimp only at hopen
        split_ifs at hopen
        have hlt := of_decide_eq_false hopen
        dsimp only
        omega
    · dsimp only at hdeadline
      subst hdeadline
      dsimp only at hopen
      split_ifs at hopen with hnow
      dsimp only
      omega
  exact always_iff_meets_of_inv (fun s h => h.noneLost) (fun s l h hc => h.guess l hc)
    (fun s l h hnext => countUnmoved_of_noneLost h l hnext) steps _ hstart

/-! ## Guesses one after the other, and two at once -/

/-- A guess that is answered before the next one begins. -/
def oneGuess (k : ℕ) : List GuessStep := [.begin, .resolve k true, .record k]

/-- Five guesses in a row lock the account; the sixth is not checked. -/
theorem guesses_counted_iff_sixInARow :
    (lockoutState 0 0 none).1 = false ∧
      Always AccountState.guess (AccountState.NoneLost 0) .start ((List.range 6).flatMap oneGuess) := by
  refine ⟨by decide, (guesses_counted_iff (by decide) _).mpr ?_⟩
  refine ⟨trivial, trivial, rfl, trivial, trivial, rfl, trivial, trivial, rfl, trivial, trivial, rfl, trivial, trivial,
    rfl, trivial, trivial, trivial, trivial⟩

/-- Two guesses read the counter before either is recorded. -/
def guessesAtOnce : List GuessStep := [.begin, .begin, .resolve 0 true, .resolve 1 true, .record 0, .record 1]

/-- The account counts one failure for two guesses. -/
theorem guessesAtOnce_lost : ¬ Always AccountState.guess (AccountState.NoneLost 0) .start guessesAtOnce := by
  intro h
  have hcount : (after AccountState.guess .start guessesAtOnce).failedCount ≠
      0 + (after AccountState.guess .start guessesAtOnce).refusals := by decide
  have hopen : (lockoutState (after AccountState.guess .start guessesAtOnce).now
      (after AccountState.guess .start guessesAtOnce).failedCount
      (after AccountState.guess .start guessesAtOnce).lockedUntil).1 = false := by decide
  rcases (always_last h).counted with hcounted | hlocked
  · exact hcount hcounted
  · exact Bool.false_ne_true (hopen.symm.trans hlocked)

end RevenueOS.Auth
