import RevenueOS.Py.Text
import RevenueOS.Lib.Trace
import RevenueOS.Lib.Slots
import Mathlib.Data.List.Perm.Basic

/-!
# RevenueOS.Auth.RecoveryCodes — recovery codes that are used at the same time

`consume_recovery_code` (`application/auth/mfa.py`) and `verify_recovery_code` (`infrastructure/auth/mfa.py`) on one
user.  A call reads the list of hashes, finds the code in it and writes the list without it when its transaction
commits; the row is not locked, and the list is written whole.  The state keeps the hashes for which a call returned
`True`.  `str.upper` and `bcrypt.checkpw` are parameters; `checkpw` has no value where it raises a `ValueError`.

* `spent_once_iff`: every stored code is stored still or was spent by one call exactly if every call that writes the
  list finds the one that it read.
-/

namespace RevenueOS.Auth

open RevenueOS.Py RevenueOS.Lib

/-! ## Calls -/

inductive RecoveryCall where
  | begun (code : String)
  /-- The row was read, and the code is that of the hash at the index. -/
  | found (hashes : List String) (index : ℕ)
  /-- The call returned `True`. -/
  | spent
  /-- The call returned `False`. -/
  | refused
  | failed
deriving DecidableEq

/-- The columns of the user, the hashes that were spent, in the order of the commits, and the calls. -/
structure RecoveryState where
  mfaEnabled : Bool
  codes : List String
  spent : List String
  calls : List RecoveryCall
deriving DecidableEq

inductive RecoveryStep where
  | begin (code : String)
  | read (k : ℕ)
  | commit (k : ℕ)
  | fail (k : ℕ)

section Step

variable (upper : String → String) (checkpw : String → String → Option Bool)

/-- `verify_recovery_code`. -/
def verifyRecoveryCode (code : String) (hashes : List String) : Option ℕ :=
  hashes.findIdx? fun stored => checkpw (upper (strip code)) stored == some true

namespace RecoveryState

def setCall (s : RecoveryState) (k : ℕ) (call : RecoveryCall) : RecoveryState := { s with calls := s.calls.set k call }

def step (s : RecoveryState) : RecoveryStep → RecoveryState
  | .begin code => { s with calls := s.calls ++ [.begun code] }
  | .read k =>
    match s.calls[k]? with
    | some (.begun code) =>
      if !s.mfaEnabled || s.codes.isEmpty then s.setCall k .refused
      else
        match verifyRecoveryCode upper checkpw code s.codes with
        | none => s.setCall k .refused
        | some index => s.setCall k (.found s.codes index)
    | _ => s
  | .commit k =>
    match s.calls[k]? with
    | some (.found hashes index) =>
      { s.setCall k .spent with
        codes := hashes.eraseIdx index
        spent := s.spent ++ hashes[index]?.toList }
    | _ => s
  | .fail k =>
    match s.calls[k]? with
    | some (.begun _) => s.setCall k .failed
    | some (.found _ _) => s.setCall k .failed
    | _ => s

end RecoveryState

end Step

/-- A stored code is stored still, or was spent by one call. -/
def RecoveryState.SpentOnce (codes : List String) (s : RecoveryState) : Prop := codes.Perm (s.codes ++ s.spent)

/-- A call that writes the list finds the one that it read. -/
def CodesUnmoved (s : RecoveryState) : RecoveryStep → Prop
  | .commit k =>
    match s.calls[k]? with
    | some (.found hashes _) => s.codes = hashes
    | _ => True
  | _ => True

/-! ## What holds while the list is written as it was read -/

/-- What is known of a call: the list it read is the stored one, or a longer one. -/
def RecoveryCall.Sound (codes : List String) : RecoveryCall → Prop
  | .found hashes index => index < hashes.length ∧ (hashes = codes ∨ codes.length < hashes.length)
  | _ => True

structure RecoveryState.Inv (codes : List String) (s : RecoveryState) : Prop where
  once : s.SpentOnce codes
  calls : ∀ (k : ℕ) (call : RecoveryCall), s.calls[k]? = some call → call.Sound s.codes

theorem RecoveryState.Inv.setCall {codes : List String} {s : RecoveryState} (h : s.Inv codes) {k : ℕ}
    {call : RecoveryCall} (hcall : call.Sound s.codes) : (s.setCall k call).Inv codes where
  once := h.once
  calls j c hj := by
    rcases getElem?_set_cases hj with ⟨-, rfl⟩ | ⟨-, hj⟩
    · exact hcall
    · exact h.calls j c hj

/-- Taking a code out of the list and into the spent ones. -/
theorem perm_eraseIdx {hashes spent : List String} {index : ℕ} (h : index < hashes.length) :
    (hashes ++ spent).Perm (hashes.eraseIdx index ++ (spent ++ hashes[index]?.toList)) := by
  rw [List.getElem?_eq_getElem h, Option.toList_some, ← List.append_assoc]
  have hcode : hashes.Perm (hashes[index] :: hashes.eraseIdx index) := (List.getElem_cons_eraseIdx_perm h).symm
  have hlast : (hashes[index] :: (hashes.eraseIdx index ++ spent)).Perm
      (hashes.eraseIdx index ++ spent ++ [hashes[index]]) := (List.perm_append_singleton _ _).symm
  exact (hcode.append_right spent).trans hlast

section Steps

variable {upper : String → String} {checkpw : String → String → Option Bool} {codes : List String} {s : RecoveryState}

theorem RecoveryState.Inv.commit (h : s.Inv codes) {k index : ℕ} (hk : s.calls[k]? = some (.found s.codes index)) :
    RecoveryState.Inv codes { s.setCall k .spent with
      codes := s.codes.eraseIdx index
      spent := s.spent ++ s.codes[index]?.toList } := by
  obtain ⟨hindex, -⟩ := h.calls k _ hk
  have hlength := List.length_eraseIdx_of_lt hindex
  refine ⟨h.once.trans (perm_eraseIdx hindex), fun j call hj => ?_⟩
  rcases getElem?_set_cases hj with ⟨-, rfl⟩ | ⟨-, hj⟩
  · trivial
  · cases call with
    | found hashes i =>
      obtain ⟨hi, hlist⟩ := h.calls j _ hj
      refine ⟨hi, Or.inr ?_⟩
      show (s.codes.eraseIdx index).length < hashes.length
      rcases hlist with rfl | hlonger
      · omega
      · omega
    | _ => trivial

theorem RecoveryState.Inv.step (h : s.Inv codes) (l : RecoveryStep) (hc : CodesUnmoved s l) :
    (s.step upper checkpw l).Inv codes := by
  cases l with
  | begin code =>
    refine ⟨h.once, fun j call hj => ?_⟩
    rcases getElem?_concat_cases hj with rfl | hj
    · trivial
    · exact h.calls j call hj
  | read k =>
    dsimp only [RecoveryState.step]
    split
    · split_ifs
      · exact h.setCall trivial
      · split
        · exact h.setCall trivial
        · rename_i index hindex
          have hlt : index < s.codes.length := (List.findIdx?_eq_some_iff_findIdx_eq.mp hindex).1
          exact h.setCall ⟨hlt, Or.inl rfl⟩
    · exact h
  | commit k =>
    dsimp only [RecoveryState.step, CodesUnmoved] at hc ⊢
    split
    · rename_i hashes index hk
      rw [hk] at hc
      obtain rfl : s.codes = hashes := hc
      exact h.commit hk
    · exact h
  | fail k =>
    dsimp only [RecoveryState.step]
    split
    · exact h.setCall trivial
    · exact h.setCall trivial
    · exact h

/-- A list that was read before another call wrote its own is too long. -/
theorem codesUnmoved_of_spentOnce (h : s.Inv codes) (l : RecoveryStep)
    (hnext : (s.step upper checkpw l).SpentOnce codes) : CodesUnmoved s l := by
  cases l with
  | commit k =>
    dsimp only [CodesUnmoved]
    split
    · rename_i hashes index hk
      obtain ⟨hindex, hlist⟩ := h.calls k _ hk
      dsimp only [RecoveryState.step] at hnext
      rw [hk] at hnext
      have hperm : (s.codes ++ s.spent).Perm (hashes ++ s.spent) :=
        h.once.symm.trans (hnext.trans (perm_eraseIdx hindex).symm)
      have hlength := hperm.length_eq
      rw [List.length_append, List.length_append] at hlength
      rcases hlist with hsame | hlonger
      · exact hsame.symm
      · omega
    · trivial
  | _ => trivial

end Steps

/-- **A recovery code is spent once exactly if every call that writes the list finds the one that it read.** -/
theorem spent_once_iff (upper : String → String) (checkpw : String → String → Option Bool) (mfaEnabled : Bool)
    (codes : List String) (steps : List RecoveryStep) :
    Always (RecoveryState.step upper checkpw) (RecoveryState.SpentOnce codes) ⟨mfaEnabled, codes, [], []⟩ steps ↔
      Meets (RecoveryState.step upper checkpw) CodesUnmoved ⟨mfaEnabled, codes, [], []⟩ steps := by
  have hstart : RecoveryState.Inv codes ⟨mfaEnabled, codes, [], []⟩ := by
    refine ⟨?_, fun k call hk => by cases hk⟩
    unfold RecoveryState.SpentOnce
    rw [List.append_nil]
  exact always_iff_meets_of_inv (fun s h => h.once) (fun s l h hc => h.step l hc)
    (fun s l h hnext => codesUnmoved_of_spentOnce h l hnext) steps _ hstart

/-! ## One code in two calls -/

/-- A check that takes the hash of a code for the code after a sign. -/
def plainCheck (candidate stored : String) : Option Bool := some (stored == "#" ++ candidate)

/-- Two calls find the first code before either writes the list. -/
def spentTwice : List RecoveryStep :=
  [.begin "a1b2c-3d4e5", .begin "a1b2c-3d4e5", .read 0, .read 1, .commit 0, .commit 1]

/-- Both calls return `True` for one code. -/
theorem spentTwice_doubles :
    ¬ Always (RecoveryState.step String.toUpper plainCheck)
      (RecoveryState.SpentOnce ["#A1B2C-3D4E5", "#F6A7B-8C9D0"])
      ⟨true, ["#A1B2C-3D4E5", "#F6A7B-8C9D0"], [], []⟩ spentTwice := by
  intro h
  have hspent : (after (RecoveryState.step String.toUpper plainCheck)
      ⟨true, ["#A1B2C-3D4E5", "#F6A7B-8C9D0"], [], []⟩ spentTwice) =
        ⟨true, ["#F6A7B-8C9D0"], ["#A1B2C-3D4E5", "#A1B2C-3D4E5"], [.spent, .spent]⟩ := by decide +kernel
  have honce := always_last h
  rw [hspent] at honce
  exact absurd honce.length_eq (by decide)

end RevenueOS.Auth
