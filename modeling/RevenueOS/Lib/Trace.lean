import Mathlib.Data.List.Basic

/-!
# RevenueOS.Lib.Trace — runs of a labelled step function

A run is a list of labels folded over a state.  `Meets C` asks a condition of every step taken, in the
state it is taken from; `Always P` asks a property of every state reached.

* `always_of_inv`: an invariant that every step meeting the condition preserves.
* `meets_of_inv`: an invariant under which every step meets the condition.
* `always_iff_meets_of_inv`: the first of these as an equivalence.
* `always_and_meets_iff`: the same for a property of the states together with one of the steps.
* `always_iff_meets`: when, under an unconditional invariant, a step keeps the property exactly if it meets
  the condition, a whole run keeps it exactly if every step meets it.
-/

namespace RevenueOS.Lib

section Trace

variable {σ ℓ : Type} (step : σ → ℓ → σ)

/-- The state after a run. -/
def after (s : σ) (ls : List ℓ) : σ := ls.foldl step s

/-- Every step of the run meets `C` in the state it is taken from. -/
def Meets (C : σ → ℓ → Prop) : σ → List ℓ → Prop
  | _, [] => True
  | s, l :: ls => C s l ∧ Meets C (step s l) ls

/-- Every state of the run has `P`. -/
def Always (P : σ → Prop) : σ → List ℓ → Prop
  | s, [] => P s
  | s, l :: ls => P s ∧ Always P (step s l) ls

variable {step}

theorem always_of_inv (Inv : σ → Prop) {P : σ → Prop} {C : σ → ℓ → Prop} (hp : ∀ s, Inv s → P s)
    (hstep : ∀ s l, Inv s → C s l → Inv (step s l)) :
    ∀ (ls : List ℓ) (s : σ), Inv s → Meets step C s ls → Always step P s ls
  | [], s, hs, _ => hp s hs
  | l :: ls, s, hs, hm => ⟨hp s hs, always_of_inv Inv hp hstep ls (step s l) (hstep s l hs hm.1) hm.2⟩

/-- Every step of a run has a property that the invariant gives it. -/
theorem meets_of_inv (Inv : σ → Prop) {C : σ → ℓ → Prop} (hstep : ∀ s l, Inv s → C s l ∧ Inv (step s l)) :
    ∀ (ls : List ℓ) (s : σ), Inv s → Meets step C s ls
  | [], _, _ => trivial
  | l :: ls, s, hs => ⟨(hstep s l hs).1, meets_of_inv Inv hstep ls (step s l) (hstep s l hs).2⟩

/-- Every step of a run that meets one condition meets another. -/
theorem meets_of_meets (Inv : σ → Prop) {C D : σ → ℓ → Prop} (hstep : ∀ s l, Inv s → C s l → D s l ∧ Inv (step s l)) :
    ∀ (ls : List ℓ) (s : σ), Inv s → Meets step C s ls → Meets step D s ls
  | [], _, _, _ => trivial
  | l :: ls, s, hs, hm =>
    have h := hstep s l hs hm.1
    ⟨h.1, meets_of_meets Inv hstep ls (step s l) h.2 hm.2⟩

/-- A condition that every step meets. -/
theorem meets_of_forall {C : σ → ℓ → Prop} (h : ∀ s l, C s l) : ∀ (ls : List ℓ) (s : σ), Meets step C s ls
  | [], _ => trivial
  | l :: ls, s => ⟨h s l, meets_of_forall h ls (step s l)⟩

/-- An invariant of the steps that meet the condition holds after a run of such steps. -/
theorem inv_after (Inv : σ → Prop) {C : σ → ℓ → Prop} (hstep : ∀ s l, Inv s → C s l → Inv (step s l)) :
    ∀ (ls : List ℓ) (s : σ), Inv s → Meets step C s ls → Inv (after step s ls)
  | [], _, hs, _ => hs
  | l :: ls, s, hs, hm => inv_after Inv hstep ls (step s l) (hstep s l hs hm.1) hm.2

/-- An invariant of every step holds after every run. -/
theorem inv_run (Inv : σ → Prop) (hstep : ∀ s l, Inv s → Inv (step s l)) :
    ∀ (ls : List ℓ) (s : σ), Inv s → Inv (after step s ls)
  | [], _, hs => hs
  | l :: ls, s, hs => inv_run Inv hstep ls (step s l) (hstep s l hs)

theorem after_append (s : σ) (ls ms : List ℓ) : after step s (ls ++ ms) = after step (after step s ls) ms :=
  List.foldl_append

theorem meets_append {C : σ → ℓ → Prop} : ∀ {ls ms : List ℓ} {s : σ},
    Meets step C s (ls ++ ms) ↔ Meets step C s ls ∧ Meets step C (after step s ls) ms
  | [], _, _ => by simp [Meets, after]
  | l :: ls, ms, s => by
    rw [List.cons_append, Meets, Meets, and_assoc, meets_append]
    rfl

theorem meets_and {C D : σ → ℓ → Prop} : ∀ {ls : List ℓ} {s : σ},
    Meets step (fun s l => C s l ∧ D s l) s ls ↔ Meets step C s ls ∧ Meets step D s ls
  | [], _ => by simp [Meets]
  | l :: ls, s => by
    rw [Meets, Meets, Meets, meets_and]
    exact and_and_and_comm

/-- Conditions that agree where the invariant holds. -/
theorem meets_congr_of_inv {Inv : σ → Prop} {C D : σ → ℓ → Prop} (hinv : ∀ s l, Inv s → Inv (step s l))
    (h : ∀ s l, Inv s → (C s l ↔ D s l)) : ∀ (ls : List ℓ) (s : σ), Inv s → (Meets step C s ls ↔ Meets step D s ls)
  | [], _, _ => Iff.rfl
  | l :: ls, s, hs => and_congr (h s l hs) (meets_congr_of_inv hinv h ls (step s l) (hinv s l hs))

instance decidableMeets {C : σ → ℓ → Prop} [∀ s l, Decidable (C s l)] : ∀ (ls : List ℓ) (s : σ),
    Decidable (Meets step C s ls)
  | [], _ => .isTrue trivial
  | l :: ls, s =>
    have := decidableMeets (C := C) ls (step s l)
    inferInstanceAs (Decidable (C s l ∧ Meets step C (step s l) ls))

theorem always_head {P : σ → Prop} {s : σ} : ∀ {ls : List ℓ}, Always step P s ls → P s
  | [], h => h
  | _ :: _, h => h.1

theorem always_last {P : σ → Prop} : ∀ {ls : List ℓ} {s : σ}, Always step P s ls → P (after step s ls)
  | [], _, h => h
  | _ :: ls, _, h => @always_last P ls _ h.2

/-- What a step must have met for the next state to have the property. -/
theorem meets_of_always {Inv P : σ → Prop} {C : σ → ℓ → Prop} (hinv : ∀ s l, Inv s → Inv (step s l))
    (hstep : ∀ s l, Inv s → P (step s l) → C s l) :
    ∀ (ls : List ℓ) (s : σ), Inv s → Always step P s ls → Meets step C s ls
  | [], _, _, _ => trivial
  | l :: ls, s, hs, h =>
    ⟨hstep s l hs (always_head h.2), meets_of_always hinv hstep ls (step s l) (hinv s l hs) h.2⟩

theorem always_iff_meets {Inv P : σ → Prop} {C : σ → ℓ → Prop} (hinv : ∀ s l, Inv s → Inv (step s l))
    (hstep : ∀ s l, Inv s → P s → (P (step s l) ↔ C s l)) :
    ∀ (ls : List ℓ) (s : σ), Inv s → P s → (Always step P s ls ↔ Meets step C s ls)
  | [], s, _, hp => by simpa [Always, Meets] using hp
  | l :: ls, s, hs, hp => by
    constructor
    · rintro ⟨-, h⟩
      have hp' := always_head h
      exact ⟨(hstep s l hs hp).mp hp', (always_iff_meets hinv hstep ls _ (hinv s l hs) hp').mp h⟩
    · rintro ⟨hc, h⟩
      have hp' := (hstep s l hs hp).mpr hc
      exact ⟨hp, (always_iff_meets hinv hstep ls _ (hinv s l hs) hp').mpr h⟩

/-- An invariant of the steps that meet the condition, and a property that shows when one does not. -/
theorem always_iff_meets_of_inv {Inv P : σ → Prop} {C : σ → ℓ → Prop} (hp : ∀ s, Inv s → P s)
    (hstep : ∀ s l, Inv s → C s l → Inv (step s l)) (hconv : ∀ s l, Inv s → P (step s l) → C s l) :
    ∀ (ls : List ℓ) (s : σ), Inv s → (Always step P s ls ↔ Meets step C s ls)
  | [], s, hs => iff_of_true (hp s hs) trivial
  | l :: ls, s, hs => by
    constructor
    · rintro ⟨-, h⟩
      have hc := hconv s l hs (always_head h)
      exact ⟨hc, (always_iff_meets_of_inv hp hstep hconv ls _ (hstep s l hs hc)).mp h⟩
    · rintro ⟨hc, h⟩
      exact ⟨hp s hs, (always_iff_meets_of_inv hp hstep hconv ls _ (hstep s l hs hc)).mpr h⟩

/-- A condition that a step meets exactly if the next state has the property and the step has its own. -/
theorem always_and_meets_iff {Inv P : σ → Prop} {C D : σ → ℓ → Prop} (hp : ∀ s, Inv s → P s)
    (hstep : ∀ s l, Inv s → C s l → Inv (step s l) ∧ D s l)
    (hconv : ∀ s l, Inv s → P (step s l) → D s l → C s l) : ∀ (ls : List ℓ) (s : σ), Inv s →
      (Always step P s ls ∧ Meets step D s ls ↔ Meets step C s ls)
  | [], s, hs => iff_of_true ⟨hp s hs, trivial⟩ trivial
  | l :: ls, s, hs => by
    constructor
    · rintro ⟨⟨-, hrest⟩, hd, hds⟩
      have hc := hconv s l hs (always_head hrest) hd
      exact ⟨hc, (always_and_meets_iff hp hstep hconv ls _ (hstep s l hs hc).1).mp ⟨hrest, hds⟩⟩
    · rintro ⟨hc, hcs⟩
      obtain ⟨hnext, hd⟩ := hstep s l hs hc
      obtain ⟨hrest, hds⟩ := (always_and_meets_iff hp hstep hconv ls _ hnext).mpr hcs
      exact ⟨⟨hp s hs, hrest⟩, hd, hds⟩

/-- The case in which no invariant is needed. -/
theorem always_iff_meets_of_step {P : σ → Prop} {C : σ → ℓ → Prop} (hstep : ∀ s l, P s → (P (step s l) ↔ C s l))
    (ls : List ℓ) (s : σ) (hp : P s) : Always step P s ls ↔ Meets step C s ls :=
  @always_iff_meets σ ℓ step (fun _ => True) P C (fun _ _ _ => trivial) (fun s l _ => hstep s l) ls s trivial hp

end Trace

end RevenueOS.Lib
