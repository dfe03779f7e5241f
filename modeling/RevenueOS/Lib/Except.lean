import Mathlib.Data.List.Forall2

/-!
# RevenueOS.Lib.Except — inversion of computations that may raise

Peels a successful `do` block over `Except` apart, one bind or one `mapM` at a time.  `Yields x Q` is the
total-correctness reading of a computation: it returns, with a value in `Q`.  Its rules are equivalences, so
that `simp` turns a whole `do` block into the condition under which it returns.
-/

namespace RevenueOS.Lib

variable {ε α β : Type}

theorem bind_eq_ok {x : Except ε α} {f : α → Except ε β} {r : β} :
    (x >>= f) = .ok r ↔ ∃ a, x = .ok a ∧ f a = .ok r := by
  cases x with
  | error e => simp [bind, Except.bind]
  | ok a => simp [bind, Except.bind]

theorem pure_eq_ok {a b : α} : (pure a : Except ε α) = .ok b ↔ a = b := by
  simp [pure, Except.pure]

theorem map_eq_ok {x : Except ε α} {f : α → β} {b : β} : x.map f = .ok b ↔ ∃ a, x = .ok a ∧ f a = b := by
  cases x with
  | error e => simp [Except.map]
  | ok a => simp [Except.map]

theorem eq_of_ite_ok {c : Prop} [Decidable c] {a b : α} {e : ε}
    (h : (if c then Except.ok a else .error e) = .ok b) : a = b := by
  split_ifs at h
  exact Except.ok.inj h

theorem mapError_eq_ok {ε' : Type} {x : Except ε α} {f : ε → ε'} {a : α} : x.mapError f = .ok a ↔ x = .ok a := by
  cases x with
  | error e => exact iff_of_false (fun h => by cases h) fun h => by cases h
  | ok b => exact ⟨fun h => congrArg Except.ok (Except.ok.inj h), fun h => congrArg Except.ok (Except.ok.inj h)⟩

/-- A successful `mapM` maps every item successfully, in order. -/
theorem mapM_eq_ok {f : α → Except ε β} : ∀ {l : List α} {r : List β}, l.mapM f = .ok r →
    List.Forall₂ (fun a b => f a = .ok b) l r
  | [], r, h => by
    rw [List.mapM_nil, pure_eq_ok] at h
    subst h
    exact .nil
  | a :: l, r, h => by
    rw [List.mapM_cons, bind_eq_ok] at h
    obtain ⟨b, hb, h⟩ := h
    rw [bind_eq_ok] at h
    obtain ⟨bs, hbs, h⟩ := h
    rw [pure_eq_ok] at h
    subst h
    exact .cons hb (mapM_eq_ok hbs)

theorem mapM_eq_ok_map {f : α → Except ε β} {g : α → β} : ∀ {l : List α}, (∀ a ∈ l, f a = .ok (g a)) →
    l.mapM f = .ok (l.map g)
  | [], _ => rfl
  | a :: l, h => by
    rw [List.mapM_cons, h a List.mem_cons_self, mapM_eq_ok_map fun b hb => h b (List.mem_cons_of_mem _ hb)]
    rfl

theorem mem_of_forall₂_left {R : α → β → Prop} {l : List α} {r : List β} (h : List.Forall₂ R l r) {a : α}
    (ha : a ∈ l) : ∃ b ∈ r, R a b := by
  induction h with
  | nil => cases ha
  | cons hab _ ih =>
    rcases List.mem_cons.mp ha with rfl | ha
    · exact ⟨_, List.mem_cons_self, hab⟩
    · obtain ⟨b, hb, hr⟩ := ih ha
      exact ⟨b, List.mem_cons_of_mem _ hb, hr⟩

theorem mem_of_forall₂_right {R : α → β → Prop} {l : List α} {r : List β} (h : List.Forall₂ R l r) {b : β}
    (hb : b ∈ r) : ∃ a ∈ l, R a b := by
  obtain ⟨a, ha, hr⟩ := mem_of_forall₂_left h.flip hb
  exact ⟨a, ha, hr⟩

theorem eq_ok_get {x : Except ε α} (h : x.toOption.isSome = true) : x = .ok (x.toOption.get h) := by
  cases x with
  | error e => cases h
  | ok a => rfl

theorem eq_ok_of_toOption {x : Except ε α} {a : α} (h : x.toOption = some a) : x = .ok a := by
  cases x with
  | error e => cases h
  | ok b => exact congrArg Except.ok (Option.some.inj h)

/-! ## Total correctness -/

/-- The computation returns a value satisfying `Q`. -/
def Yields (x : Except ε α) (Q : α → Prop) : Prop := ∃ a, x = .ok a ∧ Q a

@[simp] theorem yields_ok {a : α} {Q : α → Prop} : Yields (.ok a : Except ε α) Q ↔ Q a := by
  constructor
  · rintro ⟨b, hb, hQ⟩
    rwa [Except.ok.inj hb]
  · exact fun hQ => ⟨a, rfl, hQ⟩

@[simp] theorem yields_error {e : ε} {Q : α → Prop} : Yields (.error e : Except ε α) Q ↔ False := by
  constructor
  · rintro ⟨b, hb, -⟩
    cases hb
  · exact False.elim

@[simp] theorem yields_pure {a : α} {Q : α → Prop} : Yields (pure a : Except ε α) Q ↔ Q a := yields_ok

@[simp] theorem yields_bind {x : Except ε α} {f : α → Except ε β} {Q : β → Prop} :
    Yields (x >>= f) Q ↔ Yields x (fun a => Yields (f a) Q) := by
  constructor
  · rintro ⟨b, hb, hQ⟩
    obtain ⟨a, ha, hf⟩ := bind_eq_ok.mp hb
    exact ⟨a, ha, b, hf, hQ⟩
  · rintro ⟨a, ha, b, hf, hQ⟩
    exact ⟨b, bind_eq_ok.mpr ⟨a, ha, hf⟩, hQ⟩

@[simp] theorem yields_map {x : Except ε α} {f : α → β} {Q : β → Prop} :
    Yields (f <$> x) Q ↔ Yields x (fun a => Q (f a)) := by
  cases x <;> simp [Functor.map, Except.map]

theorem Yields.mono {x : Except ε α} {Q Q' : α → Prop} (h : Yields x Q) (hQ : ∀ a, Q a → Q' a) :
    Yields x Q' := by
  obtain ⟨a, ha, h⟩ := h
  exact ⟨a, ha, hQ a h⟩

theorem yields_of_eq {x : Except ε α} {a : α} (h : x = .ok a) {Q : α → Prop} : Yields x Q ↔ Q a := by
  rw [h, yields_ok]

theorem yields_mapM {f : α → Except ε β} : ∀ {l : List α},
    Yields (l.mapM f) (fun _ => True) ↔ ∀ a ∈ l, Yields (f a) (fun _ => True)
  | [] => by simp
  | a :: l => by
    rw [List.mapM_cons, yields_bind, List.forall_mem_cons, ← yields_mapM]
    constructor
    · rintro ⟨b, hb, h⟩
      rw [yields_bind] at h
      exact ⟨⟨b, hb, trivial⟩, h.mono (fun _ _ => trivial)⟩
    · rintro ⟨⟨b, hb, -⟩, h⟩
      exact ⟨b, hb, yields_bind.mpr (h.mono (fun _ _ => by simp))⟩

end RevenueOS.Lib
