import RevenueOS.Payments.StateMachine

/-!
# RevenueOS.Payments.Sanitizing — what is persisted of a provider's payload

`sanitize_provider_payload` (`domain/payments/state_machine.py`) on any payload, at any depth.

* `clean_sameOutside`: the values under the forbidden keys do not show.
* `clean_clean`: cleaning a second time changes nothing.
-/

namespace RevenueOS.Payments

open RevenueOS.Py

/-- The key's value is removed. -/
def isForbidden (key : String) : Bool := forbiddenPayloadKeys.contains (lower key)

mutual

/-- Payloads that differ only in what stands under forbidden keys. -/
inductive SameOutside : Json → Json → Prop
  | refl (x : Json) : SameOutside x x
  | arr {xs ys : List Json} : SameItems xs ys → SameOutside (.arr xs) (.arr ys)
  | obj {d e : List (String × Json)} : SameEntries d e → SameOutside (.obj d) (.obj e)

inductive SameItems : List Json → List Json → Prop
  | nil : SameItems [] []
  | cons {x y : Json} {xs ys : List Json} : SameOutside x y → SameItems xs ys → SameItems (x :: xs) (y :: ys)

inductive SameEntries : List (String × Json) → List (String × Json) → Prop
  | nil : SameEntries [] []
  | forbidden {k : String} (v w : Json) {d e : List (String × Json)} : isForbidden k = true → SameEntries d e →
    SameEntries ((k, v) :: d) ((k, w) :: e)
  | cons {k : String} {v w : Json} {d e : List (String × Json)} : SameOutside v w → SameEntries d e →
    SameEntries ((k, v) :: d) ((k, w) :: e)

end

/-- What is left of the value under a key. -/
theorem cleanEntries_cons (k : String) (v : Json) (d : List (String × Json)) (depth : ℕ) :
    cleanEntries ((k, v) :: d) depth =
      (k, if isForbidden k = true then .str "[REMOVED]" else clean v depth) :: cleanEntries d depth := rfl

mutual

/-- The values under forbidden keys do not show, by induction on how the payloads agree. -/
theorem clean_sameOutside : ∀ {x y : Json}, SameOutside x y → ∀ depth, clean x depth = clean y depth
  | _, _, .refl _, _ => rfl
  | _, _, .arr h, depth => by rw [clean, clean, cleanList_sameItems h]
  | _, _, .obj h, depth => by rw [clean, clean, cleanEntries_sameEntries h]

theorem cleanList_sameItems : ∀ {xs ys : List Json}, SameItems xs ys → ∀ depth, cleanList xs depth = cleanList ys depth
  | _, _, .nil, _ => rfl
  | _, _, .cons h hs, depth => by rw [cleanList, cleanList, clean_sameOutside h, cleanList_sameItems hs]

theorem cleanEntries_sameEntries : ∀ {d e : List (String × Json)}, SameEntries d e →
    ∀ depth, cleanEntries d depth = cleanEntries e depth
  | _, _, .nil, _ => rfl
  | _, _, .forbidden v w hk hs, depth => by
    rw [cleanEntries_cons, cleanEntries_cons, if_pos hk, if_pos hk, cleanEntries_sameEntries hs]
  | _, _, .cons h hs, depth => by
    rw [cleanEntries_cons, cleanEntries_cons, clean_sameOutside h, cleanEntries_sameEntries hs]

end

/-! ## Cleaning twice -/

/-- Below the depth that is kept there is one text. -/
theorem clean_deep (x : Json) {depth : ℕ} (h : 6 < depth) : clean x depth = .str "[TRUNCATED]" := by
  cases x with
  | obj d => rw [clean, if_pos h]
  | arr xs => rw [clean, if_pos h]
  | _ => exact if_pos h

/-- A leaf is kept, or cut. -/
theorem clean_leaf {x : Json} (hobj : ∀ d, x ≠ .obj d) (harr : ∀ xs, x ≠ .arr xs) (depth : ℕ) :
    clean x depth = if 6 < depth then .str "[TRUNCATED]" else x := by
  cases x with
  | obj d => exact absurd rfl (hobj d)
  | arr xs => exact absurd rfl (harr xs)
  | _ => rfl

theorem clean_clean_leaf {x : Json} (hobj : ∀ d, x ≠ .obj d) (harr : ∀ xs, x ≠ .arr xs) (depth : ℕ) :
    clean (clean x depth) depth = clean x depth := by
  by_cases h : 6 < depth
  · rw [clean_deep _ h, clean_deep _ h]
  · rw [clean_leaf hobj harr, if_neg h, clean_leaf hobj harr, if_neg h]

theorem cleanList_take (xs : List Json) (depth n : ℕ) : cleanList (xs.take n) depth = (cleanList xs depth).take n := by
  induction xs generalizing n with
  | nil => rw [List.take_nil, cleanList, List.take_nil]
  | cons x xs ih =>
    cases n with
    | zero => rfl
    | succ n => rw [List.take_succ_cons, cleanList, ih, cleanList, List.take_succ_cons]

mutual

/-- Cleaning a second time changes nothing, at every depth. -/
theorem clean_clean : ∀ (x : Json) (depth : ℕ), clean (clean x depth) depth = clean x depth
  | .arr xs, depth => by
    by_cases h : 6 < depth
    · rw [clean_deep _ h, clean_deep _ h]
    · rw [clean, if_neg h, clean, if_neg h, cleanList_take, cleanList_cleanList, List.take_take, min_self]
  | .obj d, depth => by
    by_cases h : 6 < depth
    · rw [clean_deep _ h, clean_deep _ h]
    · rw [clean, if_neg h, clean, if_neg h, cleanEntries_cleanEntries]
  | .null, depth => clean_clean_leaf (by simp) (by simp) depth
  | .bool _, depth => clean_clean_leaf (by simp) (by simp) depth
  | .int _, depth => clean_clean_leaf (by simp) (by simp) depth
  | .float _, depth => clean_clean_leaf (by simp) (by simp) depth
  | .str _, depth => clean_clean_leaf (by simp) (by simp) depth

theorem cleanList_cleanList : ∀ (xs : List Json) (depth : ℕ), cleanList (cleanList xs depth) depth = cleanList xs depth
  | [], _ => rfl
  | x :: xs, depth => by rw [cleanList, cleanList, clean_clean x depth, cleanList_cleanList xs depth]

theorem cleanEntries_cleanEntries : ∀ (d : List (String × Json)) (depth : ℕ),
    cleanEntries (cleanEntries d depth) depth = cleanEntries d depth
  | [], _ => rfl
  | (k, v) :: d, depth => by
    rw [cleanEntries_cons, cleanEntries_cons, cleanEntries_cleanEntries d depth]
    by_cases hk : isForbidden k = true
    · rw [if_pos hk, if_pos hk]
    · rw [if_neg hk, if_neg hk, clean_clean v depth]

end

/-- **What is persisted does not show what stands under forbidden keys**, and sanitizing it again changes nothing. -/
theorem sanitize_hides {p q : Json} (h : SameOutside p q) :
    sanitizeProviderPayload p = sanitizeProviderPayload q ∧
      ∀ x, sanitizeProviderPayload (sanitizeProviderPayload x) = sanitizeProviderPayload x :=
  ⟨clean_sameOutside h 0, fun x => clean_clean x 0⟩

/-- A payment with a card number, in a list of attempts. -/
def cardPayload (number : String) : Json :=
  .obj [("id", .str "pay_1"),
    ("attempts", .arr [.obj [("Card", .obj [("number", .str number)]), ("amount", .int 500)]])]

theorem sanitize_hides_card : sanitizeProviderPayload (cardPayload "4111111111111111") =
    sanitizeProviderPayload (cardPayload "5555555555554444") :=
  (sanitize_hides (.obj (.cons (.refl _) (.cons (.arr (.cons (.obj (.forbidden _ _ (by decide)
    (.cons (.refl _) .nil))) .nil)) .nil)))).1

end RevenueOS.Payments
