import RevenueOS.Ai.Guards

/-!
# RevenueOS.Logging.Redaction — what reaches the logs

`redact`, `scrub_text` and `mask_email` (`infrastructure/logging/redaction.py`) on any payload: `dict`s, lists and
tuples, at any depth, texts, and other values, which are kept.  The keys of a `dict` are values of any type; `str` of
a key, which may raise, is a parameter.

* `redact_hides`: the values under secret keys do not show.
-/

namespace RevenueOS.Logging

open RevenueOS.Py RevenueOS.Lib RevenueOS.Ai

/-- `SECRET_KEYS`. -/
def secretKeys : List String :=
  ["password", "current_password", "new_password", "password_hash", "token", "access_token", "refresh_token",
    "id_token", "authorization", "api_key", "secret", "client_secret", "webhook_secret", "signature", "private_key",
    "encryption_key", "otp", "totp_seed", "recovery_code", "card", "card_number", "cvv", "pan", "aadhaar",
    "account_number", "ifsc", "razorpay_key_secret", "cookie", "set-cookie", "session"]

/-- `PII_KEYS`. -/
def piiKeys : List String := ["email", "phone", "mobile", "address", "dob", "date_of_birth", "gstin"]

/-- `REDACTED`. -/
def redacted : String := "[REDACTED]"

/-- `MAX_DEPTH`. -/
def maxDepth : ℕ := 8

inductive Payload (κ σ : Type) where
  | dict (entries : List (κ × Payload κ σ))
  | list (items : List (Payload κ σ))
  | tuple (items : List (Payload κ σ))
  | str (text : String)
  | scalar (value : σ)

/-! ## Texts -/

/-- `mask_email`. -/
def maskEmail (value : String) : String :=
  if '@' ∉ value.toList then redacted
  else
    let name := value.toList.takeWhile (· != '@')
    let domain := (value.toList.dropWhile (· != '@')).drop 1
    String.ofList (name.headD '*' :: List.replicate (max 1 (name.length - 1)) '*' ++ '@' :: domain)

section Scrub

variable (isAlnum : Char → Bool)

/-- `scrub_text`. -/
def scrubText (value : String) : String :=
  let value := reSub isAlnum r"bearer\s+[A-Za-z0-9._\-]+" true ("Bearer " ++ redacted) value
  let value := reSub isAlnum r"\b[A-Z]{5}[0-9]{4}[A-Z]\b" false "[PAN]" value
  let value := reSub isAlnum r"\b[2-9][0-9]{3}[ -]?[0-9]{4}[ -]?[0-9]{4}\b" false "[AADHAAR]" value
  reSub isAlnum r"\b(?:[0-9][ -]?){13,19}\b" false "[CARD]" value

/-- `re.sub(pattern, f, text)`, where `f` is given the text of a match. -/
def reSubWith (pattern : String) (ignoreCase : Bool) (f : String → String) (text : String) : String :=
  match Regex.parse pattern with
  | some r =>
    String.ofList (r.subWith (alphabet isAlnum ignoreCase) (fun u => (f (String.ofList u)).toList) text.toList)
  | none => text

/-- `_EMAIL.sub(mask_email, text)`. -/
def maskEmails (text : String) : String :=
  reSubWith isAlnum r"\b[\w.%+-]+@[\w.-]+\.[A-Za-z]{2,}\b" false maskEmail text

end Scrub

/-! ## `redact` -/

/-- The value under the key is a secret. -/
def isSecret (lowered : String) : Bool :=
  secretKeys.contains lowered || ["secret", "password", "token"].any fun s => contains lowered s

section Redact

variable {κ σ : Type} (isAlnum : Char → Bool) (keyText : κ → Option String) (maskPii : Bool)

/-- What becomes of the value under a key of `PII_KEYS`. -/
def maskValue (lowered : String) : Payload κ σ → String
  | .str text => if lowered = "email" then maskEmail text else redacted
  | _ => redacted

mutual

/-- `redact`; `none` where `str` of a key raises. -/
def redact : Payload κ σ → ℕ → Option (Payload κ σ)
  | value, depth =>
    if maxDepth < depth then some (.str "[TRUNCATED]")
    else
      match value with
      | .dict entries => (redactEntries entries depth).map .dict
      | .list items => (redactItems items depth).map fun out => .list (out.take 200)
      | .tuple items => (redactItems items depth).map fun out => .list (out.take 200)
      | .str text =>
        let text := scrubText isAlnum text
        some (.str (if maskPii then maskEmails isAlnum text else text))
      | .scalar value => some (.scalar value)

/-- The values of a list, one after the other. -/
def redactItems : List (Payload κ σ) → ℕ → Option (List (Payload κ σ))
  | [], _ => some []
  | item :: items, depth => do
    let item ← redact item (depth + 1)
    let items ← redactItems items depth
    return item :: items

/-- The entries of a `dict`, one after the other. -/
def redactEntries : List (κ × Payload κ σ) → ℕ → Option (List (κ × Payload κ σ))
  | [], _ => some []
  | (key, item) :: entries, depth => do
    let lowered ← (keyText key).map lower
    let item ←
      if isSecret lowered then some (.str redacted)
      else if maskPii && piiKeys.contains lowered then some (.str (maskValue lowered item))
      else redact item (depth + 1)
    let entries ← redactEntries entries depth
    return (key, item) :: entries

end

mutual

/-- Payloads that differ only in what stands under secret keys. -/
inductive SameOutside (keyText : κ → Option String) : Payload κ σ → Payload κ σ → Prop
  | str (text : String) : SameOutside keyText (.str text) (.str text)
  | scalar (value : σ) : SameOutside keyText (.scalar value) (.scalar value)
  | dict {d e : List (κ × Payload κ σ)} : SameEntries keyText d e → SameOutside keyText (.dict d) (.dict e)
  | list {xs ys : List (Payload κ σ)} : SameItems keyText xs ys → SameOutside keyText (.list xs) (.list ys)
  | tuple {xs ys : List (Payload κ σ)} : SameItems keyText xs ys → SameOutside keyText (.tuple xs) (.tuple ys)

inductive SameItems (keyText : κ → Option String) : List (Payload κ σ) → List (Payload κ σ) → Prop
  | nil : SameItems keyText [] []
  | cons {x y : Payload κ σ} {xs ys : List (Payload κ σ)} : SameOutside keyText x y → SameItems keyText xs ys →
    SameItems keyText (x :: xs) (y :: ys)

inductive SameEntries (keyText : κ → Option String) : List (κ × Payload κ σ) → List (κ × Payload κ σ) → Prop
  | nil : SameEntries keyText [] []
  | secret {k : κ} {text : String} (v w : Payload κ σ) {d e : List (κ × Payload κ σ)} : keyText k = some text →
    isSecret (lower text) = true → SameEntries keyText d e → SameEntries keyText ((k, v) :: d) ((k, w) :: e)
  | cons {k : κ} {v w : Payload κ σ} {d e : List (κ × Payload κ σ)} : SameOutside keyText v w →
    SameEntries keyText d e → SameEntries keyText ((k, v) :: d) ((k, w) :: e)

end

variable {isAlnum : Char → Bool} {keyText : κ → Option String} {maskPii : Bool}

/-- A masked value shows whether the value is a text, and which. -/
theorem SameOutside.maskValue {x y : Payload κ σ} (h : SameOutside keyText x y) (lowered : String) :
    maskValue lowered x = maskValue lowered y := by
  cases h with
  | str text => rfl
  | scalar value => rfl
  | dict h => rfl
  | list h => rfl
  | tuple h => rfl

mutual

/-- The values under secret keys do not show, by induction on how the payloads agree. -/
theorem redact_sameOutside : ∀ {x y : Payload κ σ}, SameOutside keyText x y → ∀ depth,
    redact isAlnum keyText maskPii x depth = redact isAlnum keyText maskPii y depth
  | _, _, .str _, _ => rfl
  | _, _, .scalar _, _ => rfl
  | _, _, .dict h, depth => by rw [redact, redact, redactEntries_sameEntries h]
  | _, _, .list h, depth => by rw [redact, redact, redactItems_sameItems h]
  | _, _, .tuple h, depth => by rw [redact, redact, redactItems_sameItems h]

theorem redactItems_sameItems : ∀ {xs ys : List (Payload κ σ)}, SameItems keyText xs ys → ∀ depth,
    redactItems isAlnum keyText maskPii xs depth = redactItems isAlnum keyText maskPii ys depth
  | _, _, .nil, _ => rfl
  | _, _, .cons h hs, depth => by rw [redactItems, redactItems, redact_sameOutside h, redactItems_sameItems hs]

theorem redactEntries_sameEntries : ∀ {d e : List (κ × Payload κ σ)}, SameEntries keyText d e → ∀ depth,
    redactEntries isAlnum keyText maskPii d depth = redactEntries isAlnum keyText maskPii e depth
  | _, _, .nil, _ => rfl
  | _, _, .secret v w htext hsecret hs, depth => by
    rw [redactEntries, redactEntries, htext, redactEntries_sameEntries hs]
    simp only [Option.map_some, Option.bind_eq_bind, Option.bind_some, if_pos hsecret]
  | _, _, .cons h hs, depth => by
    rw [redactEntries, redactEntries, redact_sameOutside h, redactEntries_sameEntries hs]
    simp only [h.maskValue]

end

/-- **What is logged does not show what stands under secret keys**, whether or not personal data is masked. -/
theorem redact_hides {p q : Payload κ σ} (h : SameOutside keyText p q) (maskPii : Bool) :
    redact isAlnum keyText maskPii p 0 = redact isAlnum keyText maskPii q 0 :=
  redact_sameOutside h 0

end Redact

/-- A login attempt, in a tuple of attempts. -/
def attempt (password : String) : Payload String ℤ :=
  .dict [("Email", .str "a@b.in"), ("attempts", .tuple [.dict [("New-Password", .list [.str password]),
    ("count", .scalar 3)]])]

theorem redact_hides_attempt : SameOutside some (attempt "hunter2") (attempt "letmein") ∧
    redact Char.isAlphanum some true (attempt "hunter2") 0 = redact Char.isAlphanum some true (attempt "letmein") 0 := by
  have h : SameOutside some (attempt "hunter2") (attempt "letmein") :=
    .dict (.cons (.str _) (.cons (.tuple (.cons (.dict (.secret _ _ rfl (by decide)
      (.cons (.scalar 3) .nil))) .nil)) .nil))
  exact ⟨h, redact_hides h true⟩

end RevenueOS.Logging
