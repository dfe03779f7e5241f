import Mathlib.Data.Rat.Floor
import Mathlib.Data.Vector.Basic
import Mathlib.Tactic.IntervalCases
import RevenueOS.Lib.Assoc
import RevenueOS.Py.Numerals
import RevenueOS.Workflows.Executor

/-!
# RevenueOS.Auth.Verification — credentials that a stranger presents

`verify_signature` (`application/workflows/ingress.py`), `RazorpayAdapter.verify_webhook_signature`
(`infrastructure/integrations/razorpay.py`) and `verify_totp` (`infrastructure/auth/mfa.py`), on any text.

* `headerPart_eq`: the part of a header is the last one of its name.
* `totpAt_ok`: a code is made of six ASCII digits.
* `verification_total_iff`: each of the three returns a boolean, and the right one, exactly on the texts that no step of
  it refuses.  `superscript_raises` is a header that the second step refuses, with two more texts.

HMAC is a parameter of which only the lengths of its digests are known.  The clock is exact: a difference of a `float`
and an integer of its size is.
-/

namespace RevenueOS.Auth

open RevenueOS.Lib RevenueOS.Py RevenueOS.Workflows

/-! ## `hmac` -/

/-- `hmac.new(key, message, ..).digest()`. -/
structure Hmac where
  sha1 : List UInt8 → List UInt8 → List.Vector UInt8 20
  sha256 : List UInt8 → List UInt8 → List.Vector UInt8 32

inductive VerifyError where
  | valueError
  | overflowError
  | typeError
  /-- `struct.error`. -/
  | structError
deriving DecidableEq

/-- `text.encode()`. -/
def encode (text : String) : List UInt8 := text.toByteArray.data.toList

/-- `bytes.hex()`. -/
def hexText (bytes : List UInt8) : String := String.ofList (bytes.flatMap fun b => hex 2 b.toNat)

/-- `str.isascii`. -/
def isAscii (s : String) : Bool := s.toList.all fun c => c.toNat < 128

/-- `hmac.compare_digest` of two texts. -/
def compareDigest (a b : String) : Except VerifyError Bool :=
  if isAscii a && isAscii b then .ok (a = b) else .error .typeError

/-! ## `verify_signature` -/

/-- `REPLAY_WINDOW_SECONDS`. -/
def replayWindowSeconds : ℚ := 300

/-- `piece.split("=", 1)`, if there is a `=`. -/
def splitPiece (piece : String) : Option (String × String) :=
  if '=' ∈ piece.toList then
    some (String.ofList (piece.toList.takeWhile (· ≠ '=')), String.ofList ((piece.toList.dropWhile (· ≠ '=')).drop 1))
  else none

/-- The parts of a header, in order. -/
def pieces (header : String) : List (String × String) := (split header ",").filterMap splitPiece

/-- `dict(..).get(key, "")`. -/
def headerPart (header key : String) : String :=
  (((pieces header).foldl (fun d p => assocSet d p.1 p.2) []).lookup key).getD ""

/-- `int(timestamp)`, subtracted from the time. -/
def age (now : ℚ) (timestamp : String) : Except VerifyError ℚ :=
  match parseInt? timestamp with
  | none => .error .valueError
  | some t => if floatOverflow ≤ t then .error .overflowError else .ok (now - t)

def verifySignature (hmac : Hmac) (now : ℚ) (secret : String) (body : List UInt8) (header : String) :
    Except VerifyError Bool := do
  let timestamp := headerPart header "t"
  let signature := headerPart header "v1"
  if !isDigitStr timestamp then .ok false
  else do
    let age ← age now timestamp
    if |age| > replayWindowSeconds then .ok false
    else compareDigest (hexText (hmac.sha256 (encode secret) (encode (timestamp ++ ".") ++ body)).toList) signature

/-! ## `verify_webhook_signature` -/

def verifyWebhookSignature (hmac : Hmac) (webhookSecret : String) (body : List UInt8) (signature : String) :
    Except VerifyError Bool :=
  if webhookSecret = "" ∨ signature = "" then .ok false
  else compareDigest (hexText (hmac.sha256 (encode webhookSecret) body).toList) signature

/-! ## `verify_totp` -/

/-- `_B32`. -/
def b32Alphabet : List Char := "ABCDEFGHIJKLMNOPQRSTUVWXYZ234567".toList

/-- `str.upper` of one character, exact where the result has an ASCII letter. -/
def upperChar (c : Char) : List Char :=
  match c.toNat with
  | 0xdf => ['S', 'S']
  | 0x131 => ['I']
  | 0x149 => [Char.ofNat 0x2bc, 'N']
  | 0x17f => ['S']
  | 0x1f0 => ['J', Char.ofNat 0x30c]
  | 0x1e96 => ['H', Char.ofNat 0x331]
  | 0x1e97 => ['T', Char.ofNat 0x308]
  | 0x1e98 => ['W', Char.ofNat 0x30a]
  | 0x1e99 => ['Y', Char.ofNat 0x30a]
  | 0x1e9a => ['A', Char.ofNat 0x2be]
  | 0xfb00 => ['F', 'F']
  | 0xfb01 => ['F', 'I']
  | 0xfb02 => ['F', 'L']
  | 0xfb03 => ['F', 'F', 'I']
  | 0xfb04 => ['F', 'F', 'L']
  | 0xfb05 => ['S', 'T']
  | 0xfb06 => ['S', 'T']
  | _ => [c.toUpper]

def upper (s : String) : String := String.ofList (s.toList.flatMap upperChar)

/-- `s.rstrip("=")`. -/
def rstripEquals (s : String) : String := String.ofList (s.toList.reverse.dropWhile (· = '=')).reverse

/-- A number in binary, most significant bit first. -/
def bits (width n : ℕ) : List Bool := (List.range width).map fun i => n / 2 ^ (width - 1 - i) % 2 = 1

/-- `int(bits, 2)`. -/
def ofBits (bs : List Bool) : ℕ := bs.foldl (fun n b => 2 * n + b.toNat) 0

/-- `_b32decode`. -/
def b32decode (secret : String) : List UInt8 :=
  let cleaned := rstripEquals (upper (replace (strip secret) " " ""))
  let bs := (cleaned.toList.filter (b32Alphabet.contains ·)).flatMap fun c => bits 5 (b32Alphabet.idxOf c)
  (List.range (bs.length / 8)).map fun i => UInt8.ofNat (ofBits ((bs.drop (8 * i)).take 8))

/-- `struct.pack(">Q", n)`. -/
def pack (n : ℕ) : List UInt8 := (List.range 8).map fun i => UInt8.ofNat (n / 256 ^ (7 - i))

/-- `struct.unpack(">I", bytes)`. -/
def unpack (bytes : List UInt8) : ℕ := bytes.foldl (fun n b => 256 * n + b.toNat) 0

/-- `TOTP_DIGITS`. -/
def totpDigits : ℕ := 6

/-- `TOTP_PERIOD`. -/
def totpPeriod : ℚ := 30

/-- `TOTP_DRIFT_WINDOWS`. -/
def totpDriftWindows : ℕ := 1

/-- `str(n).zfill(width)`. -/
def zfill (width n : ℕ) : String := String.ofList (List.replicate (width - (toString n).length) '0') ++ toString n

section Totp

variable (hmac : Hmac)

def totpAt (secret : String) (counter : ℤ) : Except VerifyError String :=
  if counter < 0 ∨ 2 ^ 64 ≤ counter then .error .structError
  else
    let digest := (hmac.sha1 (b32decode secret) (pack counter.toNat)).toList
    let offset := (digest.getLastD 0).toNat &&& 0x0F
    let word := (digest.drop offset).take 4
    if word.length ≠ 4 then .error .structError
    else .ok (zfill totpDigits ((unpack word &&& 0x7FFFFFFF) % 10 ^ totpDigits))

/-- `range(-drift, drift + 1)`. -/
def offsets (drift : ℕ) : List ℤ := (List.range (2 * drift + 1)).map fun i : ℕ => (i : ℤ) - drift

/-- The loop of `any`. -/
def anyTotp (secret : String) (counter : ℤ) (candidate : String) : List ℤ → Except VerifyError Bool
  | [] => .ok false
  | offset :: rest => do
    let code ← totpAt hmac secret (counter + offset)
    let same ← compareDigest code candidate
    if same then .ok true else anyTotp secret counter candidate rest

/-- The code that is compared. -/
def candidate (code : String) : String := replace (strip code) " " ""

def verifyTotp (secret code : String) (now : ℚ) (drift : ℕ) : Except VerifyError Bool :=
  if !isDigitStr (candidate code) || (candidate code).length ≠ totpDigits then .ok false
  else anyTotp hmac secret ⌊now / totpPeriod⌋ (candidate code) (offsets drift)

end Totp

/-! ## Texts that are compared -/

theorem isAscii_iff {s : String} : isAscii s = true ↔ ∀ c ∈ s.toList, c.toNat < 128 := by
  simp [isAscii]

set_option maxRecDepth 4000 in
/-- A byte has two hexadecimal digits. -/
theorem hex_byte : ∀ n < 256, (hex 2 n).length = 2 ∧ (hex 2 n).all (·.toNat < 128) = true := by decide

theorem isAscii_hexText (bytes : List UInt8) : isAscii (hexText bytes) = true := by
  unfold isAscii hexText
  rw [String.toList_ofList, List.all_flatMap, List.all_eq_true]
  exact fun b _ => (hex_byte b.toNat (UInt8.toNat_lt b)).2

/-- A digest has a text. -/
theorem hexText_ne_empty {n : ℕ} (digest : List.Vector UInt8 (n + 1)) : hexText digest.toList ≠ "" := by
  intro h
  have hchars := congrArg String.toList h
  unfold hexText at hchars
  rw [String.toList_ofList] at hchars
  obtain ⟨b, bs, hb⟩ := List.exists_cons_of_length_eq_add_one digest.toList_length
  rw [hb, List.flatMap_cons] at hchars
  have hlength := (hex_byte b.toNat (UInt8.toNat_lt b)).1
  have hempty := congrArg List.length hchars
  rw [List.length_append, hlength] at hempty
  simp at hempty

theorem compareDigest_of_ascii {a : String} (ha : isAscii a = true) (b : String) :
    compareDigest a b = if isAscii b then .ok (decide (a = b)) else .error .typeError := by
  unfold compareDigest
  rw [ha, Bool.true_and]

/-! ## The signature of an inbound webhook -/

/-- The last part of a header of some name. -/
def LastPart (header key value : String) : Prop :=
  ∃ before after, pieces header = before ++ (key, value) :: after ∧ ∀ p ∈ after, p.1 ≠ key

/-- **The part of a header** is the last one of its name. -/
theorem headerPart_eq {header key value : String} (h : value ≠ "") :
    headerPart header key = value ↔ LastPart header key value := by
  have hlookup : headerPart header key = value ↔ (pieces header).reverse.lookup key = some value := by
    unfold headerPart
    rw [lookup_foldl_assocSet]
    cases hfound : (pieces header).reverse.lookup key with
    | none => simp [Ne.symm h]
    | some v => simp
  rw [hlookup, List.lookup_eq_some_iff]
  constructor
  · rintro ⟨after, before, heq, hafter⟩
    refine ⟨before.reverse, after.reverse, ?_, fun p hp => ?_⟩
    · rw [← List.reverse_reverse (pieces header), heq]
      simp
    · have hne := hafter p (List.mem_reverse.mp hp)
      exact Ne.symm (by simpa using hne)
  · rintro ⟨before, after, heq, hafter⟩
    refine ⟨after.reverse, before.reverse, ?_, fun p hp => ?_⟩
    · rw [heq]
      simp
    · have hne := hafter p (List.mem_reverse.mp hp)
      simpa using Ne.symm hne

section Signature

variable (hmac : Hmac) (now : ℚ) (secret : String) (body : List UInt8) (header : String)

/-- The last `t` is a decimal timestamp in the window, and the last `v1` the HMAC of it and the body. -/
def Genuine : Prop :=
  ∃ t n signature, LastPart header "t" t ∧ decimalText? t = some n ∧ |now - n| ≤ replayWindowSeconds ∧
    LastPart header "v1" signature ∧
    signature = hexText (hmac.sha256 (encode secret) (encode (t ++ ".") ++ body)).toList

/-- What no step refuses: digits that `int` reads, a number that a `float` holds, and in the window an ASCII text. -/
def Readable : Prop :=
  isDigitStr (headerPart header "t") = true →
    (headerPart header "t").toList.length ≤ maxStrDigits ∧
    ∃ n, decimalText? (headerPart header "t") = some n ∧ (n : ℤ) < floatOverflow ∧
      (|now - n| ≤ replayWindowSeconds → isAscii (headerPart header "v1") = true)

end Signature

section SignatureFacts

variable {hmac : Hmac} {now : ℚ} {secret : String} {body : List UInt8} {header : String}

/-- A timestamp that is read. -/
theorem genuine_iff {n : ℕ} (hn : decimalText? (headerPart header "t") = some n) :
    Genuine hmac now secret body header ↔ |now - n| ≤ replayWindowSeconds ∧
      hexText (hmac.sha256 (encode secret) (encode (headerPart header "t" ++ ".") ++ body)).toList =
        headerPart header "v1" := by
  have hne : ∀ {t m}, decimalText? t = some m → t ≠ "" := by
    rintro t m hm rfl
    cases hm
  constructor
  · rintro ⟨t, m, signature, ht, hm, hage, hv, hsignature⟩
    have ht' : headerPart header "t" = t := (headerPart_eq (hne hm)).mpr ht
    have hv' : headerPart header "v1" = signature :=
      (headerPart_eq (by rw [hsignature]; exact hexText_ne_empty _)).mpr hv
    rw [ht', hm] at hn
    obtain rfl := Option.some.inj hn
    rw [ht', hv']
    exact ⟨hage, hsignature.symm⟩
  · rintro ⟨hage, hsignature⟩
    refine ⟨_, n, _, (headerPart_eq (hne hn)).mp rfl, hn, hage, (headerPart_eq ?_).mp rfl, hsignature.symm⟩
    rw [← hsignature]
    exact hexText_ne_empty _

/-- Without a timestamp of digits nothing is genuine. -/
theorem not_genuine (h : isDigitStr (headerPart header "t") = false) : ¬ Genuine hmac now secret body header := by
  rintro ⟨t, n, signature, ht, hn, -⟩
  have hne : t ≠ "" := by
    rintro rfl
    cases hn
  rw [(headerPart_eq hne).mpr ht, isDigitStr_of_decimalText hn] at h
  cases h

/-- The age of a timestamp of digits. -/
theorem age_of_digits {t : String} (h : isDigitStr t = true) {a : ℚ} :
    age now t = .ok a ↔ t.toList.length ≤ maxStrDigits ∧
      ∃ n, decimalText? t = some n ∧ (n : ℤ) < floatOverflow ∧ a = now - n := by
  unfold age
  rw [parseInt_of_isDigitStr h]
  by_cases hlength : maxStrDigits < t.toList.length
  · rw [if_pos hlength]
    exact iff_of_false (by simp) fun hread => absurd hread.1 (Nat.not_le.mpr hlength)
  · rw [if_neg hlength]
    cases hvalue : decimalText? t with
    | none => simp
    | some n =>
      by_cases hoverflow : floatOverflow ≤ (n : ℤ)
      · simp [hoverflow]
      · simp [hoverflow, Int.not_le.mp hoverflow, Nat.le_of_not_lt hlength, eq_comm]

/-- A timestamp that is not made of digits is refused. -/
theorem verifySignature_of_not_digits (h : isDigitStr (headerPart header "t") = false) :
    verifySignature hmac now secret body header = .ok false := by
  simp only [verifySignature, h]
  rfl

/-- Behind a timestamp that is read, the signature is compared if the timestamp is in the window. -/
theorem verifySignature_of_age {a : ℚ} (h : isDigitStr (headerPart header "t") = true)
    (ha : age now (headerPart header "t") = .ok a) :
    verifySignature hmac now secret body header = if |a| > replayWindowSeconds then .ok false
      else if isAscii (headerPart header "v1") then
        .ok (decide (hexText (hmac.sha256 (encode secret) (encode (headerPart header "t" ++ ".") ++ body)).toList =
          headerPart header "v1"))
      else .error .typeError := by
  rw [← compareDigest_of_ascii (isAscii_hexText _)]
  simp only [verifySignature, h, ha]
  rfl

theorem verifySignature_of_error {e : VerifyError} (h : isDigitStr (headerPart header "t") = true)
    (he : age now (headerPart header "t") = .error e) : verifySignature hmac now secret body header = .error e := by
  simp only [verifySignature, h, he]
  rfl

/-- **The signature is verified** with the right result exactly if no step refuses the header. -/
theorem verifySignature_iff :
    (∃ b, verifySignature hmac now secret body header = .ok b ∧ (b = true ↔ Genuine hmac now secret body header)) ↔
      Readable now header := by
  cases hdigits : isDigitStr (headerPart header "t") with
  | false =>
    refine iff_of_true ⟨false, verifySignature_of_not_digits hdigits, ?_⟩ fun h => ?_
    · exact iff_of_false (by simp) (not_genuine hdigits)
    · rw [hdigits] at h
      cases h
  | true =>
    cases hage : age now (headerPart header "t") with
    | error e =>
      refine iff_of_false ?_ fun h => ?_
      · rintro ⟨b, hb, -⟩
        rw [verifySignature_of_error hdigits hage] at hb
        cases hb
      · obtain ⟨hlength, n, hn, hsmall, -⟩ := h hdigits
        have hok : age now (headerPart header "t") = .ok (now - n) :=
          (age_of_digits hdigits).mpr ⟨hlength, n, hn, hsmall, rfl⟩
        rw [hage] at hok
        cases hok
    | ok a =>
      obtain ⟨hlength, n, hn, hsmall, rfl⟩ := (age_of_digits hdigits).mp hage
      rw [verifySignature_of_age hdigits hage, genuine_iff hn]
      have hreadable : Readable now header ↔
          (|now - n| ≤ replayWindowSeconds → isAscii (headerPart header "v1") = true) := by
        constructor
        · intro h hwindow
          obtain ⟨-, m, hm, -, hascii⟩ := h hdigits
          rw [hn] at hm
          obtain rfl := Option.some.inj hm
          exact hascii hwindow
        · intro h _
          exact ⟨hlength, n, hn, hsmall, h⟩
      rw [hreadable]
      by_cases hwindow : |now - n| ≤ replayWindowSeconds
      · rw [if_neg (not_lt.mpr hwindow)]
        cases hascii : isAscii (headerPart header "v1") <;> simp [hwindow]
      · rw [if_pos (not_le.mp hwindow)]
        simp [hwindow]

end SignatureFacts

/-! ## The signature of the payment provider -/

/-- **The signature of the provider** is verified exactly if it is ASCII, or empty, or there is no secret. -/
theorem verifyWebhookSignature_iff {hmac : Hmac} {webhookSecret signature : String} {body : List UInt8} :
    (∃ b, verifyWebhookSignature hmac webhookSecret body signature = .ok b ∧ (b = true ↔
      webhookSecret ≠ "" ∧ signature = hexText (hmac.sha256 (encode webhookSecret) body).toList)) ↔
      (webhookSecret ≠ "" → isAscii signature = true) := by
  unfold verifyWebhookSignature
  rw [compareDigest_of_ascii (isAscii_hexText _)]
  by_cases hsecret : webhookSecret = ""
  · simp [hsecret]
  by_cases hempty : signature = ""
  · have hne := hexText_ne_empty (hmac.sha256 (encode webhookSecret) body)
    have hascii : isAscii "" = true := rfl
    simp [hempty, hascii, hne.symm]
  · cases hascii : isAscii signature <;> simp [hsecret, hempty, eq_comm]

/-! ## One-time codes -/

/-- An ASCII digit is a digit. -/
theorem isDigit_of_ascii_digit {c : Char} (h : c.isDigit = true) : isDigit c = true ∧ c.toNat < 128 := by
  obtain ⟨hlow, hhigh⟩ := Char.isDigit_iff_toNat.mp h
  change 48 ≤ c.toNat at hlow
  change c.toNat ≤ 57 at hhigh
  rw [isDigit_eq]
  generalize c.toNat = n at hlow hhigh
  interval_cases n <;> decide

/-- A number below a million, in six digits. -/
theorem zfill_digits {n : ℕ} (h : n < 10 ^ totpDigits) :
    (zfill totpDigits n).length = totpDigits ∧ ∀ c ∈ (zfill totpDigits n).toList, c.isDigit = true := by
  have hlength : (toString n).length ≤ totpDigits := by
    rw [← String.length_toList, toList_natText]
    exact (Nat.length_toDigits_le_iff (by decide) (by decide)).mpr h
  constructor
  · unfold zfill
    rw [String.length_append, String.length_ofList, List.length_replicate]
    omega
  · intro c hc
    unfold zfill at hc
    rw [String.toList_append, String.toList_ofList, toList_natText, List.mem_append] at hc
    rcases hc with hc | hc
    · rw [List.eq_of_mem_replicate hc]
      rfl
    · exact Nat.isDigit_of_mem_toDigits (by decide) (by decide) hc

/-- A code: six ASCII digits. -/
def IsCode (code : String) : Prop := isDigitStr code = true ∧ code.length = totpDigits ∧ isAscii code = true

theorem isCode_zfill {n : ℕ} (h : n < 10 ^ totpDigits) : IsCode (zfill totpDigits n) := by
  obtain ⟨hlength, hdigits⟩ := zfill_digits h
  refine ⟨?_, hlength, isAscii_iff.mpr fun c hc => (isDigit_of_ascii_digit (hdigits c hc)).2⟩
  unfold isDigitStr
  rw [Bool.and_eq_true, List.all_eq_true]
  refine ⟨?_, fun c hc => (isDigit_of_ascii_digit (hdigits c hc)).1⟩
  rw [← String.length_toList] at hlength
  cases hchars : (zfill totpDigits n).toList with
  | nil =>
    rw [hchars] at hlength
    cases hlength
  | cons c cs => rfl

section TotpFacts

variable (hmac : Hmac) (secret : String)

/-- **A code is made of six ASCII digits**, for each counter of 64 bits. -/
theorem totpAt_ok {counter : ℤ} (hlow : 0 ≤ counter) (hhigh : counter < 2 ^ 64) :
    ∃ code, totpAt hmac secret counter = .ok code ∧ IsCode code := by
  have hrange : ¬(counter < 0 ∨ 2 ^ 64 ≤ counter) := by omega
  have hword : ∀ (digest : List.Vector UInt8 20) (b : ℕ), ((digest.toList.drop (b &&& 0x0F)).take 4).length = 4 := by
    intro digest b
    have hand : b &&& 0x0F ≤ 0x0F := Nat.and_le_right
    rw [List.length_take, List.length_drop, digest.toList_length]
    omega
  have hmod : ∀ n : ℕ, n % 10 ^ totpDigits < 10 ^ totpDigits := fun n => Nat.mod_lt _ (by decide)
  unfold totpAt
  rw [if_neg hrange]
  exact ⟨_, if_neg (not_not.mpr (hword _ _)), isCode_zfill (hmod _)⟩

/-- The counters that `struct` packs. -/
def Packs (counter : ℤ) (l : List ℤ) : Prop := ∀ o ∈ l, 0 ≤ counter + o ∧ counter + o < 2 ^ 64

/-- An ASCII text is looked for among the codes of all counters. -/
theorem anyTotp_of_ascii {counter : ℤ} {code : String} (hascii : isAscii code = true) : ∀ {l : List ℤ}, Packs counter l →
    ∃ b, anyTotp hmac secret counter code l = .ok b ∧
      (b = true ↔ ∃ o ∈ l, totpAt hmac secret (counter + o) = .ok code)
  | [], _ => ⟨false, rfl, by simp⟩
  | o :: l, hl => by
    obtain ⟨expected, hexpected, hcode⟩ := totpAt_ok hmac secret (hl o List.mem_cons_self).1
      (hl o List.mem_cons_self).2
    obtain ⟨b, hb, hiff⟩ := anyTotp_of_ascii hascii fun x hx => hl x (List.mem_cons_of_mem _ hx)
    have hcompare : compareDigest expected code = .ok (decide (expected = code)) := by
      rw [compareDigest_of_ascii hcode.2.2, if_pos hascii]
    unfold anyTotp
    rw [hexpected]
    change ∃ b, (compareDigest expected code >>= fun same =>
      if same then .ok true else anyTotp hmac secret counter code l) = .ok b ∧ _
    rw [hcompare]
    change ∃ b, (if decide (expected = code) = true then .ok true else anyTotp hmac secret counter code l) = .ok b ∧ _
    by_cases hsame : expected = code
    · rw [if_pos (decide_eq_true hsame)]
      exact ⟨true, rfl, iff_of_true rfl ⟨o, List.mem_cons_self, hsame ▸ hexpected⟩⟩
    · rw [if_neg (by simpa using hsame), hb]
      refine ⟨b, rfl, ?_⟩
      rw [hiff, List.exists_mem_cons_iff, hexpected]
      simp [hsame]

/-- Any other text is refused at the first counter. -/
theorem anyTotp_of_not_ascii {counter : ℤ} {code : String} {l : List ℤ} (hascii : isAscii code = false)
    (hl : Packs counter l) (hne : l ≠ []) : anyTotp hmac secret counter code l = .error .typeError := by
  obtain ⟨o, rest, rfl⟩ := List.exists_cons_of_ne_nil hne
  obtain ⟨hlow, hhigh⟩ := hl o List.mem_cons_self
  obtain ⟨expected, hexpected, hcode⟩ := totpAt_ok hmac secret hlow hhigh
  have hcompare : compareDigest expected code = .error .typeError := by
    rw [compareDigest_of_ascii hcode.2.2, hascii]
    rfl
  unfold anyTotp
  rw [hexpected]
  change (compareDigest expected code >>= _) = _
  rw [hcompare]
  rfl

end TotpFacts

theorem mem_offsets {drift : ℕ} {o : ℤ} : o ∈ offsets drift ↔ |o| ≤ drift := by
  unfold offsets
  rw [List.mem_map, abs_le]
  constructor
  · rintro ⟨i, hi, rfl⟩
    have := List.mem_range.mp hi
    omega
  · rintro ⟨hlow, hhigh⟩
    exact ⟨(o + drift).toNat, List.mem_range.mpr (by omega), by omega⟩

/-- `time.time()`, which is not in the first minute of 1970. -/
structure Clock where
  now : ℚ
  late : 60 ≤ now
  bounded : now < 2 ^ 64

/-- The counters of the window are packed. -/
theorem Clock.packs (clock : Clock) : Packs ⌊clock.now / totpPeriod⌋ (offsets totpDriftWindows) := by
  have hperiod : totpPeriod = 30 := rfl
  have hlow : 2 ≤ ⌊clock.now / totpPeriod⌋ := by
    rw [Int.le_floor, hperiod]
    have := clock.late
    linarith
  have hhigh : ⌊clock.now / totpPeriod⌋ < 2 ^ 63 := by
    rw [Int.floor_lt, hperiod]
    have := clock.bounded
    push_cast
    linarith
  intro o ho
  have hdrift := abs_le.mp (mem_offsets.mp ho)
  unfold totpDriftWindows at hdrift
  omega

/-- **The code is verified** with the right result exactly if six digits are ASCII. -/
theorem verifyTotp_iff {hmac : Hmac} {secret code : String} (clock : Clock) :
    (∃ b, verifyTotp hmac secret code clock.now totpDriftWindows = .ok b ∧ (b = true ↔
      ∃ o : ℤ, |o| ≤ totpDriftWindows ∧
        totpAt hmac secret (⌊clock.now / totpPeriod⌋ + o) = .ok (candidate code))) ↔
      (isDigitStr (candidate code) = true → (candidate code).length = totpDigits → isAscii (candidate code) = true) := by
  have hpacks := clock.packs
  by_cases hsix : isDigitStr (candidate code) = true ∧ (candidate code).length = totpDigits
  · have hverify : verifyTotp hmac secret code clock.now totpDriftWindows =
        anyTotp hmac secret ⌊clock.now / totpPeriod⌋ (candidate code) (offsets totpDriftWindows) := by
      unfold verifyTotp
      rw [if_neg (by simp [hsix])]
    rw [hverify]
    cases hascii : isAscii (candidate code) with
    | true =>
      obtain ⟨b, hb, hiff⟩ := anyTotp_of_ascii hmac secret hascii hpacks
      refine iff_of_true ⟨b, hb, ?_⟩ fun _ _ => rfl
      rw [hiff]
      simp only [mem_offsets]
    | false =>
      refine iff_of_false ?_ fun h => Bool.false_ne_true (h hsix.1 hsix.2)
      rintro ⟨b, hb, -⟩
      rw [anyTotp_of_not_ascii hmac secret hascii hpacks (by decide)] at hb
      cases hb
  · have hverify : verifyTotp hmac secret code clock.now totpDriftWindows = .ok false := by
      unfold verifyTotp
      rw [if_pos]
      rw [Bool.or_eq_true, Bool.not_eq_true', decide_eq_true_iff]
      by_contra h
      push Not at h
      exact hsix ⟨by simpa using h.1, h.2⟩
    refine iff_of_true ⟨false, hverify, ?_⟩ fun hdigits hlength => absurd ⟨hdigits, hlength⟩ hsix
    refine iff_of_false (by simp) ?_
    rintro ⟨o, ho, hcode⟩
    obtain ⟨hlow, hhigh⟩ := hpacks o (mem_offsets.mpr ho)
    obtain ⟨expected, hexpected, hdigits, hlength, -⟩ := totpAt_ok hmac secret hlow hhigh
    rw [hexpected] at hcode
    rw [Except.ok.inj hcode] at hdigits hlength
    exact hsix ⟨hdigits, hlength⟩

/-- **Credentials are verified**, on every text: each function returns a boolean, and the right one, exactly on the texts
that no step of it refuses. -/
theorem verification_total_iff (hmac : Hmac) (clock : Clock) :
    (∀ secret body header, (∃ b, verifySignature hmac clock.now secret body header = .ok b ∧
        (b = true ↔ Genuine hmac clock.now secret body header)) ↔ Readable clock.now header) ∧
      (∀ webhookSecret body signature, (∃ b, verifyWebhookSignature hmac webhookSecret body signature = .ok b ∧
        (b = true ↔ webhookSecret ≠ "" ∧ signature = hexText (hmac.sha256 (encode webhookSecret) body).toList)) ↔
          (webhookSecret ≠ "" → isAscii signature = true)) ∧
      ∀ secret code, (∃ b, verifyTotp hmac secret code clock.now totpDriftWindows = .ok b ∧ (b = true ↔
        ∃ o : ℤ, |o| ≤ totpDriftWindows ∧
          totpAt hmac secret (⌊clock.now / totpPeriod⌋ + o) = .ok (candidate code))) ↔
          (isDigitStr (candidate code) = true → (candidate code).length = totpDigits →
            isAscii (candidate code) = true) :=
  ⟨fun _ _ _ => verifySignature_iff, fun _ _ _ => verifyWebhookSignature_iff, fun _ _ => verifyTotp_iff clock⟩

/-! ## Texts that are refused -/

/-- Digests of zeros. -/
def zeroHmac : Hmac := ⟨fun _ _ => .replicate 20 0, fun _ _ => .replicate 32 0⟩

/-- The fourteenth of November 2023. -/
def sampleClock : Clock := ⟨1700000000, by norm_num, by norm_num⟩

/-- **Three texts** that a step refuses: a superscript, an accent and full-width digits. -/
theorem superscript_raises :
    verifySignature zeroHmac sampleClock.now "secret" [] "t=²,v1=0" = .error .valueError ∧
      verifyWebhookSignature zeroHmac "secret" [] "é" = .error .typeError ∧
      verifyTotp zeroHmac "JBSWY3DPEHPK3PXP" "１２３４５６" sampleClock.now totpDriftWindows = .error .typeError := by
  refine ⟨verifySignature_of_error (by decide) (by decide), ?_, ?_⟩
  · unfold verifyWebhookSignature
    rw [if_neg (by decide), compareDigest_of_ascii (isAscii_hexText _)]
    decide
  · unfold verifyTotp
    rw [if_neg (by decide)]
    exact anyTotp_of_not_ascii _ _ (by decide) sampleClock.packs (by decide)

end RevenueOS.Auth
