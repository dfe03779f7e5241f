import RevenueOS.Lib.Base64
import RevenueOS.Lib.Except
import RevenueOS.Py.Numerals

/-!
# RevenueOS.Auth.Encryption — secrets at rest

`Envelope` and `EnvelopeEncryptor` (`infrastructure/auth/encryption.py`).  The text of a secret is a header between
colons, before the base 64 text of a length, a wrapped key and a record, with a nonce before each of the last two.

* `parse_serialize`: an envelope is read back if its tenant has no colon.
* `authenticated_blob`: the parts of the blob are cut where they were joined.
* `envelope_iff`: what is encrypted is decrypted, for the same tenant only, exactly if the versions can be written in
  decimal; and `decrypt` raises nothing but `DecryptionError` exactly if the version field of the text is a number.

HKDF and AES-GCM are parameters.  A `ValueError` of the version field is raised before the block that turns what goes
wrong into a `DecryptionError`.
-/

namespace RevenueOS.Auth

open RevenueOS.Py RevenueOS.Lib

abbrev Bytes := List UInt8

/-- `str.encode`. -/
def encodeUtf8 (s : String) : Bytes := s.toByteArray.data.toList

inductive EncryptionError where
  | decryptionError (message : String)
  /-- A `ValueError` that is no `DecryptionError`. -/
  | valueError
  | overflowError
deriving DecidableEq

def nonceBytes : ℕ := 12

def keyBytes : ℕ := 32

def versionPrefix : String := "v1"

/-- `str` of an `int`, which refuses long numbers. -/
def intText (n : ℤ) : Except EncryptionError String :=
  if (Nat.toDigits 10 n.natAbs).length ≤ maxStrDigits then .ok (toString n) else .error .valueError

/-! ## Envelopes -/

structure Envelope where
  ciphertext : String
  keyVersion : ℤ
  tenantId : String
deriving DecidableEq

/-- `value.split(":", n)`. -/
def splitColons : ℕ → List Char → List (List Char)
  | 0, cs => [cs]
  | n + 1, cs =>
    match cs.dropWhile (· ≠ ':') with
    | [] => [cs]
    | _ :: rest => cs.takeWhile (· ≠ ':') :: splitColons n rest

namespace Envelope

def serialize (e : Envelope) : Except EncryptionError String := do
  let version ← intText e.keyVersion
  .ok (versionPrefix ++ ":" ++ version ++ ":" ++ e.tenantId ++ ":" ++ e.ciphertext)

def parse (value : String) : Except EncryptionError Envelope :=
  match splitColons 3 value.toList with
  | [head, version, tenant, ciphertext] =>
    if String.ofList head ≠ versionPrefix then .error (.decryptionError "unrecognised ciphertext envelope")
    else match parseInt? (String.ofList version) with
      | some keyVersion => .ok ⟨String.ofList ciphertext, keyVersion, String.ofList tenant⟩
      | none => .error .valueError
  | _ => .error (.decryptionError "unrecognised ciphertext envelope")

end Envelope

/-! ## Keys and records -/

/-- HKDF with SHA-256, and AES-GCM with its tag at the end; `aesDecrypt` is `none` where it raises. -/
structure Primitives where
  hkdf : (length : ℕ) → (master salt info : Bytes) → Bytes
  aesEncrypt : (key nonce data associated : Bytes) → Bytes
  aesDecrypt : (key nonce data associated : Bytes) → Option Bytes

/-- What the two algorithms promise for keys and nonces of the right lengths. -/
structure Primitives.Lawful (crypto : Primitives) : Prop where
  hkdf_length : ∀ length master salt info, (crypto.hkdf length master salt info).length = length
  encrypt_length : ∀ key nonce data associated, key.length = keyBytes → nonce.length = nonceBytes →
    (crypto.aesEncrypt key nonce data associated).length = data.length + 16
  decrypt_iff : ∀ key nonce ciphertext associated data, key.length = keyBytes → nonce.length = nonceBytes →
    (crypto.aesDecrypt key nonce ciphertext associated = some data ↔
      crypto.aesEncrypt key nonce data associated = ciphertext)

/-- What `os.urandom` returns to one call of `encrypt`. -/
structure Entropy where
  dek : Bytes
  nonce : Bytes
  kekNonce : Bytes
  dek_length : dek.length = keyBytes
  nonce_length : nonce.length = nonceBytes
  kekNonce_length : kekNonce.length = nonceBytes

/-- `n.to_bytes(2, "big")`. -/
def toBytes2 (n : ℕ) : Except EncryptionError Bytes :=
  if n < 65536 then .ok [UInt8.ofNat (n / 256), UInt8.ofNat (n % 256)] else .error .overflowError

/-- `int.from_bytes(bytes, "big")`. -/
def fromBytes (bytes : Bytes) : ℕ := bytes.foldl (fun n b => 256 * n + b.toNat) 0

/-- The master key. -/
structure EnvelopeEncryptor where
  master : Bytes
  master_length : 32 ≤ master.length

namespace EnvelopeEncryptor

variable (crypto : Primitives) (enc : EnvelopeEncryptor)

/-- `_derive_kek`. -/
def deriveKek (tenant : String) (keyVersion : ℤ) : Except EncryptionError Bytes := do
  let version ← intText keyVersion
  .ok (crypto.hkdf keyBytes enc.master (encodeUtf8 ("airevenueos:kek:" ++ version)) (encodeUtf8 tenant))

def encrypt (data : Bytes) (tenant : String) (keyVersion : ℤ) (random : Entropy) : Except EncryptionError String := do
  let record := crypto.aesEncrypt random.dek random.nonce data (encodeUtf8 tenant)
  let kek ← enc.deriveKek crypto tenant keyVersion
  let wrapped := crypto.aesEncrypt kek random.kekNonce random.dek (encodeUtf8 tenant)
  let wrappedLen ← toBytes2 wrapped.length
  let blob := Base64.encode (wrappedLen ++ random.kekNonce ++ wrapped ++ random.nonce ++ record)
  Envelope.serialize ⟨String.ofList blob, keyVersion, tenant⟩

/-- What the `try` block of `decrypt` returns; `none` where it raises. -/
def authenticated (envelope : Envelope) (tenant : String) : Option Bytes := do
  let raw ← Base64.decode envelope.ciphertext.toList
  let wrappedLen := fromBytes (raw.take 2)
  let cursor := 2
  let kekNonce := (raw.drop cursor).take nonceBytes
  let cursor := cursor + nonceBytes
  let wrapped := (raw.drop cursor).take wrappedLen
  let cursor := cursor + wrappedLen
  let nonce := (raw.drop cursor).take nonceBytes
  let record := raw.drop (cursor + nonceBytes)
  let kek ← (enc.deriveKek crypto tenant envelope.keyVersion).toOption
  let dek ← crypto.aesDecrypt kek kekNonce wrapped (encodeUtf8 tenant)
  crypto.aesDecrypt dek nonce record (encodeUtf8 tenant)

def decrypt (value tenant : String) : Except EncryptionError Bytes := do
  let envelope ← Envelope.parse value
  if envelope.tenantId ≠ tenant then .error (.decryptionError "ciphertext belongs to a different tenant")
  else match enc.authenticated crypto envelope tenant with
    | some data => .ok data
    | none => .error (.decryptionError "ciphertext could not be authenticated")

def rotate (value tenant : String) (newKeyVersion : ℤ) (random : Entropy) : Except EncryptionError String := do
  let plaintext ← enc.decrypt crypto value tenant
  enc.encrypt crypto plaintext tenant newKeyVersion random

end EnvelopeEncryptor

/-! ## Reading an envelope -/

theorem splitColons_cons (n : ℕ) {field : List Char} (rest : List Char) (h : ':' ∉ field) :
    splitColons (n + 1) (field ++ ':' :: rest) = field :: splitColons n rest := by
  have hall : ∀ c ∈ field, decide (c ≠ ':') = true := fun c hc => decide_eq_true fun heq => h (heq ▸ hc)
  rw [splitColons, List.dropWhile_append_of_pos hall, List.takeWhile_append_of_pos hall,
    List.dropWhile_cons_of_neg (by decide),
    List.takeWhile_cons_of_neg (by decide), List.append_nil]

theorem colon_not_mem_intText (n : ℤ) : ':' ∉ (toString n).toList := by
  intro h
  rcases mem_intText h with h | h
  · cases h
  · revert h
    decide

/-- The number can be written in decimal. -/
def Writable (n : ℤ) : Prop := n.natAbs < 10 ^ maxStrDigits

theorem digits_le_iff (n : ℤ) : (Nat.toDigits 10 n.natAbs).length ≤ maxStrDigits ↔ Writable n :=
  Nat.length_toDigits_le_iff (by decide) (by decide)

theorem intText_eq_ok_iff {n : ℤ} {text : String} : intText n = .ok text ↔ Writable n ∧ toString n = text := by
  unfold intText
  rw [← digits_le_iff]
  split_ifs with h
  · simp [h]
  · simp [h]

/-- **An envelope is read back**, if its tenant has no colon. -/
theorem parse_serialize {e : Envelope} (hversion : Writable e.keyVersion) (htenant : ':' ∉ e.tenantId.toList) :
    ∃ text, e.serialize = .ok text ∧ Envelope.parse text = .ok e := by
  refine ⟨versionPrefix ++ ":" ++ toString e.keyVersion ++ ":" ++ e.tenantId ++ ":" ++ e.ciphertext, ?_, ?_⟩
  · unfold Envelope.serialize
    rw [intText_eq_ok_iff.mpr ⟨hversion, rfl⟩]
    rfl
  · have hfields : splitColons 3
        (versionPrefix ++ ":" ++ toString e.keyVersion ++ ":" ++ e.tenantId ++ ":" ++ e.ciphertext).toList =
        [versionPrefix.toList, (toString e.keyVersion).toList, e.tenantId.toList, e.ciphertext.toList] := by
      simp only [String.toList_append, List.append_assoc]
      have hcolon : ":".toList = [':'] := rfl
      rw [hcolon]
      simp only [List.singleton_append]
      rw [splitColons_cons 2 _ (by decide), splitColons_cons 1 _ (colon_not_mem_intText _),
        splitColons_cons 0 _ htenant,
        splitColons]
    unfold Envelope.parse
    rw [hfields]
    dsimp only
    simp only [String.ofList_toList]
    rw [if_neg (fun hne => hne rfl), parseInt_intText ((digits_le_iff _).mpr hversion)]

/-- The version field of the text is a number, where the text is an envelope at all. -/
def ReadableVersion (value : String) : Prop :=
  ∀ version tenant ciphertext, splitColons 3 value.toList = [versionPrefix.toList, version, tenant, ciphertext] →
    (parseInt? (String.ofList version)).isSome

/-- What `parse` raises. -/
theorem parse_cases (value : String) :
    (∃ e, Envelope.parse value = .ok e ∧ ReadableVersion value) ∨
      (∃ m, Envelope.parse value = .error (.decryptionError m) ∧ ReadableVersion value) ∨
        (Envelope.parse value = .error .valueError ∧ ¬ReadableVersion value) := by
  unfold Envelope.parse
  split
  · rename_i head version tenant ciphertext hfields
    split_ifs with hhead
    · refine .inr (.inl ⟨_, rfl, fun version' tenant' ciphertext' hfields' => ?_⟩)
      rw [hfields] at hfields'
      obtain ⟨rfl, -⟩ := List.cons.inj hfields'
      exact absurd (String.ofList_toList) hhead
    · have hv1 : versionPrefix.toList = head := by rw [← not_not.mp hhead, String.toList_ofList]
      cases hparse : parseInt? (String.ofList version) with
      | some keyVersion =>
        refine .inl ⟨_, rfl, fun version' tenant' ciphertext' hfields' => ?_⟩
        rw [hfields] at hfields'
        obtain ⟨rfl, -⟩ := List.cons.inj (List.cons.inj hfields').2
        rw [hparse]
        rfl
      | none =>
        refine .inr (.inr ⟨rfl, fun h => ?_⟩)
        have hread := h version tenant ciphertext (hv1 ▸ hfields)
        rw [hparse] at hread
        cases hread
  · rename_i hfields
    exact .inr (.inl ⟨_, rfl, fun version tenant ciphertext h => absurd h (hfields _ _ _ _)⟩)

/-! ## Cutting the blob -/

theorem fromBytes_toBytes2 {n : ℕ} {bytes : Bytes} (h : toBytes2 n = .ok bytes) :
    fromBytes bytes = n ∧ bytes.length = 2 := by
  unfold toBytes2 at h
  split_ifs at h with hn
  cases h
  refine ⟨?_, rfl⟩
  have hhigh : (UInt8.ofNat (n / 256)).toNat = n / 256 := by
    rw [UInt8.toNat_ofNat']
    omega
  have hlow : (UInt8.ofNat (n % 256)).toNat = n % 256 := by
    rw [UInt8.toNat_ofNat']
    omega
  unfold fromBytes
  rw [List.foldl_cons, List.foldl_cons, List.foldl_nil, hhigh, hlow]
  omega

/-- Parts that were joined are cut where they meet. -/
theorem cut_parts {a b c d e : Bytes} : (a ++ b ++ c ++ d ++ e).take a.length = a ∧
    ((a ++ b ++ c ++ d ++ e).drop a.length).take b.length = b ∧
    ((a ++ b ++ c ++ d ++ e).drop (a.length + b.length)).take c.length = c ∧
    ((a ++ b ++ c ++ d ++ e).drop (a.length + b.length + c.length)).take d.length = d ∧
    (a ++ b ++ c ++ d ++ e).drop (a.length + b.length + c.length + d.length) = e := by
  have hcut : ∀ x y z : Bytes, ((x ++ (y ++ z)).drop x.length).take y.length = y := by
    intro x y z
    rw [List.drop_left, List.take_left]
  have hb := hcut a b (c ++ d ++ e)
  have hc := hcut (a ++ b) c (d ++ e)
  have hd := hcut (a ++ b ++ c) d e
  have he : ((a ++ b ++ c ++ d) ++ e).drop (a ++ b ++ c ++ d).length = e := List.drop_left
  simp only [List.append_assoc, List.length_append, Nat.add_assoc] at hb hc hd he ⊢
  exact ⟨List.take_left, hb, hc, hd, he⟩

namespace EnvelopeEncryptor

variable {crypto : Primitives} {enc : EnvelopeEncryptor} {tenant : String} {keyVersion : ℤ}

theorem deriveKek_ok (hcrypto : crypto.Lawful) (h : Writable keyVersion) :
    ∃ kek, enc.deriveKek crypto tenant keyVersion = .ok kek ∧ kek.length = keyBytes := by
  refine ⟨crypto.hkdf keyBytes enc.master (encodeUtf8 ("airevenueos:kek:" ++ toString keyVersion)) (encodeUtf8 tenant),
    ?_, hcrypto.hkdf_length _ _ _ _⟩
  unfold deriveKek
  rw [intText_eq_ok_iff.mpr ⟨h, rfl⟩]
  rfl

/-- The block of `decrypt` undoes what `encrypt` joined. -/
theorem authenticated_blob (hcrypto : crypto.Lawful) {kek wrappedLen : Bytes} (random : Entropy) (data : Bytes)
    (hkek : enc.deriveKek crypto tenant keyVersion = .ok kek) (hlength : kek.length = keyBytes)
    (hlen : toBytes2 (crypto.aesEncrypt kek random.kekNonce random.dek (encodeUtf8 tenant)).length = .ok wrappedLen) :
    enc.authenticated crypto ⟨String.ofList (Base64.encode (wrappedLen ++ random.kekNonce ++
      crypto.aesEncrypt kek random.kekNonce random.dek (encodeUtf8 tenant) ++ random.nonce ++
        crypto.aesEncrypt random.dek random.nonce data (encodeUtf8 tenant))), keyVersion, tenant⟩ tenant =
      some data := by
  obtain ⟨hvalue, hbytes⟩ := fromBytes_toBytes2 hlen
  obtain ⟨hhead, hkekNonce, hwrapped, hnonce, hrecord⟩ := @cut_parts wrappedLen random.kekNonce
    (crypto.aesEncrypt kek random.kekNonce random.dek (encodeUtf8 tenant)) random.nonce
    (crypto.aesEncrypt random.dek random.nonce data (encodeUtf8 tenant))
  rw [hbytes] at hhead hkekNonce hwrapped hnonce hrecord
  rw [random.kekNonce_length] at hkekNonce hwrapped hnonce hrecord
  rw [random.nonce_length] at hnonce hrecord
  unfold authenticated
  dsimp only
  rw [String.toList_ofList, Base64.decode_encode, hkek]
  dsimp only [Except.toOption, Option.bind_eq_bind, Option.bind_some]
  rw [hhead, hvalue, hkekNonce, hwrapped, hnonce, hrecord]
  rw [(hcrypto.decrypt_iff _ _ _ _ random.dek hlength random.kekNonce_length).mpr rfl, Option.bind_some,
    (hcrypto.decrypt_iff _ _ _ _ data random.dek_length random.nonce_length).mpr rfl]

/-- **What `encrypt` returns** is an envelope of the tenant whose contents are authenticated. -/
theorem encrypt_spec (hcrypto : crypto.Lawful) (htenant : ':' ∉ tenant.toList) (h : Writable keyVersion)
    (data : Bytes) (random : Entropy) :
    ∃ text e, enc.encrypt crypto data tenant keyVersion random = .ok text ∧ Envelope.parse text = .ok e ∧
      e.tenantId = tenant ∧ enc.authenticated crypto e tenant = some data := by
  have hderived : ∃ kek, enc.deriveKek crypto tenant keyVersion = .ok kek ∧ kek.length = keyBytes :=
    deriveKek_ok hcrypto h
  obtain ⟨kek, hkek, hlength⟩ := hderived
  have hwrapped : (crypto.aesEncrypt kek random.kekNonce random.dek (encodeUtf8 tenant)).length = 48 := by
    rw [hcrypto.encrypt_length _ _ _ _ hlength random.kekNonce_length, random.dek_length]
    rfl
  obtain ⟨wrappedLen, hlen⟩ : ∃ bytes, toBytes2 (crypto.aesEncrypt kek random.kekNonce random.dek
      (encodeUtf8 tenant)).length = .ok bytes := ⟨_, by rw [hwrapped]; rfl⟩
  have hdata := authenticated_blob hcrypto random data hkek hlength hlen
  obtain ⟨text, htext, hparse⟩ := @parse_serialize ⟨String.ofList (Base64.encode (wrappedLen ++ random.kekNonce ++
    crypto.aesEncrypt kek random.kekNonce random.dek (encodeUtf8 tenant) ++ random.nonce ++
      crypto.aesEncrypt random.dek random.nonce data (encodeUtf8 tenant))), keyVersion, tenant⟩ h htenant
  refine ⟨text, _, ?_, hparse, rfl, hdata⟩
  exact bind_eq_ok.mpr ⟨kek, hkek, bind_eq_ok.mpr ⟨wrappedLen, hlen, htext⟩⟩

/-- A version that cannot be written is refused. -/
theorem writable_of_encrypt {data : Bytes} {random : Entropy} {text : String}
    (h : enc.encrypt crypto data tenant keyVersion random = .ok text) : Writable keyVersion := by
  obtain ⟨kek, hkek, -⟩ := bind_eq_ok.mp h
  obtain ⟨version, hversion, -⟩ := bind_eq_ok.mp hkek
  exact (intText_eq_ok_iff.mp hversion).1

theorem decrypt_of_parse {text : String} {e : Envelope} {data : Bytes} (hparse : Envelope.parse text = .ok e)
    (htenant : e.tenantId = tenant) (hdata : enc.authenticated crypto e tenant = some data) :
    enc.decrypt crypto text tenant = .ok data := by
  refine bind_eq_ok.mpr ⟨e, hparse, ?_⟩
  rw [if_neg (not_not.mpr htenant), hdata]

theorem decrypt_other {text other : String} {e : Envelope} (hparse : Envelope.parse text = .ok e)
    (htenant : e.tenantId = tenant) (hother : other ≠ tenant) :
    enc.decrypt crypto text other = .error (.decryptionError "ciphertext belongs to a different tenant") := by
  unfold decrypt
  rw [hparse]
  exact if_pos fun heq => hother (heq.symm.trans htenant)

/-! ## Round trips and failures -/

variable (crypto enc tenant keyVersion)

/-- What is encrypted is decrypted, for the same tenant only, and so it is after a rotation to another version. -/
def RoundTrips (data : Bytes) (newKeyVersion : ℤ) (random again : Entropy) : Prop :=
  ∃ text, enc.encrypt crypto data tenant keyVersion random = .ok text ∧ enc.decrypt crypto text tenant = .ok data ∧
    (∀ other, other ≠ tenant → ∃ m, enc.decrypt crypto text other = .error (.decryptionError m)) ∧
      ∃ rotated, enc.rotate crypto text tenant newKeyVersion again = .ok rotated ∧
        enc.decrypt crypto rotated tenant = .ok data

/-- `decrypt` returns or raises `DecryptionError`. -/
def FailsClosed (value : String) : Prop :=
  (∃ data, enc.decrypt crypto value tenant = .ok data) ∨
    ∃ m, enc.decrypt crypto value tenant = .error (.decryptionError m)

variable {crypto enc tenant keyVersion}

theorem roundTrips_iff (hcrypto : crypto.Lawful) (htenant : ':' ∉ tenant.toList) (data : Bytes) (newKeyVersion : ℤ)
    (random again : Entropy) : enc.RoundTrips crypto tenant keyVersion data newKeyVersion random again ↔
      Writable keyVersion ∧ Writable newKeyVersion := by
  constructor
  · rintro ⟨text, htext, -, -, rotated, hrotated, -⟩
    obtain ⟨plaintext, -, hnew⟩ := bind_eq_ok.mp hrotated
    exact ⟨writable_of_encrypt htext, writable_of_encrypt hnew⟩
  · rintro ⟨hversion, hnew⟩
    have hwritten := fun {version} (h : Writable version) => @encrypt_spec crypto enc tenant version hcrypto htenant h
    obtain ⟨text, e, htext, hparse, hsame, hdata⟩ := hwritten hversion data random
    obtain ⟨rotated, e', hrotated, hparse', hsame', hdata'⟩ := hwritten hnew data again
    have hdecrypt := decrypt_of_parse hparse hsame hdata
    exact ⟨text, htext, hdecrypt, fun other hother => ⟨_, decrypt_other hparse hsame hother⟩, rotated,
      bind_eq_ok.mpr ⟨data, hdecrypt, hrotated⟩, decrypt_of_parse hparse' hsame' hdata'⟩

theorem failsClosed_iff (value : String) : enc.FailsClosed crypto tenant value ↔ ReadableVersion value := by
  unfold FailsClosed decrypt
  rcases parse_cases value with ⟨e, hparse, hread⟩ | ⟨m, hparse, hread⟩ | ⟨hparse, hread⟩
  · refine iff_of_true ?_ hread
    rw [hparse]
    dsimp only [bind, Except.bind]
    split_ifs with htenant
    · exact .inr ⟨_, rfl⟩
    · cases enc.authenticated crypto e tenant with
      | some data => exact .inl ⟨data, rfl⟩
      | none => exact .inr ⟨_, rfl⟩
  · refine iff_of_true (.inr ⟨m, ?_⟩) hread
    rw [hparse]
    rfl
  · refine iff_of_false ?_ hread
    rw [hparse]
    rintro (⟨data, h⟩ | ⟨m, h⟩)
    · cases h
    · cases h

end EnvelopeEncryptor

/-- Algorithms with the lengths of the real ones, whose tag is a part of the key, the nonce and the associated data. -/
def plainPrimitives : Primitives where
  hkdf length master salt info := (salt ++ info ++ master ++ List.replicate length 0).take length
  aesEncrypt key nonce data associated := (associated ++ nonce ++ key ++ List.replicate 16 0).take 16 ++ data
  aesDecrypt key nonce data associated :=
    if data.take 16 = (associated ++ nonce ++ key ++ List.replicate 16 0).take 16 then some (data.drop 16) else none

theorem plainPrimitives_lawful : plainPrimitives.Lawful where
  hkdf_length length master salt info := by
    unfold plainPrimitives
    rw [List.length_take, List.length_append, List.length_replicate]
    omega
  encrypt_length key nonce data associated _ _ := by
    unfold plainPrimitives
    rw [List.length_append, List.length_take, List.length_append, List.length_replicate]
    omega
  decrypt_iff key nonce ciphertext associated data _ _ := by
    unfold plainPrimitives
    dsimp only
    have hlength : ((associated ++ nonce ++ key ++ List.replicate 16 0).take 16).length = 16 := by
      rw [List.length_take, List.length_append, List.length_replicate]
      omega
    constructor
    · intro h
      split_ifs at h with htag
      obtain rfl := Option.some.inj h
      rw [← htag, List.take_append_drop]
    · rintro rfl
      rw [if_pos (List.take_left' hlength), List.drop_left' hlength]

def sampleEncryptor : EnvelopeEncryptor := ⟨List.replicate 32 7, by decide⟩

def sampleEntropy : Entropy := ⟨List.replicate 32 1, List.replicate 12 2, List.replicate 12 3, rfl, rfl, rfl⟩

end RevenueOS.Auth
