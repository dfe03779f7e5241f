import Mathlib.Data.List.DropRight
import Mathlib.Data.Nat.Notation

/-!
# RevenueOS.Lib.Base64 — bytes as URL-safe base 64 text

Three bytes are four symbols of six bits; the last group is filled up with padding.  The decoder reads symbol by
symbol, skips what is no symbol and stops at a complete group of padding.

* `decode_encode`: the text of some bytes is read back as these bytes.
* `pad_strip`: padding that was stripped is recovered from the length of the rest.
-/

namespace RevenueOS.Lib.Base64

/-- The symbol of six bits. -/
def symbol (n : ℕ) : Char :=
  if n < 26 then Char.ofNat (65 + n)
  else if n < 52 then Char.ofNat (71 + n)
  else if n < 62 then Char.ofNat (n - 4)
  else if n = 62 then '-' else '_'

/-- The six bits of a symbol.  The symbols of the plain alphabet are read as well. -/
def value? (c : Char) : Option ℕ :=
  if 'A' ≤ c ∧ c ≤ 'Z' then some (c.toNat - 65)
  else if 'a' ≤ c ∧ c ≤ 'z' then some (c.toNat - 71)
  else if '0' ≤ c ∧ c ≤ '9' then some (c.toNat + 4)
  else if c = '-' ∨ c = '+' then some 62
  else if c = '_' ∨ c = '/' then some 63
  else none

def encode : List UInt8 → List Char
  | [] => []
  | [a] => [symbol (a.toNat / 4), symbol (a.toNat % 4 * 16), '=', '=']
  | [a, b] =>
    [symbol (a.toNat / 4), symbol (a.toNat % 4 * 16 + b.toNat / 16), symbol (b.toNat % 16 * 4), '=']
  | a :: b :: c :: rest =>
    symbol (a.toNat / 4) :: symbol (a.toNat % 4 * 16 + b.toNat / 16) ::
      symbol (b.toNat % 16 * 4 + c.toNat / 64) :: symbol (c.toNat % 64) :: encode rest

/-- The rest of a text, with `quad` symbols of a group read, whose bits in `left` are not yet part of a byte, and
`pads` characters of padding. -/
def decodeFrom (quad left pads : ℕ) : List Char → Option (List UInt8)
  | [] => if quad = 0 then some [] else none
  | c :: cs =>
    if c = '=' then
      if 2 ≤ quad then if 4 ≤ quad + (pads + 1) then some [] else decodeFrom quad left (pads + 1) cs
      else decodeFrom quad left pads cs
    else
      match value? c with
      | none => decodeFrom quad left pads cs
      | some v =>
        match quad with
        | 0 => decodeFrom 1 v 0 cs
        | 1 => (decodeFrom 2 (v % 16) 0 cs).map (UInt8.ofNat (left * 4 + v / 16) :: ·)
        | 2 => (decodeFrom 3 (v % 4) 0 cs).map (UInt8.ofNat (left * 16 + v / 4) :: ·)
        | _ => (decodeFrom 0 0 0 cs).map (UInt8.ofNat (left * 64 + v) :: ·)

/-- `none`: the padding is not right. -/
def decode (text : List Char) : Option (List UInt8) := decodeFrom 0 0 0 text

/-! ### Round trip -/

theorem value?_symbol {n : ℕ} (h : n < 64) : value? (symbol n) = some n := by
  revert n
  decide

theorem symbol_ne_pad {n : ℕ} (h : n < 64) : symbol n ≠ '=' := by
  revert n
  decide

section Symbols

variable {n : ℕ} (h : n < 64) (left pads : ℕ) (cs : List Char)
include h

theorem decodeFrom_first : decodeFrom 0 left pads (symbol n :: cs) = decodeFrom 1 n 0 cs := by
  rw [decodeFrom, if_neg (symbol_ne_pad h), value?_symbol h]
  rfl

theorem decodeFrom_second : decodeFrom 1 left pads (symbol n :: cs) =
    (decodeFrom 2 (n % 16) 0 cs).map (UInt8.ofNat (left * 4 + n / 16) :: ·) := by
  rw [decodeFrom, if_neg (symbol_ne_pad h), value?_symbol h]
  rfl

theorem decodeFrom_third : decodeFrom 2 left pads (symbol n :: cs) =
    (decodeFrom 3 (n % 4) 0 cs).map (UInt8.ofNat (left * 16 + n / 4) :: ·) := by
  rw [decodeFrom, if_neg (symbol_ne_pad h), value?_symbol h]
  rfl

theorem decodeFrom_fourth : decodeFrom 3 left pads (symbol n :: cs) =
    (decodeFrom 0 0 0 cs).map (UInt8.ofNat (left * 64 + n) :: ·) := by
  rw [decodeFrom, if_neg (symbol_ne_pad h), value?_symbol h]
  rfl

end Symbols

theorem ofNat_of_eq {a : UInt8} {n : ℕ} (h : n = a.toNat) : UInt8.ofNat n = a := by
  rw [h]
  exact UInt8.ofNat_toNat

theorem decode_encode (bytes : List UInt8) : decode (encode bytes) = some bytes := by
  induction bytes using encode.induct with
  | case1 => rfl
  | case2 a =>
    have ha := a.toNat_lt
    unfold decode encode
    rw [decodeFrom_first (by omega), decodeFrom_second (by omega)]
    rw [ofNat_of_eq (show a.toNat / 4 * 4 + a.toNat % 4 * 16 / 16 = a.toNat by omega)]
    rfl
  | case3 a b =>
    have ha := a.toNat_lt
    have hb := b.toNat_lt
    unfold decode encode
    rw [decodeFrom_first (by omega), decodeFrom_second (by omega), decodeFrom_third (by omega)]
    rw [ofNat_of_eq (show a.toNat / 4 * 4 + (a.toNat % 4 * 16 + b.toNat / 16) / 16 = a.toNat by omega),
      ofNat_of_eq (show (a.toNat % 4 * 16 + b.toNat / 16) % 16 * 16 + b.toNat % 16 * 4 / 4 = b.toNat by omega)]
    rfl
  | case4 a b c rest ih =>
    have ha := a.toNat_lt
    have hb := b.toNat_lt
    have hc := c.toNat_lt
    unfold decode encode
    rw [decodeFrom_first (by omega), decodeFrom_second (by omega), decodeFrom_third (by omega),
      decodeFrom_fourth (by omega)]
    rw [show decodeFrom 0 0 0 (encode rest) = some rest from ih,
      ofNat_of_eq (show a.toNat / 4 * 4 + (a.toNat % 4 * 16 + b.toNat / 16) / 16 = a.toNat by omega),
      ofNat_of_eq (show (a.toNat % 4 * 16 + b.toNat / 16) % 16 * 16 + (b.toNat % 16 * 4 + c.toNat / 64) / 4 =
        b.toNat by omega),
      ofNat_of_eq (show (b.toNat % 16 * 4 + c.toNat / 64) % 4 * 64 + c.toNat % 64 = c.toNat by omega)]
    rfl

/-! ### Padding -/

/-- A text is its symbols and fewer than four characters of padding, in whole groups. -/
theorem exists_body (bytes : List UInt8) : ∃ (body : List Char) (pads : ℕ),
    encode bytes = body ++ List.replicate pads '=' ∧ '=' ∉ body ∧ pads < 4 ∧ (body.length + pads) % 4 = 0 := by
  induction bytes using encode.induct with
  | case1 => exact ⟨[], 0, rfl, List.not_mem_nil, by omega, rfl⟩
  | case2 a =>
    have ha := a.toNat_lt
    refine ⟨[_, _], 2, rfl, ?_, by omega, by simp⟩
    simp only [List.mem_cons, List.not_mem_nil, or_false, not_or]
    exact ⟨(symbol_ne_pad (by omega)).symm, (symbol_ne_pad (by omega)).symm⟩
  | case3 a b =>
    have ha := a.toNat_lt
    have hb := b.toNat_lt
    refine ⟨[_, _, _], 1, rfl, ?_, by omega, by simp⟩
    simp only [List.mem_cons, List.not_mem_nil, or_false, not_or]
    exact ⟨(symbol_ne_pad (by omega)).symm, (symbol_ne_pad (by omega)).symm, (symbol_ne_pad (by omega)).symm⟩
  | case4 a b c rest ih =>
    have ha := a.toNat_lt
    have hb := b.toNat_lt
    have hc := c.toNat_lt
    obtain ⟨body, pads, htext, hbody, hpads, hgroups⟩ := ih
    refine ⟨_ :: _ :: _ :: _ :: body, pads, by rw [encode, htext]; rfl, ?_, hpads, ?_⟩
    · simp only [List.mem_cons, not_or]
      exact ⟨(symbol_ne_pad (by omega)).symm, (symbol_ne_pad (by omega)).symm, (symbol_ne_pad (by omega)).symm,
        (symbol_ne_pad (by omega)).symm, hbody⟩
    · simp only [List.length_cons]
      omega

/-- The text without its padding. -/
def strip (text : List Char) : List Char := text.rdropWhile (· = '=')

/-- The padding for whole groups, put back. -/
def pad (text : List Char) : List Char := text ++ List.replicate ((-(text.length : ℤ)) % 4).toNat '='

theorem pad_strip (bytes : List UInt8) : pad (strip (encode bytes)) = encode bytes := by
  obtain ⟨body, pads, htext, hbody, hpads, hgroups⟩ := exists_body bytes
  have hstrip : strip (encode bytes) = body := by
    unfold strip
    rw [htext]
    clear htext hpads hgroups
    induction pads with
    | zero =>
      rw [List.replicate_zero, List.append_nil, List.rdropWhile_eq_self_iff]
      intro hne heq
      exact hbody (by simpa [of_decide_eq_true heq] using List.getLast_mem hne)
    | succ pads ih =>
      rw [List.replicate_succ', ← List.append_assoc, List.rdropWhile_concat_pos _ _ _ (by decide), ih]
  have hcount : ((-(body.length : ℤ)) % 4).toNat = pads := by omega
  unfold pad
  rw [hstrip, hcount, htext]

theorem decode_pad_strip (bytes : List UInt8) : decode (pad (strip (encode bytes))) = some bytes := by
  rw [pad_strip, decode_encode]

end RevenueOS.Lib.Base64
