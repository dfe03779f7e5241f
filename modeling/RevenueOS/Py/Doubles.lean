import Mathlib.Algebra.Order.Floor.Ring
import Mathlib.Data.List.TakeWhile
import Mathlib.Data.Rat.Floor
import Mathlib.Tactic.FieldSimp
import Mathlib.Tactic.Linarith
import Mathlib.Tactic.Positivity
import RevenueOS.Py.Numerals

/-!
# RevenueOS.Py.Doubles — the texts of floats

* `roundDouble_of_close`: a number that is near enough to a double is rounded to it.
* `shortestDigits_spec`: seventeen digits are near enough.
* `readFloat_floatRepr`: `float(repr(x))` is `x`.
-/

namespace RevenueOS.Py

/-- A finite number of binary64. -/
def IsDouble (q : ℚ) : Prop := ∃ (m : ℕ) (k : ℤ), |q| = m * 2 ^ k ∧ m < 2 ^ 53 ∧ -1074 ≤ k ∧ k ≤ 971

/-! ## Powers -/

theorem two_zpow_pos (k : ℤ) : (0 : ℚ) < 2 ^ k := zpow_pos (by norm_num) k

theorem ten_zpow_pos (k : ℤ) : (0 : ℚ) < 10 ^ k := zpow_pos (by norm_num) k

theorem two_zpow_add (j k : ℤ) : (2 : ℚ) ^ (j + k) = 2 ^ j * 2 ^ k := zpow_add₀ (by norm_num) j k

theorem ten_zpow_add (j k : ℤ) : (10 : ℚ) ^ (j + k) = 10 ^ j * 10 ^ k := zpow_add₀ (by norm_num) j k

theorem two_zpow_lt {j k : ℤ} : (2 : ℚ) ^ j < 2 ^ k ↔ j < k := zpow_lt_zpow_iff_right₀ (by norm_num)

theorem two_zpow_le {j k : ℤ} : (2 : ℚ) ^ j ≤ 2 ^ k ↔ j ≤ k := zpow_le_zpow_iff_right₀ (by norm_num)

/-! ## Rounding -/

/-- The binary exponent that `roundDouble` finds. -/
def binaryExponent (a : ℚ) : ℤ :=
  let lg : ℤ := (Nat.log2 a.num.natAbs : ℤ) - Nat.log2 a.den
  if a < (2 : ℚ) ^ lg then lg - 1 else lg

theorem binaryExponent_spec {a : ℚ} (ha : 0 < a) :
    (2 : ℚ) ^ binaryExponent a ≤ a ∧ a < (2 : ℚ) ^ (binaryExponent a + 1) := by
  have hnum : a.num.natAbs ≠ 0 := Int.natAbs_ne_zero.mpr (Rat.num_pos.mpr ha).ne'
  have hval : a * a.den = a.num.natAbs := by
    have hcast : ((a.num.natAbs : ℤ) : ℚ) = a.num := by
      rw [Int.natAbs_of_nonneg (Rat.num_pos.mpr ha).le]
    rw [← Int.cast_natCast (R := ℚ) a.num.natAbs, hcast]
    exact Rat.mul_den_eq_num a
  have hden : (0 : ℚ) < a.den := Nat.cast_pos.mpr a.den_pos
  have hnumLow : (2 : ℚ) ^ (Nat.log2 a.num.natAbs : ℤ) ≤ a.num.natAbs := by
    rw [zpow_natCast]
    exact_mod_cast Nat.log2_self_le hnum
  have hnumHigh : (a.num.natAbs : ℚ) < 2 ^ ((Nat.log2 a.num.natAbs : ℤ) + 1) := by
    exact_mod_cast Nat.lt_log2_self (n := a.num.natAbs)
  have hdenLow : (2 : ℚ) ^ (Nat.log2 a.den : ℤ) ≤ a.den := by
    rw [zpow_natCast]
    exact_mod_cast Nat.log2_self_le a.den_nz
  have hdenHigh : (a.den : ℚ) < 2 ^ ((Nat.log2 a.den : ℤ) + 1) := by
    exact_mod_cast Nat.lt_log2_self (n := a.den)
  generalize hlg : (Nat.log2 a.num.natAbs : ℤ) - Nat.log2 a.den = lg
  have hhigh : a < 2 ^ (lg + 1) := by
    refine lt_of_mul_lt_mul_right ?_ hden.le
    calc a * a.den = a.num.natAbs := hval
      _ < 2 ^ ((Nat.log2 a.num.natAbs : ℤ) + 1) := hnumHigh
      _ = 2 ^ (lg + 1) * 2 ^ (Nat.log2 a.den : ℤ) := by
        rw [← two_zpow_add]
        congr 1
        omega
      _ ≤ 2 ^ (lg + 1) * a.den := mul_le_mul_of_nonneg_left hdenLow (two_zpow_pos _).le
  have hlow : 2 ^ (lg - 1) ≤ a := by
    refine le_of_mul_le_mul_right ?_ hden
    calc (2 : ℚ) ^ (lg - 1) * a.den ≤ 2 ^ (lg - 1) * 2 ^ ((Nat.log2 a.den : ℤ) + 1) :=
          mul_le_mul_of_nonneg_left hdenHigh.le (two_zpow_pos _).le
      _ = 2 ^ (Nat.log2 a.num.natAbs : ℤ) := by
        rw [← two_zpow_add]
        congr 1
        omega
      _ ≤ a.num.natAbs := hnumLow
      _ = a * a.den := hval.symm
  unfold binaryExponent
  rw [hlg]
  by_cases h : a < 2 ^ lg
  · have hexp : lg - 1 + 1 = lg := by omega
    simp only [h, if_true, hexp]
    exact ⟨hlow, trivial⟩
  · simp only [h, if_false]
    exact ⟨not_lt.mp h, hhigh⟩

/-- A number lies between two powers only. -/
theorem exponent_unique {a : ℚ} {j k : ℤ} (hj : (2 : ℚ) ^ j ≤ a ∧ a < 2 ^ (j + 1)) (hk : (2 : ℚ) ^ k ≤ a ∧ a < 2 ^ (k + 1)) :
    j = k := by
  have hjk := two_zpow_lt.mp (lt_of_le_of_lt hj.1 hk.2)
  have hkj := two_zpow_lt.mp (lt_of_le_of_lt hk.1 hj.2)
  omega

/-- The exponent of the last bit. -/
def lastBit (e : ℤ) : ℤ := max (-1074) (e - 52)

/-- The nearest integer, the even one of two. -/
def nearest (x : ℚ) : ℤ :=
  if x - ⌊x⌋ < 1 / 2 then ⌊x⌋ else if 1 / 2 < x - ⌊x⌋ then ⌊x⌋ + 1 else if ⌊x⌋ % 2 = 0 then ⌊x⌋ else ⌊x⌋ + 1

theorem roundDouble_eq_nearest (d : ℚ) :
    roundDouble d = nearest (d / 2 ^ lastBit (binaryExponent d)) * 2 ^ lastBit (binaryExponent d) := rfl

theorem nearest_eq {x : ℚ} {n : ℤ} (h : |x - n| < 1 / 2) : nearest x = n := by
  obtain ⟨hlow, hhigh⟩ := abs_lt.mp h
  unfold nearest
  by_cases hle : (n : ℚ) ≤ x
  · have hfloor : ⌊x⌋ = n := Int.floor_eq_iff.mpr ⟨hle, by linarith⟩
    rw [hfloor, if_pos (by linarith)]
  · have hfloor : ⌊x⌋ = n - 1 := by
      refine Int.floor_eq_iff.mpr ⟨?_, ?_⟩
      · push_cast
        linarith
      · push_cast
        linarith
    rw [hfloor]
    push_cast
    rw [if_neg (by linarith), if_pos (by linarith)]
    omega

/-- A number is rounded to a multiple of its last bit that is nearer than half of it. -/
theorem roundDouble_eq {d : ℚ} {e n : ℤ} (he : (2 : ℚ) ^ e ≤ d ∧ d < 2 ^ (e + 1))
    (h : |d / 2 ^ lastBit e - n| < 1 / 2) : roundDouble d = n * 2 ^ lastBit e := by
  have hd : 0 < d := lt_of_lt_of_le (two_zpow_pos e) he.1
  obtain rfl := exponent_unique he (binaryExponent_spec hd)
  rw [roundDouble_eq_nearest, nearest_eq h]

/-! ## Doubles -/

/-- A positive double is a multiple of its last bit. -/
theorem IsDouble.exists_multiple {a : ℚ} (ha : IsDouble a) (hpos : 0 < a) {e : ℤ}
    (he : (2 : ℚ) ^ e ≤ a ∧ a < 2 ^ (e + 1)) : ∃ n : ℤ, a = n * 2 ^ lastBit e := by
  obtain ⟨m, k, hval, hm, hk, -⟩ := ha
  rw [abs_of_pos hpos] at hval
  have hle : lastBit e ≤ k := by
    refine max_le hk ?_
    have hlt : (2 : ℚ) ^ e < 2 ^ (53 + k) := by
      calc (2 : ℚ) ^ e ≤ a := he.1
        _ = m * 2 ^ k := hval
        _ < 2 ^ (53 : ℤ) * 2 ^ k := mul_lt_mul_of_pos_right (by exact_mod_cast hm) (two_zpow_pos k)
        _ = 2 ^ (53 + k) := (two_zpow_add 53 k).symm
    have := two_zpow_lt.mp hlt
    omega
  refine ⟨m * 2 ^ (k - lastBit e).toNat, ?_⟩
  have hpow : (2 : ℚ) ^ k = 2 ^ (k - lastBit e).toNat * 2 ^ lastBit e := by
    rw [← zpow_natCast, ← two_zpow_add]
    congr 1
    omega
  rw [hval, hpow]
  push_cast
  ring

theorem le_lastBit (e : ℤ) : e - 52 ≤ lastBit e := le_max_right _ _

/-- A power of two is a multiple of a smaller one. -/
theorem two_zpow_multiple {j k : ℤ} (h : j ≤ k) : (2 : ℚ) ^ k = ((2 ^ (k - j).toNat : ℤ) : ℚ) * 2 ^ j := by
  push_cast
  rw [← zpow_natCast, ← two_zpow_add]
  congr 1
  omega

/-- A number at less than half of a last bit from a multiple of it. -/
theorem abs_div_sub_lt {d a : ℚ} {n L : ℤ} (ha : a = n * 2 ^ L) (h : |d - a| * 2 < 2 ^ L) : |d / 2 ^ L - n| < 1 / 2 := by
  have hpos := two_zpow_pos L
  have hdiv : d / 2 ^ L - n = (d - a) / 2 ^ L := by
    rw [ha]
    field_simp
  rw [hdiv, abs_div, abs_of_pos hpos, div_lt_iff₀ hpos]
  linarith

/-- **A number near a double** is rounded to it. -/
theorem roundDouble_of_close {a d : ℚ} (ha : IsDouble a) (hpos : 0 < a) (h : |d - a| * (2 * 10 ^ 16) ≤ a) :
    roundDouble d = a := by
  have he := binaryExponent_spec hpos
  generalize binaryExponent a = e at he
  obtain ⟨n, hn⟩ := ha.exists_multiple hpos he
  have hbit := two_zpow_pos (lastBit e)
  have hn1 : 1 ≤ n := by
    have hmul : (0 : ℚ) < n * 2 ^ lastBit e := hn ▸ hpos
    have hn0 : (0 : ℚ) < n := pos_of_mul_pos_left hmul hbit.le
    exact_mod_cast hn0
  have hn1' : (1 : ℚ) ≤ n := by exact_mod_cast hn1
  have hlast : lastBit e ≤ e := by
    have hlt : (2 : ℚ) ^ lastBit e < 2 ^ (e + 1) := by
      refine lt_of_le_of_lt ?_ he.2
      rw [hn]
      nlinarith
    have := two_zpow_lt.mp hlt
    omega
  have hsmall : (2 : ℚ) ^ (e - 52) * 2 ^ (52 : ℤ) = 2 ^ e := by
    rw [← two_zpow_add]
    congr 1
    omega
  have hlastLe : (2 : ℚ) ^ (e - 52) ≤ 2 ^ lastBit e := two_zpow_le.mpr (le_lastBit e)
  have hdouble : (2 : ℚ) ^ (e + 1) = 2 ^ e * 2 := zpow_add_one₀ (by norm_num) e
  have hhigh := he.2
  rw [hdouble] at hhigh
  norm_num at hsmall
  have hnear : |d - a| * 2 < 2 ^ lastBit e := by nlinarith [abs_nonneg (d - a)]
  obtain ⟨hlow', hhigh'⟩ := abs_lt.mp (show |d - a| < 2 ^ lastBit e / 2 by linarith)
  by_cases hd : 2 ^ e ≤ d
  · -- the next power of two is a multiple of the last bit, and so at least one last bit above `a`
    have hmul := two_zpow_multiple (show lastBit e ≤ e + 1 by omega)
    generalize (2 ^ (e + 1 - lastBit e).toNat : ℤ) = N at hmul
    have hnN : n + 1 ≤ N := by
      have hlt : (n : ℚ) * 2 ^ lastBit e < N * 2 ^ lastBit e := by
        rw [← hn, ← hmul]
        exact he.2
      exact_mod_cast lt_of_mul_lt_mul_right hlt hbit.le
    have hstep : ((n : ℚ) + 1) * 2 ^ lastBit e ≤ 2 ^ (e + 1) := by
      rw [hmul]
      exact mul_le_mul_of_nonneg_right (by exact_mod_cast hnN) hbit.le
    rw [roundDouble_eq ⟨hd, by linarith⟩ (abs_div_sub_lt hn hnear), hn]
  · -- below a power of two only that power is near, and the last bit may be half as large
    have hmul := two_zpow_multiple hlast
    generalize (2 ^ (e - lastBit e).toNat : ℤ) = N at hmul
    have hnN : n ≤ N := by
      by_contra hlt
      have hstep : ((N : ℚ) + 1) * 2 ^ lastBit e ≤ n * 2 ^ lastBit e :=
        mul_le_mul_of_nonneg_right (by exact_mod_cast Int.not_le.mp hlt) hbit.le
      linarith
    have hpower : a = 2 ^ e := by
      refine le_antisymm ?_ he.1
      rw [hn, hmul]
      exact mul_le_mul_of_nonneg_right (by exact_mod_cast hnN) hbit.le
    have hlast' : lastBit (e - 1) ≤ e := by
      unfold lastBit at hlast ⊢
      omega
    have hhalf : (2 : ℚ) ^ (e - 1) * 2 = 2 ^ e := by
      rw [← zpow_add_one₀ (by norm_num)]
      congr 1
      omega
    have hbit' : (2 : ℚ) ^ (e - 52) ≤ 2 ^ lastBit (e - 1) * 2 := by
      rw [← zpow_add_one₀ (by norm_num)]
      refine two_zpow_le.mpr ?_
      have := le_lastBit (e - 1)
      omega
    have hnear' : |d - a| * 2 < 2 ^ lastBit (e - 1) := by nlinarith [abs_nonneg (d - a)]
    have hlow : 2 ^ (e - 1) ≤ d := by
      have := two_zpow_pos (e - 1)
      nlinarith [neg_abs_le (d - a)]
    have hexp : e - 1 + 1 = e := by omega
    have hmul' := two_zpow_multiple hlast'
    rw [roundDouble_eq ⟨hlow, by rw [hexp]; exact not_le.mp hd⟩ (abs_div_sub_lt (hpower.trans hmul') hnear'), ← hmul',
      hpower]

/-! ## Shortest digits -/

/-- A positive double is in the range of the search. -/
theorem IsDouble.bounds {a : ℚ} (ha : IsDouble a) (hpos : 0 < a) : (10 : ℚ) ^ (-329 : ℤ) ≤ a ∧ a < 10 ^ (310 : ℤ) := by
  obtain ⟨m, k, hval, hm, hk, hk'⟩ := ha
  rw [abs_of_pos hpos] at hval
  have hm0 : 0 < m := by
    rcases Nat.eq_zero_or_pos m with rfl | hm0
    · rw [hval] at hpos
      simp at hpos
    · exact hm0
  have hsmall : (10 : ℚ) ^ (-329 : ℤ) ≤ 2 ^ (-1074 : ℤ) := by
    have hnat : (2 ^ 1074 : ℕ) ≤ 10 ^ 329 := by decide +kernel
    rw [zpow_neg, zpow_neg]
    exact inv_anti₀ (two_zpow_pos _) (by exact_mod_cast hnat)
  have hlarge : (2 : ℚ) ^ 53 * 2 ^ (971 : ℤ) < 10 ^ (310 : ℤ) := by
    have hnat : (2 ^ 53 * 2 ^ 971 : ℕ) < 10 ^ 310 := by decide +kernel
    exact_mod_cast hnat
  constructor
  · calc (10 : ℚ) ^ (-329 : ℤ) ≤ 2 ^ (-1074 : ℤ) := hsmall
      _ ≤ 2 ^ k := two_zpow_le.mpr hk
      _ ≤ m * 2 ^ k := le_mul_of_one_le_left (two_zpow_pos k).le (by exact_mod_cast hm0)
      _ = a := hval.symm
  · calc a = m * 2 ^ k := hval
      _ ≤ 2 ^ 53 * 2 ^ (971 : ℤ) :=
        mul_le_mul (by exact_mod_cast hm.le) (two_zpow_le.mpr hk') (two_zpow_pos k).le (by norm_num)
      _ < 10 ^ (310 : ℤ) := hlarge

theorem decimalExponent_eq (a : ℚ) : decimalExponent a =
    (((List.range 640).find? fun i : ℕ => decide ((10 : ℚ) ^ ((310 : ℤ) - i) ≤ a)).map
      fun i : ℕ => (310 : ℤ) - i).getD (-330) := by
  have hlist : ((do let i ← List.range 640; pure (i : ℤ)) : List ℤ) = (List.range 640).map fun i : ℕ => (i : ℤ) :=
    bind_pure_comp _ _
  unfold decimalExponent
  rw [hlist, List.map_map, List.find?_map]
  rfl

/-- The search finds the decimal exponent. -/
theorem decimalExponent_spec {a : ℚ} (hlow : (10 : ℚ) ^ (-329 : ℤ) ≤ a) (hhigh : a < 10 ^ (310 : ℤ)) :
    (10 : ℚ) ^ decimalExponent a ≤ a ∧ a < 10 ^ (decimalExponent a + 1) := by
  rw [decimalExponent_eq]
  cases hfind : (List.range 640).find? fun i : ℕ => decide ((10 : ℚ) ^ ((310 : ℤ) - i) ≤ a) with
  | none =>
    have hlast := List.find?_range_eq_none.mp hfind 639 (by omega)
    have hexp : (310 : ℤ) - (639 : ℕ) = -329 := by omega
    rw [hexp, decide_eq_true hlow] at hlast
    cases hlast
  | some i =>
    obtain ⟨hle, -, hbefore⟩ := List.find?_range_eq_some.mp hfind
    rw [Option.map_some, Option.getD_some]
    refine ⟨of_decide_eq_true hle, ?_⟩
    cases i with
    | zero =>
      have htop : (10 : ℚ) ^ (310 : ℤ) ≤ a := of_decide_eq_true hle
      exact absurd htop (not_le.mpr hhigh)
    | succ j =>
      have hj : ¬ (10 : ℚ) ^ ((310 : ℤ) - j) ≤ a := by simpa using hbefore j (Nat.lt_succ_self j)
      have hexp : (310 : ℤ) - (j + 1 : ℕ) + 1 = 310 - j := by omega
      rw [hexp]
      exact not_le.mp hj

/-- The digits of a number, rounded to `n` of them. -/
def roundedDigits (a : ℚ) (e : ℤ) (n : ℕ) : ℕ := (⌊a * (10 : ℚ) ^ ((n : ℤ) - 1 - e) + 1 / 2⌋).toNat

section Digits

variable {a : ℚ} {e : ℤ}

/-- Rounding to `n` digits is off by half of the last one, and may carry. -/
theorem roundedDigits_spec (he : (10 : ℚ) ^ e ≤ a ∧ a < 10 ^ (e + 1)) {n : ℕ} (hn : 1 ≤ n) :
    10 ^ (n - 1) ≤ roundedDigits a e n ∧ roundedDigits a e n ≤ 10 ^ n ∧
      |roundedDigits a e n * (10 : ℚ) ^ (e - n + 1) - a| * 2 ≤ 10 ^ (e - n + 1) := by
  have hscale : (10 : ℚ) ^ ((n : ℤ) - 1 - e) * 10 ^ (e - n + 1) = 1 := by
    rw [← ten_zpow_add]
    have hzero : (n : ℤ) - 1 - e + (e - n + 1) = 0 := by omega
    rw [hzero, zpow_zero]
  have hlow : ((10 ^ (n - 1) : ℤ) : ℚ) ≤ a * 10 ^ ((n : ℤ) - 1 - e) := by
    have hpow : ((10 ^ (n - 1) : ℤ) : ℚ) = 10 ^ e * 10 ^ ((n : ℤ) - 1 - e) := by
      rw [← ten_zpow_add]
      push_cast
      rw [← zpow_natCast]
      congr 1
      omega
    rw [hpow]
    exact mul_le_mul_of_nonneg_right he.1 (ten_zpow_pos _).le
  have hhigh : a * 10 ^ ((n : ℤ) - 1 - e) < ((10 ^ n : ℤ) : ℚ) := by
    have hpow : ((10 ^ n : ℤ) : ℚ) = 10 ^ (e + 1) * 10 ^ ((n : ℤ) - 1 - e) := by
      rw [← ten_zpow_add]
      push_cast
      rw [← zpow_natCast]
      congr 1
      omega
    rw [hpow]
    exact mul_lt_mul_of_pos_right he.2 (ten_zpow_pos _)
  have hcast : ((roundedDigits a e n : ℤ) : ℚ) = ⌊a * (10 : ℚ) ^ ((n : ℤ) - 1 - e) + 1 / 2⌋ := by
    unfold roundedDigits
    rw [Int.toNat_of_nonneg]
    refine Int.floor_nonneg.mpr ?_
    have hpos : (0 : ℚ) ≤ ((10 ^ (n - 1) : ℤ) : ℚ) := by positivity
    linarith
  have hfloor : (10 ^ (n - 1) : ℤ) ≤ roundedDigits a e n ∧ (roundedDigits a e n : ℤ) ≤ 10 ^ n := by
    have hround := Int.cast_injective hcast
    rw [hround]
    constructor
    · exact Int.le_floor.mpr (by linarith)
    · exact Int.lt_add_one_iff.mp (Int.floor_lt.mpr (by push_cast at hhigh ⊢; linarith))
  refine ⟨by exact_mod_cast hfloor.1, by exact_mod_cast hfloor.2, ?_⟩
  have hdown := Int.floor_le (a * (10 : ℚ) ^ ((n : ℤ) - 1 - e) + 1 / 2)
  have hup := Int.lt_floor_add_one (a * (10 : ℚ) ^ ((n : ℤ) - 1 - e) + 1 / 2)
  rw [← hcast] at hdown hup
  push_cast at hdown hup
  have hpos := ten_zpow_pos (e - n + 1)
  have hdiff : roundedDigits a e n * (10 : ℚ) ^ (e - n + 1) - a =
      (roundedDigits a e n - a * 10 ^ ((n : ℤ) - 1 - e)) * 10 ^ (e - n + 1) := by
    rw [sub_mul, mul_assoc a, hscale, mul_one]
  rw [hdiff, abs_mul, abs_of_pos hpos]
  have habs : |(roundedDigits a e n : ℚ) - a * 10 ^ ((n : ℤ) - 1 - e)| ≤ 1 / 2 := abs_le.mpr ⟨by linarith, by linarith⟩
  nlinarith

/-- **Seventeen digits suffice**: the shortest digits read back as the double. -/
theorem shortestDigits_spec (ha : IsDouble a) (he : (10 : ℚ) ^ e ≤ a ∧ a < 10 ^ (e + 1)) :
    ∃ n : ℕ, 1 ≤ n ∧ shortestDigits a e = (roundedDigits a e n, n) ∧
      roundDouble (roundedDigits a e n * (10 : ℚ) ^ (e - n + 1)) = a := by
  have hpos : 0 < a := lt_of_lt_of_le (ten_zpow_pos e) he.1
  have hseventeen : roundDouble (roundedDigits a e 17 * (10 : ℚ) ^ (e - (17 : ℕ) + 1)) = a := by
    refine roundDouble_of_close ha hpos ?_
    have hnear := (roundedDigits_spec he (by decide : 1 ≤ 17)).2.2
    have hunit : (10 : ℚ) ^ (e - (17 : ℕ) + 1) * 10 ^ 16 = 10 ^ e := by
      rw [← zpow_natCast, ← ten_zpow_add]
      congr 1
      push_cast
      omega
    nlinarith [he.1]
  let good : ℕ → Bool := fun n => roundDouble (roundedDigits a e n * (10 : ℚ) ^ (e - n + 1)) == a
  have hdigits : shortestDigits a e = (roundedDigits a e ((((List.range 17).map (· + 1)).find? good).getD 17),
      (((List.range 17).map (· + 1)).find? good).getD 17) := rfl
  cases hfind : ((List.range 17).map (· + 1)).find? good with
  | none =>
    have hbad := List.find?_eq_none.mp hfind 17 (by decide)
    exact absurd (beq_iff_eq.mpr hseventeen) hbad
  | some n =>
    have hgood : good n = true := List.find?_some hfind
    have hmem := List.mem_of_find?_eq_some hfind
    obtain ⟨i, -, rfl⟩ := List.mem_map.mp hmem
    rw [hfind, Option.getD_some] at hdigits
    exact ⟨i + 1, Nat.succ_pos i, hdigits, eq_of_beq hgood⟩

end Digits

/-! ## `repr` -/

/-- The text of the `n` digits of `m`, the first of them at the power `e` of ten. -/
def reprBody (m n : ℕ) (e : ℤ) : List Char :=
  let digits := (toString m).toList
  if e < -4 ∨ 16 ≤ e then
    let tail := digits.drop 1
    let exp := (toString e.natAbs).toList
    let exp := if exp.length < 2 then '0' :: exp else exp
    digits.take 1 ++ (if tail.isEmpty then [] else '.' :: tail) ++ 'e' :: (if e < 0 then '-' else '+') :: exp
  else if e < 0 then '0' :: '.' :: List.replicate (e.natAbs - 1) '0' ++ digits
  else if n ≤ e.toNat + 1 then digits ++ List.replicate (e.toNat + 1 - n) '0' ++ ['.', '0']
  else digits.take (e.toNat + 1) ++ '.' :: digits.drop (e.toNat + 1)

/-- What `repr` writes of a number. -/
structure Written (q : ℚ) (m n : ℕ) (e : ℤ) : Prop where
  pos : 1 ≤ n
  low : 10 ^ (n - 1) ≤ m
  high : m < 10 ^ n
  back : roundDouble (m * (10 : ℚ) ^ (e - n + 1)) = |q|
  text : floatRepr q = (if q < 0 then "-" else "") ++ String.ofList (reprBody m n e)

/-- The text of the digits that were found, with their carry. -/
theorem floatRepr_eq {q : ℚ} (h0 : q ≠ 0) {m n : ℕ} {e : ℤ} (he : decimalExponent |q| = e)
    (hdigits : shortestDigits |q| e = (m, n)) :
    floatRepr q = (if q < 0 then "-" else "") ++
      String.ofList (reprBody (if m = 10 ^ n then m / 10 else m) n (if m = 10 ^ n then e + 1 else e)) := by
  unfold floatRepr reprBody
  rw [if_neg h0]
  simp only [he, hdigits]
  by_cases hcarry : m = 10 ^ n <;> simp only [hcarry, if_true, if_false]

/-- `repr` writes the shortest digits that read back. -/
theorem exists_written {q : ℚ} (hq : IsDouble q) (h0 : q ≠ 0) : ∃ m n e, Written q m n e := by
  have hpos : 0 < |q| := abs_pos.mpr h0
  have habs : IsDouble |q| := by
    obtain ⟨m, k, hval, h⟩ := hq
    exact ⟨m, k, by rw [abs_abs, hval], h⟩
  obtain ⟨hlow, hhigh⟩ := habs.bounds hpos
  have he := decimalExponent_spec hlow hhigh
  obtain ⟨n, hn, hdigits, hback⟩ := shortestDigits_spec habs he
  obtain ⟨hmlow, hmhigh, -⟩ := roundedDigits_spec he hn
  have htext := floatRepr_eq h0 rfl hdigits
  generalize roundedDigits |q| (decimalExponent |q|) n = m at hback hmlow hmhigh htext
  generalize decimalExponent |q| = e at hback htext
  by_cases hcarry : m = 10 ^ n
  · have hpow : 10 ^ n = 10 ^ (n - 1) * 10 := by
      rw [← Nat.pow_succ, Nat.succ_eq_add_one, Nat.sub_add_cancel hn]
    refine ⟨10 ^ (n - 1), n, e + 1, hn, le_rfl, Nat.pow_lt_pow_right (by decide) (by omega), ?_, ?_⟩
    · rw [← hback, hcarry, hpow]
      have hexp : e + 1 - n + 1 = e - n + 1 + 1 := by omega
      have hten : (10 : ℚ) ^ (e - n + 1 + 1) = 10 ^ (e - n + 1) * 10 := zpow_add_one₀ (by norm_num) _
      rw [hexp, hten]
      push_cast
      ring_nf
    · rw [htext, if_pos hcarry, if_pos hcarry, hcarry, hpow, Nat.mul_div_cancel _ (by decide)]
  · refine ⟨m, n, e, hn, hmlow, lt_of_le_of_ne hmhigh hcarry, hback, ?_⟩
    rw [htext, if_neg hcarry, if_neg hcarry]

/-! ## Reading decimals -/

/-- A decimal: its digits, how many of them stand behind the point, and the exponent. -/
structure Decimal where
  digits : ℕ
  fraction : ℕ
  exponent : ℤ

def Decimal.value (d : Decimal) : ℚ := d.digits * (10 : ℚ) ^ (d.exponent - d.fraction)

/-- The exponent behind the `e`. -/
def scanExponent : List Char → ℤ
  | '-' :: ds => -Nat.ofDigitChars 10 ds 0
  | '+' :: ds => Nat.ofDigitChars 10 ds 0
  | ds => Nat.ofDigitChars 10 ds 0

/-- A decimal without sign. -/
def scanDecimal (cs : List Char) : Decimal :=
  let mantissa := cs.takeWhile (· ≠ 'e')
  let whole := mantissa.takeWhile (· ≠ '.')
  let fraction := (mantissa.dropWhile (· ≠ '.')).drop 1
  ⟨Nat.ofDigitChars 10 (whole ++ fraction) 0, fraction.length, scanExponent ((cs.dropWhile (· ≠ 'e')).drop 1)⟩

theorem takeWhile_stop {ds : List Char} (rest : List Char) {stop : Char} (h : ∀ c ∈ ds, c ≠ stop) :
    (ds ++ stop :: rest).takeWhile (· ≠ stop) = ds ∧ (ds ++ stop :: rest).dropWhile (· ≠ stop) = stop :: rest := by
  have hall : ∀ c ∈ ds, decide (c ≠ stop) = true := fun c hc => decide_eq_true (h c hc)
  constructor
  · rw [List.takeWhile_append_of_pos hall, List.takeWhile_cons_of_neg (by simp), List.append_nil]
  · rw [List.dropWhile_append_of_pos hall, List.dropWhile_cons_of_neg (by simp)]

theorem takeWhile_end {ds : List Char} {stop : Char} (h : ∀ c ∈ ds, c ≠ stop) :
    ds.takeWhile (· ≠ stop) = ds ∧ ds.dropWhile (· ≠ stop) = [] := by
  have hall : ∀ c ∈ ds, decide (c ≠ stop) = true := fun c hc => decide_eq_true (h c hc)
  exact ⟨List.takeWhile_eq_self_iff.mpr hall, List.dropWhile_eq_nil_iff.mpr hall⟩

/-- Neither a point nor an exponent. -/
def Plain (cs : List Char) : Prop := ∀ c ∈ cs, c ≠ 'e' ∧ c ≠ '.'

theorem plain_of_digits {cs : List Char} (h : ∀ c ∈ cs, c.isDigit = true) : Plain cs := by
  intro c hc
  constructor <;> rintro rfl <;> exact absurd (h _ hc) (by decide)

theorem Plain.append {a b : List Char} (ha : Plain a) (hb : Plain b) : Plain (a ++ b) := fun c hc =>
  (List.mem_append.mp hc).elim (ha c) (hb c)

theorem plain_toDigits (m : ℕ) : Plain (Nat.toDigits 10 m) :=
  plain_of_digits fun _ hc => Nat.isDigit_of_mem_toDigits (by decide) (by decide) hc

theorem plain_zeros (k : ℕ) : Plain (List.replicate k '0') := by
  intro c hc
  rw [List.eq_of_mem_replicate hc]
  decide

/-- A decimal with a point. -/
theorem scanDecimal_point {whole fraction : List Char} (hw : Plain whole) (hf : Plain fraction) :
    scanDecimal (whole ++ '.' :: fraction) = ⟨Nat.ofDigitChars 10 (whole ++ fraction) 0, fraction.length, 0⟩ := by
  have hmantissa : ∀ c ∈ whole ++ '.' :: fraction, c ≠ 'e' := by
    intro c hc
    rcases List.mem_append.mp hc with hc | hc
    · exact (hw c hc).1
    · rcases List.mem_cons.mp hc with rfl | hc
      · decide
      · exact (hf c hc).1
  have hpoint := takeWhile_stop fraction fun c hc => (hw c hc).2
  simp only [scanDecimal, takeWhile_end hmantissa, hpoint]
  rfl

/-- A decimal with an exponent. -/
theorem scanDecimal_exponent {mantissa rest : List Char} (h : ∀ c ∈ mantissa, c ≠ 'e') :
    scanDecimal (mantissa ++ 'e' :: rest) = { scanDecimal mantissa with exponent := scanExponent rest } := by
  have hstop := takeWhile_stop rest h
  unfold scanDecimal
  rw [hstop.1, hstop.2, (takeWhile_end h).1]
  rfl

/-- Digits alone. -/
theorem scanDecimal_digits {ds : List Char} (h : Plain ds) : scanDecimal ds = ⟨Nat.ofDigitChars 10 ds 0, 0, 0⟩ := by
  have hmantissa := takeWhile_end fun c hc => (h c hc).1
  have hpoint := takeWhile_end fun c hc => (h c hc).2
  simp only [scanDecimal, hmantissa, hpoint, List.drop_nil, List.append_nil]
  rfl

/-- The exponent in two digits or more. -/
def exponentText (e : ℤ) : List Char :=
  if (Nat.toDigits 10 e.natAbs).length < 2 then '0' :: Nat.toDigits 10 e.natAbs else Nat.toDigits 10 e.natAbs

theorem scanExponent_exponentText (e : ℤ) : scanExponent ((if e < 0 then '-' else '+') :: exponentText e) = e := by
  have hvalue : Nat.ofDigitChars 10 (exponentText e) 0 = e.natAbs := by
    unfold exponentText
    split_ifs
    · rw [Nat.ofDigitChars_cons]
      exact Nat.ofDigitChars_ten_toDigits
    · exact Nat.ofDigitChars_ten_toDigits
  split_ifs with h
  · show -((Nat.ofDigitChars 10 (exponentText e) 0 : ℕ) : ℤ) = e
    rw [hvalue]
    omega
  · show ((Nat.ofDigitChars 10 (exponentText e) 0 : ℕ) : ℤ) = e
    rw [hvalue]
    omega

section Body

variable {m n : ℕ} {e : ℤ}

/-- The four forms of a text. -/
theorem reprBody_cases (m n : ℕ) (e : ℤ) :
    ((e < -4 ∨ 16 ≤ e) ∧ reprBody m n e = ((Nat.toDigits 10 m).take 1 ++
      (if ((Nat.toDigits 10 m).drop 1).isEmpty then [] else '.' :: (Nat.toDigits 10 m).drop 1)) ++
        'e' :: (if e < 0 then '-' else '+') :: exponentText e) ∨
    (-4 ≤ e ∧ e < 0 ∧ reprBody m n e = ['0'] ++ '.' :: (List.replicate (e.natAbs - 1) '0' ++ Nat.toDigits 10 m)) ∨
    (0 ≤ e ∧ e < 16 ∧ n ≤ e.toNat + 1 ∧
      reprBody m n e = (Nat.toDigits 10 m ++ List.replicate (e.toNat + 1 - n) '0') ++ '.' :: ['0']) ∨
    (0 ≤ e ∧ e < 16 ∧ e.toNat + 1 < n ∧
      reprBody m n e = (Nat.toDigits 10 m).take (e.toNat + 1) ++ '.' :: (Nat.toDigits 10 m).drop (e.toNat + 1)) := by
  unfold reprBody exponentText
  rw [toList_natText, toList_natText]
  by_cases hexp : e < -4 ∨ 16 ≤ e
  · exact .inl ⟨hexp, by rw [if_pos hexp]⟩
  · rw [if_neg hexp]
    by_cases hneg : e < 0
    · exact .inr (.inl ⟨by omega, hneg, by rw [if_pos hneg]; rfl⟩)
    · rw [if_neg hneg]
      by_cases hshort : n ≤ e.toNat + 1
      · exact .inr (.inr (.inl ⟨by omega, by omega, hshort, by rw [if_pos hshort]⟩))
      · exact .inr (.inr (.inr ⟨by omega, by omega, by omega, by rw [if_neg hshort]⟩))

theorem length_digits (hn : 1 ≤ n) (hlow : 10 ^ (n - 1) ≤ m) (hhigh : m < 10 ^ n) : (Nat.toDigits 10 m).length = n := by
  refine le_antisymm ((Nat.length_toDigits_le_iff (by decide) hn).mpr hhigh) ?_
  by_contra hlt
  have hle : (Nat.toDigits 10 m).length ≤ n - 1 := by omega
  have hpos : 0 < n - 1 := lt_of_lt_of_le Nat.length_toDigits_pos hle
  have := (Nat.length_toDigits_le_iff (by decide) hpos).mp hle
  omega

/-- A mantissa has one digit before its point. -/
theorem scanDecimal_mantissa {digits : List Char} (h : Plain digits) :
    scanDecimal (digits.take 1 ++ (if (digits.drop 1).isEmpty then [] else '.' :: digits.drop 1)) =
      ⟨Nat.ofDigitChars 10 digits 0, digits.length - 1, 0⟩ := by
  have htake : Plain (digits.take 1) := fun c hc => h c (List.mem_of_mem_take hc)
  have hdrop : Plain (digits.drop 1) := fun c hc => h c (List.mem_of_mem_drop hc)
  have hall : digits.take 1 ++ digits.drop 1 = digits := List.take_append_drop 1 digits
  by_cases hempty : (digits.drop 1).isEmpty = true
  · have hnil : digits.drop 1 = [] := List.isEmpty_iff.mp hempty
    have hone : digits.length - 1 = 0 := by rw [← List.length_drop, hnil, List.length_nil]
    rw [hnil, List.append_nil] at hall
    rw [if_pos hempty, List.append_nil, hall, scanDecimal_digits h, hone]
  · rw [if_neg hempty, scanDecimal_point htake hdrop, hall, List.length_drop]

/-- **The text of a number is read as its digits** at their place. -/
theorem value_reprBody (hn : 1 ≤ n) (hlow : 10 ^ (n - 1) ≤ m) (hhigh : m < 10 ^ n) :
    (scanDecimal (reprBody m n e)).value = m * (10 : ℚ) ^ (e - n + 1) := by
  have hlength := length_digits hn hlow hhigh
  have hplain := plain_toDigits m
  have hzero : Plain ['0'] := plain_zeros 1
  have hread : Nat.ofDigitChars 10 (Nat.toDigits 10 m) 0 = m := Nat.ofDigitChars_ten_toDigits
  have hread0 : Nat.ofDigitChars 10 ['0'] 0 = 0 := rfl
  rcases reprBody_cases m n e with ⟨hexp, hbody⟩ | ⟨hlo, hneg, hbody⟩ | ⟨hpos, hhi, hshort, hbody⟩ | ⟨hpos, hhi, hlong, hbody⟩
  · have hmantissa := scanDecimal_mantissa hplain
    have hnoExp : ∀ c ∈ (Nat.toDigits 10 m).take 1 ++
        (if ((Nat.toDigits 10 m).drop 1).isEmpty then [] else '.' :: (Nat.toDigits 10 m).drop 1), c ≠ 'e' := by
      intro c hc
      rcases List.mem_append.mp hc with hc | hc
      · exact (hplain c (List.mem_of_mem_take hc)).1
      · split_ifs at hc
        · cases hc
        · rcases List.mem_cons.mp hc with rfl | hc
          · decide
          · exact (hplain c (List.mem_of_mem_drop hc)).1
    rw [hbody, scanDecimal_exponent hnoExp, hmantissa, scanExponent_exponentText, hread, hlength, Decimal.value]
    congr 2
    dsimp only
    omega
  · rw [hbody, scanDecimal_point hzero ((plain_zeros _).append hplain)]
    have hdigits : Nat.ofDigitChars 10 (['0'] ++ (List.replicate (e.natAbs - 1) '0' ++ Nat.toDigits 10 m)) 0 = m := by
      rw [Nat.ofDigitChars_append, Nat.ofDigitChars_append, Nat.ofDigitChars_replicate_zero, hread0, Nat.mul_zero, hread]
    rw [Decimal.value, hdigits, List.length_append, List.length_replicate, hlength]
    congr 2
    push_cast
    omega
  · rw [hbody, scanDecimal_point (hplain.append (plain_zeros _)) hzero]
    have hdigits : Nat.ofDigitChars 10 ((Nat.toDigits 10 m ++ List.replicate (e.toNat + 1 - n) '0') ++ ['0']) 0 =
        m * 10 ^ (e.toNat + 1 - n + 1) := by
      rw [List.append_assoc, ← List.replicate_succ', Nat.ofDigitChars_append, hread, Nat.ofDigitChars_replicate_zero,
        Nat.mul_comm]
    have hpow : ((10 : ℚ) ^ (e.toNat + 1 - n + 1)) * 10 ^ ((0 : ℤ) - 1) = 10 ^ (e - n + 1) := by
      rw [← zpow_natCast, ← ten_zpow_add]
      congr 1
      push_cast [hshort]
      omega
    rw [Decimal.value, hdigits, ← hpow]
    push_cast
    rw [mul_assoc]
    rfl
  · rw [hbody, scanDecimal_point (fun c hc => hplain c (List.mem_of_mem_take hc))
      (fun c hc => hplain c (List.mem_of_mem_drop hc)), List.take_append_drop, hread, Decimal.value, List.length_drop,
      hlength]
    congr 2
    dsimp only
    omega

end Body

/-! ## The characters of a text -/

/-- A character of the text of a number. -/
def IsNumeric (c : Char) : Prop := c.isDigit = true ∨ c ∈ ['-', '+', '.', 'e']

theorem isNumeric_toDigits {m : ℕ} {c : Char} (h : c ∈ Nat.toDigits 10 m) : IsNumeric c :=
  .inl (Nat.isDigit_of_mem_toDigits (by decide) (by decide) h)

theorem isNumeric_zeros {k : ℕ} {c : Char} (h : c ∈ List.replicate k '0') : IsNumeric c := by
  rw [List.eq_of_mem_replicate h]
  exact .inl (by decide)

theorem isNumeric_exponentText {e : ℤ} {c : Char} (h : c ∈ exponentText e) : IsNumeric c := by
  unfold exponentText at h
  split_ifs at h
  · rcases List.mem_cons.mp h with rfl | h
    · exact .inl (by decide)
    · exact isNumeric_toDigits h
  · exact isNumeric_toDigits h

theorem isNumeric_reprBody {m n : ℕ} {e : ℤ} {c : Char} (h : c ∈ reprBody m n e) : IsNumeric c := by
  have hpoint : IsNumeric '.' := .inr (by decide)
  rcases reprBody_cases m n e with ⟨-, hbody⟩ | ⟨-, -, hbody⟩ | ⟨-, -, -, hbody⟩ | ⟨-, -, -, hbody⟩
  · rw [hbody] at h
    rcases List.mem_append.mp h with h | h
    · rcases List.mem_append.mp h with h | h
      · exact isNumeric_toDigits (List.mem_of_mem_take h)
      · split_ifs at h
        · cases h
        · rcases List.mem_cons.mp h with rfl | h
          · exact hpoint
          · exact isNumeric_toDigits (List.mem_of_mem_drop h)
    · rcases List.mem_cons.mp h with rfl | h
      · exact .inr (by decide)
      · rcases List.mem_cons.mp h with rfl | h
        · split_ifs <;> exact .inr (by decide)
        · exact isNumeric_exponentText h
  · rw [hbody] at h
    rcases List.mem_append.mp h with h | h
    · exact isNumeric_zeros (k := 1) h
    · rcases List.mem_cons.mp h with rfl | h
      · exact hpoint
      · exact (List.mem_append.mp h).elim isNumeric_zeros isNumeric_toDigits
  · rw [hbody] at h
    rcases List.mem_append.mp h with h | h
    · exact (List.mem_append.mp h).elim isNumeric_toDigits isNumeric_zeros
    · rcases List.mem_cons.mp h with rfl | h
      · exact hpoint
      · exact isNumeric_zeros (k := 1) h
  · rw [hbody] at h
    rcases List.mem_append.mp h with h | h
    · exact isNumeric_toDigits (List.mem_of_mem_take h)
    · rcases List.mem_cons.mp h with rfl | h
      · exact hpoint
      · exact isNumeric_toDigits (List.mem_of_mem_drop h)

/-- The text of a float is not that of an integer. -/
theorem exists_mark_reprBody (m n : ℕ) (e : ℤ) : '.' ∈ reprBody m n e ∨ 'e' ∈ reprBody m n e := by
  rcases reprBody_cases m n e with ⟨-, hbody⟩ | ⟨-, -, hbody⟩ | ⟨-, -, -, hbody⟩ | ⟨-, -, -, hbody⟩
  · exact .inr (hbody ▸ List.mem_append_right _ List.mem_cons_self)
  · exact .inl (hbody ▸ List.mem_append_right _ List.mem_cons_self)
  · exact .inl (hbody ▸ List.mem_append_right _ List.mem_cons_self)
  · exact .inl (hbody ▸ List.mem_append_right _ List.mem_cons_self)

/-- A text starts with a digit. -/
theorem reprBody_head (m n : ℕ) (e : ℤ) : ∃ c rest, reprBody m n e = c :: rest ∧ c.isDigit = true := by
  obtain ⟨c, ds, hdigits, hc⟩ := toDigits_head m
  rcases reprBody_cases m n e with ⟨-, hbody⟩ | ⟨-, -, hbody⟩ | ⟨-, -, -, hbody⟩ | ⟨-, -, -, hbody⟩
  · rw [hdigits] at hbody
    exact ⟨c, _, hbody, hc⟩
  · exact ⟨'0', _, hbody, by decide⟩
  · rw [hdigits] at hbody
    exact ⟨c, _, hbody, hc⟩
  · rw [hdigits] at hbody
    exact ⟨c, _, hbody, hc⟩

/-- The text of a float: a body behind a sign. -/
theorem exists_floatRepr (q : ℚ) : ∃ m n e, (floatRepr q).toList = (if q < 0 then ['-'] else []) ++ reprBody m n e := by
  by_cases h0 : q = 0
  · refine ⟨0, 1, 0, ?_⟩
    rw [h0]
    decide +kernel
  · obtain ⟨⟨m, n⟩, hdigits⟩ : ∃ p, shortestDigits |q| (decimalExponent |q|) = p := ⟨_, rfl⟩
    have htext := floatRepr_eq h0 rfl hdigits
    refine ⟨if m = 10 ^ n then m / 10 else m, n, if m = 10 ^ n then decimalExponent |q| + 1 else decimalExponent |q|, ?_⟩
    rw [htext, String.toList_append, String.toList_ofList]
    by_cases hneg : q < 0
    · rw [if_pos hneg, if_pos hneg]
      rfl
    · rw [if_neg hneg, if_neg hneg]
      rfl

theorem isNumeric_floatRepr {q : ℚ} {c : Char} (h : c ∈ (floatRepr q).toList) : IsNumeric c := by
  obtain ⟨m, n, e, htext⟩ := exists_floatRepr q
  rw [htext] at h
  rcases List.mem_append.mp h with h | h
  · split_ifs at h
    · rw [List.mem_singleton.mp h]
      exact .inr (by decide)
    · cases h
  · exact isNumeric_reprBody h

theorem exists_mark_floatRepr (q : ℚ) : '.' ∈ (floatRepr q).toList ∨ 'e' ∈ (floatRepr q).toList := by
  obtain ⟨m, n, e, htext⟩ := exists_floatRepr q
  rw [htext]
  exact (exists_mark_reprBody m n e).imp (List.mem_append_right _) (List.mem_append_right _)

theorem floatRepr_head (q : ℚ) : ∃ c rest, (floatRepr q).toList = c :: rest ∧ (c = '-' ∨ c.isDigit = true) := by
  obtain ⟨m, n, e, htext⟩ := exists_floatRepr q
  rw [htext]
  split_ifs
  · exact ⟨'-', _, rfl, .inl rfl⟩
  · obtain ⟨c, rest, hbody, hc⟩ := reprBody_head m n e
    exact ⟨c, rest, hbody, .inr hc⟩

/-! ## Reading back -/

/-- The sign and the decimal of a text. -/
def scanSigned : List Char → Bool × Decimal
  | '-' :: cs => (true, scanDecimal cs)
  | cs => (false, scanDecimal cs)

/-- `float(text)` of a decimal. -/
def readFloat (text : String) : ℚ :=
  let (negative, d) := scanSigned text.toList
  if negative then -roundDouble d.value else roundDouble d.value

theorem scanSigned_body {q : ℚ} {m n : ℕ} {e : ℤ} : scanSigned ((if q < 0 then ['-'] else []) ++ reprBody m n e) =
    (decide (q < 0), scanDecimal (reprBody m n e)) := by
  by_cases hneg : q < 0
  · rw [if_pos hneg, decide_eq_true hneg]
    rfl
  · obtain ⟨c, rest, hbody, hc⟩ := reprBody_head m n e
    rw [if_neg hneg, decide_eq_false hneg, List.nil_append]
    unfold scanSigned
    split
    · rename_i cs heq
      rw [hbody] at heq
      obtain rfl := (List.cons.inj heq).1
      cases hc
    · rfl

/-- **`float(repr(x))` is `x`.** -/
theorem readFloat_floatRepr {q : ℚ} (hq : IsDouble q) : readFloat (floatRepr q) = q := by
  by_cases h0 : q = 0
  · subst h0
    decide +kernel
  · obtain ⟨m, n, e, hw⟩ := exists_written hq h0
    have hvalue := value_reprBody hw.pos hw.low hw.high (e := e)
    have htext : (floatRepr q).toList = (if q < 0 then ['-'] else []) ++ reprBody m n e := by
      rw [hw.text, String.toList_append, String.toList_ofList]
      split_ifs <;> rfl
    have hscan : scanSigned (floatRepr q).toList = (decide (q < 0), scanDecimal (reprBody m n e)) := by
      rw [htext, scanSigned_body]
    unfold readFloat
    simp only [hscan, hvalue, hw.back]
    by_cases hneg : q < 0
    · rw [if_pos (decide_eq_true hneg), abs_of_neg hneg, neg_neg]
    · rw [if_neg (by simpa using hneg), abs_of_nonneg (not_lt.mp hneg)]

/-- Two doubles have two texts. -/
theorem floatRepr_inj {p q : ℚ} (hp : IsDouble p) (hq : IsDouble q) (h : floatRepr p = floatRepr q) : p = q := by
  rw [← readFloat_floatRepr hp, ← readFloat_floatRepr hq, h]

end RevenueOS.Py
