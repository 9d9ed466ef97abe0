import SmallLisp.Number.Nearest
import SmallLisp.Proofs.Number.Double

/-!
# SmallLisp.Proofs.Number.Nearest

Rounding to the nearest double. The algorithm works on numerators and denominators; what it finds
is a matter of their ratio alone, and for the ratio that a double is, it finds that double.

* `binaryExponent_eq_log`: the binary exponent is the logarithm of the ratio.
* `nearestCode_congr`: equal ratios have the same nearest double.
* `nearestCode_dyadic`: a finite magnitude is nearest to itself.
-/

namespace SmallLisp
namespace Number

/-! ## Rounding a quotient -/

theorem roundDiv_mul_left {k : Nat} (hk : 0 < k) (num den : Nat) :
    roundDiv (k * num) (k * den) = roundDiv num den := by
  have hlt : (k * den < 2 * (k * (num % den))) ↔ den < 2 * (num % den) := by
    rw [Nat.mul_left_comm 2 k, Nat.mul_lt_mul_left hk]
  have heq : (k * den = 2 * (k * (num % den))) ↔ den = 2 * (num % den) := by
    rw [Nat.mul_left_comm 2 k, Nat.mul_right_inj (Nat.pos_iff_ne_zero.mp hk)]
  simp only [roundDiv, Nat.mul_div_mul_left _ _ hk, Nat.mul_mod_mul_left, beq_eq_decide, hlt, heq]

theorem roundDiv_congr {num den num' den' : Nat} (hden : 0 < den) (hden' : 0 < den')
    (h : num * den' = num' * den) : roundDiv num den = roundDiv num' den' := by
  calc roundDiv num den = roundDiv (den' * num) (den' * den) := (roundDiv_mul_left hden' _ _).symm
    _ = roundDiv (den * num') (den * den') := by
      rw [Nat.mul_comm den' num, h, Nat.mul_comm num' den, Nat.mul_comm den' den]
    _ = roundDiv num' den' := roundDiv_mul_left hden _ _

theorem roundDiv_mul_self {den : Nat} (hden : 0 < den) (n : Nat) : roundDiv (n * den) den = n := by
  have hmod : n * den % den = 0 := Nat.mul_mod_left n den
  have hlt : decide (den < 2 * 0) = false := decide_eq_false (by omega)
  have heq : (den == 2 * 0) = false := beq_eq_false_iff_ne.mpr (by omega)
  simp only [roundDiv, Nat.mul_div_cancel n hden, hmod, hlt, heq]
  exact if_neg Bool.false_ne_true

/-! ## Binary exponents -/

theorem atLeastPowerOfTwo_iff {num den : Nat} (hden : 0 < den) (e : Int) :
    atLeastPowerOfTwo num den e = true ↔ (2 : ℚ) ^ e ≤ num / den := by
  have hd : (0 : ℚ) < den := by exact_mod_cast hden
  rw [le_div_iff₀ hd, atLeastPowerOfTwo]
  split
  · rename_i he
    obtain ⟨n, rfl⟩ := Int.eq_ofNat_of_zero_le he
    rw [decide_eq_true_iff, Int.toNat_natCast, zpow_natCast]
    constructor
    · intro h; rw [mul_comm]; exact_mod_cast h
    · intro h; rw [mul_comm]; exact_mod_cast h
  · rename_i he
    obtain ⟨n, hn⟩ := Int.eq_ofNat_of_zero_le (Int.le_of_lt (by omega : 0 < -e))
    obtain rfl : e = -(n : Int) := by omega
    have hp : (0 : ℚ) < 2 ^ n := by positivity
    rw [decide_eq_true_iff, neg_neg, Int.toNat_natCast, zpow_neg, zpow_natCast,
      inv_mul_le_iff₀ hp]
    constructor
    · intro h; rw [mul_comm]; exact_mod_cast h
    · intro h; rw [mul_comm] at h; exact_mod_cast h

theorem ratio_between_powers {num den : Nat} (hnum : 0 < num) (hden : 0 < den) :
    (2 : ℚ) ^ ((num.log2 : Int) - den.log2 - 1) ≤ num / den ∧
      (num : ℚ) / den < 2 ^ ((num.log2 : Int) - den.log2 + 1) := by
  have hd : (0 : ℚ) < den := by exact_mod_cast hden
  have hnum_le : (2 : ℚ) ^ (num.log2 : Int) ≤ num := by
    rw [zpow_natCast]; exact_mod_cast Nat.log2_self_le (by omega)
  have hnum_lt : (num : ℚ) < 2 ^ (num.log2 + 1 : Int) := by
    exact_mod_cast (Nat.lt_log2_self : num < 2 ^ (num.log2 + 1))
  have hden_le : (2 : ℚ) ^ (den.log2 : Int) ≤ den := by
    rw [zpow_natCast]; exact_mod_cast Nat.log2_self_le (by omega)
  have hden_lt : (den : ℚ) < 2 ^ (den.log2 + 1 : Int) := by
    exact_mod_cast (Nat.lt_log2_self : den < 2 ^ (den.log2 + 1))
  constructor
  · rw [le_div_iff₀ hd]
    calc (2 : ℚ) ^ ((num.log2 : Int) - den.log2 - 1) * den
        ≤ 2 ^ ((num.log2 : Int) - den.log2 - 1) * 2 ^ (den.log2 + 1 : Int) := by gcongr
      _ = 2 ^ (num.log2 : Int) := by rw [← zpow_add₀ two_ne_zero]; congr 1; ring
      _ ≤ num := hnum_le
  · rw [div_lt_iff₀ hd]
    calc (num : ℚ) < 2 ^ (num.log2 + 1 : Int) := hnum_lt
      _ = 2 ^ ((num.log2 : Int) - den.log2 + 1) * 2 ^ (den.log2 : Int) := by
        rw [← zpow_add₀ two_ne_zero]; congr 1; ring
      _ ≤ 2 ^ ((num.log2 : Int) - den.log2 + 1) * den := by gcongr

/-- The binary exponent of a ratio is its logarithm. -/
theorem binaryExponent_eq_log {num den : Nat} (hnum : 0 < num) (hden : 0 < den) :
    binaryExponent num den = Int.log 2 ((num : ℚ) / den) := by
  have hr : (0 : ℚ) < num / den := by positivity
  obtain ⟨hlow, hhigh⟩ := ratio_between_powers hnum hden
  have hle := (Int.zpow_le_iff_le_log Nat.one_lt_two hr).mp hlow
  have hlt := (Int.lt_zpow_iff_log_lt Nat.one_lt_two hr).mp hhigh
  have hmid : atLeastPowerOfTwo num den ((num.log2 : Int) - den.log2) = true ↔
      (num.log2 : Int) - den.log2 ≤ Int.log 2 ((num : ℚ) / den) :=
    (atLeastPowerOfTwo_iff hden _).trans (Int.zpow_le_iff_le_log Nat.one_lt_two hr)
  simp only [binaryExponent]
  split
  · rename_i h
    have := hmid.mp h
    omega
  · rename_i h
    have := mt hmid.mpr h
    omega

/-! ## Nearest doubles -/

/-- Equal ratios have the same nearest double. -/
theorem nearestCode_congr {num den num' den' : Nat} (hden : 0 < den) (hden' : 0 < den')
    (h : (num : ℚ) / den = num' / den') : nearestCode num den = nearestCode num' den' := by
  have hd : (den : ℚ) ≠ 0 := by exact_mod_cast hden.ne'
  have hd' : (den' : ℚ) ≠ 0 := by exact_mod_cast hden'.ne'
  have hcross : num * den' = num' * den := by exact_mod_cast (div_eq_div_iff hd hd').mp h
  rcases Nat.eq_zero_or_pos num with rfl | hnum
  · have hzero : num' = 0 := by
      rw [Nat.zero_mul] at hcross
      exact (Nat.mul_eq_zero.mp hcross.symm).resolve_right hden.ne'
    rw [nearestCode, nearestCode, if_pos rfl, if_pos hzero]
  · have hnum' : 0 < num' := by
      refine Nat.pos_of_ne_zero fun hzero => ?_
      rw [hzero, Nat.zero_mul] at hcross
      exact absurd hcross (Nat.mul_pos hnum hden').ne'
    have he : binaryExponent num den = binaryExponent num' den' := by
      rw [binaryExponent_eq_log hnum hden, binaryExponent_eq_log hnum' hden', h]
    rw [nearestCode, nearestCode, if_neg hnum.ne', if_neg hnum'.ne', he]
    refine congrArg (fun units => min (_ + units) infinityCode) (roundDiv_congr ?_ ?_ ?_)
    · exact Nat.mul_pos hden (Nat.two_pow_pos _)
    · exact Nat.mul_pos hden' (Nat.two_pow_pos _)
    · rw [Nat.mul_mul_mul_comm, hcross, Nat.mul_mul_mul_comm]

/-! ## Finite magnitudes -/

theorem mantissa_lt (code : Nat) : mantissa code < 2 ^ 53 := by
  rw [mantissa, fractionCount_eq]
  split <;> omega

theorem unitExponent_eq_or (code : Nat) :
    unitExponent code = minExponent ∨ 2 ^ 52 ≤ mantissa code := by
  rw [unitExponent, mantissa, fractionCount_eq]
  split
  · left; omega
  · right; omega

theorem code_eq (code : Nat) :
    (unitExponent code - minExponent).toNat * fractionCount + mantissa code = code := by
  rw [unitExponent, mantissa, fractionCount_eq]
  split <;> omega

theorem ratio_eq_mul_zpow {b : Nat} (hb : 0 < b) (m : Nat) (e : Int) :
    ((m * b ^ e.toNat : Nat) : ℚ) / ((b ^ (-e).toNat : Nat) : ℚ) = m * (b : ℚ) ^ e := by
  have hb' : (b : ℚ) ≠ 0 := by exact_mod_cast hb.ne'
  have he : e = (e.toNat : Int) - ((-e).toNat : Int) := by omega
  conv_rhs => rw [he, zpow_sub₀ hb', zpow_natCast, zpow_natCast]
  push_cast
  rw [mul_div_assoc]

theorem dyadic_eq_ratio (m : Nat) (q : Int) :
    (m : ℚ) * 2 ^ q = ((m * 2 ^ q.toNat : Nat) : ℚ) / ((2 ^ (-q).toNat : Nat) : ℚ) :=
  (ratio_eq_mul_zpow Nat.two_pos m q).symm

/-- The ratio of a finite magnitude is measured in its own units. -/
theorem unit_of_dyadic {code num den : Nat} (hnum : 0 < num) (hden : 0 < den)
    (h : (num : ℚ) / den = mantissa code * 2 ^ unitExponent code) :
    max (binaryExponent num den - 52) minExponent = unitExponent code := by
  have hr : (0 : ℚ) < num / den := by positivity
  have hp : (0 : ℚ) < 2 ^ unitExponent code := by positivity
  have hlt : Int.log 2 ((num : ℚ) / den) < unitExponent code + 53 := by
    refine (Int.lt_zpow_iff_log_lt Nat.one_lt_two hr).mp ?_
    have hm : (mantissa code : ℚ) < 2 ^ (53 : Nat) := by exact_mod_cast mantissa_lt code
    calc (num : ℚ) / den = mantissa code * 2 ^ unitExponent code := h
      _ < 2 ^ (53 : Nat) * 2 ^ unitExponent code := by gcongr
      _ = 2 ^ (unitExponent code + 53) := by
        rw [zpow_add₀ two_ne_zero, mul_comm]; norm_cast
  have hmin : minExponent ≤ unitExponent code := by unfold unitExponent; omega
  rw [binaryExponent_eq_log hnum hden]
  rcases unitExponent_eq_or code with hsub | hnormal
  · omega
  · have hge : unitExponent code + 52 ≤ Int.log 2 ((num : ℚ) / den) := by
      refine (Int.zpow_le_iff_le_log Nat.one_lt_two hr).mp ?_
      have hm : (2 ^ (52 : Nat) : ℚ) ≤ mantissa code := by exact_mod_cast hnormal
      calc (2 : ℚ) ^ (unitExponent code + 52) = 2 ^ (52 : Nat) * 2 ^ unitExponent code := by
            rw [zpow_add₀ two_ne_zero, mul_comm]; norm_cast
        _ ≤ mantissa code * 2 ^ unitExponent code := by gcongr
        _ = num / den := h.symm
    omega

/-- Of all doubles a finite one is the nearest to what it stands for. -/
theorem nearestCode_dyadic {code : Nat} (hcode : code < infinityCode) :
    nearestCode (mantissa code * 2 ^ (unitExponent code).toNat)
      (2 ^ (-unitExponent code).toNat) = code := by
  have hsum := code_eq code
  rcases Nat.eq_zero_or_pos (mantissa code) with hzero | hpos
  · -- a mantissa is zero for the code zero only
    rcases unitExponent_eq_or code with hsub | hnormal
    · rw [nearestCode, hzero, Nat.zero_mul, if_pos rfl]
      rw [hsub, hzero] at hsum
      simpa using hsum
    · omega
  · have hnum : 0 < mantissa code * 2 ^ (unitExponent code).toNat :=
      Nat.mul_pos hpos (Nat.two_pow_pos _)
    have hden : 0 < 2 ^ (-unitExponent code).toNat := Nat.two_pow_pos _
    have hunit := unit_of_dyadic hnum hden (dyadic_eq_ratio _ _).symm
    have hscaled : mantissa code * 2 ^ (unitExponent code).toNat * 2 ^ (-unitExponent code).toNat =
        mantissa code * (2 ^ (-unitExponent code).toNat * 2 ^ (unitExponent code).toNat) := by
      rw [Nat.mul_assoc, Nat.mul_comm (2 ^ (unitExponent code).toNat)]
    rw [nearestCode, if_neg hnum.ne', hunit]
    simp only [Nat.pow_eq, hscaled, roundDiv_mul_self (Nat.mul_pos hden (Nat.two_pow_pos _)), hsum]
    exact Nat.min_eq_left hcode.le

end Number
end SmallLisp
