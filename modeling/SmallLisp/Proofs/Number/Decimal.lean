import SmallLisp.Number.Shortest
import SmallLisp.Proofs.Number.Double
import SmallLisp.Proofs.Number.Nearest

/-!
# SmallLisp.Proofs.Number.Decimal

Decimals as numbers. The double nearest to a decimal is a matter of its sign and its magnitude, not
of how it is spelled; so a decimal can be shifted about freely between being written and being read.

* `Decimal.magnitude`: the number that a decimal is, without its sign.
* `Decimal.toFloat_congr`: decimals of the same sign and magnitude have the same nearest double.
* `shortest_toFloat`: the shortest decimal reads back.
-/

namespace SmallLisp
namespace Number
namespace Decimal

/-- The number that a decimal is, without its sign. -/
def magnitude (d : Decimal) : ℚ :=
  d.digits * 10 ^ d.exponent

theorem stripZeros_magnitude (digits : Nat) (exponent : Int) :
    ((stripZeros digits exponent).1 : ℚ) * 10 ^ (stripZeros digits exponent).2 =
      digits * 10 ^ exponent := by
  fun_induction stripZeros digits exponent with
  | case1 digits exponent h ih =>
    have hdiv : digits = digits / 10 * 10 := by omega
    have hcast : (digits : ℚ) = (digits / 10 : Nat) * 10 := by exact_mod_cast hdiv
    rw [ih, hcast, zpow_add_one₀ (by norm_num)]
    ring
  | case2 digits exponent h => rfl

theorem normalize_negative (d : Decimal) : d.normalize.negative = d.negative := by
  unfold normalize
  split <;> rfl

theorem normalize_magnitude (d : Decimal) : d.normalize.magnitude = d.magnitude := by
  unfold normalize
  split
  · rename_i h
    simp [magnitude, h]
  · exact stripZeros_magnitude d.digits d.exponent

theorem magnitude_eq_ratio (d : Decimal) :
    d.magnitude =
      ((d.digits * 10 ^ d.exponent.toNat : Nat) : ℚ) / ((10 ^ (-d.exponent).toNat : Nat) : ℚ) :=
  (ratio_eq_mul_zpow (by decide) d.digits d.exponent).symm

/-- The nearest double in terms of a ratio that the decimal is. -/
theorem toFloat_eq_nearest {d : Decimal} {num den : Nat} (hden : 0 < den)
    (h : d.magnitude = num / den) : d.toFloat = nearest d.negative num den := by
  have hratio := magnitude_eq_ratio d.normalize
  rw [normalize_magnitude, h] at hratio
  simp only [toFloat, normalize_negative, nearest, Nat.pow_eq]
  rw [nearestCode_congr (Nat.pow_pos (by decide)) hden hratio.symm]

/-- Decimals that are the same number have the same nearest double. -/
theorem toFloat_congr {d d' : Decimal} (hnegative : d.negative = d'.negative)
    (hmagnitude : d.magnitude = d'.magnitude) : d.toFloat = d'.toFloat := by
  have hden : 0 < 10 ^ (-d'.exponent).toNat := Nat.pow_pos (by decide)
  rw [toFloat_eq_nearest hden (hmagnitude.trans (magnitude_eq_ratio d')),
    toFloat_eq_nearest hden (magnitude_eq_ratio d'), hnegative]

/-- A decimal that is exactly a finite double is nearest to that double. -/
theorem toFloat_eq_ofCode {d : Decimal} {code : Nat} (hcode : code < infinityCode)
    (h : d.magnitude = mantissa code * 2 ^ unitExponent code) :
    d.toFloat = ofCode d.negative code := by
  rw [toFloat_eq_nearest (Nat.two_pow_pos _) (h.trans (dyadic_eq_ratio _ _)), nearest,
    nearestCode_dyadic hcode]

theorem toFloat_of_digits_eq_zero {d : Decimal} (h : d.digits = 0) :
    d.toFloat = ofCode d.negative 0 := by
  refine toFloat_eq_ofCode (by decide) ?_
  simp [magnitude, h, mantissa, fractionCount]

end Decimal

/-! ## Shortest decimals -/

theorem exactDecimal_magnitude (negative : Bool) (m : Nat) (q : Int) :
    (exactDecimal negative m q).magnitude = m * 2 ^ q := by
  unfold exactDecimal
  split
  · rename_i hq
    obtain ⟨n, rfl⟩ := Int.eq_ofNat_of_zero_le hq
    rw [Decimal.normalize_magnitude, Decimal.magnitude]
    simp
  · rename_i hq
    obtain ⟨n, rfl⟩ : ∃ n : Nat, q = -(n : Int) := ⟨(-q).toNat, by omega⟩
    have h10 : (10 : ℚ) = 5 * 2 := by norm_num
    have h5 : (5 : ℚ) ^ n ≠ 0 := by positivity
    rw [Decimal.normalize_magnitude, Decimal.magnitude]
    simp only [neg_neg, Int.toNat_natCast, zpow_neg, zpow_natCast, Nat.pow_eq]
    push_cast
    rw [h10, mul_pow, mul_inv, mul_assoc, ← mul_assoc (5 ^ n), mul_inv_cancel₀ h5, one_mul]

theorem exactDecimal_negative (negative : Bool) (m : Nat) (q : Int) :
    (exactDecimal negative m q).negative = negative := by
  unfold exactDecimal
  split <;> exact Decimal.normalize_negative _

theorem neighbour?_toFloat {x : Float} {negative : Bool} {num den : Nat} {e : Int} {d : Decimal}
    (h : neighbour? x negative num den e = some d) : d.toFloat = x := by
  simp only [neighbour?] at h
  split at h
  · rename_i hbelow
    split at h
    · rename_i habove
      cases h
      simp only [Bool.and_eq_true, decide_eq_true_eq] at habove
      exact habove.1
    · cases h
      exact hbelow
  · split at h
    · rename_i habove
      cases h
      exact habove
    · cases h

/-- The shortest decimal of a finite double reads back as that double. -/
theorem shortest_toFloat {x : Float} {negative : Bool} {m : Nat} {q : Int}
    (h : parts x = .finite negative m q) : (shortest x negative m q).toFloat = x := by
  obtain ⟨code, hcode, rfl, rfl, hx⟩ := code_of_parts h
  have hexact : (exactDecimal negative (mantissa code) (unitExponent code)).toFloat = x := by
    rw [Decimal.toFloat_eq_ofCode hcode (exactDecimal_magnitude _ _ _), exactDecimal_negative, hx]
  unfold shortest
  split
  · rename_i hm
    rw [Decimal.toFloat_eq_ofCode hcode (by simp [Decimal.magnitude, hm]), hx]
  · have hfound : ∀ found : Option Decimal, (∀ d, found = some d → d.toFloat = x) →
        (found.getD (exactDecimal negative (mantissa code) (unitExponent code))).toFloat = x := by
      intro found h
      cases found with
      | none => exact hexact
      | some d => exact h d rfl
    refine hfound _ fun d hd => ?_
    obtain ⟨n, -, hn⟩ := List.exists_of_findSome?_eq_some hd
    exact neighbour?_toFloat hn

end Number
end SmallLisp
