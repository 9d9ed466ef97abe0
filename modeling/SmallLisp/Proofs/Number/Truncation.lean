import SmallLisp.Proofs.Number.Decimal

/-!
# SmallLisp.Proofs.Number.Truncation

Finite doubles as rational numbers, and what is left of one without its fraction.

* `rational?`: the rational number that a finite double is.
* `truncate?_eq_map`: a truncation is that number rounded toward zero.
* `rational?_natural`: the natural numbers below `2 ^ 53` are doubles, and are read as such.
-/

namespace SmallLisp
namespace Number

def signed (negative : Bool) (r : ℚ) : ℚ :=
  if negative then -r else r

/-- The rational number that a double is; infinities and no number are none. -/
def rational? (x : Float) : Option ℚ :=
  match parts x with
  | .finite negative m q => some (signed negative (m * 2 ^ q))
  | .infinite _ => none
  | .nan => none

/-- A rational number without its fraction. -/
def towardZero (r : ℚ) : ℤ :=
  if r < 0 then ⌈r⌉ else ⌊r⌋

theorem floor_dyadic (m : Nat) (q : Int) :
    ⌊(m : ℚ) * 2 ^ q⌋ = ((if 0 ≤ q then m * 2 ^ q.toNat else m / 2 ^ (-q).toNat : Nat) : ℤ) := by
  rw [dyadic_eq_ratio, Rat.floor_natCast_div_natCast]
  split
  · rename_i hq
    have hzero : (-q).toNat = 0 := by omega
    rw [hzero, Nat.pow_zero, Nat.cast_one, Int.ediv_one]
  · rename_i hq
    have hzero : q.toNat = 0 := by omega
    rw [hzero, Nat.pow_zero, Nat.mul_one, Int.natCast_ediv]

theorem towardZero_signed (negative : Bool) {r : ℚ} (hr : 0 ≤ r) :
    towardZero (signed negative r) = if negative then -⌊r⌋ else ⌊r⌋ := by
  cases negative with
  | false => exact if_neg (not_lt.mpr hr)
  | true =>
    rw [signed, if_pos rfl, if_pos rfl, towardZero]
    split
    · exact Int.ceil_neg
    · rename_i h
      have hzero : r = 0 := by linarith
      rw [hzero, neg_zero, Int.floor_zero, neg_zero]

theorem truncate?_eq_map (x : Float) : truncate? x = (rational? x).map towardZero := by
  unfold truncate? rational?
  cases parts x with
  | finite negative m q =>
    have hmagnitude : (0 : ℚ) ≤ m * 2 ^ q := by positivity
    rw [Option.map_some, towardZero_signed negative hmagnitude, floor_dyadic]
    rfl
  | infinite negative => rfl
  | nan => rfl

/-! ## Natural numbers -/

/-- The code of a mantissa with its hidden bit, `n` binary exponents above the least one. -/
theorem parts_of_hidden {n m : Nat} (hlow : 2 ^ 52 ≤ m) (hhigh : m < 2 ^ 53) :
    mantissa (n * fractionCount + m) = m ∧
      unitExponent (n * fractionCount + m) = minExponent + n := by
  rw [mantissa, unitExponent, fractionCount_eq]
  constructor
  · split <;> omega
  · omega

/-- Below `2 ^ 53` every natural number is a finite magnitude. -/
theorem exists_code_natural {k : Nat} (hk : k < 2 ^ 53) :
    ∃ code, code < infinityCode ∧ (k : ℚ) = mantissa code * 2 ^ unitExponent code := by
  rcases Nat.eq_zero_or_pos k with rfl | hpos
  · exact ⟨0, by decide, by simp [mantissa, fractionCount_eq]⟩
  obtain ⟨e, he⟩ : ∃ e, k.log2 = e := ⟨_, rfl⟩
  obtain ⟨hle, hlt⟩ := (Nat.log2_eq_iff hpos.ne').mp he
  have he52 : e ≤ 52 := by
    have := (Nat.log2_lt hpos.ne').mpr hk
    omega
  -- the highest bit of the number becomes the hidden one
  have hlow : 2 ^ 52 ≤ k * 2 ^ (52 - e) := by
    calc 2 ^ 52 = 2 ^ e * 2 ^ (52 - e) := by rw [← Nat.pow_add, Nat.add_sub_cancel' he52]
      _ ≤ k * 2 ^ (52 - e) := Nat.mul_le_mul_right _ hle
  have hhigh : k * 2 ^ (52 - e) < 2 ^ 53 := by
    calc k * 2 ^ (52 - e) < 2 ^ (e + 1) * 2 ^ (52 - e) :=
          Nat.mul_lt_mul_of_pos_right hlt (Nat.two_pow_pos _)
      _ = 2 ^ 53 := by rw [← Nat.pow_add]; congr 1; omega
  obtain ⟨hmantissa, hunit⟩ := parts_of_hidden (n := e + 1022) hlow hhigh
  refine ⟨(e + 1022) * fractionCount + k * 2 ^ (52 - e), ?_, ?_⟩
  · rw [infinityCode, fractionCount_eq]
    omega
  · have hexponent : minExponent + ((e + 1022 : Nat) : Int) = -((52 - e : Nat) : Int) := by
      rw [minExponent]
      omega
    have hpow : (2 : ℚ) ^ (52 - e) ≠ 0 := by positivity
    rw [hmantissa, hunit, hexponent, zpow_neg, zpow_natCast]
    push_cast
    rw [mul_assoc, mul_inv_cancel₀ hpow, mul_one]

theorem rational?_natural {k : Nat} (hk : k < 2 ^ 53) :
    rational? (Decimal.toFloat ⟨false, k, 0⟩) = some (k : ℚ) := by
  obtain ⟨code, hcode, hvalue⟩ := exists_code_natural hk
  have hmagnitude : (⟨false, k, 0⟩ : Decimal).magnitude =
      mantissa code * 2 ^ unitExponent code := by
    rw [← hvalue, Decimal.magnitude, zpow_zero, mul_one]
  rw [Decimal.toFloat_eq_ofCode hcode hmagnitude, rational?, parts_ofCode false hcode, hvalue]
  rfl

theorem truncate?_natural {k : Nat} (hk : k < 2 ^ 53) :
    truncate? (Decimal.toFloat ⟨false, k, 0⟩) = some (k : ℤ) := by
  rw [truncate?_eq_map, rational?_natural hk, Option.map_some, towardZero, if_neg (by simp),
    Int.floor_natCast]

end Number
end SmallLisp
