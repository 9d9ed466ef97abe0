import SmallLisp.Proofs.Number.Double

/-!
# SmallLisp.Proofs.Number.Division

Division by zero. The quotient of doubles is settled by the signs alone then: zero and no number
have none, and anything else has an infinity, whose sign is the product of the two.

* `isNegative`: the sign of a double, zeros and infinities included, and `sign_unpack`.
* `div_of_beq_zero`: the quotient by a zero is `quotientByZero`.
-/

namespace SmallLisp
namespace Number

open Float.Model (Format UnpackedFloat)
open Float.Model.UnpackedFloat (Sign unpackSign)

def isNegative (x : Float) : Bool :=
  decide (signPlace ≤ x.toBits.toNat)

/-- A magnitude with the sign of another double. -/
def copySign (magnitude x : Float) : Float :=
  if isNegative x then -magnitude else magnitude

/-- What a double divided by a zero is. -/
def quotientByZero (x zero : Float) : Float :=
  if x == 0.0 || x.isNaN then ofCode false (infinityCode + 1)
  else copySign (ofCode false infinityCode) x * copySign 1.0 zero

/-! ## Signs -/

/-- The sign of an unpacked double, if it has one. -/
def sign? : UnpackedFloat → Option Sign
  | .infinity s => some s
  | .notANumber => none
  | .zero s => some s
  | .finite s _ _ _ => some s

theorem ofBitVec_eq_ite (b : BitVec 1) :
    Sign.ofBitVec b = if 1 ≤ b.toNat then .negative else .positive := by
  have hcases : ∀ b : BitVec 1, b = 0#1 ∨ b = 1#1 := by decide
  rcases hcases b with rfl | rfl <;> rfl

theorem sign_unpack {x : Float} {s : Sign} (h : sign? x.toModel.unpack = some s) :
    s = if isNegative x then .negative else .positive := by
  have hfield : s = Sign.ofBitVec (@unpackSign Format.binary64 x.toBits.toBitVec) := by
    have hunpack : x.toModel.unpack = UnpackedFloat.unpack Format.binary64 x.toBits.toBitVec := rfl
    rw [hunpack] at h
    simp only [UnpackedFloat.unpack] at h
    split at h
    · split at h <;> cases h
      rfl
    · split at h
      · split at h <;> (cases h; rfl)
      · cases h
        rfl
  have hplace : x.toBits.toBitVec.toNat / 2 ^ 63 = x.toBits.toNat / signPlace := rfl
  have hpos : 0 < signPlace := by decide
  rw [hfield, ofBitVec_eq_ite, toNat_unpackSign, hplace]
  simp only [Nat.one_le_div_iff hpos, isNegative, decide_eq_true_eq]

/-! ## Zeros -/

theorem unpack_zero : (0.0 : Float).toModel.unpack = .zero .positive := rfl

theorem beq_zero_iff (x : Float) : (x == 0.0) = true ↔ ∃ s, x.toModel.unpack = .zero s := by
  have hcompare : (x == 0.0) =
      (UnpackedFloat.compare x.toModel.unpack (.zero .positive) == some .eq) := by
    rw [← unpack_zero]
    rfl
  rw [hcompare]
  cases x.toModel.unpack with
  | zero s => exact ⟨fun _ => ⟨s, rfl⟩, fun _ => rfl⟩
  | notANumber => exact ⟨nofun, nofun⟩
  | infinity s => cases s <;> exact ⟨nofun, nofun⟩
  | finite s m e _ => cases s <;> exact ⟨nofun, nofun⟩

theorem quotientByZero_eq_nan {x : Float} (h : (x == 0.0 || x.isNaN) = true) (y : Float) :
    quotientByZero x y = ⟨Float.Model.pack .notANumber⟩ := by
  rw [quotientByZero, if_pos h]
  decide

/-- The infinity has the product of the signs. -/
theorem quotientByZero_eq_infinity {x y : Float} {s t : Sign}
    (h : (x == 0.0 || x.isNaN) = false) (hs : sign? x.toModel.unpack = some s)
    (ht : sign? y.toModel.unpack = some t) :
    quotientByZero x y = ⟨Float.Model.pack (.infinity (s / t))⟩ := by
  rw [quotientByZero, h, if_neg Bool.false_ne_true, sign_unpack hs, sign_unpack ht, copySign,
    copySign]
  cases isNegative x <;> cases isNegative y <;> decide

/-- The quotient by a zero is settled by the signs. -/
theorem div_of_beq_zero (x : Float) {y : Float} (hy : (y == 0.0) = true) :
    x / y = quotientByZero x y := by
  obtain ⟨t, ht⟩ := (beq_zero_iff y).mp hy
  have hquotient : ∀ u, UnpackedFloat.div Format.binary64 x.toModel.unpack (.zero t) = u →
      x / y = ⟨Float.Model.pack u⟩ := by
    rintro u rfl
    rw [← ht]
    rfl
  have hysign : sign? y.toModel.unpack = some t := by rw [ht]; rfl
  have hnan : x.isNaN = x.toModel.unpack.isNaN := rfl
  have hbeq : (∀ s, x.toModel.unpack ≠ .zero s) → (x == 0.0) = false := by
    intro h
    rw [Bool.eq_false_iff, ne_eq, beq_zero_iff, not_exists]
    exact h
  cases hx : x.toModel.unpack with
  | notANumber =>
    rw [hquotient .notANumber (by rw [hx]; rfl)]
    exact (quotientByZero_eq_nan (by rw [hnan, hx]; exact Bool.or_true _) y).symm
  | zero s =>
    rw [hquotient .notANumber (by rw [hx]; rfl)]
    exact (quotientByZero_eq_nan (by rw [(beq_zero_iff x).mpr ⟨s, hx⟩]; rfl) y).symm
  | infinity s =>
    rw [hquotient (.infinity (s / t)) (by rw [hx]; rfl)]
    have hx' : (x == 0.0 || x.isNaN) = false := by rw [hbeq (by rw [hx]; nofun), hnan, hx]; rfl
    exact (quotientByZero_eq_infinity hx' (by rw [hx]; rfl) hysign).symm
  | finite s m e hm =>
    rw [hquotient (.infinity (s / t)) (by rw [hx]; rfl)]
    have hx' : (x == 0.0 || x.isNaN) = false := by rw [hbeq (by rw [hx]; nofun), hnan, hx]; rfl
    exact (quotientByZero_eq_infinity hx' (by rw [hx]; rfl) hysign).symm

end Number
end SmallLisp
