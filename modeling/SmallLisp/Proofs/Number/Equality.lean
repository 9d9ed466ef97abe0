import SmallLisp.Proofs.Number.Division
import SmallLisp.Proofs.Number.Written

/-!
# SmallLisp.Proofs.Number.Equality

Equality of doubles: what is no number equals nothing, and apart from that two doubles are equal
just if they are the same without the sign of zero.

* `compare_eq_iff`: when the comparison of two unpacked doubles finds them equal.
* `beq_iff`: equality as identity of the doubles without the sign of zero.
-/

namespace SmallLisp
namespace Number

open Float.Model (Format UnpackedFloat)

theorem compare_eq_iff (u v : UnpackedFloat) : u.compare v = some .eq ↔
    u ≠ .notANumber ∧ u = v ∨ (∃ s, u = .zero s) ∧ ∃ s, v = .zero s := by
  cases u with
  | notANumber => simp [UnpackedFloat.compare]
  | infinity s =>
    cases v with
    | infinity t => cases s <;> cases t <;> simp [UnpackedFloat.compare] <;> decide
    | _ => cases s <;> simp [UnpackedFloat.compare]
  | zero s =>
    cases v with
    | infinity t => cases t <;> simp [UnpackedFloat.compare]
    | finite t m e _ => cases t <;> simp [UnpackedFloat.compare]
    | _ => simp [UnpackedFloat.compare]
  | finite s m e _ =>
    cases v with
    | infinity t => cases s <;> cases t <;> simp [UnpackedFloat.compare]
    | finite t m' e' _ => cases s <;> cases t <;> simp [UnpackedFloat.compare, and_comm]
    | _ => cases s <;> simp [UnpackedFloat.compare]

/-- A double is what it is unpacked to. -/
theorem eq_of_unpack_eq {x y : Float} (h : x.toModel.unpack = y.toModel.unpack) : x = y := by
  obtain ⟨⟨bits, valid⟩⟩ := x
  obtain ⟨⟨bits', valid'⟩⟩ := y
  have hbits : bits.toBitVec = bits'.toBitVec := by
    rw [← pack_unpack valid, ← pack_unpack valid']
    exact congrArg _ h
  obtain rfl : bits = bits' := UInt64.toBitVec_inj.mp hbits
  rfl

theorem isNaN_eq_false_iff (x : Float) : x.isNaN = false ↔ x.toModel.unpack ≠ .notANumber := by
  have hx : x.isNaN = x.toModel.unpack.isNaN := rfl
  rw [hx]
  cases x.toModel.unpack with
  | notANumber => exact ⟨nofun, fun h => absurd rfl h⟩
  | _ => exact ⟨fun _ => nofun, fun _ => rfl⟩

/-! ## Zeros -/

theorem unpack_ofCode_zero (negative : Bool) :
    (ofCode negative 0).toModel.unpack = .zero (if negative then .negative else .positive) := by
  cases negative <;> rfl

/-- There are two zeros, and without its sign the one is the other. -/
theorem unsignZero_of_zero {x : Float} (h : (x == 0.0) = true) : unsignZero x = ofCode false 0 := by
  obtain ⟨s, hs⟩ := (beq_zero_iff x).mp h
  cases s with
  | positive =>
    obtain rfl : x = ofCode false 0 := eq_of_unpack_eq (hs.trans (unpack_ofCode_zero false).symm)
    decide
  | negative =>
    obtain rfl : x = ofCode true 0 := eq_of_unpack_eq (hs.trans (unpack_ofCode_zero true).symm)
    exact if_pos rfl

theorem unsignZero_of_ne_zero {x : Float} (h : ¬(x == 0.0) = true) : unsignZero x = x := by
  refine if_neg ?_
  rintro rfl
  exact h ((beq_zero_iff _).mpr ⟨_, unpack_ofCode_zero true⟩)

theorem zero_iff_unsignZero (x : Float) : (x == 0.0) = true ↔ unsignZero x = ofCode false 0 := by
  refine ⟨unsignZero_of_zero, fun h => ?_⟩
  by_contra hx
  obtain rfl : x = ofCode false 0 := (unsignZero_of_ne_zero hx).symm.trans h
  exact hx ((beq_zero_iff _).mpr ⟨_, unpack_ofCode_zero false⟩)

/-! ## Equality -/

theorem isNaN_unsignZero (x : Float) : (unsignZero x).isNaN = x.isNaN := by
  unfold unsignZero
  split
  · rename_i h
    rw [h]
    rfl
  · rfl

/-- Doubles are equal just if they are numbers and the same without the sign of zero. -/
theorem beq_iff (x y : Float) :
    (x == y) = true ↔ x.isNaN = false ∧ y.isNaN = false ∧ unsignZero x = unsignZero y := by
  have hcompare : (x == y) = (x.toModel.unpack.compare y.toModel.unpack == some .eq) := rfl
  rw [hcompare, beq_iff_eq, compare_eq_iff, ← beq_zero_iff, ← beq_zero_iff,
    ← isNaN_eq_false_iff]
  constructor
  · rintro (⟨hx, h⟩ | ⟨hx, hy⟩)
    · rw [eq_of_unpack_eq h] at hx ⊢
      exact ⟨hx, hx, rfl⟩
    · have hz : (ofCode false 0).isNaN = false := rfl
      rw [← isNaN_unsignZero x, ← isNaN_unsignZero y, unsignZero_of_zero hx, unsignZero_of_zero hy]
      exact ⟨hz, hz, rfl⟩
  · rintro ⟨hx, -, h⟩
    by_cases hzero : (x == 0.0) = true
    · exact .inr ⟨hzero, (zero_iff_unsignZero y).mpr (h ▸ unsignZero_of_zero hzero)⟩
    · have hzero' : ¬(y == 0.0) = true := by
        rwa [zero_iff_unsignZero, ← h, ← zero_iff_unsignZero]
      rw [unsignZero_of_ne_zero hzero, unsignZero_of_ne_zero hzero'] at h
      exact .inl ⟨hx, by rw [h]⟩

end Number
end SmallLisp
