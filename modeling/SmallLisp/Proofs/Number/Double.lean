import Mathlib
import SmallLisp.Number.Double

/-!
# SmallLisp.Proofs.Number.Double

Doubles and their encodings. The library packs a double into 64 bits and unpacks it field by field;
here the fields are tied to the natural number that the bits are.

* `ofBits_toBits`: a double is its encoding, and nothing more.
* `code_of_parts`: a finite double is the one with the sign and the magnitude code of its parts;
  `parts_ofCode` is the way back.
* `beq_self_of_parts`, `zero_beq_zero`: equality of finite doubles, and of the two zeros.
-/

namespace SmallLisp
namespace Number

open Float.Model (Format)
open Float.Model.UnpackedFloat

/-- A double that is neither an infinity nor no number. -/
def IsFinite (x : Float) : Prop :=
  ∃ negative m q, parts x = .finite negative m q

instance (x : Float) : Decidable (IsFinite x) :=
  match h : parts x with
  | .finite negative m q => .isTrue ⟨negative, m, q, h⟩
  | .infinite _ => .isFalse (by rintro ⟨_, _, _, h'⟩; rw [h] at h'; cases h')
  | .nan => .isFalse (by rintro ⟨_, _, _, h'⟩; rw [h] at h'; cases h')

/-! ## Fields -/

theorem toNat_unpackMantissa (b : BitVec Format.binary64.numBits) :
    (unpackMantissa b).toNat = b.toNat % 2 ^ 52 := by
  simp [unpackMantissa, BitVec.extractLsb]

theorem toNat_unpackExponent (b : BitVec Format.binary64.numBits) :
    (unpackExponent b).toNat = b.toNat / 2 ^ 52 % 2 ^ 11 := by
  simp [unpackExponent, BitVec.extractLsb, Nat.shiftRight_eq_div_pow]

theorem toNat_unpackSign (b : BitVec Format.binary64.numBits) :
    (unpackSign b).toNat = b.toNat / 2 ^ 63 := by
  have hb : b.toNat < 2 ^ 64 := b.isLt
  have hs : (unpackSign b).toNat = b.toNat / 2 ^ 63 % 2 := by
    simp [unpackSign, BitVec.extractLsb, Nat.shiftRight_eq_div_pow]
  omega

theorem toNat_packComponents (s : Sign) (e : BitVec 11) (m : BitVec 52) :
    (packComponents Format.binary64 s e m).toNat =
      s.toBitVec.toNat * 2 ^ 63 + e.toNat * 2 ^ 52 + m.toNat := by
  have he : e.toNat < 2 ^ 11 := e.isLt
  have hm : m.toNat < 2 ^ 52 := m.isLt
  simp only [packComponents, BitVec.toNat_append]
  rw [← Nat.shiftLeft_add_eq_or_of_lt hm, ← Nat.shiftLeft_add_eq_or_of_lt he, Nat.shiftLeft_eq,
    Nat.shiftLeft_eq]
  omega

theorem toBitVec_ofBitVec : ∀ b : BitVec 1, (Sign.ofBitVec b).toBitVec = b := by decide

/-- The fields of an encoding make it up. -/
theorem packComponents_fields {b : BitVec Format.binary64.numBits} {e : BitVec 11} {m : BitVec 52}
    (he : unpackExponent b = e) (hm : unpackMantissa b = m) :
    packComponents Format.binary64 (Sign.ofBitVec (unpackSign b)) e m = b := by
  have hb : b.toNat < 2 ^ 64 := b.isLt
  refine BitVec.eq_of_toNat_eq ?_
  rw [toNat_packComponents, toBitVec_ofBitVec, ← he, ← hm, toNat_unpackSign, toNat_unpackExponent,
    toNat_unpackMantissa]
  omega

theorem pack_subnormal (s : Sign) {m : Nat} (hpos : 0 < m) (hm : m < 2 ^ 52) {e : Int}
    (he : e = -1074) :
    pack Format.binary64 (.finite s m e hpos) =
      packComponents Format.binary64 s 0#11 (BitVec.ofNat 52 m) := by
  have hlog : m.log2 < 52 := (Nat.log2_lt (by omega)).mpr hm
  have hbits : ¬m.log2 + 1 = Format.binary64.mantissaBits := by
    show ¬m.log2 + 1 = 53
    omega
  subst he
  rw [pack]
  exact (if_neg (by decide)).trans (if_neg hbits)

theorem pack_normal (s : Sign) {m : Nat} (hpos : 0 < m) (hlow : 2 ^ 52 ≤ m) (hhigh : m < 2 ^ 53)
    {e : Int} {E : BitVec 11} (he : e = E.toNat - 1075) (hE : E.toNat < 2047) :
    pack Format.binary64 (.finite s m e hpos) =
      packComponents Format.binary64 s E (BitVec.ofNat 52 m) := by
  have hlog : m.log2 = 52 := (Nat.log2_eq_iff (by omega)).mpr ⟨hlow, hhigh⟩
  have hbias : (e + (Format.binary64.exponentBias : Int) +
      (Format.binary64.mantissaBitsWithoutImplicit : Int)).toNat = E.toNat := by
    show (e + 1023 + 52).toNat = E.toNat
    omega
  have hfits : ¬2 ^ Format.binary64.exponentBits ≤ E.toNat + 1 := by
    show ¬2 ^ 11 ≤ E.toNat + 1
    omega
  have hbits : m.log2 + 1 = Format.binary64.mantissaBits := by rw [hlog]; rfl
  rw [pack]
  simp only [hbias]
  rw [if_neg hfits, if_pos hbits, BitVec.ofNat_toNat, BitVec.setWidth_eq]

/-- Packing undoes unpacking: of the encodings of no number only one is valid. -/
theorem pack_unpack {b : BitVec Format.binary64.numBits} (h : Format.binary64.Valid b) :
    pack Format.binary64 (unpack Format.binary64 b) = b := by
  have hm : (unpackMantissa b).toNat < 2 ^ 52 := (unpackMantissa b).isLt
  have he : (unpackExponent b).toNat < 2 ^ 11 := (unpackExponent b).isLt
  simp only [unpack]
  split
  · rename_i hexp
    split
    · rename_i hman; exact packComponents_fields hexp hman
    · rename_i hman; exact (h.eq_packedNaN hexp hman).symm
  · rename_i hfinite
    have hlt : (unpackExponent b).toNat ≠ 2047 := fun heq => hfinite (BitVec.eq_of_toNat_eq heq)
    split
    · rename_i hexp
      split
      · rename_i hman; exact packComponents_fields hexp hman
      · rw [pack_subnormal _ _ hm, BitVec.ofNat_toNat, BitVec.setWidth_eq]
        · exact packComponents_fields hexp rfl
        · rw [hexp]; rfl
    · have happend : (1#1 ++ unpackMantissa b).toNat = 2 ^ 52 + (unpackMantissa b).toNat := by
        rw [BitVec.toNat_append, ← Nat.shiftLeft_add_eq_or_of_lt hm]
        rfl
      refine (pack_normal _ _ (by omega) (by omega) rfl (by omega)).trans ?_
      refine packComponents_fields rfl (BitVec.eq_of_toNat_eq ?_)
      rw [BitVec.toNat_ofNat, happend]
      show (unpackMantissa b).toNat = (2 ^ 52 + (unpackMantissa b).toNat) % 2 ^ 52
      omega

/-- A double is its encoding. -/
theorem ofBits_toBits (x : Float) : Float.ofBits x.toBits = x := by
  obtain ⟨⟨bits, valid⟩⟩ := x
  have hb := pack_unpack valid
  simp only [Float.ofBits, Float.toBits, Float.Model.ofBits, Float.Model.pack, hb]

/-- A valid encoding is that of its double. -/
theorem toBits_ofBits {b : UInt64} (h : Format.binary64.Valid b.toBitVec) :
    (Float.ofBits b).toBits = b := by
  have hb := pack_unpack h
  simp only [Float.ofBits, Float.toBits, Float.Model.ofBits, Float.Model.pack, hb]

/-! ## Magnitude codes -/

theorem signPlace_eq : signPlace = 2 ^ 63 := rfl

theorem fractionCount_eq : fractionCount = 2 ^ 52 := rfl

theorem ofCode_of_bits (x : Float) :
    ofCode (decide (signPlace ≤ x.toBits.toNat)) (x.toBits.toNat % signPlace) = x := by
  have hlt : x.toBits.toNat < 2 ^ 64 := x.toBits.toNat_lt
  rw [ofCode, signPlace_eq]
  by_cases hs : 2 ^ 63 ≤ x.toBits.toNat
  · have hsum : 2 ^ 63 + x.toBits.toNat % 2 ^ 63 = x.toBits.toNat := by omega
    rw [if_pos (decide_eq_true hs), hsum, UInt64.ofNat_toNat, ofBits_toBits]
  · have hmod : x.toBits.toNat % 2 ^ 63 = x.toBits.toNat := by omega
    rw [if_neg (by simpa using hs), hmod, UInt64.ofNat_toNat, ofBits_toBits]

/-- The parts of a finite double are those of its magnitude code. -/
theorem code_of_parts {x : Float} {negative : Bool} {m : Nat} {q : Int}
    (h : parts x = .finite negative m q) :
    ∃ code, code < infinityCode ∧ m = mantissa code ∧ q = unitExponent code ∧
      ofCode negative code = x := by
  simp only [parts] at h
  split at h
  · rename_i hlt
    cases h
    exact ⟨_, hlt, rfl, rfl, ofCode_of_bits x⟩
  · split at h <;> cases h

theorem toBits_ofCode (negative : Bool) {code : Nat} (h : code < infinityCode) :
    (ofCode negative code).toBits.toNat = if negative then signPlace + code else code := by
  rw [infinityCode, fractionCount_eq] at h
  have hlt : (if negative then signPlace + code else code) < 2 ^ 64 := by
    rw [signPlace_eq]
    split <;> omega
  have hnat : (UInt64.ofNat (if negative then signPlace + code else code)).toNat =
      if negative then signPlace + code else code := UInt64.toNat_ofNat_of_lt' hlt
  rw [ofCode, toBits_ofBits, hnat]
  -- only an exponent field of ones can make an encoding invalid
  refine ⟨fun hexp _ => ?_⟩
  have hfield := congrArg BitVec.toNat hexp
  have hones : (-1#(Format.binary64.exponentBits)).toNat = 2047 := by decide
  rw [toNat_unpackExponent, hones, UInt64.toNat_toBitVec, hnat, signPlace_eq] at hfield
  split at hfield <;> omega

/-- The code of a finite magnitude gives back its parts. -/
theorem parts_ofCode (negative : Bool) {code : Nat} (h : code < infinityCode) :
    parts (ofCode negative code) = .finite negative (mantissa code) (unitExponent code) := by
  have hlt : code < signPlace := by
    rw [infinityCode, fractionCount_eq] at h
    rw [signPlace_eq]
    omega
  have hmod : code % signPlace = code := Nat.mod_eq_of_lt hlt
  simp only [parts, toBits_ofCode negative h]
  cases negative with
  | true => simp [hmod, h]
  | false => simp [hmod, h, hlt]

/-! ## Equality -/

theorem compare_self {u : Float.Model.UnpackedFloat} (h : u ≠ .notANumber) :
    u.compare u = some .eq := by
  cases u with
  | notANumber => exact absurd rfl h
  | infinity s => cases s <;> rfl
  | zero s => rfl
  | finite s m e _ =>
    have he : (compare e e).then (compare m m) = .eq := by simp
    cases s with
    | positive => rw [Float.Model.UnpackedFloat.compare, he]
    | negative => rw [Float.Model.UnpackedFloat.compare, he]; rfl

theorem unpack_ne_notANumber {b : BitVec Format.binary64.numBits}
    (h : (unpackExponent b).toNat < 2047) : unpack Format.binary64 b ≠ .notANumber := by
  have hfinite : unpackExponent b ≠ -1#11 := by
    intro hexp
    rw [hexp] at h
    exact absurd h (by decide)
  simp only [unpack]
  rw [if_neg hfinite]
  split
  · split <;> simp
  · simp

/-- The two zeros are equal. -/
theorem zero_beq_zero (negative negative' : Bool) :
    (ofCode negative 0 == ofCode negative' 0) = true := by
  cases negative <;> cases negative' <;> decide

/-- A finite double equals itself. -/
theorem beq_self_of_parts {x : Float} {negative : Bool} {m : Nat} {q : Int}
    (h : parts x = .finite negative m q) : (x == x) = true := by
  simp only [parts] at h
  split at h
  · rename_i hlt
    have hexp : (@unpackExponent Format.binary64 x.toBits.toBitVec).toNat < 2047 := by
      rw [toNat_unpackExponent]
      rw [infinityCode, fractionCount_eq, signPlace_eq] at hlt
      show x.toBits.toNat / 2 ^ 52 % 2 ^ 11 < 2047
      omega
    show (Float.Model.UnpackedFloat.compare x.toModel.unpack x.toModel.unpack == some .eq) = true
    exact beq_iff_eq.mpr (compare_self (unpack_ne_notANumber hexp))
  · split at h <;> cases h

end Number
end SmallLisp
