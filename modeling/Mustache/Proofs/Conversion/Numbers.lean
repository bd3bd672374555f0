import Mathlib
import Mustache.Decimal.Float

/-!
# Floating-point numbers that are numbers

A floating-point number is put together from a sign, an exponent and a mantissa, after it has been
rounded. Neither step gives what is not a number (`isNaN_pack`, `isNaN_roundWithAccuracy`), only
arithmetic does. So the floating-point number nearest to a whole number is a number, or infinite,
however great the whole number is. This is shown for those to which no exact arithmetic applies
(`isNaN_ofInt`), among them all that do not fit into 64 bits.
-/

namespace Mustache.Binary

open Float.Model (Format UnpackedFloat)
open Float.Model.UnpackedFloat

variable {spec : Format}

/-- With the greatest exponent, what has no mantissa is infinite. -/
theorem isNaN_unpack_packComponents {sign : Sign} {exponent : BitVec spec.exponentBits}
    {mantissa : BitVec spec.mantissaBitsWithoutImplicit} (h : exponent = -1#_ → mantissa = 0#_) :
    (unpack spec (packComponents spec sign exponent mantissa)).isNaN = false := by
  simp only [unpack, unpackExponent_packComponents, unpackMantissa_packComponents]
  split
  · next he => rw [if_pos (h he)]; rfl
  · split
    · split <;> rfl
    · rfl

/-- Numbers stay numbers, or become infinite, when they are packed. -/
theorem isNaN_unpack_pack {x : UnpackedFloat} (h : x.isNaN = false) :
    (unpack spec (pack spec x)).isNaN = false := by
  have hinfinity (sign) : (unpack spec (packedInfinity spec sign)).isNaN = false :=
    isNaN_unpack_packComponents fun _ => rfl
  cases x with
  | notANumber => cases h
  | infinity sign => exact hinfinity sign
  | zero sign => exact isNaN_unpack_packComponents fun _ => rfl
  | finite sign m e hm =>
    simp only [pack]
    split
    · exact hinfinity sign
    · next hlt =>
      -- An exponent that fits is not the greatest one.
      split
      · refine isNaN_unpack_packComponents fun he => absurd (congrArg BitVec.toNat he) ?_
        rw [BitVec.toNat_ofNat, Nat.mod_eq_of_lt (by omega), BitVec.neg_one_eq_allOnes,
          BitVec.toNat_allOnes]
        omega
      · refine isNaN_unpack_packComponents fun he => absurd he ?_
        simp [Nat.pos_iff_ne_zero.1 spec.he]

theorem isNaN_pack {x : UnpackedFloat} (h : x.isNaN = false) :
    (Float.ofModel (Float.Model.pack x)).isNaN = false :=
  isNaN_unpack_pack h

theorem isNaN_roundWithAccuracy (sign : Sign) (m : Nat) (e : Int) (accuracy : Accuracy) :
    (roundWithAccuracy spec sign m e accuracy).isNaN = false := by
  rw [roundWithAccuracy]
  simp only
  split <;> rfl

theorem isNaN_ofScientific (m : Nat) (e : Int) : (ofScientific spec m e).isNaN = false := by
  rw [ofScientific]
  split
  · rfl
  · split
    · rfl
    · split
      · rfl
      · split <;> exact isNaN_roundWithAccuracy _ _ _ _

theorem isNaN_neg {x : Float} (h : x.isNaN = false) : (-x).isNaN = false := by
  have hneg : x.toModel.unpack.neg.isNaN = false := by
    change x.toModel.unpack.isNaN = false at h
    cases hx : x.toModel.unpack with
    | notANumber => rw [hx] at h; cases h
    | _ => rfl
  exact isNaN_pack hneg

theorem isNaN_of_isFinite {x : Float} (h : x.isFinite = true) : x.isNaN = false := by
  change x.toModel.unpack.isFinite = true at h
  change x.toModel.unpack.isNaN = false
  cases hx : x.toModel.unpack with
  | notANumber => rw [hx] at h; cases h
  | _ => rfl

theorem isNaN_ofNat {n : Nat} (h : 2 ^ 53 ≤ n) : (Float.ofNat n).isNaN = false := by
  have hslow : Float.ofNat n = .ofModel (.ofScientific n 0) := dif_neg (by omega)
  rw [hslow]
  exact isNaN_pack (isNaN_ofScientific _ _)

/-- A whole number is a number as a floating-point number. -/
theorem isNaN_ofInt {n : Int} (h : 2 ^ 53 ≤ n.natAbs) : (Float.ofInt n).isNaN = false := by
  cases n with
  | ofNat n => exact isNaN_ofNat h
  | negSucc n => exact isNaN_neg (isNaN_ofNat h)

end Mustache.Binary
