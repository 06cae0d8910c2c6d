import Mathlib
import OverloadMachine.Number

/-!
# Products of floats with one

A float is read as a sign, a mantissa and an exponent, and what is read is written as the same float
again. A mantissa and an exponent that have been read stand for no other ones of the format, so that
the product with one, whose mantissa is a power of two, is rounded to the other factor. Two floats
that are equal and no zeros are the same float.
-/

namespace OverloadMachine

namespace Binary64

open Float.Model UnpackedFloat

/-! ## Floats read and written -/

/-- A float stands in a word. -/
inductive Stands : UnpackedFloat → BitVec Format.binary64.numBits → Prop
  | infinity (sign : UnpackedFloat.Sign) :
    Stands (.infinity sign) (packComponents .binary64 sign (-1#_) 0#_)
  | notANumber : Stands .notANumber (packedNaN .binary64)
  | zero (sign : UnpackedFloat.Sign) : Stands (.zero sign) (packComponents .binary64 sign 0#_ 0#_)
  | subnormal (sign : UnpackedFloat.Sign) (m : Nat) (pos : 0 < m) (below : m < 2 ^ 52) :
    Stands (.finite sign m (-1074) pos) (packComponents .binary64 sign 0#_ (BitVec.ofNat _ m))
  | normal (sign : UnpackedFloat.Sign) (m e : Nat) (pos : 0 < m) (leading : 2 ^ 52 ≤ m)
    (below : m < 2 ^ 53) (least : 0 < e) (greatest : e < 2047) :
    Stands (.finite sign m (e - 1075) pos)
      (packComponents .binary64 sign (BitVec.ofNat _ e) (BitVec.ofNat _ m))

variable {u : UnpackedFloat} {b : BitVec Format.binary64.numBits}

/-- A word is made of its parts. -/
theorem packComponents_parts (b : BitVec Format.binary64.numBits) :
    packComponents .binary64 (.ofBitVec (unpackSign b)) (unpackExponent b) (unpackMantissa b)
      = b := by
  have sign : (UnpackedFloat.Sign.ofBitVec (unpackSign b)).toBitVec = unpackSign b := by
    generalize unpackSign b = v
    revert v
    decide
  have upper : unpackSign b ++ unpackExponent b = b.extractLsb' 52 12 :=
    BitVec.extractLsb'_append_extractLsb'_eq_extractLsb' rfl
  have whole : b.extractLsb' 52 12 ++ unpackMantissa b = b.extractLsb' 0 64 :=
    BitVec.extractLsb'_append_extractLsb'_eq_extractLsb' rfl
  rw [packComponents, sign, upper, whole]
  exact BitVec.extractLsb'_eq_self

/-- A normal mantissa has its leading bit before the others. -/
theorem toNat_leading {w : Nat} (v : BitVec w) : (1#1 ++ v).toNat = 2 ^ w + v.toNat := by
  rw [BitVec.toNat_append, ← Nat.shiftLeft_add_eq_or_of_lt v.isLt, Nat.shiftLeft_eq]
  simp

/-- A word whose exponent has zeros and ones has a normal mantissa. -/
theorem stands_normal (ones : unpackExponent b ≠ -1#_) (zeros : unpackExponent b ≠ 0#_)
    (pos : 0 < (1#1 ++ unpackMantissa b).toNat) :
    Stands (.finite (.ofBitVec (unpackSign b)) (1#1 ++ unpackMantissa b).toNat
      ((unpackExponent b).toNat - 1075) pos) b := by
  have mantissa : (unpackMantissa b).toNat < 2 ^ 52 := (unpackMantissa b).isLt
  have exponent : (unpackExponent b).toNat < 2 ^ 11 := (unpackExponent b).isLt
  have least : 0 < (unpackExponent b).toNat := by
    simpa [BitVec.toNat_pos, BitVec.pos_iff_ne_zero]
  have ne : (unpackExponent b).toNat ≠ 2047 := fun all =>
    ones (BitVec.toNat_inj.mp (by simpa using all))
  have leading : (1#1 ++ unpackMantissa b).toNat = 2 ^ 52 + (unpackMantissa b).toNat :=
    toNat_leading _
  have rest : BitVec.ofNat _ (1#1 ++ unpackMantissa b).toNat = unpackMantissa b := by
    refine BitVec.toNat_inj.mp ?_
    rw [BitVec.toNat_ofNat, leading]
    change (2 ^ 52 + _) % 2 ^ 52 = _
    omega
  have stands := Stands.normal (.ofBitVec (unpackSign b)) _ (unpackExponent b).toNat pos
    (by omega) (by omega) least (by omega)
  rw [rest, BitVec.ofNat_toNat, BitVec.setWidth_eq, packComponents_parts] at stands
  exact stands

/-- What is read of a valid word stands in it. -/
theorem stands_unpack (valid : Format.binary64.Valid b) :
    Stands (UnpackedFloat.unpack .binary64 b) b := by
  have parts := packComponents_parts b
  have bias : (Format.binary64.exponentBias : Int)
      + (Format.binary64.mantissaBitsWithoutImplicit : Int) = 1075 := rfl
  unfold UnpackedFloat.unpack
  rw [bias]
  by_cases ones : unpackExponent b = -1#_
  · rw [if_pos ones]
    by_cases none : unpackMantissa b = 0#_
    · rw [if_pos none]
      rw [ones, none] at parts
      have stands := Stands.infinity (.ofBitVec (unpackSign b))
      rw [parts] at stands
      exact stands
    · rw [if_neg none]
      have canonical := valid.eq_packedNaN ones none
      rw [canonical]
      exact .notANumber
  · rw [if_neg ones]
    by_cases zeros : unpackExponent b = 0#_
    · rw [if_pos zeros]
      rw [zeros] at parts
      by_cases none : unpackMantissa b = 0#_
      · rw [dif_pos none]
        rw [none] at parts
        have stands := Stands.zero (.ofBitVec (unpackSign b))
        rw [parts] at stands
        exact stands
      · rw [dif_neg none]
        have exponent : ((unpackExponent b).toNat : Int) - 1075 + 1 = -1074 := by
          rw [zeros]
          rfl
        have stands := Stands.subnormal (.ofBitVec (unpackSign b)) (unpackMantissa b).toNat
          (by simpa [BitVec.toNat_pos, BitVec.pos_iff_ne_zero]) (unpackMantissa b).isLt
        rw [BitVec.ofNat_toNat, BitVec.setWidth_eq, parts] at stands
        simp only [exponent]
        exact stands
    · rw [if_neg zeros]
      exact stands_normal ones zeros _

/-- A float that stands in a word is written as that word. -/
theorem Stands.pack_eq (stands : Stands u b) : UnpackedFloat.pack .binary64 u = b := by
  cases stands with
  | infinity sign => rfl
  | notANumber => rfl
  | zero sign => rfl
  | subnormal sign m pos below =>
    have short : m.log2 < 52 := (Nat.log2_lt (Nat.ne_of_gt pos)).mpr below
    unfold UnpackedFloat.pack
    dsimp only
    rw [if_neg (by decide), if_neg (by change ¬m.log2 + 1 = 53; omega)]
  | normal sign m e pos leading below least greatest =>
    have long : m.log2 + 1 = Format.binary64.mantissaBits :=
      congrArg (· + 1) ((Nat.log2_eq_iff (Nat.ne_of_gt pos)).mpr ⟨leading, below⟩)
    have biased : ((e : Int) - 1075 + Format.binary64.exponentBias
        + Format.binary64.mantissaBitsWithoutImplicit).toNat = e := by
      change ((e : Int) - 1075 + 1023 + 52).toNat = e
      omega
    unfold UnpackedFloat.pack
    dsimp only
    rw [biased, if_neg (by change ¬2048 ≤ e + 1; omega), if_pos long]

/-- What is read of a float stands in its word. -/
theorem stands_toModel (x : Float) : Stands x.toModel.unpack x.toModel.toBits.toBitVec :=
  stands_unpack x.toModel.valid

/-- A float is written as it has been read. -/
theorem pack_unpack (x : Float) : Float.Model.pack x.toModel.unpack = x.toModel := by
  have same := (stands_toModel x).pack_eq
  obtain ⟨⟨bits, valid⟩⟩ := x
  simp only [Float.Model.pack, same]

/-- Floats are the same if the same is read of them. -/
theorem ext_unpack {x y : Float} (same : x.toModel.unpack = y.toModel.unpack) : x = y := by
  have models : x.toModel = y.toModel := by
    rw [← pack_unpack x, ← pack_unpack y, same]
  cases x
  cases y
  exact congrArg Float.ofModel models

/-! ## Equal floats -/

/-- What is equal to anything but a zero is the same. -/
theorem unpacked_eq_of_compare {v : UnpackedFloat} (equal : u.compare v = some .eq)
    (nonzero : v.compare (.zero .positive) ≠ some .eq) : u = v := by
  have both {d e : Int} {m n : Nat} (same : (compare d e).then (compare m n) = .eq) :
      d = e ∧ m = n := by
    obtain ⟨exponents, mantissas⟩ := Ordering.then_eq_eq.mp same
    exact ⟨Std.LawfulEqOrd.eq_of_compare exponents, Std.LawfulEqOrd.eq_of_compare mantissas⟩
  cases u with
  | notANumber => cases equal
  | infinity sign =>
    cases v with
    | infinity other => cases sign <;> cases other <;> first | rfl | cases equal
    | _ => cases sign <;> cases equal
  | zero sign =>
    cases v with
    | zero other => exact absurd rfl nonzero
    | infinity other | finite other => cases other <;> cases equal
    | notANumber => cases equal
  | finite sign m e pos =>
    cases v with
    | finite other n d pos' =>
      cases sign <;> cases other
      · obtain ⟨rfl, rfl⟩ := both (Ordering.swap_eq_eq.mp (Option.some.inj equal))
        rfl
      · cases equal
      · cases equal
      · obtain ⟨rfl, rfl⟩ := both (Option.some.inj equal)
        rfl
    | infinity other => cases other <;> cases equal
    | zero other => cases sign <;> cases equal
    | notANumber => cases equal

/-! ## One as a factor -/

/-- Shifting a mantissa back loses nothing. -/
theorem shiftRight_exact (m n : Nat) :
    (⟨m * 2 ^ n, false, false⟩ : ExtendedMantissa) >>> n = ⟨m, false, false⟩ := by
  induction n generalizing m with
  | zero => simp [HShiftRight.hShiftRight, Nat.repeat]
  | succ n ih =>
    have once : m * 2 ^ (n + 1) = 2 * m * 2 ^ n := by rw [Nat.pow_succ]; ac_rfl
    change ((⟨m * 2 ^ (n + 1), false, false⟩ : ExtendedMantissa) >>> n).shiftRightOne = _
    rw [once, ih]
    simp [ExtendedMantissa.shiftRightOne]

/-- The number of bits of a mantissa that is shifted. -/
theorem log2_mul_two_pow {m : Nat} (pos : 0 < m) (n : Nat) : (m * 2 ^ n).log2 = m.log2 + n := by
  induction n with
  | zero => simp
  | succ n ih =>
    have ne : m * 2 ^ n ≠ 0 := Nat.ne_of_gt (Nat.mul_pos pos (Nat.two_pow_pos n))
    rw [Nat.pow_succ, ← Nat.mul_assoc, Nat.mul_comm _ 2, Nat.log2_two_mul ne, ih, Nat.add_assoc]

/-- A mantissa with the exponent of the format is shifted back to it. -/
theorem shiftToTargetExponent_exact {m : Nat} {e : Int} (pos : 0 < m)
    (canonical : Format.binary64.targetExponent (totalExponent m e) = e) (n : Nat) :
    shiftToTargetExponent .binary64 (m * 2 ^ n) (e - n) .exact = (⟨m, false, false⟩, e) := by
  have total : totalExponent (m * 2 ^ n) (e - n) = totalExponent m e := by
    rw [totalExponent, totalExponent, log2_mul_two_pow pos]
    omega
  have amount : (e - (e - n)).toNat = n := by omega
  have back : e - n + n = e := by omega
  unfold shiftToTargetExponent
  dsimp only
  rw [total, canonical, shiftToExponent, amount, back, ExtendedMantissa.ofMantissaAndAccuracy,
    shiftRight_exact]

/-- So rounding gives the mantissa and the exponent from before. -/
theorem roundWithAccuracy_exact {m : Nat} {e : Int} (sign : UnpackedFloat.Sign) (pos : 0 < m)
    (canonical : Format.binary64.targetExponent (totalExponent m e) = e) (n : Nat) :
    roundWithAccuracy .binary64 sign (m * 2 ^ n) (e - n) .exact = .finite sign m e pos := by
  have again := shiftToTargetExponent_exact pos canonical 0
  rw [Nat.pow_zero, Nat.mul_one, Int.natCast_zero, Int.sub_zero] at again
  unfold roundWithAccuracy
  rw [shiftToTargetExponent_exact pos canonical n]
  dsimp only [ExtendedMantissa.roundedMantissa, ExtendedMantissa.accuracy,
    Accuracy.roundToNearestEven]
  rw [again]
  exact dif_neg (Nat.ne_of_gt pos)

/-- A finite float that stands in a word has the exponent of the format. -/
theorem Stands.targetExponent_eq {sign : UnpackedFloat.Sign} {m : Nat} {e : Int} {pos : 0 < m}
    (stands : Stands (.finite sign m e pos) b) :
    Format.binary64.targetExponent (totalExponent m e) = e := by
  have width : (Format.binary64.mantissaBits : Int) = 53 := rfl
  have least : Format.binary64.minExponent = -1074 := rfl
  rw [Format.targetExponent, totalExponent, width, least]
  cases stands with
  | subnormal sign m pos below =>
    have short : m.log2 < 52 := (Nat.log2_lt (Nat.ne_of_gt pos)).mpr below
    omega
  | normal sign m e pos leading below least greatest =>
    have long : m.log2 = 52 := (Nat.log2_eq_iff (Nat.ne_of_gt pos)).mpr ⟨leading, below⟩
    omega

/-- The product of what stands in a word with one is what stands there. -/
theorem Stands.mul_one (stands : Stands u b) (one : 0 < 2 ^ 52) :
    UnpackedFloat.mul .binary64 u (.finite .positive (2 ^ 52) (-52) one) = u := by
  have positive : ∀ sign : UnpackedFloat.Sign, sign * .positive = sign := by
    intro sign
    cases sign <;> rfl
  cases u with
  | notANumber => rfl
  | infinity sign => exact congrArg _ (positive sign)
  | zero sign => exact congrArg _ (positive sign)
  | finite sign m e pos =>
    rw [UnpackedFloat.mul, positive]
    exact roundWithAccuracy_exact sign pos stands.targetExponent_eq 52

end Binary64

/-- The product of a float with one is the float. -/
theorem mulFloat_one (x : Float) : x * 1.0 = x := by
  have one : (1.0 : Float).toModel.unpack = .finite .positive (2 ^ 52) (-52) (by decide) := rfl
  have product := (Binary64.stands_toModel x).mul_one (by decide)
  rw [← one] at product
  refine congrArg Float.ofModel (?_ : Float.Model.pack _ = x.toModel)
  rw [product, Binary64.pack_unpack]

/-- Equal floats are the same unless they are zeros. -/
theorem eq_of_beqFloat {x y : Float} (equal : (x == y) = true) (nonzero : (y == 0.0) = false) :
    x = y := by
  have compared : ∀ x y : Float,
      (x == y) = (x.toModel.unpack.compare y.toModel.unpack == some .eq) := fun _ _ => rfl
  have zero : (0.0 : Float).toModel.unpack = .zero .positive := rfl
  rw [compared, beq_iff_eq] at equal
  rw [compared, beq_eq_false_iff_ne, zero] at nonzero
  exact Binary64.ext_unpack (Binary64.unpacked_eq_of_compare equal nonzero)

end OverloadMachine
