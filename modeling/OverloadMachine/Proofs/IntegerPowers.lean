import Mathlib.Algebra.Group.Int.Even
import OverloadMachine.Proofs.IntegerOperators

/-!
# Powers of integers

A power of two integers is the integer itself as long as there is a 64-bit one, and a float
otherwise. This holds for every base from two on, since its powers are too great long before
the exponent is, and for the smaller bases up to the exponents of 32 bits. Zero, one and minus
one have powers that fit for every exponent; beyond 32 bits they are floats all the same.
-/

namespace OverloadMachine

/-! ## The exact power -/

/-- A base below two has three powers: to zero, to an odd exponent and to an even one. -/
theorem pow_eq_of_small {base : Int} (small : base.natAbs ≤ 1) (exponent : Nat) :
    base ^ exponent = if exponent = 0 then 1 else base ^ (2 - exponent % 2) := by
  obtain rfl | rfl | rfl : base = 0 ∨ base = 1 ∨ base = -1 := by omega
  · split
    next none => rw [none, pow_zero]
    next some => rw [zero_pow some, zero_pow (by omega)]
  · rw [one_pow, one_pow, ite_self]
  · split
    next none => rw [none, pow_zero]
    next some =>
      obtain even | odd := Nat.mod_two_eq_zero_or_one exponent
      · rw [even, Even.neg_one_pow (Nat.even_iff.mpr even)]
        rfl
      · rw [odd, Odd.neg_one_pow (Nat.odd_iff.mpr odd)]
        rfl

/-- The powers of a base below two are below two, so they fit. -/
theorem natAbs_pow_of_small {base : Int} (small : base.natAbs ≤ 1) (exponent : Nat) :
    (base ^ exponent).natAbs ≤ 1 := by
  rw [Int.natAbs_pow]
  exact (Nat.pow_le_pow_left small exponent).trans_eq (Nat.one_pow exponent)

/-- From base two on, a power to an exponent of 64 or more does not fit. -/
theorem fitInt64_pow_eq_none {base : Int} (great : 2 ≤ base.natAbs) {exponent : Nat}
    (long : 64 ≤ exponent) : fitInt64 (base ^ exponent) = none := by
  have size : 2 ^ 64 ≤ (base ^ exponent).natAbs := by
    rw [Int.natAbs_pow]
    exact (Nat.pow_le_pow_right (by decide) long).trans (Nat.pow_le_pow_left great exponent)
  rw [fitInt64, if_neg (by omega)]

/-- The exact power is the power, if it fits. -/
theorem exactPower_eq (base : Int) (exponent : Nat) :
    Number.exactPower base exponent = fitInt64 (base ^ exponent) := by
  rw [Number.exactPower]
  split
  next small =>
    rw [pow_eq_of_small small]
    rfl
  next great =>
    split
    next long => exact (fitInt64_pow_eq_none (by omega) long).symm
    next short => rfl

namespace Number

variable {x y : Int64}

/-- Up to the exponents of 32 bits a power is exact if it fits. -/
theorem pow_of_short (nonnegative : 0 ≤ y.toInt) (short : y.toInt < 2 ^ 32) :
    (int x).pow (int y)
      = (fitInt64 (x.toInt ^ y.toInt.toNat)).elim (float (x.toFloat.pow y.toFloat)) int := by
  rw [pow, if_pos ⟨nonnegative, short⟩, exactPower_eq]
  cases fitInt64 (x.toInt ^ y.toInt.toNat) <;> rfl

/-- Beyond the exponents of 32 bits a power is a float. -/
theorem pow_of_long (long : 2 ^ 32 ≤ y.toInt) :
    (int x).pow (int y) = float (x.toFloat.pow y.toFloat) := by
  rw [pow, if_neg fun short => absurd short.2 (Int.not_lt.mpr long)]

end Number

/-! ## Powers that are promoted -/

section

variable {x y : Int64}

/-- A power to an exponent of 32 bits is exact if it fits. -/
theorem promotes_pow_of_short (nonnegative : 0 ≤ y.toInt) (short : y.toInt < 2 ^ 32) :
    Promotes (· = x.toInt ^ y.toInt.toNat) (x.toFloat.pow y.toFloat)
      (.ok ((Number.int x).pow (.int y)).toValue) := by
  have power := Number.pow_of_short (x := x) nonnegative short
  refine .of_fitInt64 (x.toInt ^ y.toInt.toNat) (fun _ => Iff.rfl) ?_ ?_
  · intro r fitted
    rw [power, fitted]
    rfl
  · intro exceeds
    rw [power, exceeds]
    rfl

/-- A power of a base from two on to a longer exponent does not fit, and is a float. -/
theorem promotes_pow_of_great (great : 2 ≤ x.toInt.natAbs) (long : 2 ^ 32 ≤ y.toInt) :
    Promotes (· = x.toInt ^ y.toInt.toNat) (x.toFloat.pow y.toFloat)
      (.ok ((Number.int x).pow (.int y)).toValue) := by
  have exceeds : fitInt64 (x.toInt ^ y.toInt.toNat) = none :=
    fitInt64_pow_eq_none great (by omega)
  rw [Number.pow_of_long long]
  refine .of_fitInt64 (x.toInt ^ y.toInt.toNat) (fun _ => Iff.rfl) (fun r fitted => ?_)
    fun _ => rfl
  rw [exceeds] at fitted
  cases fitted

/-- A power of a smaller base to a longer exponent fits, and is a float all the same. -/
theorem not_promotes_pow (small : x.toInt.natAbs ≤ 1) (long : 2 ^ 32 ≤ y.toInt) :
    ¬Promotes (· = x.toInt ^ y.toInt.toNat) (x.toFloat.pow y.toFloat)
      (.ok ((Number.int x).pow (.int y)).toValue) := by
  rw [Number.pow_of_long long]
  intro promotes
  have size := natAbs_pow_of_small small y.toInt.toNat
  have fits := Int64.toInt_ofInt_of_le (n := x.toInt ^ y.toInt.toNat) (by omega) (by omega)
  cases (promotes.integer _).mpr fits

end

namespace Operator

variable {x y : Int64}

theorem arithmetic_pow (h : Heap) : arithmetic h .pow (.int x) (.int y)
    = .ok ((Number.int x).pow (.int y)).toValue :=
  onNumbers_int _ _

/-- A power of integers is the exact one if that fits, and a float only if not, unless the base
is below two and the exponent has more than 32 bits. -/
theorem integer_power_is_exact_iff (h : Heap) (nonnegative : 0 ≤ y) :
    Promotes (· = x.toInt ^ y.toInt.toNat) (x.toFloat.pow y.toFloat)
        (arithmetic h .pow (.int x) (.int y))
      ↔ 2 ≤ x.toInt.natAbs ∨ y.toInt < 2 ^ 32 := by
  rw [arithmetic_pow]
  constructor
  · intro promotes
    by_contra neither
    exact not_promotes_pow (by omega) (by omega) promotes
  · intro either
    obtain short | long := Int.lt_or_le y.toInt (2 ^ 32)
    · exact promotes_pow_of_short (Int64.le_iff_toInt_le.mp nonnegative) short
    · exact promotes_pow_of_great (by omega) long

/-- The power is the least 64-bit integer. -/
theorem integer_power_is_exact_least : (0 : Int64) ≤ 63 ∧ 2 ≤ (-2 : Int64).toInt.natAbs
    ∧ arithmetic .empty .pow (.int (-2)) (.int 63) = .ok (.int .minValue) :=
  ⟨by decide, by decide,
    (((integer_power_is_exact_iff .empty (by decide)).mpr (.inl (by decide))).integer _).mpr rfl⟩

/-- One to the least exponent of more than 32 bits is one, and comes out as a float. -/
theorem long_power_of_one_is_a_float :
    (0 : Int64) ≤ 0x100000000
      ∧ (1 : Int64).toInt = (1 : Int64).toInt ^ (0x100000000 : Int64).toInt.toNat
      ∧ arithmetic .empty .pow (.int 1) (.int 0x100000000)
        = .ok (.float ((1 : Int64).toFloat.pow (0x100000000 : Int64).toFloat))
      ∧ arithmetic .empty .pow (.int 1) (.int 0x100000000) ≠ .ok (.int 1) := by
  have float : arithmetic .empty .pow (.int 1) (.int 0x100000000)
      = .ok (.float ((1 : Int64).toFloat.pow (0x100000000 : Int64).toFloat)) := by
    rw [arithmetic_pow, Number.pow_of_long (by decide)]
    rfl
  refine ⟨by decide, (one_pow _).symm, float, ?_⟩
  rw [float]
  exact nofun

end Operator

end OverloadMachine
