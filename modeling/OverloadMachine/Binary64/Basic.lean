/-!
# Words of the binary64 format

A finite number of the format is a whole multiple of the smallest positive one,
which is `2 ^ (-1074)`; that multiple is the number's magnitude in units. All
of this module is natural number arithmetic on 64-bit words and on units:
decoding a word, and rounding an exact ratio to the nearest word, ties going to
the even one. A word with the sign bit off is called unsigned.
-/

namespace OverloadMachine.Binary64

/-- Number of units in one. -/
def unitsPerOne : Nat := 1 <<< 1074

/-- The sign bit. -/
def signBit : Nat := 0x8000000000000000

/-- Number of words with one exponent. -/
def binade : Nat := 0x10000000000000

/-- The unsigned word of infinity; the greater unsigned words are no numbers. -/
def infinityWord : Nat := 0x7ff * binade

/-- The unsigned word that stands for all that are no numbers. -/
def nanWord : Nat := infinityWord + binade / 2

/-- Biased exponent of an unsigned word. -/
def biasedExponent (word : Nat) : Nat := word / binade

/-- Magnitude of an unsigned word in units. The word of infinity gets the value
that the format would have one step above its greatest number. -/
def units (word : Nat) : Nat :=
  if biasedExponent word = 0 then word
  else (binade + word % binade) <<< (biasedExponent word - 1)

/-- Quotient rounded to the nearest whole number, halves to the even one. -/
def roundHalfEven (num den : Nat) : Nat :=
  let quotient := num / den
  let twice := 2 * (num % den)
  if den < twice ∨ (twice = den ∧ quotient % 2 = 1) then quotient + 1 else quotient

/-- Unsigned word nearest to `num / den` units. A carry out of the significand
raises the exponent field by itself, and what is too great becomes infinity. -/
def nearest (num den : Nat) : Nat :=
  let shift := Nat.log2 (num / den) - 52
  min (shift * binade + roundHalfEven num (den <<< shift)) infinityWord

/-- Rounding is off by at most half of the divisor. -/
theorem roundHalfEven_near (num : Nat) {den : Nat} (pos : 0 < den) :
    2 * num ≤ 2 * (roundHalfEven num den * den) + den
      ∧ 2 * (roundHalfEven num den * den) ≤ 2 * num + den := by
  have split := Nat.div_add_mod num den
  have small := Nat.mod_lt num pos
  rw [Nat.mul_comm] at split
  unfold roundHalfEven
  dsimp only
  split
  · rw [Nat.add_mul]; omega
  · omega

/-- A whole multiple is rounded to itself. -/
theorem roundHalfEven_mul (q : Nat) {den : Nat} (pos : 0 < den) :
    roundHalfEven (q * den) den = q := by
  rw [roundHalfEven, Nat.mul_div_cancel q pos, Nat.mul_mod_left, if_neg (by omega)]

end OverloadMachine.Binary64

namespace OverloadMachine

/-- Word of a float, without its sign. -/
def floatWord (x : Float) : Nat := x.toBits.toNat % Binary64.signBit

/-- Whether the sign bit of a float is set. -/
def floatIsNegative (x : Float) : Bool := Binary64.signBit ≤ x.toBits.toNat

/-- Float with a given sign and unsigned word. -/
def floatOfWord (negative : Bool) (word : Nat) : Float :=
  Float.ofBits (UInt64.ofNat (if negative then Binary64.signBit + word else word))

end OverloadMachine
