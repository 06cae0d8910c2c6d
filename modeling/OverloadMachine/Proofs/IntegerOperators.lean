import Mathlib.Data.Int.Bitwise
import OverloadMachine.Operator.Arithmetic

/-!
# The operators on integers

On two integers every operator is exact. Sums, differences, products, whole quotients and
steps are the integer itself as long as there is a 64-bit one, and a float otherwise.
Remainders are those of the truncated division, also for the least integer and minus one. A
left shift is a product with a power of two that loses what does not fit, a right shift the
quotient rounded down, for any number of places, and the bitwise operators act on the bits of
the two's complement. Division by zero and shifts by a negative number of places are the only
failures.
-/

namespace OverloadMachine

/-! ## Integers that fit -/

/-- An integer fits exactly as the 64-bit integer of its value. -/
theorem fitInt64_eq_some_iff {n : Int} {i : Int64} : fitInt64 n = some i ↔ i.toInt = n := by
  rw [fitInt64]
  constructor
  · intro fitted
    split at fitted
    · next fits =>
      cases fitted
      exact Int64.toInt_ofInt_of_le fits.1 fits.2
    · cases fitted
  · rintro rfl
    rw [if_pos ⟨i.le_toInt, i.toInt_lt⟩, Int64.ofInt_toInt]

/-- A result that is an integer if the exact one is there, and the float otherwise. -/
structure Promotes (exact : Int → Prop) (inexact : Float) (result : Except Fault Value) : Prop where
  integer (r : Int64) : result = .ok (.int r) ↔ exact r.toInt
  float : (∀ r : Int64, ¬exact r.toInt) → result = .ok (.float inexact)

/-- A result that is an integer of which something holds. -/
def IsInteger (exact : Int → Prop) (result : Except Fault Value) : Prop :=
  ∃ r : Int64, result = .ok (.int r) ∧ exact r.toInt

/-- A result promotes if it is read off the fitting of the only integer that is exact. -/
theorem Promotes.of_fitInt64 {exact : Int → Prop} {inexact : Float}
    {result : Except Fault Value} (n : Int) (only : ∀ r, exact r ↔ r = n)
    (fits : ∀ r, fitInt64 n = some r → result = .ok (.int r))
    (exceeds : fitInt64 n = none → result = .ok (.float inexact)) :
    Promotes exact inexact result := by
  cases fitted : fitInt64 n with
  | some i =>
    have value := fitInt64_eq_some_iff.mp fitted
    constructor
    · intro r
      rw [fits i fitted, only, ← value, Int64.toInt_inj]
      constructor
      · intro same
        cases same
        rfl
      · rintro rfl
        rfl
    · intro none_exact
      exact absurd ((only _).mpr value) (none_exact i)
  | none =>
    constructor
    · intro r
      rw [exceeds fitted, only, ← fitInt64_eq_some_iff, fitted]
      constructor <;> intro impossible <;> cases impossible
    · intro _
      exact exceeds fitted

/-- A float is what is promoted to where no integer is exact. -/
theorem Promotes.of_inexact {exact : Int → Prop} {inexact : Float}
    (inexact_only : ∀ r, ¬exact r) : Promotes exact inexact (.ok (.float inexact)) where
  integer _ := ⟨nofun, fun holds => absurd holds (inexact_only _)⟩
  float _ := rfl

/-- An operation on two integers that is exact where it fits. -/
theorem promotes_combine (exact : Int → Int → Int) (inexact : Float → Float → Float)
    (x y : Int64) :
    Promotes (· = exact x.toInt y.toInt) (inexact x.toFloat y.toFloat)
      (.ok (Number.combine exact inexact (.int x) (.int y)).toValue) := by
  refine .of_fitInt64 (exact x.toInt y.toInt) (fun _ => Iff.rfl) ?_ ?_
  · intro r fitted
    simp only [Number.combine, fitted, Number.toValue]
  · intro exceeds
    simp only [Number.combine, exceeds, Number.toValue]

/-! ## Quotients and remainders -/

theorem toInt_ne_zero {y : Int64} (ne : y ≠ 0) : y.toInt ≠ 0 :=
  fun zero => ne (Int64.toInt_inj.mp zero)

/-- The quotient of two integers is one exactly if nothing remains. -/
theorem promotes_div {x y : Int64} (ne : y ≠ 0) :
    Promotes (· * y.toInt = x.toInt) (x.toFloat / y.toFloat)
      (.ok ((Number.int x).div (.int y)).toValue) := by
  by_cases whole : x.toInt.tmod y.toInt = 0
  · refine .of_fitInt64 (x.toInt.tdiv y.toInt) (fun r => ?_) ?_ ?_
    · constructor
      · intro product
        rw [← product, Int.mul_tdiv_cancel _ (toInt_ne_zero ne)]
      · rintro rfl
        exact Int.tdiv_mul_cancel_of_tmod_eq_zero whole
    · intro r fitted
      simp only [Number.div, whole, if_true, fitted, Number.toValue]
    · intro exceeds
      simp only [Number.div, whole, if_true, exceeds, Number.toValue]
  · have float : (Number.int x).div (.int y) = .float (x.toFloat / y.toFloat) := by
      rw [Number.div, if_neg whole]
    rw [float]
    refine .of_inexact fun r product => whole ?_
    rw [← product, Int.mul_tmod_left]

/-- The remainder of a division that drops the fraction of its quotient. -/
structure TruncatedRemainder (x y r : Int) : Prop where
  divides : y ∣ x - r
  smaller : r.natAbs < y.natAbs
  sign : r = 0 ∨ r.sign = x.sign

theorem truncatedRemainder_tmod (x : Int) {y : Int} (ne : y ≠ 0) :
    TruncatedRemainder x y (x.tmod y) := by
  constructor
  · exact Int.dvd_self_sub_tmod
  · rw [Int.natAbs_tmod]
    exact Nat.mod_lt _ (Int.natAbs_pos.mpr ne)
  · rw [← Int.sign_eq_zero_iff_zero, Int.sign_tmod]
    split
    · exact .inl rfl
    · exact .inr rfl

namespace Operator

variable {x y : Int64}

/-- The remainder by a number other than zero always fits. -/
theorem remainder_truncates (ne : y ≠ 0) :
    TruncatedRemainder x.toInt y.toInt (remainder x y).toInt := by
  have truncated := truncatedRemainder_tmod x.toInt (toInt_ne_zero ne)
  have smaller := truncated.smaller
  have least := y.le_toInt
  have greatest := y.toInt_lt
  have fits : (remainder x y).toInt = x.toInt.tmod y.toInt :=
    Int64.toInt_ofInt_of_le (by omega) (by omega)
  rw [fits]
  exact truncated

/-! ## Shifts -/

/-- Below the width of a word, a number of places is shifted by as it is. -/
theorem toNat_smod_places {places : Nat} (short : places < 64) :
    ((Int64.ofNat places).toBitVec.smod 64).toNat = places := by
  have count : (Int64.ofNat places).toBitVec.smod 64 = BitVec.ofNat 64 places := by
    apply BitVec.eq_of_toInt_eq
    rw [BitVec.toInt_smod, Int64.toInt_toBitVec, Int64.toInt_ofNat_of_lt (by omega),
      Int.fmod_eq_emod_of_nonneg _ (by decide), BitVec.toInt_ofNat',
      Int.bmod_eq_of_le (by omega) (by omega)]
    exact Int.emod_eq_of_lt (by omega) (Int.ofNat_lt.mpr short)
  rw [count, BitVec.toNat_ofNat, Nat.mod_eq_of_lt (by omega)]

/-- A left shift multiplies by a power of two, within the width of a word or beyond it. -/
theorem toInt_shiftLeft (x : Int64) (places : Nat) :
    (shiftLeft x places).toInt = (x.toInt * 2 ^ places).bmod (2 ^ 64) := by
  have bits : (shiftLeft x places).toBitVec = x.toBitVec <<< places := by
    rw [shiftLeft]
    split
    next long =>
      rw [BitVec.shiftLeft_eq_zero long]
      rfl
    next short =>
      rw [Int64.toBitVec_shiftLeft, BitVec.shiftLeft_eq',
        toNat_smod_places (Nat.lt_of_not_le short)]
  rw [← Int64.toInt_toBitVec, bits, BitVec.toInt_shiftLeft, Nat.shiftLeft_eq,
    ← Int64.toInt_toBitVec x, BitVec.toInt_eq_toNat_bmod, Int.bmod_mul_bmod, Int.natCast_mul,
    Int.natCast_pow]
  rfl

/-- A right shift divides by a power of two and rounds down. Beyond the width of a word only
the sign is left. -/
theorem toInt_shiftRight (x : Int64) (places : Nat) :
    (shiftRight x places).toInt = x.toInt.fdiv (2 ^ places) := by
  rw [shiftRight, Int.fdiv_eq_ediv_of_nonneg _ (Int.pow_nonneg (by decide))]
  split
  next long =>
    have power : (2 : Int) ^ 64 ≤ 2 ^ places :=
      Int.ofNat_le.mpr (Nat.pow_le_pow_right (by decide) long)
    have least := x.le_toInt
    have greatest := x.toInt_lt
    split
    next negative =>
      rw [Int64.lt_iff_toInt_lt, Int64.toInt_zero] at negative
      rw [Int.ediv_eq_neg_one_of_neg_of_le negative (by omega)]
      rfl
    next nonnegative =>
      rw [Int64.lt_iff_toInt_lt, Int64.toInt_zero] at nonnegative
      rw [Int.ediv_eq_zero_of_lt (by omega) (by omega)]
      rfl
  next short =>
    rw [← Int64.toInt_toBitVec, Int64.toBitVec_shiftRight, BitVec.sshiftRight_eq',
      toNat_smod_places (Nat.lt_of_not_le short), BitVec.toInt_sshiftRight,
      Int.shiftRight_eq_div_pow, Int64.toInt_toBitVec, Int.natCast_pow]
    rfl

/-! ## Bits -/

/-- The bits of an integer are those of its word, and from there on its sign. -/
theorem testBit_toInt (x : Int64) (i : Nat) :
    x.toInt.testBit i = x.toBitVec.getLsbD (min i 63) := by
  have last : x.toBitVec.msb = x.toBitVec.getLsbD 63 := BitVec.msb_eq_getLsbD_last _
  rw [← Int64.toInt_toBitVec, BitVec.toInt_eq_msb_cond]
  split
  next negative =>
    -- With all its bits turned, a negative integer is a natural number.
    have turned : (x.toBitVec.toNat : Int) - (2 ^ 64 : Nat)
        = Int.negSucc (~~~x.toBitVec).toNat := by
      have bound := x.toBitVec.isLt
      rw [BitVec.toNat_not]
      omega
    rw [turned, Int.testBit, BitVec.testBit_toNat, BitVec.getLsbD_not]
    obtain inside | beyond := Nat.lt_or_ge i 64
    · rw [Nat.min_eq_left (by omega), decide_eq_true inside, Bool.true_and, Bool.not_not]
    · rw [Nat.min_eq_right (by omega), ← last, negative, decide_eq_false (by omega)]
      rfl
  next nonnegative =>
    change x.toBitVec.toNat.testBit i = _
    rw [BitVec.testBit_toNat]
    obtain inside | beyond := Nat.lt_or_ge i 64
    · rw [Nat.min_eq_left (by omega)]
    · rw [Nat.min_eq_right (by omega), BitVec.getLsbD_of_ge _ _ beyond, ← last,
        Bool.eq_false_of_not_eq_true nonnegative]

/-- An operation on the bits of two words is that operation on the bits of two integers. -/
theorem testBit_toInt_of_bits {r : Int64} {f : Bool → Bool → Bool}
    (bits : ∀ i, i < 64 → r.toBitVec.getLsbD i = f (x.toBitVec.getLsbD i) (y.toBitVec.getLsbD i))
    (i : Nat) : r.toInt.testBit i = f (x.toInt.testBit i) (y.toInt.testBit i) := by
  rw [testBit_toInt, testBit_toInt, testBit_toInt]
  exact bits _ (by omega)

/-! ## All operators -/

/-- What the operators make of two integers. -/
structure IntegersAreExact (h : Heap) (x y : Int64) : Prop where
  add : Promotes (· = x.toInt + y.toInt) (x.toFloat + y.toFloat)
    (arithmetic h .add (.int x) (.int y))
  sub : Promotes (· = x.toInt - y.toInt) (x.toFloat - y.toFloat)
    (arithmetic h .sub (.int x) (.int y))
  mul : Promotes (· = x.toInt * y.toInt) (x.toFloat * y.toFloat)
    (arithmetic h .mul (.int x) (.int y))
  divFails : arithmetic h .div (.int x) (.int y) = .error .divisionByZero ↔ y = 0
  div : y ≠ 0 → Promotes (· * y.toInt = x.toInt) (x.toFloat / y.toFloat)
    (arithmetic h .div (.int x) (.int y))
  modFails : arithmetic h .mod (.int x) (.int y) = .error .moduloByZero ↔ y = 0
  mod : y ≠ 0 → IsInteger (TruncatedRemainder x.toInt y.toInt) (arithmetic h .mod (.int x) (.int y))
  shlFails : arithmetic h .shl (.int x) (.int y) = .error (.arithmetic .negativeShift) ↔ y < 0
  shl : 0 ≤ y → IsInteger (· = (x.toInt * 2 ^ y.toInt.toNat).bmod (2 ^ 64))
    (arithmetic h .shl (.int x) (.int y))
  shrFails : arithmetic h .shr (.int x) (.int y) = .error (.arithmetic .negativeShift) ↔ y < 0
  shr : 0 ≤ y → IsInteger (· = x.toInt.fdiv (2 ^ y.toInt.toNat))
    (arithmetic h .shr (.int x) (.int y))
  bitAnd : IsInteger (fun r => ∀ i, r.testBit i = (x.toInt.testBit i && y.toInt.testBit i))
    (arithmetic h .bitAnd (.int x) (.int y))
  bitOr : IsInteger (fun r => ∀ i, r.testBit i = (x.toInt.testBit i || y.toInt.testBit i))
    (arithmetic h .bitOr (.int x) (.int y))
  bitXor : IsInteger (fun r => ∀ i, r.testBit i = (x.toInt.testBit i ^^ y.toInt.testBit i))
    (arithmetic h .bitXor (.int x) (.int y))
  bitNot : IsInteger (fun r => ∀ i, r.testBit i = !x.toInt.testBit i) (unary h .bitNot (.int x))
  increment (time : StepTime) :
    Promotes (· = x.toInt + 1) (x.toFloat + (1 : Int64).toFloat) (step time .up (.int x))
  decrement (time : StepTime) :
    Promotes (· = x.toInt - 1) (x.toFloat + (-1 : Int64).toFloat) (step time .down (.int x))

/-- What an operator on numbers makes of two integers. -/
theorem onNumbers_int (op : Opcode) (f : Number → Number → Except Fault Number) :
    onNumbers op f (.int x) (.int y) = (f (.int x) (.int y)).map Number.toValue := by
  change (f (.int x) (.int y) >>= fun r => pure r.toValue) = _
  cases f (.int x) (.int y) <;> rfl

/-- What an operator on integers makes of two of them. -/
theorem onIntegers_int (op : Opcode) (f : Int64 → Int64 → Except Fault Int64) :
    onIntegers op f (.int x) (.int y) = (f x y).map Value.int := by
  change (f x y >>= fun r => pure (Value.int r)) = _
  cases f x y <;> rfl

theorem arithmetic_div (h : Heap) : arithmetic h .div (.int x) (.int y)
    = if y = 0 then .error .divisionByZero else .ok ((Number.int x).div (.int y)).toValue := by
  have zero : (Number.int y).isZero = true ↔ y = 0 := beq_iff_eq
  refine (onNumbers_int _ _).trans ?_
  simp only [zero]
  split <;> rfl

theorem arithmetic_mod (h : Heap) : arithmetic h .mod (.int x) (.int y)
    = if y = 0 then .error .moduloByZero else .ok (.int (remainder x y)) := by
  refine (onIntegers_int _ _).trans ?_
  split <;> rfl

/-- Both shifts fail for a negative number of places only. -/
theorem shift_int (op : Opcode) (f : Int64 → Nat → Int64) :
    onIntegers op (shift f) (.int x) (.int y)
      = if y < 0 then .error (.arithmetic .negativeShift) else .ok (.int (f x y.toInt.toNat)) := by
  rw [onIntegers_int, shift]
  split <;> rfl

theorem arithmetic_shl (h : Heap) : arithmetic h .shl (.int x) (.int y)
    = if y < 0 then .error (.arithmetic .negativeShift)
      else .ok (.int (shiftLeft x y.toInt.toNat)) :=
  shift_int _ _

theorem arithmetic_shr (h : Heap) : arithmetic h .shr (.int x) (.int y)
    = if y < 0 then .error (.arithmetic .negativeShift)
      else .ok (.int (shiftRight x y.toInt.toNat)) :=
  shift_int _ _

/-- A checked operator fails exactly where its check does. -/
theorem checked_eq_error_iff {p : Prop} [Decidable p] {fault : Fault} {v : Value} :
    (if p then Except.error fault else .ok v) = .error fault ↔ p := by
  split
  next fails => exact ⟨fun _ => fails, fun _ => rfl⟩
  next passes => exact ⟨nofun, fun fails => absurd fails passes⟩

/-- Integers are computed with exactly, whatever the two are. -/
theorem integer_operators_are_exact (h : Heap) (x y : Int64) : IntegersAreExact h x y where
  add := promotes_combine (· + ·) (· + ·) x y
  sub := promotes_combine (· - ·) (· - ·) x y
  mul := promotes_combine (· * ·) (· * ·) x y
  divFails := by
    rw [arithmetic_div]
    exact checked_eq_error_iff
  div ne := by
    rw [arithmetic_div, if_neg ne]
    exact promotes_div ne
  modFails := by
    rw [arithmetic_mod]
    exact checked_eq_error_iff
  mod ne := by
    rw [arithmetic_mod, if_neg ne]
    exact ⟨_, rfl, remainder_truncates ne⟩
  shlFails := by
    rw [arithmetic_shl]
    exact checked_eq_error_iff
  shl nonnegative := by
    rw [arithmetic_shl, if_neg (Int64.not_lt.mpr nonnegative)]
    exact ⟨_, rfl, toInt_shiftLeft ..⟩
  shrFails := by
    rw [arithmetic_shr]
    exact checked_eq_error_iff
  shr nonnegative := by
    rw [arithmetic_shr, if_neg (Int64.not_lt.mpr nonnegative)]
    exact ⟨_, rfl, toInt_shiftRight ..⟩
  bitAnd := ⟨x &&& y, rfl, testBit_toInt_of_bits fun _ _ => by
    rw [Int64.toBitVec_and, BitVec.getLsbD_and]⟩
  bitOr := ⟨x ||| y, rfl, testBit_toInt_of_bits fun _ _ => by
    rw [Int64.toBitVec_or, BitVec.getLsbD_or]⟩
  bitXor := ⟨x ^^^ y, rfl, testBit_toInt_of_bits fun _ _ => by
    rw [Int64.toBitVec_xor, BitVec.getLsbD_xor]⟩
  bitNot := ⟨~~~x, rfl, testBit_toInt_of_bits (f := fun b _ => !b) (y := x) fun i inside => by
    rw [Int64.toBitVec_not, BitVec.getLsbD_not, decide_eq_true inside, Bool.true_and]⟩
  increment _ := promotes_combine (· + ·) (· + ·) x 1
  decrement _ := promotes_combine (· + ·) (· + ·) x (-1)

/-- The quotient does not fit, and still nothing remains. -/
example (h : Heap) : arithmetic h .mod (.int .minValue) (.int (-1)) = .ok (.int 0) := rfl

end Operator

end OverloadMachine
