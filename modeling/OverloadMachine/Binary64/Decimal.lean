import OverloadMachine.Binary64.Basic

/-!
# Decimal numbers and binary64

Reading a decimal number gives the word nearest to it. Writing a word gives the
decimal number with the fewest digits that is read back as that word, and of
those the one nearest to the word's value; of two that are equally near, the
greater.
-/

namespace OverloadMachine.Binary64

/-- The decimal number `digits * 10 ^ exponent`. -/
structure Decimal where
  digits : Nat
  exponent : Int
  deriving DecidableEq, Repr

/-- Decimal digits of a number; zero has one. -/
def decimalLength (n : Nat) : Nat := (Nat.toDigits 10 n).length

/-- Unsigned word nearest to a decimal number. The bounds on the position of
the leading digit keep the powers of ten small: past them the answer is
infinity or zero. -/
def ofDecimal (d : Decimal) : Nat :=
  let leading := (decimalLength d.digits : Int) + d.exponent
  if d.digits = 0 ∨ leading < -330 then 0
  else if 320 < leading then infinityWord
  else match d.exponent with
    | .ofNat e => nearest (d.digits * Nat.pow 10 e * unitsPerOne) 1
    | .negSucc e => nearest (d.digits * unitsPerOne) (Nat.pow 10 (e + 1))

namespace Decimal

/-- Strip one trailing zero after another, at most `fuel` of them. -/
def stripZeros : (fuel : Nat) → Decimal → Decimal
  | 0, d => d
  | fuel + 1, d =>
    if d.digits ≠ 0 ∧ d.digits % 10 = 0 then stripZeros fuel ⟨d.digits / 10, d.exponent + 1⟩
    else d

end Decimal

/-- Position of the leading decimal digit of `n` units: the greatest `e` with
`10 ^ e` units at most `n`, for positive `n`. -/
def leadingPosition (n : Nat) : Int :=
  let whole := n / unitsPerOne
  if whole = 0 then
    let places := (List.range 400).find? fun j => unitsPerOne ≤ n * Nat.pow 10 j
    Int.negOfNat (places.getD 400)
  else (decimalLength whole : Int) - 1

/-- Of the two multiples of `10 ^ exponent` around an unsigned word's value, the
one that is read back as the word: the nearer if both are. The reals read as
the word lie between the midpoints to its neighbours, and a midpoint itself
belongs to the even word. -/
def onGrid? (word : Nat) (exponent : Int) : Option Decimal :=
  let scale := match exponent with
    | .ofNat _ => 1
    | .negSucc e => Nat.pow 10 (e + 1)
  let mesh := match exponent with
    | .ofNat e => Nat.pow 10 e * (2 * unitsPerOne)
    | .negSucc _ => 2 * unitsPerOne
  let value := 2 * units word * scale
  let low := (units word + units (word - 1)) * scale
  let high := (units word + units (word + 1)) * scale
  let inside (x : Nat) : Bool :=
    if word % 2 = 0 then low ≤ x && x ≤ high else low < x && x < high
  let below := value / mesh
  let above := below + 1
  match inside (below * mesh), inside (above * mesh) with
  | true, true =>
    if value - below * mesh < above * mesh - value then some ⟨below, exponent⟩
    else some ⟨above, exponent⟩
  | true, false => some ⟨below, exponent⟩
  | false, true => some ⟨above, exponent⟩
  | false, false => none

/-- Shortest decimal number that is read back as a finite unsigned word. Seventeen
digits always suffice. -/
def shortest (word : Nat) : Decimal :=
  if word = 0 then ⟨0, 0⟩
  else
    let lead := leadingPosition (units word)
    let found := (List.range 17).findSome? fun n => onGrid? word (lead - Int.ofNat n)
    Decimal.stripZeros 400 (found.getD ⟨0, 0⟩)

end OverloadMachine.Binary64
