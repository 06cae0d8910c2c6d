import OverloadMachine.Binary64.Decimal
import OverloadMachine.Text.Blank
import OverloadMachine.Value

/-!
# Numbers

Arithmetic on 64-bit integers and floats. An operation on two integers gives
the integer if it is exact and fits, and a float otherwise; with a float on
either side it gives a float. A text is a number if it has the form of one
between blanks.
-/

namespace OverloadMachine

/-- A number: an integer or a float. -/
inductive Number where
  | int (i : Int64)
  | float (x : Float)

/-- The 64-bit integer equal to an integer, if it fits. -/
def fitInt64 (n : Int) : Option Int64 :=
  if -0x8000000000000000 ≤ n ∧ n < 0x8000000000000000 then some (Int64.ofInt n) else none

/-- Order of two floats; none if either is no number. -/
def compareFloat (x y : Float) : Option Ordering :=
  if x < y then some .lt
  else if y < x then some .gt
  else if x == y then some .eq
  else none

namespace Number

/-- The number as a float. -/
def toFloat : Number → Float
  | int i => i.toFloat
  | float x => x

/-- The number as a value. -/
def toValue : Number → Value
  | int i => .int i
  | float x => .float x

/-- The number of a numeric value. -/
def ofValue? : Value → Option Number
  | .int i => some (int i)
  | .float x => some (float x)
  | _ => none

/-- Whether the number is a zero of either kind. -/
def isZero : Number → Bool
  | int i => i == 0
  | float x => x == 0.0

/-- Order of two numbers. Integers are compared exactly, otherwise both sides as
floats. -/
def compare : Number → Number → Option Ordering
  | int a, int b => some (Ord.compare a.toInt b.toInt)
  | a, b => compareFloat a.toFloat b.toFloat

/-- Equality of two numbers as numbers. -/
def same : Number → Number → Bool
  | int a, int b => a == b
  | a, b => a.toFloat == b.toFloat

/-! ## Arithmetic -/

/-- An operation that is exact on integers as long as the result fits. -/
def combine (exact : Int → Int → Int) (inexact : Float → Float → Float) :
    Number → Number → Number
  | int a, int b =>
    match fitInt64 (exact a.toInt b.toInt) with
    | some r => int r
    | none => float (inexact a.toFloat b.toFloat)
  | a, b => float (inexact a.toFloat b.toFloat)

/-- Sum. -/
def add : Number → Number → Number := combine (· + ·) (· + ·)

/-- Difference. -/
def sub : Number → Number → Number := combine (· - ·) (· - ·)

/-- Product. -/
def mul : Number → Number → Number := combine (· * ·) (· * ·)

/-- Quotient by a number other than zero: an integer only if nothing remains. -/
def div : Number → Number → Number
  | int a, int b =>
    if a.toInt.tmod b.toInt = 0 then
      match fitInt64 (a.toInt.tdiv b.toInt) with
      | some r => int r
      | none => float (a.toFloat / b.toFloat)
    else float (a.toFloat / b.toFloat)
  | a, b => float (a.toFloat / b.toFloat)

/-- Integer power, if it fits. From base two on, an exponent of 64 does not fit;
below, only the exponent's being zero, odd or even matters. -/
def exactPower (base : Int) (exponent : Nat) : Option Int64 :=
  if base.natAbs ≤ 1 then
    fitInt64 (if exponent = 0 then 1 else Int.pow base (2 - exponent % 2))
  else if 64 ≤ exponent then none
  else fitInt64 (Int.pow base exponent)

/-- Power. The exponent of an integer power has at most 32 bits. -/
def pow : Number → Number → Number
  | int a, int b =>
    let exact :=
      if 0 ≤ b.toInt ∧ b.toInt < 0x100000000 then exactPower a.toInt b.toInt.toNat else none
    match exact with
    | some r => int r
    | none => float (a.toFloat.pow b.toFloat)
  | a, b => float (a.toFloat.pow b.toFloat)

/-! ## Texts of numbers -/

/-- Value of a run of decimal digits. -/
def digitsValue (cs : List Char) : Nat :=
  cs.foldl (fun n c => 10 * n + (c.toNat - '0'.toNat)) 0

/-- A text without its sign, and whether the sign was a minus. -/
def splitSign : List Char → Bool × List Char
  | '-' :: rest => (true, rest)
  | '+' :: rest => (false, rest)
  | cs => (false, cs)

/-- Integer of a text of an optional sign and digits. -/
def readInteger? (cs : List Char) : Option Int64 :=
  let (negative, digits) := splitSign cs
  if digits.isEmpty || !digits.all Char.isDigit then none
  else
    let n : Int := digitsValue digits
    fitInt64 (if negative then -n else n)

/-- Exponent of a float's text: nothing, or `e` with an optional sign and digits. -/
def readExponent? : List Char → Option Int
  | [] => some 0
  | c :: rest =>
    if c = 'e' ∨ c = 'E' then
      let (negative, digits) := splitSign rest
      if digits.isEmpty || !digits.all Char.isDigit then none
      else
        let n : Int := digitsValue digits
        some (if negative then -n else n)
    else none

/-- Float of a decimal text: an optional sign, digits with at most one point among
or around them, and an optional exponent. -/
def readFloat? (cs : List Char) : Option Float :=
  let (negative, body) := splitSign cs
  let whole := body.takeWhile Char.isDigit
  let afterWhole := body.dropWhile Char.isDigit
  let afterPoint := match afterWhole with
    | '.' :: rest => rest
    | _ => []
  let fraction := afterPoint.takeWhile Char.isDigit
  let rest := match afterWhole with
    | '.' :: rest => rest.dropWhile Char.isDigit
    | rest => rest
  if whole.isEmpty && fraction.isEmpty then none
  else
    (readExponent? rest).map fun exponent =>
      floatOfWord negative
        (Binary64.ofDecimal ⟨digitsValue (whole ++ fraction), exponent - fraction.length⟩)

/-- Float of a word for one that is no finite number, in any case of the letters. -/
def readSpecial? (cs : List Char) : Option Float :=
  let (negative, word) := splitSign cs
  let word := word.map Char.toLower
  if word = ['i', 'n', 'f'] ∨ word = ['i', 'n', 'f', 'i', 'n', 'i', 't', 'y'] then
    some (floatOfWord negative Binary64.infinityWord)
  else if word = ['n', 'a', 'n'] then some (floatOfWord negative Binary64.nanWord)
  else none

/-- Float of a text: a word or a decimal text. -/
def readAnyFloat? (cs : List Char) : Option Float := (readSpecial? cs).or (readFloat? cs)

/-- Whether a character may stand in a decimal text. -/
def isNumeric (c : Char) : Bool := c.isDigit || ['+', '-', '.', 'e', 'E'].contains c

/-- Number of a text, which may stand between blanks. What is no integer is read as a
float only if all characters may stand in a decimal text, so words are no numbers. -/
def parse? (s : String) : Option Number :=
  let cs := Text.trimBlank s.toList
  if cs.isEmpty then none
  else match readInteger? cs with
    | some i => some (int i)
    | none => if cs.all isNumeric then (readAnyFloat? cs).map float else none

end Number

end OverloadMachine
