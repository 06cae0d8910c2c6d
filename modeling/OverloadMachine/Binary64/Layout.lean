import OverloadMachine.Binary64.Decimal

/-!
# Texts of floats

A layout says how the shortest decimal number of a float is set: from which
position of the leading digit on it gets an exponent, whether a whole number
keeps a fraction of zero, and how the words that are no finite numbers read.
-/

namespace OverloadMachine

/-- How a float is written. -/
structure FloatLayout where
  /-- Leading positions outside of this range get an exponent; none never do. -/
  positional? : Option (Int × Int)
  /-- Whether a whole number keeps `.0`. -/
  keepsFraction : Bool
  /-- Text of the words that are no numbers. -/
  nan : String
  /-- Text of infinity, without a sign. -/
  infinity : String

namespace FloatLayout

/-- Values inside listings: an exponent below `1e-4` and from `1e16` on. -/
def listing : FloatLayout := ⟨some (-4, 15), true, "NaN", "inf"⟩

/-- Values as program text: never an exponent. -/
def plain : FloatLayout := ⟨none, false, "NAN", "INF"⟩

/-- A decimal number with its point in place. -/
def setPositional (keepsFraction : Bool) (d : Binary64.Decimal) : String :=
  let digits := Nat.toDigits 10 d.digits
  match d.exponent with
  | .ofNat e =>
    String.ofList (digits ++ (if d.digits = 0 then [] else List.replicate e '0'))
      ++ (if keepsFraction then ".0" else "")
  | .negSucc e =>
    let places := e + 1
    let padded := List.replicate (places + 1 - digits.length) '0' ++ digits
    let whole := padded.length - places
    String.ofList (padded.take whole) ++ "." ++ String.ofList (padded.drop whole)

/-- A decimal number with one digit before the point and an exponent. -/
def setExponent (d : Binary64.Decimal) : String :=
  let digits := Nat.toDigits 10 d.digits
  let fraction := digits.drop 1
  String.ofList (digits.take 1)
    ++ (if fraction.isEmpty then "" else "." ++ String.ofList fraction)
    ++ "e" ++ toString (d.exponent + (fraction.length : Int))

/-- Text of an unsigned word that is a finite number. -/
def setWord (layout : FloatLayout) (word : Nat) : String :=
  let d := Binary64.shortest word
  let lead := (Binary64.decimalLength d.digits : Int) - 1 + d.exponent
  match layout.positional? with
  | some (low, high) =>
    if word ≠ 0 ∧ (lead < low ∨ high < lead) then setExponent d
    else setPositional layout.keepsFraction d
  | none => setPositional layout.keepsFraction d

/-- Text of a float. -/
def text (layout : FloatLayout) (x : Float) : String :=
  let word := floatWord x
  if Binary64.infinityWord < word then layout.nan
  else
    (if floatIsNegative x then "-" else "")
      ++ (if word = Binary64.infinityWord then layout.infinity else layout.setWord word)

end FloatLayout

end OverloadMachine
