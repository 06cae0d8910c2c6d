import OverloadMachine.Binary64.Basic

/-!
# Hypotenuse

The length of the hypotenuse over two legs, rounded once. The square of the
length is a natural number of squared units, so nothing overflows or underflows
on the way.
-/

namespace OverloadMachine.Binary64

/-- Unsigned word nearest to the square root of `n`, in units. The root is taken
to two binary places; a last place records whether something is left. -/
def nearestRoot (n : Nat) : Nat :=
  let root := Nat.sqrt (16 * n)
  let rest := if root * root = 16 * n then 0 else 1
  nearest (2 * root + rest) 8

end OverloadMachine.Binary64

namespace OverloadMachine

/-- Length of the hypotenuse. An infinite leg makes it infinite even beside a leg
that is no number. -/
def hypotenuse (x y : Float) : Float :=
  let a := floatWord x
  let b := floatWord y
  if a = Binary64.infinityWord ∨ b = Binary64.infinityWord then
    floatOfWord false Binary64.infinityWord
  else if Binary64.infinityWord < a ∨ Binary64.infinityWord < b then
    floatOfWord false Binary64.nanWord
  else
    floatOfWord false
      (Binary64.nearestRoot
        (Binary64.units a * Binary64.units a + Binary64.units b * Binary64.units b))

end OverloadMachine
