import OverloadMachine.Binary64.Hypotenuse
import OverloadMachine.Heap
import OverloadMachine.Number

/-!
# Vectors of two components

A vector is a composite of class `Vector` with numeric fields `x` and `y`. Its
components have an arithmetic of their own: integers as long as they fit. It agrees
with the arithmetic of numbers.
-/

namespace OverloadMachine

/-- The components of a vector. -/
structure Vector2 where
  x : Number
  y : Number

namespace Vector2

/-- Class of the composites that are vectors. -/
def className : String := "Vector"

/-- Numeric field of a composite. -/
def component? (c : Composite) (key : String) : Except Unsupported Number :=
  match c.fields.get? key >>= Number.ofValue? with
  | some n => .ok n
  | none => .error ⟨"numeric component", "non-numeric field"⟩

/-- Vector that a composite is. -/
def ofComposite (c : Composite) : Except Unsupported Vector2 :=
  if c.className = className then do
    let x ← component? c "x"
    let y ← component? c "y"
    return ⟨x, y⟩
  else .error ⟨"vector", "composite"⟩

/-- Vector that a value is. -/
def ofValue (h : Heap) (v : Value) : Except Unsupported Vector2 :=
  match v.composite? >>= h.composite? with
  | some c => ofComposite c
  | none => .error ⟨"vector", v.kind.name⟩

/-- The components as fields. -/
def entries (v : Vector2) : List (String × Value) := [("x", v.x.toValue), ("y", v.y.toValue)]

/-- Fields with the components of a vector set. -/
def writeInto (v : Vector2) (fields : NameMap Value) : NameMap Value :=
  v.entries.foldl (fun m e => m.insert e.1 e.2) fields

/-! ## Components -/

namespace Component

/-- An operation on integers that tells an overflow. -/
def checked (exact : Int → Int → Int) (a b : Int64) : Option Int64 :=
  fitInt64 (exact a.toInt b.toInt)

/-- An operation on two components: on integers unless that overflows, or else on
floats. -/
def combine (int : Int64 → Int64 → Option Int64) (float : Float → Float → Float) :
    Number → Number → Number
  | .int a, .int b =>
    match int a b with
    | some r => .int r
    | none => .float (float a.toFloat b.toFloat)
  | a, b => .float (float a.toFloat b.toFloat)

/-- Sum. -/
def add : Number → Number → Number := combine (checked (· + ·)) (· + ·)

/-- Difference. -/
def sub : Number → Number → Number := combine (checked (· - ·)) (· - ·)

/-- Product. -/
def mul : Number → Number → Number := combine (checked (· * ·)) (· * ·)

/-- Equality as numbers. -/
def same : Number → Number → Bool
  | .int a, .int b => a == b
  | a, b => a.toFloat == b.toFloat

/-! ### Agreement with numbers -/

theorem combine_checked (exact : Int → Int → Int) (float : Float → Float → Float)
    (a b : Number) : combine (checked exact) float a b = Number.combine exact float a b := by
  cases a <;> cases b <;> rfl

@[simp] theorem add_eq (a b : Number) : add a b = a.add b := combine_checked _ _ a b

@[simp] theorem sub_eq (a b : Number) : sub a b = a.sub b := combine_checked _ _ a b

@[simp] theorem mul_eq (a b : Number) : mul a b = a.mul b := combine_checked _ _ a b

@[simp] theorem same_eq (a b : Number) : same a b = a.same b := by
  cases a <;> cases b <;> rfl

end Component

/-! ## Operations -/

/-- Sum, component by component. -/
def add (a b : Vector2) : Vector2 := ⟨Component.add a.x b.x, Component.add a.y b.y⟩

/-- Difference, component by component. -/
def sub (a b : Vector2) : Vector2 := ⟨Component.sub a.x b.x, Component.sub a.y b.y⟩

/-- Product of the components with a number. -/
def scale (a : Vector2) (k : Number) : Vector2 := ⟨Component.mul a.x k, Component.mul a.y k⟩

/-- Vector of the opposite direction. -/
def negate (a : Vector2) : Vector2 := a.scale (.int (-1))

/-- Sum of each component with an integer. -/
def step (a : Vector2) (delta : Int64) : Vector2 :=
  ⟨Component.add a.x (.int delta), Component.add a.y (.int delta)⟩

/-- Euclidean length. -/
def magnitude (a : Vector2) : Float := hypotenuse a.x.toFloat a.y.toFloat

/-- Equality of the components as numbers. -/
def same (a b : Vector2) : Bool := Component.same a.x b.x && Component.same a.y b.y

/-- Equality of the components in kind and value. -/
def identical (a b : Vector2) : Bool :=
  a.x.toValue.identical b.x.toValue && a.y.toValue.identical b.y.toValue

/-- Order by length. -/
def compareMagnitude (a b : Vector2) : Option Ordering := compareFloat a.magnitude b.magnitude

end Vector2

end OverloadMachine
