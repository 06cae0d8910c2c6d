/-!
# Values

A value is a scalar or a handle. Scalars stand for themselves; a handle names a
composite or a reference cell of a heap, and copies of a handle share what it
names.
-/

namespace OverloadMachine

/-- Name of a composite of a heap. -/
structure CompositeId where
  index : Nat
  deriving DecidableEq, Repr

/-- Name of a reference cell of a heap. -/
structure CellId where
  index : Nat
  deriving DecidableEq, Repr

/-- A value of the machine. -/
inductive Value where
  | null
  | bool (b : Bool)
  | int (i : Int64)
  | float (x : Float)
  | str (s : String)
  /-- A handle to a reference cell, which several variables may share. -/
  | ref (cell : CellId)
  /-- A handle to a composite. -/
  | composite (id : CompositeId)
  deriving Inhabited

/-- The sorts of values, as messages name them. -/
inductive Kind where
  | null | bool | int | float | str | ref | composite
  deriving DecidableEq, Repr

/-- Word for a kind of values. -/
def Kind.name : Kind → String
  | null => "null" | bool => "bool" | int => "int" | float => "float"
  | str => "string" | ref => "reference" | composite => "composite"

namespace Value

/-- Kind of a value. -/
def kind : Value → Kind
  | null => .null | bool _ => .bool | int _ => .int | float _ => .float
  | str _ => .str | ref _ => .ref | composite _ => .composite

/-- Whether a value is a handle. -/
def isHandle : Value → Bool
  | ref _ | composite _ => true
  | _ => false

/-- Strict identity: one kind and one scalar, or one composite or cell. Floats
are compared as numbers, so the value that is no number differs from itself. -/
def identical : Value → Value → Bool
  | null, null => true
  | bool a, bool b => a == b
  | int a, int b => a == b
  | float a, float b => a == b
  | str a, str b => a == b
  | ref a, ref b => a == b
  | composite a, composite b => a == b
  | _, _ => false

/-- The integer of an integer value. -/
def int? : Value → Option Int64
  | int i => some i
  | _ => none

/-- The number of a numeric value, as a float. -/
def float? : Value → Option Float
  | float x => some x
  | int i => some i.toFloat
  | _ => none

/-- The text of a text value. -/
def str? : Value → Option String
  | str s => some s
  | _ => none

/-- The composite of a composite value. -/
def composite? : Value → Option CompositeId
  | composite id => some id
  | _ => none

/-- Only values of one kind are identical. -/
theorem kind_eq_of_identical {a b : Value} (h : identical a b) : a.kind = b.kind := by
  cases a <;> cases b <;> simp_all [identical, kind]

end Value

end OverloadMachine
