import OverloadMachine.Fault
import OverloadMachine.Heap.Text
import OverloadMachine.Number

/-!
# Built-in arithmetic

What the arithmetic, bitwise and text operators make of two values, the unary
operators of one, and increments and decrements of the value they step. Null and
booleans count as integers, texts as the numbers that they spell; handles are
not taken. The results are scalars, so no handle comes into being here.
-/

namespace OverloadMachine.Operator

/-- Number that a value stands for under an operator. -/
def toNumber (op : Opcode) : Value → Except Fault Number
  | .null => .ok (.int 0)
  | .bool b => .ok (.int (if b then 1 else 0))
  | .int i => .ok (.int i)
  | .float x => .ok (.float x)
  | .str s =>
    match Number.parse? s with
    | some n => .ok n
    | none => .error (.type (.notNumeric s op))
  | v => .error (.operandKind op v.kind)

/-- Integer that a value stands for under an operator; the fraction of a float is
dropped, and a float beyond the integers becomes the nearest of them. -/
def toInteger (op : Opcode) (v : Value) : Except Fault Int64 := do
  match ← toNumber op v with
  | .int i => .ok i
  | .float x => if x.isFinite then .ok x.toInt64 else .error (.arithmetic (.notFinite op))

/-- Left shift; what is shifted out is lost. -/
def shiftLeft (x : Int64) (places : Nat) : Int64 :=
  if 64 ≤ places then 0 else x <<< Int64.ofNat places

/-- Right shift that keeps the sign. -/
def shiftRight (x : Int64) (places : Nat) : Int64 :=
  if 64 ≤ places then (if x < 0 then -1 else 0) else x >>> Int64.ofNat places

/-- Remainder with the sign of the dividend. -/
def remainder (x y : Int64) : Int64 := Int64.ofInt (x.toInt.tmod y.toInt)

/-- An operator on two numbers. -/
def onNumbers (op : Opcode) (f : Number → Number → Except Fault Number) (a b : Value) :
    Except Fault Value := do
  let x ← toNumber op a
  let y ← toNumber op b
  return (← f x y).toValue

/-- An operator on two integers. -/
def onIntegers (op : Opcode) (f : Int64 → Int64 → Except Fault Int64) (a b : Value) :
    Except Fault Value := do
  let x ← toInteger op a
  let y ← toInteger op b
  return .int (← f x y)

/-- A shift by a number of places that is not negative. -/
def shift (f : Int64 → Nat → Int64) (x y : Int64) : Except Fault Int64 :=
  if y < 0 then .error (.arithmetic .negativeShift) else .ok (f x y.toInt.toNat)

/-- Value of `a op b`. -/
def arithmetic (h : Heap) (op : ArithmeticOp) (a b : Value) : Except Fault Value :=
  let opcode := Opcode.arithmetic op
  if a.isHandle || b.isHandle then .error (.operandKinds opcode a.kind b.kind)
  else match op with
    | .concat => .ok (.str (h.plainText a ++ h.plainText b))
    | .add => onNumbers opcode (fun x y => .ok (x.add y)) a b
    | .sub => onNumbers opcode (fun x y => .ok (x.sub y)) a b
    | .mul => onNumbers opcode (fun x y => .ok (x.mul y)) a b
    | .div =>
      onNumbers opcode (fun x y => if y.isZero then .error .divisionByZero else .ok (x.div y)) a b
    | .pow => onNumbers opcode (fun x y => .ok (x.pow y)) a b
    | .mod =>
      onIntegers opcode
        (fun x y => if y = 0 then .error .moduloByZero else .ok (remainder x y)) a b
    | .shl => onIntegers opcode (shift shiftLeft) a b
    | .shr => onIntegers opcode (shift shiftRight) a b
    | .bitAnd => onIntegers opcode (fun x y => .ok (x &&& y)) a b
    | .bitOr => onIntegers opcode (fun x y => .ok (x ||| y)) a b
    | .bitXor => onIntegers opcode (fun x y => .ok (x ^^^ y)) a b

/-- Whether exactly one of two values is truthy. -/
def boolXor (h : Heap) (a b : Value) : Except Fault Value := do
  let x ← Fault.ending (h.truth? a)
  let y ← Fault.ending (h.truth? b)
  return .bool (x != y)

/-- Value of `op a`. -/
def unary (h : Heap) (op : UnaryOp) (a : Value) : Except Fault Value :=
  match op with
  | .boolNot => (Fault.ending (h.truth? a)).map fun truthy => .bool !truthy
  | .bitNot =>
    match a with
    | .int i => .ok (.int (~~~i))
    | .float x =>
      if x.isFinite then .ok (.int (~~~x.toInt64))
      else .error (.operandKind (.unary .bitNot) .float)
    | v => .error (.operandKind (.unary .bitNot) v.kind)

/-- Distance of a step. -/
def stepDelta : StepDirection → Number
  | .up => .int 1
  | .down => .int (-1)

/-- Value after a step. Null becomes one going up and stays null going down, and
booleans stay as they are. -/
def step (time : StepTime) (direction : StepDirection) (a : Value) : Except Fault Value :=
  let opcode := Opcode.step time direction
  let delta := stepDelta direction
  match a with
  | .null => .ok (match direction with | .up => .int 1 | .down => .null)
  | .bool b => .ok (.bool b)
  | .int i => .ok ((Number.int i).add delta).toValue
  | .float x => .ok ((Number.float x).add delta).toValue
  | .str s =>
    match Number.parse? s with
    | some n => .ok (n.add delta).toValue
    | none => .error (.type (.notSteppable opcode))
  | v => .error (.operandKind opcode v.kind)

end OverloadMachine.Operator
