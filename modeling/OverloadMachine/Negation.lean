import OverloadMachine.Program

/-!
# Negation

Unary minus and plus are written as products with the literals minus one and
one. On which side of the product the literal stands is a setting of the
machine; under that setting a product with such a literal can be recognised
again.
-/

namespace OverloadMachine

/-- Side of an instruction on which an operand stands. -/
inductive Side where
  | first | second
  deriving DecidableEq, Repr

namespace Side

/-- The other side. -/
def other : Side → Side
  | first => second
  | second => first

/-- Operand of an instruction on a side. -/
def select : Side → Instruction → Operand
  | first, instr => instr.op1
  | second, instr => instr.op2

/-- Name of the side. -/
def name : Side → String
  | first => "First"
  | second => "Second"

end Side

/-- Order of the operands of a product that stands for a negation. -/
inductive NegationOrder where
  | valueFirst | constantFirst
  deriving DecidableEq, Repr, Inhabited

namespace NegationOrder

/-- Put a value and a constant in order. -/
def arrange {α : Type} (order : NegationOrder) (value constant : α) : α × α :=
  match order with
  | valueFirst => (value, constant)
  | constantFirst => (constant, value)

/-- Side of the value. -/
def valueSide : NegationOrder → Side
  | valueFirst => .first
  | constantFirst => .second

/-- Name of the order. -/
def name : NegationOrder → String
  | valueFirst => "ValueFirst"
  | constantFirst => "ConstantFirst"

/-- Word for the order in settings. -/
def word : NegationOrder → String
  | valueFirst => "value_first"
  | constantFirst => "constant_first"

/-- Order that a word stands for. -/
def ofWord? (s : String) : Option NegationOrder :=
  if s = valueFirst.word then some valueFirst
  else if s = constantFirst.word then some constantFirst
  else none

/-- The word of an order stands for it. -/
theorem ofWord?_word (order : NegationOrder) : ofWord? order.word = some order := by
  cases order <;> decide

end NegationOrder

/-- A unary operator that is written as a product. -/
inductive Sign where
  | negate | plus
  deriving DecidableEq, Repr

namespace Sign

/-- Name of the operator. -/
def name : Sign → String
  | negate => "Negate"
  | plus => "Plus"

/-- The literal that stands for the operator. -/
def factor : Sign → Value
  | negate => .int (-1)
  | plus => .int 1

/-- Operator that a literal stands for. -/
def ofFactor? : Value → Option Sign
  | .int i => if i = -1 then some negate else if i = 1 then some plus else none
  | .float x => if x == -1.0 then some negate else if x == 1.0 then some plus else none
  | _ => none

end Sign

namespace NegationOrder

/-- The unary operator that an instruction stands for: a product with a literal
minus one or one on the side of the constant. -/
def sign? (order : NegationOrder) (constants : Array Value) (instr : Instruction) :
    Option Sign :=
  if instr.opcode = .arithmetic .mul then
    match order.valueSide.other.select instr with
    | .const i => constants[i]? >>= Sign.ofFactor?
    | _ => none
  else none

end NegationOrder

/-- Whether an operand is a literal. -/
def Operand.isLiteral : Operand → Bool
  | .const _ => true
  | _ => false

/-- Whether a handler can ever meet an instruction: it is an operator, and not all
that it reads is literal. -/
def Instruction.reachesHandler (instr : Instruction) : Bool :=
  match instr.opcode.category? with
  | some category =>
    !(instr.op1.isLiteral && (!category.hasSecondOperand || instr.op2.isLiteral))
  | none => false

end OverloadMachine
