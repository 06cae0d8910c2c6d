import OverloadMachine.Program.Verify
import OverloadMachine.Violation

/-!
# Faults

Why a run ends without a value. The wordings stand in the functions `message`.
-/

namespace OverloadMachine

/-- Faults that verified code does not meet, stray field data apart. -/
inductive CodeFault where
  | positionOutOfRange (pc : Nat)
  | strayData (pc : Nat)
  | missingData (pc : Nat)
  | temporaryOutOfBounds (index size : Nat)
  | variableOutOfBounds (index size : Nat)
  | constantOutOfBounds (index size : Nat)
  | nameNotText (index : Nat)
  | constantWritten (index : Nat)
  | notTemporary (operand : Operand)
  | notOperator (opcode : Opcode)
  | constantResult (opcode : Opcode) (index : Nat)
  deriving DecidableEq, Repr

/-- Text of such a fault. -/
def CodeFault.message : CodeFault → String
  | positionOutOfRange pc => s!"Program counter {pc} out of range"
  | strayData pc => s!"OP_DATA at {pc} without a preceding SET_FIELD"
  | missingData pc => s!"SET_FIELD at {pc} is not followed by OP_DATA"
  | temporaryOutOfBounds index size => s!"Temporary slot {index} out of bounds (len={size})"
  | variableOutOfBounds index size => s!"Variable slot {index} out of bounds (len={size})"
  | constantOutOfBounds index size => s!"Constant c{index} out of bounds (len={size})"
  | nameNotText index => s!"Dynamic variable name c{index} is not a string constant"
  | constantWritten index => s!"Cannot write to constant c{index}"
  | notTemporary operand => s!"FREE expects a temporary, got {operand.render}"
  | notOperator opcode => s!"{opcode.name} is not an operator instruction"
  | constantResult opcode index => s!"{opcode.name} result cannot be constant c{index}"

/-- Values that do not have the type that an instruction needs. -/
inductive TypeFault where
  | notNumeric (text : String) (opcode : Opcode)
  | notSteppable (opcode : Opcode)
  | notClassName (got : Kind)
  | notFieldName (got : Kind)
  | fieldWrite (key : String) (got : Kind)
  | fieldRead (key : String) (got : Kind)
  deriving DecidableEq, Repr

/-- Text of such a fault. -/
def TypeFault.message : TypeFault → String
  | notNumeric text opcode => s!"Non-numeric value \"{text}\" used with {opcode.name}"
  | notSteppable opcode => s!"Cannot {opcode.name} non-numeric string"
  | notClassName got => s!"Class name must be a string, got {got.name}"
  | notFieldName got => s!"Cannot use {got.name} as a field name"
  | fieldWrite key got => s!"Cannot set field \"{key}\" on {got.name}"
  | fieldRead key got => s!"Cannot read field \"{key}\" of {got.name}"

/-- Integer operations without a result. -/
inductive ArithmeticFault where
  | negativeShift
  | notFinite (opcode : Opcode)
  deriving DecidableEq, Repr

/-- Text of such a fault. -/
def ArithmeticFault.message : ArithmeticFault → String
  | negativeShift => "Bit shift by negative number"
  | notFinite opcode => s!"Non-finite float used with {opcode.name}"

/-- What takes the process down. -/
inductive Abort where
  /-- A contract was broken, and contracts are strict. -/
  | contract (violation : Violation)
  /-- A cell was opened while it was open for writing. -/
  | reentry
  /-- A recursion over values did not come to an end. -/
  | overflow
  deriving DecidableEq, Repr

/-- Text of such an end. -/
def Abort.message : Abort → String
  | contract violation => "contract violation: " ++ violation.message
  | reentry => "RefCell already borrowed"
  | overflow => "stack overflow"

/-- Why a run ends without a value. -/
inductive Fault where
  | operandKinds (opcode : Opcode) (left right : Kind)
  | operandKind (opcode : Opcode) (operand : Kind)
  | divisionByZero
  | moduloByZero
  | arithmetic (cause : ArithmeticFault)
  | type (cause : TypeFault)
  | contract (violation : Violation)
  | unverified (defect : Defect)
  | outOfInstructions (limit : Nat)
  | code (cause : CodeFault)
  /-- A cell was opened while it was open for writing. -/
  | reentry
  /-- A recursion over values did not come to an end. -/
  | overflow
  deriving DecidableEq, Repr

/-- What a recursion over values comes to, if it ends. -/
def Fault.ending {α : Type} : Option α → Except Fault α
  | some a => .ok a
  | none => .error .overflow

/-- Text of a fault. -/
def Fault.message : Fault → String
  | operandKinds opcode left right =>
    s!"Unsupported operand types: {left.name} {opcode.name} {right.name}"
  | operandKind opcode operand =>
    s!"Unsupported operand type for {opcode.name}: {operand.name}"
  | divisionByZero => "Division by zero"
  | moduloByZero => "Modulo by zero"
  | arithmetic cause => "Arithmetic error: " ++ cause.message
  | type cause => "Type error: " ++ cause.message
  | contract violation => "Contract violation: " ++ violation.message
  | unverified defect => "Verification failed: " ++ defect.message
  | outOfInstructions limit => s!"Instruction limit of {limit} exceeded"
  | code cause => "Runtime error: " ++ cause.message
  | reentry => Abort.reentry.message
  | overflow => Abort.overflow.message

end OverloadMachine
