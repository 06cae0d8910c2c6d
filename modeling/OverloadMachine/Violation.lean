import OverloadMachine.Instruction
import OverloadMachine.Value

/-!
# Broken contracts

The rules that native code can break, and the operands that it may decline.
-/

namespace OverloadMachine

/-- A rule that a handler, or code that changes composites, has broken. -/
inductive Violation where
  /-- A result was set although the instruction has none. -/
  | unusedResult (opcode : Opcode)
  /-- A composite with several holders was to be changed in place. -/
  | sharedMutation (count : Nat)
  /-- The first operand was to be written although it cannot be. -/
  | notAssignable (opcode : Opcode)
  deriving DecidableEq, Repr

/-- Text of a violation. -/
def Violation.message : Violation → String
  | unusedResult opcode => opcode.name ++ " handler wrote to an unused result"
  | sharedMutation count =>
    "in-place mutation of a composite shared by " ++ toString count ++ " holders"
  | notAssignable opcode => opcode.name ++ " handler requested write access to op1"

/-- Why native code does not take an operand. -/
structure Unsupported where
  expected : String
  got : String
  deriving DecidableEq, Repr

/-- Text of a refusal. -/
def Unsupported.message (u : Unsupported) : String :=
  "unsupported operand: expected " ++ u.expected ++ ", got " ++ u.got

end OverloadMachine
