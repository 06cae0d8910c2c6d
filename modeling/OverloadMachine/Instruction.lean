import OverloadMachine.Opcode

/-!
# Instructions

Instructions name their operands by descriptors: a position in the table of
constants, a temporary, a variable, or a variable whose name is a constant.
-/

namespace OverloadMachine

/-- Descriptor of an operand. -/
inductive Operand where
  | unused
  | const (index : Nat)
  | temp (index : Nat)
  | var (index : Nat)
  /-- The variable whose name is the constant at a position. -/
  | dynamic (index : Nat)
  deriving DecidableEq, Repr, Inhabited

namespace Operand

/-- Whether nothing is named. -/
def isUnused : Operand → Bool
  | unused => true
  | _ => false

/-- Whether a variable is named, by position or by name. -/
def isVariable : Operand → Bool
  | var _ | dynamic _ => true
  | _ => false

/-- Whether the operand can be written. -/
def isWritable : Operand → Bool
  | temp _ | var _ | dynamic _ => true
  | _ => false

/-- Text of a descriptor. -/
def render : Operand → String
  | unused => "_"
  | const i => "c" ++ toString i
  | temp i => "t" ++ toString i
  | var i => "v" ++ toString i
  | dynamic i => "$\x7bc" ++ toString i ++ "\x7d"

end Operand

/-- One instruction. -/
structure Instruction where
  opcode : Opcode
  op1 : Operand
  op2 : Operand
  result : Operand
  /-- Position to jump to, for jumps. -/
  target : UInt32
  deriving DecidableEq, Repr, Inhabited

namespace Instruction

/-- Text of an instruction: the result, if there is one, stands before the
operands, and the target of a jump after them. -/
def render (instr : Instruction) : String :=
  instr.opcode.name
    ++ (if instr.result.isUnused then "" else " " ++ instr.result.render ++ " <-")
    ++ " " ++ instr.op1.render ++ ", " ++ instr.op2.render
    ++ (if instr.opcode.isJump then " -> " ++ toString instr.target.toNat else "")

end Instruction

end OverloadMachine
