import OverloadMachine.Negation

/-!
# Writing functions

A writer hands out operands and appends instructions; what is written so far is
itself a function. Constants and temporaries are always new, and a variable is
new under a new name.
-/

namespace OverloadMachine

/-- A function under construction. -/
structure Writer where
  /-- What is written so far. -/
  function : Function

namespace Writer

/-- Start a function. -/
def start (name : String) : Writer := ⟨⟨name, #[], #[], 0, #[]⟩⟩

/-- Append a constant. -/
def constant (w : Writer) (v : Value) : Operand × Writer :=
  (.const w.function.constants.size,
    ⟨{ w.function with constants := w.function.constants.push v }⟩)

/-- Take a new temporary. -/
def temporary (w : Writer) : Operand × Writer :=
  (.temp w.function.temporaries,
    ⟨{ w.function with temporaries := w.function.temporaries + 1 }⟩)

/-- The variable with a name. -/
def named (w : Writer) (name : String) : Operand × Writer :=
  match w.function.slot? name with
  | some i => (.var i, w)
  | none =>
    (.var w.function.variableNames.size,
      ⟨{ w.function with variableNames := w.function.variableNames.push name }⟩)

/-- The dynamic variable with a name. -/
def dynamic (w : Writer) (name : String) : Operand × Writer :=
  (.dynamic w.function.constants.size,
    ⟨{ w.function with constants := w.function.constants.push (.str name) }⟩)

/-- Position of the next instruction. -/
def position (w : Writer) : Nat := w.function.code.size

/-- Append an instruction; gives its position. -/
def push (w : Writer) (instr : Instruction) : Nat × Writer :=
  (w.position, ⟨{ w.function with code := w.function.code.push instr }⟩)

/-- Append an instruction that has no target. -/
def emit (w : Writer) (opcode : Opcode) (op1 op2 result : Operand) : Nat × Writer :=
  w.push ⟨opcode, op1, op2, result, 0⟩

/-- Append a unary minus or plus, as a product with a literal. -/
def emitSign (w : Writer) (sign : Sign) (value result : Operand) (order : NegationOrder) :
    Nat × Writer :=
  let (factor, w) := w.constant sign.factor
  let (op1, op2) := order.arrange value factor
  w.emit (.arithmetic .mul) op1 op2 result

/-- Append a field write; gives the position of its first instruction. -/
def emitSetField (w : Writer) (target key value : Operand) : Nat × Writer :=
  let (pos, w) := w.emit .setField target key .unused
  let (_, w) := w.emit .opData value .unused .unused
  (pos, w)

/-- Append a return. -/
def emitReturn (w : Writer) (value : Operand) : Nat × Writer :=
  w.emit .ret value .unused .unused

/-- Append a jump. Positions are kept to 32 bits. -/
def emitJump (w : Writer) (target : Nat) : Nat × Writer :=
  w.push ⟨.jmp, .unused, .unused, .unused, UInt32.ofNat target⟩

/-- Append a jump that is taken if an operand is falsy. -/
def emitJumpIfFalse (w : Writer) (condition : Operand) (target : Nat) : Nat × Writer :=
  w.push ⟨.jmpIfFalse, condition, .unused, .unused, UInt32.ofNat target⟩

/-- Change the target of the instruction at a position, if there is one. -/
def patch (w : Writer) (pos target : Nat) : Writer :=
  ⟨{ w.function with
    code := w.function.code.modify pos fun instr =>
      { instr with target := UInt32.ofNat target } }⟩

/-- The finished function. -/
def finish (w : Writer) : Function := w.function

end Writer

end OverloadMachine
