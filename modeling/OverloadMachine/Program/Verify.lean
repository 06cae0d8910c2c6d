import OverloadMachine.Program

/-!
# Verification

A function is verified before it runs, so that running it meets no descriptor
outside of its table and no instruction without the operands that it needs. The
instructions are checked in order, each for its descriptors, then for its shape,
then for its target, and at last the end of the code.
-/

namespace OverloadMachine

/-- Place of an operand within an instruction, as messages name it. -/
inductive OperandPlace where
  | op1 | op2 | result
  deriving DecidableEq, Repr

/-- Word for a place. -/
def OperandPlace.name : OperandPlace → String
  | op1 => "op1" | op2 => "op2" | result => "result"

/-- What is wrong with a function, and where. -/
inductive Defect where
  | constantOutOfRange (index size pc : Nat)
  | temporaryOutOfRange (index size pc : Nat)
  | variableOutOfRange (index size pc : Nat)
  | nameNotText (index pc : Nat)
  | missingOperand (opcode : Opcode) (place : OperandPlace) (pc : Nat)
  | wrongOperand (opcode : Opcode) (operand : Operand) (place : OperandPlace) (pc : Nat)
  | missingData (pc : Nat)
  | targetOutOfRange (target pc : Nat)
  | fallsOffEnd (pc : Nat)
  deriving DecidableEq, Repr

/-- Text of a defect. -/
def Defect.message : Defect → String
  | constantOutOfRange index size pc =>
    s!"Invalid constant reference c{index} (pool size {size}) at {pc}"
  | temporaryOutOfRange index size pc => s!"Invalid temporary t{index} (max {size}) at {pc}"
  | variableOutOfRange index size pc =>
    s!"Invalid compiled variable v{index} (max {size}) at {pc}"
  | nameNotText index pc => s!"Dynamic variable name c{index} is not a string at {pc}"
  | missingOperand opcode place pc =>
    s!"{opcode.name} requires operand {place.name} at {pc}"
  | wrongOperand opcode operand place pc =>
    s!"{opcode.name} cannot use {operand.render} as {place.name} at {pc}"
  | missingData pc => s!"SET_FIELD at {pc} is not followed by OP_DATA"
  | targetOutOfRange target pc => s!"Invalid jump target {target} at {pc}"
  | fallsOffEnd pc => s!"Execution falls off end of function at {pc}"

namespace Function

/-- Whether a constant is a text. -/
def isText (f : Function) (index : Nat) : Bool :=
  match f.constants[index]? with
  | some (.str _) => true
  | _ => false

/-- A descriptor names something that is there. -/
def checkReference (f : Function) (pc : Nat) : Operand → Except Defect Unit
  | .unused => .ok ()
  | .const i =>
    if i < f.constants.size then .ok () else .error (.constantOutOfRange i f.constants.size pc)
  | .temp i =>
    if i < f.temporaries then .ok () else .error (.temporaryOutOfRange i f.temporaries pc)
  | .var i =>
    let size := f.variableNames.size
    if i < size then .ok () else .error (.variableOutOfRange i size pc)
  | .dynamic i =>
    if i < f.constants.size then
      if f.isText i then .ok () else .error (.nameNotText i pc)
    else .error (.constantOutOfRange i f.constants.size pc)

/-- An operand is given. -/
def checkGiven (op : Opcode) (pc : Nat) (place : OperandPlace) (o : Operand) :
    Except Defect Unit :=
  if o.isUnused then .error (.missingOperand op place pc) else .ok ()

/-- An operand is a variable. -/
def checkVariable (op : Opcode) (pc : Nat) (place : OperandPlace) (o : Operand) :
    Except Defect Unit := do
  checkGiven op pc place o
  if o.isVariable then .ok () else .error (.wrongOperand op o place pc)

/-- A result is absent or can be written. -/
def checkOptionalResult (op : Opcode) (pc : Nat) (o : Operand) : Except Defect Unit :=
  if o.isUnused || o.isWritable then .ok () else .error (.wrongOperand op o .result pc)

/-- A result is given and can be written. -/
def checkResult (op : Opcode) (pc : Nat) (o : Operand) : Except Defect Unit := do
  checkGiven op pc .result o
  checkOptionalResult op pc o

/-- An operand is a temporary. -/
def checkTemporary (op : Opcode) (pc : Nat) (place : OperandPlace) :
    Operand → Except Defect Unit
  | .temp _ => .ok ()
  | o => .error (.wrongOperand op o place pc)

/-- The operands of an operator fit its category. -/
def checkOperator (category : Category) (instr : Instruction) (pc : Nat) :
    Except Defect Unit := do
  checkGiven instr.opcode pc .op1 instr.op1
  if category.hasSecondOperand then checkGiven instr.opcode pc .op2 instr.op2
  if category.isAssignment then checkVariable instr.opcode pc .op1 instr.op1
  match category with
  | .unaryAssignPost => checkTemporary instr.opcode pc .result instr.result
  | _ => checkOptionalResult instr.opcode pc instr.result

/-- The operands of an instruction are the ones that it needs. -/
def checkShape (f : Function) (instr : Instruction) (pc : Nat) : Except Defect Unit :=
  let op := instr.opcode
  match op.category? with
  | some category => checkOperator category instr pc
  | none =>
    match op with
    | .assign => do
      checkVariable op pc .op1 instr.op1
      checkGiven op pc .op2 instr.op2
      checkOptionalResult op pc instr.result
    | .assignRef => do
      checkVariable op pc .op1 instr.op1
      checkVariable op pc .op2 instr.op2
    | .newComposite => do
      match instr.op1 with
      | .const i => if f.isText i then .ok () else .error (.wrongOperand op instr.op1 .op1 pc)
      | o => .error (.wrongOperand op o .op1 pc)
      checkResult op pc instr.result
    | .setField => do
      checkVariable op pc .op1 instr.op1
      checkGiven op pc .op2 instr.op2
      match f.code[pc + 1]? with
      | some next => if next.opcode = .opData then .ok () else .error (.missingData pc)
      | none => .error (.missingData pc)
    | .opData | .jmpIfFalse => checkGiven op pc .op1 instr.op1
    | .getField => do
      checkGiven op pc .op1 instr.op1
      checkGiven op pc .op2 instr.op2
      checkResult op pc instr.result
    | .free => checkTemporary op pc .op1 instr.op1
    | _ => .ok ()

/-- A jump stays inside of the code. -/
def checkTarget (f : Function) (instr : Instruction) (pc : Nat) : Except Defect Unit :=
  if instr.opcode.isJump && f.code.size ≤ instr.target.toNat then
    .error (.targetOutOfRange instr.target.toNat pc)
  else .ok ()

/-- One instruction is in order. -/
def checkInstruction (f : Function) (instr : Instruction) (pc : Nat) : Except Defect Unit := do
  f.checkReference pc instr.op1
  f.checkReference pc instr.op2
  f.checkReference pc instr.result
  f.checkShape instr pc
  f.checkTarget instr pc

/-- The instructions of a list, which stand at the positions from `pc` on, are in order. -/
def checkFrom (f : Function) : (pc : Nat) → List Instruction → Except Defect Unit
  | _, [] => .ok ()
  | pc, instr :: rest => do
    f.checkInstruction instr pc
    checkFrom f (pc + 1) rest

/-- The function is in order: there is code, every instruction is in order, and
control cannot pass the last one. -/
def verify (f : Function) : Except Defect Unit :=
  match f.code.back? with
  | none => .error (.fallsOffEnd 0)
  | some last => do
    f.checkFrom 0 f.code.toList
    if last.opcode.isTerminator then .ok () else .error (.fallsOffEnd (f.code.size - 1))

end Function

end OverloadMachine
