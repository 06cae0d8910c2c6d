import OverloadMachine.Operator.Arithmetic
import OverloadMachine.Operator.Comparison
import OverloadMachine.Store

/-!
# Built-in instructions

What each instruction does when no handler does it. Values that an instruction
holds while it works are accounted for, and given up if it faults.
-/

namespace OverloadMachine

/-- Where control goes after an instruction. -/
inductive Flow where
  | next
  | jump (pc : Nat)
  | finish (v : Value)

namespace Builtin

open OverloadMachine.Action

/-- Name of the field that a value names: a text, or the digits of an integer. -/
def fieldName : Value → Except Fault String
  | .str s => .ok s
  | .int i => .ok (intText i)
  | v => .error (.type (.notFieldName v.kind))

/-- Replace the value in a place by the scalar that a function makes of it. Gives
the value before, whose handle passes to the caller, and the value after. -/
def update (constants : Array Value) (target : Operand)
    (f : Heap → Value → Except Fault Value) : Action (Value × Value) := do
  let place ← writablePlace constants target
  let s ← get
  let previous := s.peek place
  let next ← attempt (f s.heap previous)
  set (s.put place next)
  return (previous, next)

/-- Store another handle of a value, if the result is used. -/
def storeResult (constants : Array Value) (result : Operand) (v : Value) : Action Unit := do
  if result.isUnused then return
  acquire v
  storeOperand constants result v

/-- `A = B`, and `R = A` if the result is used. -/
def assign (constants : Array Value) (instr : Instruction) : Action Flow := do
  let v ← load constants instr.op2
  holding v do
    releaseOperands instr
    storeResult constants instr.result v
  storeOperand constants instr.op1 v
  return .next

/-- The cell that a slot is bound to; an unbound slot is bound to a new cell with
its value. The slot keeps a handle of the cell, and the caller gets one. -/
def bindSlot (slot : Slot) : Action CellId := do
  let s ← get
  match s.frame.get slot with
  | .ref cell =>
    acquire (.ref cell)
    return cell
  | v =>
    let (cell, heap) := s.heap.createCell v
    set { s with heap := heap.acquire (.ref cell), frame := s.frame.put slot (.ref cell) }
    return cell

/-- Bind two variables to one cell. The first one gives up what it held, even if
that was another cell. -/
def assignRef (constants : Array Value) (instr : Instruction) : Action Flow := do
  let source ← writableSlot constants instr.op2
  let cell ← bindSlot source
  let target ← holding (.ref cell) (writableSlot constants instr.op1)
  overwrite (.slot target) (.ref cell)
  return .next

/-- `A = A op B`, and `R = A` if the result is used. -/
def compound (constants : Array Value) (instr : Instruction) (op : ArithmeticOp) :
    Action Flow := do
  let operand ← load constants instr.op2
  holding operand do
    let (previous, next) ← update constants instr.op1 fun h current =>
      Operator.arithmetic h op current operand
    release previous
    releaseOperands instr
    storeResult constants instr.result next
  release operand
  return .next

/-- Step `A`; the result is the value after, or the value before. -/
def step (constants : Array Value) (instr : Instruction) (time : StepTime)
    (direction : StepDirection) : Action Flow := do
  let (previous, next) ← update constants instr.op1 fun _ current =>
    Operator.step time direction current
  match time with
  | .pre =>
    release previous
    storeResult constants instr.result next
  | .post => storeOperand constants instr.result previous
  return .next

/-- An operator that reads two operands. -/
def binary (constants : Array Value) (instr : Instruction)
    (f : Heap → Value → Value → Except Fault Value) : Action Flow := do
  let a ← look constants instr.op1
  let b ← look constants instr.op2
  let v ← attempt (f (← get).heap a b)
  releaseOperands instr
  storeOperand constants instr.result v
  return .next

/-- An operator that reads one operand. -/
def unary (constants : Array Value) (instr : Instruction) (op : UnaryOp) : Action Flow := do
  let a ← look constants instr.op1
  let v ← attempt (Operator.unary (← get).heap op a)
  releaseOperands instr
  storeOperand constants instr.result v
  return .next

/-- Go to the target if `A` is falsy. -/
def jumpIfFalse (constants : Array Value) (instr : Instruction) : Action Flow := do
  let v ← look constants instr.op1
  let truthy ← attempt (Fault.ending ((← get).heap.truth? v))
  releaseIfTemporary instr.op1
  return if truthy then .next else .jump instr.target.toNat

/-- End the run with `A`. -/
def finish (constants : Array Value) (instr : Instruction) : Action Flow := do
  let v ← load constants instr.op1
  holding v (releaseIfTemporary instr.op1)
  return .finish v

/-- Empty temporary `A`. -/
def free (instr : Instruction) : Action Flow := do
  match instr.op1 with
  | .temp i => releaseTemporary i
  | o => codeFault (.notTemporary o)
  return .next

/-- `R` is a new composite of the class that `A` names. -/
def newComposite (constants : Array Value) (instr : Instruction) : Action Flow := do
  let s ← get
  match ← attempt (s.resolve constants instr.op1) with
  | .str className =>
    let (id, heap) := s.heap.create className .empty
    set { s with heap := heap }
    storeOperand constants instr.result (.composite id)
    return .next
  | v => throw (.type (.notClassName v.kind))

/-- Set a field of the composite in a place, which is separated first. The value
passes to the composite or is given up. -/
def setFieldAt (place : Place) (key : String) (v : Value) : Action Unit := do
  let _ ← holding v (separate place)
  let s ← get
  match s.peek place with
  | .composite id =>
    let (result, heap) := s.heap.setField id key v
    set { s with heap := heap }
    attempt (result.mapError .contract)
  | other =>
    release v
    throw (.type (.fieldWrite key other.kind))

/-- Set field `B` of `A` to the operand of the data instruction behind, which is
passed over. -/
def setField (f : Function) (instr : Instruction) (pc : Nat) : Action Flow := do
  let data ← match f.code[pc + 1]? with
    | some data => if data.opcode = .opData then pure data else codeFault (.missingData pc)
    | none => codeFault (.missingData pc)
  let key ← attempt (fieldName (← look f.constants instr.op2))
  let v ← load f.constants data.op1
  let place ← holding v (writablePlace f.constants instr.op1)
  setFieldAt place key v
  releaseIfTemporary instr.op2
  releaseIfTemporary data.op1
  return .jump (pc + 2)

/-- `R` is field `B` of `A`, null if there is no such field. -/
def getField (constants : Array Value) (instr : Instruction) : Action Flow := do
  let key ← attempt (fieldName (← look constants instr.op2))
  match ← look constants instr.op1 with
  | .composite id =>
    let v := ((← get).heap.field? id key).getD .null
    acquire v
    holding v do
      releaseIfTemporary instr.op1
      releaseIfTemporary instr.op2
    storeOperand constants instr.result v
    return .next
  | other => throw (.type (.fieldRead key other.kind))

/-- What an instruction does when no handler does it. -/
def execute (f : Function) (instr : Instruction) (pc : Nat) : Action Flow :=
  match instr.opcode with
  | .nop => return .next
  | .assign => assign f.constants instr
  | .assignRef => assignRef f.constants instr
  | .newComposite => newComposite f.constants instr
  | .setField => setField f instr pc
  | .opData => codeFault (.strayData pc)
  | .getField => getField f.constants instr
  | .free => free instr
  | .jmp => return .jump instr.target.toNat
  | .jmpIfFalse => jumpIfFalse f.constants instr
  | .ret => finish f.constants instr
  | .arithmetic op => binary f.constants instr fun h a b => Operator.arithmetic h op a b
  | .boolXor => binary f.constants instr Operator.boolXor
  | .comparison op =>
    binary f.constants instr fun h a b => Fault.ending (Operator.comparison? h op a b)
  | .compound op => compound f.constants instr op
  | .unary op => unary f.constants instr op
  | .step time direction => step f.constants instr time direction

end Builtin

end OverloadMachine
