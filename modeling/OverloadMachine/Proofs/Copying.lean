import OverloadMachine.Machine
import OverloadMachine.Proofs.Evaluation
import OverloadMachine.Proofs.TreeOperators

/-!
# The machine that copies

A machine as simple as can be: a slot holds a tree, and nothing is shared but the
slots that were bound to one another. An assignment copies the tree, a read of a
field copies the tree of the field, and a write of a field replaces the tree of one
variable, and of those that are bound to it, by one that differs in this field.
There are no handles to account for, no heap, and nothing is changed in place.
-/

namespace OverloadMachine

/-- Slots that hold trees. -/
structure TreeStore where
  /-- Tree in a slot; null if nothing was put there. -/
  value : Slot → Tree
  /-- Whether two slots are one, or are bound to one another. -/
  linked : Slot → Slot → Bool

namespace TreeStore

/-- Put a tree into a slot and into all that are bound to it. -/
def write (T : TreeStore) (slot : Slot) (t : Tree) : TreeStore :=
  { T with value := fun other => if T.linked other slot then t else T.value other }

/-- Bind a slot to another one and to those that are bound to that. What it was bound
to before is left alone. -/
def bind (T : TreeStore) (target source : Slot) : TreeStore :=
  let follow slot := if slot = target then source else slot
  { value := fun slot => T.value (follow slot)
    linked := fun slot other => T.linked (follow slot) (follow other) }

/-- Tree that an operand names: that of a literal or that in the operand's slot. -/
def read (T : TreeStore) (constants : Array Value) (literals : Array Tree) : Operand → Tree
  | .unused => .null
  | .const i => literals[i]?.getD .null
  | o => T.value (o.slot constants)

/-- Put a tree into the slot of a result, if the result is used. -/
def deliver (T : TreeStore) (constants : Array Value) (result : Operand) (t : Tree) : TreeStore :=
  if result.isUnused then T else T.write (result.slot constants) t

/-- Empty an operand if it is a temporary. -/
def vacate (T : TreeStore) : Operand → TreeStore
  | .temp i => T.write (.temp i) .null
  | _ => T

/-- Empty the temporaries that an instruction has read, its result excepted. -/
def vacateRead (T : TreeStore) (instr : Instruction) : TreeStore :=
  let U := if instr.op1 ≠ instr.result then T.vacate instr.op1 else T
  if instr.op2 ≠ instr.result then U.vacate instr.op2 else U

end TreeStore

namespace Copying

/-- Where control goes after an instruction. -/
inductive Flow where
  | next
  | jump (pc : Nat)
  | finish (t : Tree)

/-- What becomes of an instruction that makes a scalar, or faults and changes nothing. -/
def making (made : Except Fault Value) (T : TreeStore) (next : Tree → TreeStore) :
    Except Fault Flow × TreeStore :=
  match made with
  | .error fault => (.error fault, T)
  | .ok v => (.ok .next, next (.ofValue v))

section Instructions

variable (constants : Array Value) (literals : Array Tree) (instr : Instruction) (T : TreeStore)

/-- `A = B`, and `R = A` if the result is used. -/
def assign : TreeStore :=
  let t := T.read constants literals instr.op2
  ((T.vacateRead instr).deliver constants instr.result t).write (instr.op1.slot constants) t

/-- `A = A op B`, and `R = A` if the result is used. -/
def compound (op : ArithmeticOp) : Except Fault Flow × TreeStore :=
  let a := T.read constants literals instr.op1
  let b := T.read constants literals instr.op2
  making (Operator.arithmetic .empty op a.surface b.surface) T fun t =>
    ((T.write (instr.op1.slot constants) t).vacateRead instr).deliver constants instr.result t

/-- Step `A`; the result is the value after, or the value before. -/
def step (time : StepTime) (direction : StepDirection) : Except Fault Flow × TreeStore :=
  let a := T.read constants literals instr.op1
  making (Operator.step time direction a.surface) T fun t =>
    (T.write (instr.op1.slot constants) t).deliver constants instr.result
      (match time with
        | .pre => t
        | .post => a)

/-- `R` is what an operator makes of its operands. -/
def operate (made : Except Fault Value) : Except Fault Flow × TreeStore :=
  making made T fun t => (T.vacateRead instr).deliver constants instr.result t

/-- `R` is a new composite of the class that `A` names. -/
def newComposite : Except Fault Flow × TreeStore :=
  match (T.read constants literals instr.op1).surface with
  | .str className => (.ok .next, T.deliver constants instr.result (.node className []))
  | v => (.error (.type (.notClassName v.kind)), T)

/-- Set field `B` of `A` to the operand of the data instruction behind. -/
def setField (data : Instruction) (pc : Nat) : Except Fault Flow × TreeStore :=
  match Builtin.fieldName (T.read constants literals instr.op2).surface with
  | .error fault => (.error fault, T)
  | .ok key =>
    match T.read constants literals instr.op1 with
    | .node className fields =>
      let t := T.read constants literals data.op1
      let U := T.write (instr.op1.slot constants)
        (.node className (OrderedMap.place key t fields))
      (.ok (.jump (pc + 2)), (U.vacate instr.op2).vacate data.op1)
    | other => (.error (.type (.fieldWrite key other.kind)), T)

/-- `R` is field `B` of `A`, null if there is no such field. -/
def getField : Except Fault Flow × TreeStore :=
  match Builtin.fieldName (T.read constants literals instr.op2).surface with
  | .error fault => (.error fault, T)
  | .ok key =>
    match T.read constants literals instr.op1 with
    | .node _ fields =>
      let t := (OrderedMap.lookup key fields).getD .null
      (.ok .next, ((T.vacate instr.op1).vacate instr.op2).deliver constants instr.result t)
    | other => (.error (.type (.fieldRead key other.kind)), T)

end Instructions

/-- What an instruction of a function does to trees. -/
def of (f : Function) (literals : Array Tree) (instr : Instruction) (pc : Nat) (T : TreeStore) :
    Except Fault Flow × TreeStore :=
  let read := T.read f.constants literals
  match instr.opcode with
  | .nop => (.ok .next, T)
  | .assign => (.ok .next, assign f.constants literals instr T)
  | .assignRef =>
    (.ok .next, T.bind (instr.op1.slot f.constants) (instr.op2.slot f.constants))
  | .newComposite => newComposite f.constants literals instr T
  | .setField => setField f.constants literals instr T (f.code[pc + 1]?.getD instr) pc
  | .opData => (.error (.code (.strayData pc)), T)
  | .getField => getField f.constants literals instr T
  | .free => (.ok .next, T.vacate instr.op1)
  | .jmp => (.ok (.jump instr.target.toNat), T)
  | .jmpIfFalse =>
    (.ok (if (read instr.op1).isTruthy then .next else .jump instr.target.toNat),
      T.vacate instr.op1)
  | .ret => (.ok (.finish (read instr.op1)), T.vacate instr.op1)
  | .arithmetic op =>
    operate f.constants instr T
      (Operator.arithmetic .empty op (read instr.op1).surface (read instr.op2).surface)
  | .boolXor =>
    operate f.constants instr T
      (.ok (.bool ((read instr.op1).isTruthy != (read instr.op2).isTruthy)))
  | .comparison op =>
    let same := (read instr.op1).surface.identical (read instr.op2).surface
    operate f.constants instr T
      (.ok (Operator.ofOrder op same ((read instr.op1).compare (read instr.op2))))
  | .compound op => compound f.constants literals instr T op
  | .unary op =>
    operate f.constants instr T (Operator.unary .empty op (read instr.op1).surface)
  | .step time direction => step f.constants literals instr T time direction

/-- How a run ends. -/
inductive Outcome where
  | returned (t : Tree)
  | failed (fault : Fault)
  | unended

/-- A run between two instructions. -/
structure Progress where
  store : TreeStore
  /-- Position of the next instruction. -/
  pc : Nat

/-- What becomes of a run by one instruction. -/
inductive Step where
  | running (p : Progress)
  | ended (outcome : Outcome) (p : Progress)

/-- Fetch and execute one instruction. -/
def next (f : Function) (literals : Array Tree) (p : Progress) : Step :=
  match f.code[p.pc]? with
  | none => .ended (.failed (.code (.positionOutOfRange p.pc))) p
  | some instr =>
    match of f literals instr p.pc p.store with
    | (.ok .next, T) => .running ⟨T, p.pc + 1⟩
    | (.ok (.jump pc), T) => .running ⟨T, pc⟩
    | (.ok (.finish t), T) => .ended (.returned t) ⟨T, p.pc⟩
    | (.error fault, T) => .ended (.failed fault) ⟨T, p.pc⟩

/-- Execute at most `fuel` instructions. -/
def runFor (f : Function) (literals : Array Tree) : (fuel : Nat) → Progress → Step
  | 0, p => .running p
  | fuel + 1, p =>
    match next f literals p with
    | .running p => runFor f literals fuel p
    | ended => ended

/-- End a run that has used up its instructions. -/
def cutShort (f : Function) (limit : Option UInt64) (p : Progress) : Outcome :=
  match f.code[p.pc]? with
  | none => .failed (.code (.positionOutOfRange p.pc))
  | some _ =>
    if limit.getD Machine.fullCount = Machine.fullCount then .unended
    else .failed (.outOfInstructions (Machine.budget limit))

/-- Run a function from its first instruction on. -/
def run (f : Function) (literals : Array Tree) (limit : Option UInt64) (T : TreeStore) :
    Outcome × TreeStore :=
  match runFor f literals (Machine.budget limit) ⟨T, 0⟩ with
  | .ended outcome p => (outcome, p.store)
  | .running p => (cutShort f limit p, p.store)

end Copying

end OverloadMachine
