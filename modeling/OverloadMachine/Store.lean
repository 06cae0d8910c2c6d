import OverloadMachine.Fault
import OverloadMachine.Frame
import OverloadMachine.Heap.Text
import OverloadMachine.Negation

/-!
# The store

The store is what instructions work on: the heap, the slots of a frame, and what
handlers have noted. This module gives operands their meaning on it. A read
looks through at most one cell, and so does a write: what is written through a
variable that is bound to a cell is seen through every variable bound to it.
-/

namespace OverloadMachine

/-- An operand as a handler shows it in a note. -/
structure Shown where
  text : String
  /-- Whether the operand's slot is bound to a cell. -/
  indirect : Bool

/-- What a handler may note about its call. -/
structure CallNote where
  instr : Instruction
  category : Category
  hasResult : Bool
  op1 : Shown
  op2 : Option Shown
  sign : Option (Sign × Side × String)
  order : NegationOrder

/-- One note of a handler. -/
inductive Note where
  /-- The call as the handler sees it. -/
  | call (note : CallNote)
  /-- What became of a write: done, or refused. -/
  | outcome (violation : Option Violation)
  /-- Whether a copy was made. -/
  | separated (copied : Bool)
  /-- Why the handler declines. -/
  | unsupported (reason : Unsupported)

/-- Heap, frame and notes. -/
structure Store where
  heap : Heap
  frame : Frame
  notes : Array Note
  deriving Inhabited

/-- A change of the store that may end in a fault. The store keeps what was done
before the fault. -/
abbrev Action (α : Type) := ExceptT Fault (StateM Store) α

namespace Action

/-- End in a fault that is not the program's doing. -/
def codeFault {α : Type} (cause : CodeFault) : Action α := throw (.code cause)

/-- Change the heap. -/
def onHeap (f : Heap → Heap) : Action Unit :=
  modify fun s => { s with heap := f s.heap }

/-- Change the frame. -/
def onFrame (f : Frame → Frame) : Action Unit :=
  modify fun s => { s with frame := f s.frame }

/-- Account for one more handle. -/
def acquire (v : Value) : Action Unit := onHeap (·.acquire v)

/-- Give up a handle. -/
def release (v : Value) : Action Unit := onHeap (·.release v)

/-- Do something while holding a value, which is given up on a fault. -/
def holding {α : Type} (v : Value) (act : Action α) : Action α :=
  tryCatch act fun fault => do
    release v
    throw fault

/-- Take a result, or end in its fault. -/
def attempt {α : Type} : Except Fault α → Action α
  | .ok a => pure a
  | .error fault => throw fault

end Action

/-- A place of the store that holds a value: a slot or the inside of a cell. -/
inductive Place where
  | slot (slot : Slot)
  | cell (cell : CellId)
  deriving DecidableEq, Repr

namespace Store

/-- Value in a place. -/
def peek (s : Store) : Place → Value
  | .slot slot => s.frame.get slot
  | .cell cell => s.heap.content cell

/-- Put a value into a place. The handle of the value before it passes to the caller. -/
def put (s : Store) (place : Place) (v : Value) : Store :=
  match place with
  | .slot slot => { s with frame := s.frame.put slot v }
  | .cell cell => { s with heap := s.heap.putContent cell v }

/-- Put a value into a place and give up the one before it. -/
def overwrite (s : Store) (place : Place) (v : Value) : Store :=
  let old := s.peek place
  let next := s.put place v
  { next with heap := next.heap.release old }

/-- Place that a slot shows: the inside of the cell that it is bound to, else the
slot itself. -/
def placeOf (s : Store) (slot : Slot) : Place :=
  match s.frame.get slot with
  | .ref cell => .cell cell
  | _ => .slot slot

/-- Whether a place is the inside of a cell that is bound to itself. -/
def isSelfBound (s : Store) : Place → Bool
  | .slot _ => false
  | .cell cell =>
    match s.heap.content cell with
    | .ref inner => inner == cell
    | _ => false

/-- Separate the holder in a place from the other holders of its composite. Says
whether a copy was made. -/
def separate (s : Store) (place : Place) : Bool × Store :=
  let (v, copied, heap) := s.heap.separate (s.peek place)
  (copied, ({ s with heap := heap } : Store).put place v)

end Store

/-! ## Operands -/

/-- Name of a dynamic variable. -/
def variableName (constants : Array Value) (index : Nat) : Except Fault String :=
  match constants[index]? with
  | some (.str name) => .ok name
  | _ => .error (.code (.nameNotText index))

namespace Store

/-- What an operand's slot holds. Nothing and undefined dynamic variables read as null. -/
def resolve (s : Store) (constants : Array Value) : Operand → Except Fault Value
  | .unused => .ok .null
  | .const i =>
    match constants[i]? with
    | some v => .ok v
    | none => .error (.code (.constantOutOfBounds i constants.size))
  | .temp i =>
    match s.frame.temps[i]? with
    | some v => .ok v
    | none => .error (.code (.temporaryOutOfBounds i s.frame.temps.size))
  | .var i =>
    match s.frame.vars[i]? with
    | some v => .ok v
    | none => .error (.code (.variableOutOfBounds i s.frame.vars.size))
  | .dynamic i => do
    let name ← variableName constants i
    return s.frame.get (.symbol name)

/-- What an operand shows, one cell looked through, and whether there was one. -/
def view (s : Store) (constants : Array Value) (o : Operand) : Except Fault (Value × Bool) :=
  (s.resolve constants o).map s.heap.lookThrough

end Store

namespace Action

/-- Value that an operand shows. The store keeps its handle. -/
def look (constants : Array Value) (o : Operand) : Action Value := do
  let s ← get
  return (← attempt (s.view constants o)).1

/-- Value that an operand shows, with a handle of its own. -/
def load (constants : Array Value) (o : Operand) : Action Value := do
  let v ← look constants o
  acquire v
  return v

/-- Slot of a temporary. -/
def temporarySlot (i : Nat) : Action Slot := do
  let size := (← get).frame.temps.size
  if i < size then return .temp i else codeFault (.temporaryOutOfBounds i size)

/-- Slot of a variable. -/
def variableSlot (i : Nat) : Action Slot := do
  let size := (← get).frame.vars.size
  if i < size then return .var i else codeFault (.variableOutOfBounds i size)

/-- Slot of an operand, for writing. Nothing means the scratch slot, and an
undefined dynamic variable is defined as null. -/
def writableSlot (constants : Array Value) : Operand → Action Slot
  | .unused => return .scratch
  | .const i => codeFault (.constantWritten i)
  | .temp i => temporarySlot i
  | .var i => variableSlot i
  | .dynamic i => do
    let name ← attempt (variableName constants i)
    onFrame (·.define name)
    return .symbol name

/-- Place that an operand shows, for writing. -/
def writablePlace (constants : Array Value) (o : Operand) : Action Place := do
  let slot ← writableSlot constants o
  return (← get).placeOf slot

/-- Put a value into a place and give up the one before it. -/
def overwrite (place : Place) (v : Value) : Action Unit :=
  modify (·.overwrite place v)

/-- Separate the holder in a place. The place is open meanwhile, so a cell that is
bound to itself would be opened twice. -/
def separate (place : Place) : Action Bool := do
  let s ← get
  if s.isSelfBound place then throw .reentry
  let (copied, s) := s.separate place
  set s
  return copied

/-- Store a value, which passes to the operand's place or is given up. -/
def storeOperand (constants : Array Value) (o : Operand) (v : Value) : Action Unit := do
  let place ← holding v (writablePlace constants o)
  overwrite place v

/-- Empty a temporary. -/
def releaseTemporary (i : Nat) : Action Unit := do
  let slot ← temporarySlot i
  overwrite (.slot slot) .null

/-- Empty an operand if it is a temporary. -/
def releaseIfTemporary : Operand → Action Unit
  | .temp i => releaseTemporary i
  | _ => return

/-- Empty the temporaries that an instruction has read, its result excepted. -/
def releaseOperands (instr : Instruction) : Action Unit := do
  if instr.op1 ≠ instr.result then releaseIfTemporary instr.op1
  if instr.op2 ≠ instr.result then releaseIfTemporary instr.op2

/-- Empty the scratch slot. -/
def clearScratch : Action Unit := overwrite (.slot .scratch) .null

end Action

end OverloadMachine
