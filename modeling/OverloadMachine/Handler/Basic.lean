import OverloadMachine.Store

/-!
# Handlers

A handler is native code that runs in place of an operator. It is given as the
tree of what it does with its call: at every step it looks at the call, writes
through it, changes a composite or a cell that the call shows, or answers, and what it does
next may depend on what came back. The tree is finite along every path, so every handler
ends.
-/

namespace OverloadMachine

/-- An operand as a handler sees it, one cell looked through. -/
structure Seen where
  value : Value
  /-- Whether the operand's slot is bound to a cell. -/
  indirect : Bool

/-- The unary operator that a product stands for, as a handler sees it. -/
structure SeenSign where
  sign : Sign
  /-- Side on which the value stands. -/
  side : Side
  operand : Seen

/-- What a handler sees of its call. -/
structure CallView where
  instr : Instruction
  category : Category
  order : NegationOrder
  op1 : Seen
  /-- Absent if the category reads no second operand or none is given. -/
  op2 : Option Seen
  sign : Option SeenSign
  heap : Heap

namespace CallView

/-- Whether the handler is given a result. -/
def hasResult (view : CallView) : Bool :=
  view.category.alwaysYields || !view.instr.result.isUnused

/-- Operand on a side. -/
def operand (view : CallView) : Side → Option Seen
  | .first => some view.op1
  | .second => view.op2

end CallView

/-- Where in a call a handler finds a value to copy the handle of: an operand, or
what is reached from one through fields and cells. -/
inductive Source where
  | operand (side : Side)
  | signOperand
  /-- A field of the composite at a source. -/
  | field (source : Source) (key : String)
  /-- The content of the cell at a source. -/
  | content (source : Source)
  /-- The composite at a source; null if there is none. -/
  | composite (source : Source)

/-- Value at a source; null if there is none. -/
def CallView.find (view : CallView) : Source → Value
  | .operand side => ((view.operand side).map (·.value)).getD .null
  | .signOperand => (view.sign.map (·.operand.value)).getD .null
  | .field source key =>
    ((view.find source).composite? >>= fun id => view.heap.field? id key).getD .null
  | .content source =>
    match view.find source with
    | .ref cell => view.heap.content cell
    | _ => .null
  | .composite source => ((view.find source).composite?.map Value.composite).getD .null

/-- A value that a handler makes. -/
inductive Draft where
  /-- A value that is no handle; a handle becomes null. -/
  | scalar (v : Value)
  /-- Another handle of what the call shows. -/
  | copy (source : Source)
  /-- A new composite like the one at a source; null if there is none. -/
  | duplicate (source : Source)
  /-- A new composite. -/
  | new (className : String) (fields : List (String × Draft))
  /-- A new cell. -/
  | cell (content : Draft)

/-- What a handler answers. -/
inductive Answer where
  | handled
  | declined
  | unsupported (reason : Unsupported)
  | violated (violation : Violation)

/-- Why a field could not be written through a call. -/
inductive Refusal where
  | unsupported (reason : Unsupported)
  | violated (violation : Violation)

/-- The answer that passes a refusal on. -/
def Refusal.answer : Refusal → Answer
  | unsupported reason => .unsupported reason
  | violated violation => .violated violation

/-- A change of a composite or of a cell, with values of a kind. -/
inductive Mutation (α : Type) where
  /-- Set fields of a composite, guarded or not. -/
  | setFields (guarded : Bool) (fields : List (String × α))
  /-- Remove a field of a composite, guarded or not. -/
  | removeField (guarded : Bool) (key : String)
  /-- Set or clear the flag of a composite. -/
  | setFlag (flag : Bool)
  /-- Replace the content of a cell. -/
  | setContent (content : α)

/-- What a handler does with its call. -/
inductive Handler where
  /-- Answer, which ends the call. -/
  | answer (answer : Answer)
  /-- Look at the call. -/
  | inspect (next : CallView → Handler)
  /-- Leave a note. -/
  | note (note : Note) (next : Handler)
  /-- Set the result, which is stored when the handler has answered. -/
  | setResult (value : Draft) (next : Except Violation Unit → Handler)
  /-- Write the first operand. -/
  | write (value : Draft) (next : Except Violation Unit → Handler)
  /-- Separate the holder of the first operand's composite. -/
  | separate (next : Except Violation Bool → Handler)
  /-- Set fields of the first operand's composite, guarded or not. -/
  | setFields (guarded : Bool) (fields : List (String × Draft))
      (next : Except Refusal Unit → Handler)
  /-- Set or clear the flag of the first operand's composite, if it shows one. -/
  | setFlag (flag : Bool) (next : Except Violation Unit → Handler)
  /-- Change the composite or the cell at a source, whether the instruction assigns or not. -/
  | mutate (source : Source) (change : Mutation Draft) (next : Except Refusal Unit → Handler)

namespace Handler

/-- Go on after a success, and pass a violation on as the answer. -/
def orViolated {α : Type} (next : α → Handler) : Except Violation α → Handler
  | .ok a => next a
  | .error violation => .answer (.violated violation)

/-- Go on after a success, and pass a refusal on as the answer. -/
def orRefused {α : Type} (next : α → Handler) : Except Refusal α → Handler
  | .ok a => next a
  | .error refusal => .answer refusal.answer

end Handler

end OverloadMachine
