import OverloadMachine.Handler.Basic

/-!
# Calls

What a handler's steps do to the store, and how its answer is taken. The
operands are checked before the handler runs. A result is held back until the
handler has answered, and is stored only if it has handled the instruction; then
the temporaries that the instruction has read are emptied. A violation that was
met on the way ends the run, whatever the handler answers. A handler that opens a
cell while it is open never comes to answer.
-/

namespace OverloadMachine

/-- What is fixed during a call. -/
structure CallContext where
  instr : Instruction
  category : Category
  constants : Array Value
  order : NegationOrder

/-- What changes during a call. -/
structure CallState where
  store : Store
  /-- The result that is held back, with its handle. -/
  pending : Option Value
  /-- The first violation that was met. -/
  violation : Option Violation

namespace CallContext

/-- Operand as the handler sees it. The operands were checked before the call. -/
def see (ctx : CallContext) (s : Store) (o : Operand) : Seen :=
  match s.view ctx.constants o with
  | .ok (v, indirect) => ⟨v, indirect⟩
  | .error _ => ⟨.null, false⟩

/-- The call as the handler sees it. -/
def view (ctx : CallContext) (s : Store) : CallView where
  instr := ctx.instr
  category := ctx.category
  order := ctx.order
  op1 := ctx.see s ctx.instr.op1
  op2 :=
    if ctx.category.hasSecondOperand && !ctx.instr.op2.isUnused then
      some (ctx.see s ctx.instr.op2)
    else none
  sign :=
    (ctx.order.sign? ctx.constants ctx.instr).map fun sign =>
      let side := ctx.order.valueSide
      ⟨sign, side, ctx.see s (side.select ctx.instr)⟩
  heap := s.heap

/-- Whether the handler is given a result. -/
def hasResult (ctx : CallContext) : Bool :=
  ctx.category.alwaysYields || !ctx.instr.result.isUnused

end CallContext

mutual

/-- Make a value. The maker holds its handle. -/
def Draft.build (view : CallView) (h : Heap) : Draft → Value × Heap
  | .scalar v => (if v.isHandle then .null else v, h)
  | .copy source =>
    let v := view.find source
    (v, h.acquire v)
  | .duplicate source =>
    match (view.find source).composite? >>= h.composite? with
    | some c =>
      let (id, h) := h.duplicate c
      (.composite id, h)
    | none => (.null, h)
  | .new className fields =>
    let (entries, h) := Draft.buildEach view h fields
    let (id, h) := h.createWith className entries
    (.composite id, h)
  | .cell content =>
    let (v, h) := Draft.build view h content
    let (id, h) := h.createCell v
    (.ref id, h)

/-- Make values for names, from left to right. -/
def Draft.buildEach (view : CallView) (h : Heap) :
    List (String × Draft) → List (String × Value) × Heap
  | [] => ([], h)
  | (key, draft) :: rest =>
    let (v, h) := Draft.build view h draft
    let (values, h) := Draft.buildEach view h rest
    ((key, v) :: values, h)

end

/-- Make the values of a change. -/
def Mutation.build (view : CallView) (h : Heap) : Mutation Draft → Mutation Value × Heap
  | .setFields guarded fields =>
    let (entries, h) := Draft.buildEach view h fields
    (.setFields guarded entries, h)
  | .removeField guarded key => (.removeField guarded key, h)
  | .setFlag flag => (.setFlag flag, h)
  | .setContent content =>
    let (v, h) := content.build view h
    (.setContent v, h)

/-- The values that a change puts somewhere. -/
def Mutation.values : Mutation Value → List Value
  | .setFields _ entries => entries.map (·.2)
  | .setContent v => [v]
  | .removeField _ _ | .setFlag _ => []

/-- Kind of what a change changes. -/
def Mutation.kind {α : Type} : Mutation α → Kind
  | .setFields _ _ | .removeField _ _ | .setFlag _ => .composite
  | .setContent _ => .ref

/-- Change what a value is a handle of. The values of the change are given up if the guard
refuses it, or if it is no change of that kind. -/
def Heap.change (h : Heap) : Value → Mutation Value → Except Refusal Unit × Heap
  | .composite id, .setFields guarded entries =>
    if guarded then
      let (result, h) := h.setFields id entries
      (result.mapError .violated, h)
    else (.ok (), h.insertFields id entries)
  | .composite id, .removeField guarded key =>
    match if guarded then h.checkMutation id else .ok () with
    | .ok () => (.ok (), (h.eraseField id key).2)
    | .error violation => (.error (.violated violation), h)
  | .composite id, .setFlag flag => (.ok (), h.setFlag id flag)
  | .ref cell, .setContent v => (.ok (), (h.putContent cell v).release (h.content cell))
  | v, change =>
    (.error (.unsupported ⟨change.kind.name, v.kind.name⟩), h.releaseAll change.values)

namespace CallState

/-- Make a value; the caller holds its handle. -/
def build (ctx : CallContext) (c : CallState) (draft : Draft) : Value × CallState :=
  let (v, heap) := draft.build (ctx.view c.store) c.store.heap
  (v, { c with store := { c.store with heap := heap } })

/-- Give up a handle. -/
def release (c : CallState) (v : Value) : CallState :=
  { c with store := { c.store with heap := c.store.heap.release v } }

/-- Refuse a write; only the first violation is kept. -/
def refuse (c : CallState) (violation : Violation) : CallState :=
  { c with violation := some (c.violation.getD violation) }

/-- Place of the first operand, for writing. That an instruction does not assign
is kept as a violation; that its operand cannot be written is only reported. -/
def target (ctx : CallContext) (c : CallState) : Except Violation Place × CallState :=
  let violation := Violation.notAssignable ctx.instr.opcode
  if ctx.category.isAssignment then
    match Action.writablePlace ctx.constants ctx.instr.op1 c.store with
    | (.ok place, store) => (.ok place, { c with store := store })
    | (.error _, store) => (.error violation, { c with store := store })
  else (.error violation, c.refuse violation)

/-- Hold back a result in place of the one before it. -/
def setResult (ctx : CallContext) (c : CallState) (draft : Draft) :
    Except Violation Unit × CallState :=
  let (v, c) := c.build ctx draft
  if ctx.hasResult then
    let c := match c.pending with
      | some old => c.release old
      | none => c
    (.ok (), { c with pending := some v })
  else
    let violation := Violation.unusedResult ctx.instr.opcode
    (.error violation, (c.refuse violation).release v)

/-- Write the first operand. -/
def write (ctx : CallContext) (c : CallState) (draft : Draft) :
    Except Violation Unit × CallState :=
  let (v, c) := c.build ctx draft
  match c.target ctx with
  | (.ok place, c) => (.ok (), { c with store := c.store.overwrite place v })
  | (.error violation, c) => (.error violation, c.release v)

/-- Separate the holder of the first operand's composite. The operand is open
meanwhile, so there is no answer if it is a cell that is bound to itself. -/
def separate (ctx : CallContext) (c : CallState) :
    Option (Except Violation Bool) × CallState :=
  match c.target ctx with
  | (.ok place, c) =>
    if c.store.isSelfBound place then (none, c)
    else
      let (copied, store) := c.store.separate place
      (some (.ok copied), { c with store := store })
  | (.error violation, c) => (some (.error violation), c)

/-- Set fields of the first operand's composite. The values are made before the
operand is looked up, and given up if they cannot be set. -/
def setFields (ctx : CallContext) (c : CallState) (guarded : Bool)
    (fields : List (String × Draft)) : Except Refusal Unit × CallState :=
  let (entries, heap) := Draft.buildEach (ctx.view c.store) c.store.heap fields
  let c := { c with store := { c.store with heap := heap } }
  match c.target ctx with
  | (.ok place, c) =>
    match c.store.peek place with
    | .composite id =>
      if guarded then
        let (result, heap) := c.store.heap.setFields id entries
        (result.mapError .violated, { c with store := { c.store with heap := heap } })
      else
        (.ok (), { c with store :=
          { c.store with heap := c.store.heap.insertFields id entries } })
    | v =>
      (.error (.unsupported ⟨"composite", v.kind.name⟩),
        entries.foldl (fun c e => c.release e.2) c)
  | (.error violation, c) =>
    (.error (.violated violation), entries.foldl (fun c e => c.release e.2) c)

/-- Set or clear the flag of the first operand's composite. -/
def setFlag (ctx : CallContext) (c : CallState) (flag : Bool) :
    Except Violation Unit × CallState :=
  match c.target ctx with
  | (.ok place, c) =>
    match c.store.peek place with
    | .composite id =>
      (.ok (), { c with store := { c.store with heap := c.store.heap.setFlag id flag } })
    | _ => (.ok (), c)
  | (.error violation, c) => (.error violation, c)

/-- Change the composite or the cell at a source. A refusal is only reported. -/
def mutate (ctx : CallContext) (c : CallState) (source : Source) (change : Mutation Draft) :
    Except Refusal Unit × CallState :=
  let view := ctx.view c.store
  let (change, heap) := change.build view c.store.heap
  let (result, heap) := heap.change (view.find source) change
  (result, { c with store := { c.store with heap := heap } })

/-- Leave a note. -/
def addNote (c : CallState) (note : Note) : CallState :=
  { c with store := { c.store with notes := c.store.notes.push note } }

end CallState

/-- Run a handler on a call. It does not come to answer if it opens a cell that is
open. -/
def Handler.run (ctx : CallContext) : Handler → CallState → Option Answer × CallState
  | .answer reply, c => (some reply, c)
  | .inspect next, c => (next (ctx.view c.store)).run ctx c
  | .note line next, c => next.run ctx (c.addNote line)
  | .setResult value next, c =>
    let (result, c) := c.setResult ctx value
    (next result).run ctx c
  | .write value next, c =>
    let (result, c) := c.write ctx value
    (next result).run ctx c
  | .separate next, c =>
    match c.separate ctx with
    | (some result, c) => (next result).run ctx c
    | (none, c) => (none, c)
  | .setFields guarded fields next, c =>
    let (result, c) := c.setFields ctx guarded fields
    (next result).run ctx c
  | .setFlag flag next, c =>
    let (result, c) := c.setFlag ctx flag
    (next result).run ctx c
  | .mutate source change next, c =>
    let (result, c) := c.mutate ctx source change
    (next result).run ctx c

/-- What becomes of an instruction after its handler has run. -/
inductive Decision where
  /-- It is done. -/
  | handled
  /-- The built-in operator runs. -/
  | declined
  deriving DecidableEq, Repr

namespace Store

/-- Every operand that a handler may touch is there. -/
def checkOperands (s : Store) (constants : Array Value) (instr : Instruction)
    (category : Category) : Except Fault Unit := do
  let _ ← s.resolve constants instr.op1
  if category.hasSecondOperand then
    let _ ← s.resolve constants instr.op2
  match instr.result with
  | .const i => throw (.code (.constantResult instr.opcode i))
  | result =>
    let _ ← s.resolve constants result
    return

end Store

namespace Action

/-- Give up the result that was held back. -/
def dropPending : Option Value → Action Unit
  | some v => release v
  | none => return

/-- Take the answer of a handler. -/
def conclude (constants : Array Value) (instr : Instruction) (answer : Answer)
    (pending : Option Value) : Action Decision := do
  match answer with
  | .handled =>
    match pending with
    | some v =>
      if instr.result.isUnused then release v else storeOperand constants instr.result v
    | none => pure ()
    releaseOperands instr
    clearScratch
    return .handled
  | .declined | .unsupported _ =>
    dropPending pending
    clearScratch
    return .declined
  | .violated violation =>
    dropPending pending
    throw (.contract violation)

/-- Run a handler for an instruction. -/
def invoke (handler : Handler) (constants : Array Value) (order : NegationOrder)
    (instr : Instruction) : Action Decision := do
  match instr.opcode.category? with
  | none => codeFault (.notOperator instr.opcode)
  | some category =>
    attempt ((← get).checkOperands constants instr category)
    let (answer, c) := handler.run ⟨instr, category, constants, order⟩ ⟨← get, none, none⟩
    set c.store
    match answer, c.violation with
    | none, _ =>
      dropPending c.pending
      throw .reentry
    | some _, some violation =>
      dropPending c.pending
      throw (.contract violation)
    | some answer, none => conclude constants instr answer c.pending

end Action

end OverloadMachine
