import OverloadMachine.Heap.Text

/-!
# Workspaces

A workspace is a heap with named slots, and a set of operations by which native
code manages composites: it makes, copies and shares them, moves them into
reference cells, and changes them, guarded or not. A slot holds a handle of its
own; storing into a slot gives up what the slot held before.
-/

namespace OverloadMachine

/-- A value that is no handle; a handle becomes null. -/
def Value.scalarPart (v : Value) : Value := if v.isHandle then .null else v

/-- A heap with named slots. -/
structure Workspace where
  heap : Heap
  slots : NameMap Value

/-- What a field is set to. -/
inductive Supply where
  /-- A scalar. -/
  | scalar (v : Value)
  /-- Another handle of what a slot holds. -/
  | slot (source : String)

/-- An operation on the slots of a workspace. The values that it brings along are
scalars; handles come from other slots only. -/
inductive Operation where
  /-- A new composite without fields. -/
  | create (slot className : String)
  /-- A new composite with fields. -/
  | createWith (slot className : String) (fields : List (String × Value))
  /-- A new composite with fields that are supplied. -/
  | assemble (slot className : String) (fields : List (String × Supply))
  /-- A scalar. -/
  | value (slot : String) (v : Value)
  /-- Another handle of what a slot holds. -/
  | clone (slot source : String)
  /-- A new cell, into which the content of a slot moves. -/
  | bind (slot source : String)
  /-- Move the content of a slot into the cell that another slot holds. -/
  | moveInto (slot source : String)
  /-- Another handle of what a slot shows, one cell looked through. -/
  | deref (slot source : String)
  /-- Another handle of what a field holds. -/
  | fetch (slot source key : String)
  /-- Another handle of the composite in a slot. -/
  | wrap (slot source : String)
  /-- A copy of the composite in a slot. -/
  | duplicate (slot source : String)
  /-- Empty a slot. -/
  | drop (slot : String)
  /-- Empty a slot and count the handles that are left of its composite. -/
  | unwrap (slot : String)
  /-- Separate a slot from the other holders of its composite. -/
  | separate (slot : String)
  /-- Set a field to a scalar. -/
  | set (slot key : String) (v : Value)
  /-- Set a field to another handle of what a slot holds. -/
  | put (slot key source : String)
  /-- Set a field to a scalar, whoever shares the composite. -/
  | setUnguarded (slot key : String) (v : Value)
  /-- Remove a field. -/
  | remove (slot key : String)
  /-- Remove a field, whoever shares the composite. -/
  | removeUnguarded (slot key : String)
  /-- Ask for access to the fields and list their names. -/
  | peek (slot : String)
  /-- Set fields to scalars. -/
  | insert (slot : String) (fields : List (String × Value))
  /-- Set fields to what is supplied. -/
  | insertAll (slot : String) (fields : List (String × Supply))
  /-- Set fields to what is supplied, whoever shares the composite. -/
  | insertUnguarded (slot : String) (fields : List (String × Supply))
  /-- Allow or forbid changes in place while the composite is shared. -/
  | flag (slot : String) (allow : Bool)
  /-- Read a field. -/
  | get (slot key : String)
  /-- Ask who holds the composite and whether it may be changed in place. -/
  | check (slot : String)
  /-- Number of fields. -/
  | size (slot : String)
  /-- Whether two slots hold identical values. -/
  | equal (a b : String)
  /-- Whether two slots hold one composite. -/
  | same (a b : String)
  /-- The texts of what a slot holds. -/
  | text (slot : String)

/-- What an operation answers. -/
inductive Reply where
  | done
  | notComposite
  | refused (violation : Violation)
  | flag (b : Bool)
  | names (names : List String)
  /-- Number of handles that are left; none if no composite was held. -/
  | remaining (count : Option Nat)
  /-- A field's value with its listing; the listing counts the reader's handle. -/
  | field (found : Option (Value × String))
  /-- Number of handles, and the answer of the guard. -/
  | guarded (count : Nat) (mutation : Except Violation Unit)
  | size (count : Nat)
  /-- Plain text, listing, and the listing seen through a handle, if there is one. -/
  | texts (plain listing : String) (shared : Option String)

namespace Workspace

/-- The workspace without slots and nodes. -/
def empty : Workspace := ⟨.empty, .empty⟩

/-- Content of a slot; an absent slot reads as null. -/
def read (w : Workspace) (slot : String) : Value := (w.slots.get? slot).getD .null

/-- Composite in a slot. -/
def composite? (w : Workspace) (slot : String) : Option CompositeId := (w.read slot).composite?

/-- Replace the heap. -/
def withHeap (w : Workspace) (heap : Heap) : Workspace := { w with heap := heap }

/-- Store a value, whose handle passes to the slot. -/
def store (w : Workspace) (slot : String) (v : Value) : Workspace :=
  let old := w.read slot
  ⟨w.heap.release old, w.slots.insert slot v⟩

/-- Reading after a store. -/
theorem read_store (w : Workspace) (slot other : String) (v : Value) :
    (w.store slot v).read other = if slot = other then v else w.read other := by
  by_cases h : slot = other <;> simp [read, store, h]

/-- Store another handle of a value. -/
def storeCopy (w : Workspace) (slot : String) (v : Value) : Workspace :=
  (w.withHeap (w.heap.acquire v)).store slot v

/-- Take the content of a slot, whose handle passes to the caller. -/
def take (w : Workspace) (slot : String) : Value × Workspace :=
  (w.read slot, { w with slots := w.slots.erase slot })

/-- Reading after a slot was emptied. -/
theorem read_take (w : Workspace) (slot other : String) :
    (w.take slot).2.read other = if slot = other then .null else w.read other := by
  by_cases h : slot = other <;> simp [read, take, h]

/-- Act on the composite in a slot, or answer that there is none. -/
def onComposite (w : Workspace) (slot : String) (act : CompositeId → Reply × Workspace) :
    Reply × Workspace :=
  match w.composite? slot with
  | some id => act id
  | none => (.notComposite, w)

/-- Answer of a change that the guard may refuse. -/
def reply {α : Type} (onSuccess : α → Reply) : Except Violation α → Reply
  | .ok a => onSuccess a
  | .error violation => .refused violation

/-- Set fields under the guard. The values' handles pass to the composite or are
given up. -/
def setFields (w : Workspace) (id : CompositeId) (entries : List (String × Value)) :
    Reply × Workspace :=
  let (result, heap) := w.heap.setFields id entries
  (reply (fun _ => .done) result, w.withHeap heap)

/-- Read a field; the reader holds a handle while the listing is made. -/
def readField (w : Workspace) (id : CompositeId) (key : String) : Reply :=
  .field ((w.heap.field? id key).map fun v => (v, (w.heap.acquire v).listing v))

/-- The texts of a value. -/
def textsOf (w : Workspace) (v : Value) : Reply :=
  let listing := w.heap.listing v
  .texts (w.heap.plainText v) listing <| match v with
    | .composite _ => some ("&" ++ listing)
    | .ref _ => some listing
    | _ => none

/-- The values that are supplied for fields. -/
def supplies (w : Workspace) (fields : List (String × Supply)) : List (String × Value) :=
  fields.map fun e => (e.1, match e.2 with
    | .scalar v => v.scalarPart
    | .slot source => w.read source)

/-- The workspace with a handle of each value that is supplied. -/
def supplied (w : Workspace) (fields : List (String × Supply)) : Workspace :=
  w.withHeap (w.heap.acquireAll ((w.supplies fields).map (·.2)))

/-- Move the content of a slot into a cell. The cell is held meanwhile, since the slot
may be the one that holds it. -/
def moveInto (w : Workspace) (cell : CellId) (source : String) : Workspace :=
  let (v, next) := (w.withHeap (w.heap.acquire (.ref cell))).take source
  let old := next.heap.content cell
  next.withHeap (((next.heap.putContent cell v).release old).release (.ref cell))

/-- Carry out an operation. -/
def apply (w : Workspace) : Operation → Reply × Workspace
  | .create slot className =>
    let (id, heap) := w.heap.create className .empty
    (.done, (w.withHeap heap).store slot (.composite id))
  | .createWith slot className fields =>
    let scalars := fields.map fun e => (e.1, e.2.scalarPart)
    let (id, heap) := w.heap.create className (.ofList scalars)
    (.done, (w.withHeap heap).store slot (.composite id))
  | .assemble slot className fields =>
    let (id, heap) := (w.supplied fields).heap.createWith className (w.supplies fields)
    (.done, (w.withHeap heap).store slot (.composite id))
  | .value slot v => (.done, w.store slot v.scalarPart)
  | .clone slot source => (.done, w.storeCopy slot (w.read source))
  | .bind slot source =>
    let (v, w) := w.take source
    let (cell, heap) := w.heap.createCell v
    (.done, (w.withHeap heap).store slot (.ref cell))
  | .moveInto slot source =>
    match w.read slot with
    | .ref cell => (.flag true, w.moveInto cell source)
    | _ => (.flag false, w)
  | .deref slot source => (.done, w.storeCopy slot (w.heap.lookThrough (w.read source)).1)
  | .fetch slot source key =>
    w.onComposite source fun id =>
      match w.heap.field? id key with
      | some v => (.flag true, w.storeCopy slot v)
      | none => (.flag false, w)
  | .wrap slot source =>
    w.onComposite source fun id => (.done, w.storeCopy slot (.composite id))
  | .duplicate slot source =>
    match w.composite? source >>= w.heap.composite? with
    | some c =>
      let (id, heap) := w.heap.duplicate c
      (.done, (w.withHeap heap).store slot (.composite id))
    | none => (.notComposite, w)
  | .drop slot =>
    let (v, next) := w.take slot
    (.flag (w.slots.contains slot), next.withHeap (next.heap.release v))
  | .unwrap slot =>
    let (v, next) := w.take slot
    let (count, heap) := next.heap.unwrap v
    (.remaining count, next.withHeap heap)
  | .separate slot =>
    if w.slots.contains slot then
      let (v, copied, heap) := w.heap.separate (w.read slot)
      (.flag copied, ⟨heap, w.slots.insert slot v⟩)
    else (.flag false, w)
  | .set slot key v => w.onComposite slot fun id => w.setFields id [(key, v.scalarPart)]
  | .put slot key source =>
    w.onComposite slot fun id =>
      let v := w.read source
      (w.withHeap (w.heap.acquire v)).setFields id [(key, v)]
  | .setUnguarded slot key v =>
    w.onComposite slot fun id =>
      (.flag (w.heap.field? id key).isSome,
        w.withHeap (w.heap.insertField id key v.scalarPart))
  | .remove slot key =>
    w.onComposite slot fun id =>
      match w.heap.checkMutation id with
      | .ok () =>
        let (found, heap) := w.heap.eraseField id key
        (.flag found, w.withHeap heap)
      | .error violation => (.refused violation, w)
  | .removeUnguarded slot key =>
    w.onComposite slot fun id =>
      let (found, heap) := w.heap.eraseField id key
      (.flag found, w.withHeap heap)
  | .peek slot =>
    w.onComposite slot fun id =>
      let names := ((w.heap.composite? id).map fun c => c.fields.keys).getD []
      (reply (fun _ => .names names) (w.heap.checkMutation id), w)
  | .insert slot fields =>
    w.onComposite slot fun id => w.setFields id (fields.map fun e => (e.1, e.2.scalarPart))
  | .insertAll slot fields =>
    w.onComposite slot fun id => (w.supplied fields).setFields id (w.supplies fields)
  | .insertUnguarded slot fields =>
    w.onComposite slot fun id =>
      (.done, w.withHeap ((w.supplied fields).heap.insertFields id (w.supplies fields)))
  | .flag slot allow =>
    w.onComposite slot fun id => (.done, w.withHeap (w.heap.setFlag id allow))
  | .get slot key => w.onComposite slot fun id => (w.readField id key, w)
  | .check slot =>
    w.onComposite slot fun id =>
      (.guarded (w.heap.countOf id) (w.heap.checkMutation id), w)
  | .size slot =>
    w.onComposite slot fun id =>
      (.size (((w.heap.composite? id).map fun c => c.fields.size).getD 0), w)
  | .equal a b => (.flag ((w.read a).identical (w.read b)), w)
  | .same a b =>
    match w.composite? a, w.composite? b with
    | some a, some b => (.flag (a == b), w)
    | _, _ => (.notComposite, w)
  | .text slot => (w.textsOf (w.read slot), w)

/-- Carry out operations in order. -/
def applyAll (w : Workspace) (ops : List Operation) : Workspace :=
  ops.foldl (fun w op => (w.apply op).2) w

end Workspace

end OverloadMachine
