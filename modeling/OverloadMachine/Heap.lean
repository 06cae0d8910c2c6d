import OverloadMachine.OrderedMap
import OverloadMachine.Violation

/-!
# The heap

Composites and reference cells live in a heap, each with the number of handles
that name it. Whoever holds a handle accounts for it: `acquire` adds a handle,
`release` takes one away, and a node whose last handle goes is destroyed and
releases the handles that it held itself. Nodes that hold each other in a cycle
stay. A composite may be changed in place while it has one handle or carries
its flag; otherwise its holder is separated first, that is, given a copy.
-/

namespace OverloadMachine

/-- A composite: named fields under the name of a class. -/
structure Composite where
  className : String
  fields : NameMap Value
  /-- Whether it may be changed in place even while it is shared. -/
  flagged : Bool
  /-- Number of handles. -/
  count : Nat

/-- Whether a composite may be changed in place. -/
def Composite.isMutable (c : Composite) : Bool := c.count == 1 || c.flagged

/-- A reference cell. -/
structure Cell where
  content : Value
  /-- Number of handles. -/
  count : Nat

/-- Composites and cells by name. What is destroyed leaves no entry, so a heap is
what is alive in it, and a name may be given out again. -/
structure Heap where
  composites : OrderedMap Nat Composite
  cells : OrderedMap Nat Cell

namespace Heap

/-- The heap without nodes. -/
def empty : Heap := ⟨.empty, .empty⟩

instance : Inhabited Heap := ⟨empty⟩

/-- Number of nodes; no chain of distinct nodes is longer. -/
def size (h : Heap) : Nat := h.composites.size + h.cells.size

/-- The composite under a name, unless it is destroyed. -/
def composite? (h : Heap) (id : CompositeId) : Option Composite := h.composites.get? id.index

/-- The cell under a name, unless it is destroyed. -/
def cell? (h : Heap) (id : CellId) : Option Cell := h.cells.get? id.index

/-- Content of a cell; an absent cell reads as null. -/
def content (h : Heap) (id : CellId) : Value :=
  match h.cell? id with
  | some cell => cell.content
  | none => .null

/-- Replace what stands under the name of a composite. -/
def putComposite (h : Heap) (id : CompositeId) (c : Composite) : Heap :=
  { h with composites := h.composites.insert id.index c }

/-- Take a composite out of the heap. -/
def dropComposite (h : Heap) (id : CompositeId) : Heap :=
  { h with composites := h.composites.erase id.index }

/-- Replace what stands under the name of a cell. -/
def putCell (h : Heap) (id : CellId) (c : Cell) : Heap :=
  { h with cells := h.cells.insert id.index c }

/-- Take a cell out of the heap. -/
def dropCell (h : Heap) (id : CellId) : Heap :=
  { h with cells := h.cells.erase id.index }

/-- Heaps in which the same stands under every name are equal. -/
theorem ext_nodes {h k : Heap} (composites : ∀ id, h.composite? id = k.composite? id)
    (cells : ∀ id, h.cell? id = k.cell? id) : h = k := by
  obtain ⟨hc, hr⟩ := h
  obtain ⟨kc, kr⟩ := k
  have eqc : hc = kc := OrderedMap.ext_get? fun key => composites ⟨key⟩
  have eqr : hr = kr := OrderedMap.ext_get? fun key => cells ⟨key⟩
  rw [eqc, eqr]

/-- Composites are named by their indices. -/
@[simp] theorem index_inj {i j : CompositeId} : i.index = j.index ↔ i = j :=
  ⟨fun h => by cases i; cases j; exact congrArg _ h, congrArg _⟩

/-- Cells are named by their indices. -/
@[simp] theorem cell_index_inj {i j : CellId} : i.index = j.index ↔ i = j :=
  ⟨fun h => by cases i; cases j; exact congrArg _ h, congrArg _⟩

@[simp] theorem composite?_putComposite (h : Heap) (id j : CompositeId) (c : Composite) :
    (h.putComposite id c).composite? j = if id = j then some c else h.composite? j := by
  simp [composite?, putComposite]

@[simp] theorem composite?_dropComposite (h : Heap) (id j : CompositeId) :
    (h.dropComposite id).composite? j = if id = j then none else h.composite? j := by
  simp [composite?, dropComposite]

@[simp] theorem composite?_putCell (h : Heap) (id : CellId) (c : Cell) (j : CompositeId) :
    (h.putCell id c).composite? j = h.composite? j := rfl

@[simp] theorem composite?_dropCell (h : Heap) (id : CellId) (j : CompositeId) :
    (h.dropCell id).composite? j = h.composite? j := rfl

@[simp] theorem cell?_putCell (h : Heap) (id j : CellId) (c : Cell) :
    (h.putCell id c).cell? j = if id = j then some c else h.cell? j := by
  simp [cell?, putCell]

@[simp] theorem cell?_dropCell (h : Heap) (id j : CellId) :
    (h.dropCell id).cell? j = if id = j then none else h.cell? j := by
  simp [cell?, dropCell]

@[simp] theorem cell?_putComposite (h : Heap) (id : CompositeId) (c : Composite) (j : CellId) :
    (h.putComposite id c).cell? j = h.cell? j := rfl

@[simp] theorem cell?_dropComposite (h : Heap) (id : CompositeId) (j : CellId) :
    (h.dropComposite id).cell? j = h.cell? j := rfl

/-- Replace the content of a cell. The old content's handle passes to the caller. -/
def putContent (h : Heap) (id : CellId) (v : Value) : Heap :=
  match h.cell? id with
  | some cell => h.putCell id { cell with content := v }
  | none => h

/-- Number of handles of a composite. -/
def countOf (h : Heap) (id : CompositeId) : Nat :=
  match h.composite? id with
  | some c => c.count
  | none => 0

/-! ## Handles -/

/-- Account for one more handle, if the value is one. -/
def acquire (h : Heap) : Value → Heap
  | .composite id =>
    match h.composite? id with
    | some c => h.putComposite id { c with count := c.count + 1 }
    | none => h
  | .ref id =>
    match h.cell? id with
    | some c => h.putCell id { c with count := c.count + 1 }
    | none => h
  | _ => h

/-- Give up one handle. A node that loses its last handle is destroyed before
the handles that it held are given up, so `fuel` need not exceed the number of
nodes by more than one. -/
def releaseWithin : (fuel : Nat) → Heap → Value → Heap
  | 0, h, _ => h
  | fuel + 1, h, .composite id =>
    match h.composite? id with
    | some c =>
      if c.count ≤ 1 then c.fields.values.foldl (releaseWithin fuel) (h.dropComposite id)
      else h.putComposite id { c with count := c.count - 1 }
    | none => h
  | fuel + 1, h, .ref id =>
    match h.cell? id with
    | some c =>
      if c.count ≤ 1 then releaseWithin fuel (h.dropCell id) c.content
      else h.putCell id { c with count := c.count - 1 }
    | none => h
  | _ + 1, h, _ => h

/-- Give up one handle, if the value is one. -/
def release (h : Heap) (v : Value) : Heap := releaseWithin (h.size + 1) h v

/-- Account for one more handle of each value. -/
def acquireAll (h : Heap) (vs : List Value) : Heap := vs.foldl acquire h

/-- Give up one handle of each value. -/
def releaseAll (h : Heap) (vs : List Value) : Heap := vs.foldl release h

/-! ## New nodes -/

/-- New composite with one handle. The handles among the fields pass to it. -/
def create (h : Heap) (className : String) (fields : NameMap Value) : CompositeId × Heap :=
  let id : CompositeId := ⟨h.composites.next⟩
  (id, h.putComposite id ⟨className, fields, false, 1⟩)

/-- New cell with one handle. The handle that is its content passes to it. -/
def createCell (h : Heap) (content : Value) : CellId × Heap :=
  let id : CellId := ⟨h.cells.next⟩
  (id, h.putCell id ⟨content, 1⟩)

/-- New composite with the class and the fields of another. Nodes below become
shared, and the flag is not carried over. -/
def duplicate (h : Heap) (c : Composite) : CompositeId × Heap :=
  (h.acquireAll c.fields.values).create c.className c.fields

/-! ## Changes in place -/

/-- Whether a composite may be changed in place. -/
def checkMutation (h : Heap) (id : CompositeId) : Except Violation Unit :=
  match h.composite? id with
  | some c => if c.isMutable then .ok () else .error (.sharedMutation c.count)
  | none => .ok ()

/-- Allow or forbid changes in place while a composite is shared. -/
def setFlag (h : Heap) (id : CompositeId) (flag : Bool) : Heap :=
  match h.composite? id with
  | some c => h.putComposite id { c with flagged := flag }
  | none => h

/-- Field of a composite. -/
def field? (h : Heap) (id : CompositeId) (key : String) : Option Value :=
  h.composite? id >>= fun c => c.fields.get? key

/-- Set a field, whoever shares the composite. The value's handle passes to the
composite, and the handle of the value before it is given up. -/
def insertField (h : Heap) (id : CompositeId) (key : String) (v : Value) : Heap :=
  match h.composite? id with
  | some c =>
    let next := h.putComposite id { c with fields := c.fields.insert key v }
    match c.fields.get? key with
    | some old => next.release old
    | none => next
  | none => h.release v

/-- Set fields one after another, whoever shares the composite. -/
def insertFields (h : Heap) (id : CompositeId) (entries : List (String × Value)) : Heap :=
  entries.foldl (fun h e => h.insertField id e.1 e.2) h

/-- Remove a field, whoever shares the composite; says whether it was there. -/
def eraseField (h : Heap) (id : CompositeId) (key : String) : Bool × Heap :=
  match h.composite? id with
  | some c =>
    match c.fields.get? key with
    | some old =>
      (true, (h.putComposite id { c with fields := c.fields.erase key }).release old)
    | none => (false, h)
  | none => (false, h)

/-- Set fields in place if that is allowed; otherwise the values are given up. -/
def setFields (h : Heap) (id : CompositeId) (entries : List (String × Value)) :
    Except Violation Unit × Heap :=
  match h.checkMutation id with
  | .ok () => (.ok (), h.insertFields id entries)
  | .error violation => (.error violation, h.releaseAll (entries.map (·.2)))

/-- Set a field in place if that is allowed. -/
def setField (h : Heap) (id : CompositeId) (key : String) (v : Value) :
    Except Violation Unit × Heap :=
  h.setFields id [(key, v)]

/-- Add a field to fields that no composite holds yet; a value under the same name
is given up. -/
def gather (h : Heap) (fields : NameMap Value) (key : String) (v : Value) :
    NameMap Value × Heap :=
  (fields.insert key v, match fields.get? key with
    | some old => h.release old
    | none => h)

/-- New composite with fields that are gathered one after another. -/
def createWith (h : Heap) (className : String) (entries : List (String × Value)) :
    CompositeId × Heap :=
  let (fields, h) := entries.foldl (fun (fields, h) e => h.gather fields e.1 e.2) (.empty, h)
  h.create className fields

/-! ## Separation -/

/-- Trade a holder's handle for one to a composite that may be changed in place:
the same one if that may, else a copy. Says whether a copy was made. -/
def separateComposite (h : Heap) (id : CompositeId) : CompositeId × Bool × Heap :=
  match h.composite? id with
  | some c =>
    if c.isMutable then (id, false, h)
    else
      let (copy, h) := h.duplicate c
      (copy, true, h.release (.composite id))
  | none => (id, false, h)

/-- Separate the holder of a value from the other holders of its composite. One
cell is looked through; it is then the cell whose content is separated. -/
def separate (h : Heap) : Value → Value × Bool × Heap
  | .composite id =>
    let (id, copied, h) := h.separateComposite id
    (.composite id, copied, h)
  | .ref cell =>
    match h.content cell with
    | .composite id =>
      let (id, copied, h) := h.separateComposite id
      (.ref cell, copied, h.putContent cell (.composite id))
    | _ => (.ref cell, false, h)
  | v => (v, false, h)

/-- A value with one cell looked through, and whether there was one. -/
def lookThrough (h : Heap) : Value → Value × Bool
  | .ref cell => (h.content cell, true)
  | v => (v, false)

/-- Give up a handle of a composite; says how many are left. -/
def unwrap (h : Heap) (v : Value) : Option Nat × Heap :=
  match v with
  | .composite id => (some (h.countOf id - 1), h.release v)
  | _ => (none, h.release v)

end Heap

end OverloadMachine
