import OverloadMachine.Proofs.NodeChanges

/-!
# Places of a store

A store is accounted for when the heap is, with the frame's slots among the
holders. Writing a place that is there takes over one handle and frees another,
whether the place is a slot or the inside of a cell.
-/

namespace OverloadMachine

namespace Frame

/-- The frame has a slot. The scratch slot is always there, and dynamic variables
come into being when they are written. -/
def Has (f : Frame) : Slot → Prop
  | .temp i => i < f.temps.size
  | .var i => i < f.vars.size
  | .scratch | .symbol _ => True

/-- What a slot holds is among the values of the frame. -/
theorem mem_values_of_get? {f : Frame} {slot : Slot} {v : Value} (found : f.get? slot = some v) :
    v ∈ f.values := by
  cases slot with
  | scratch =>
    cases found
    simp [values]
  | temp i =>
    have mem : v ∈ f.temps := Array.mem_of_getElem? found
    simp [values, mem]
  | var i =>
    have mem : v ∈ f.vars := Array.mem_of_getElem? found
    simp [values, mem]
  | symbol name =>
    have mem : v ∈ f.symbols.values := OrderedMap.mem_values.mpr ⟨name, found⟩
    simp [values, mem]

/-- What a slot holds is null or among the values of the frame. -/
theorem get_eq_null_or_mem_values (f : Frame) (slot : Slot) :
    f.get slot = .null ∨ f.get slot ∈ f.values := by
  rw [get]
  cases found : f.get? slot with
  | none => exact Or.inl rfl
  | some v => exact Or.inr (mem_values_of_get? found)

/-- Handles among the values of an array after one is replaced. -/
theorem uses_setIfInBounds (node : Node) {slots : Array Value} {i : Nat} (lt : i < slots.size)
    (v : Value) :
    node.uses (slots.setIfInBounds i v).toList + node.usedBy (slots[i]?.getD .null)
      = node.uses slots.toList + node.usedBy v := by
  obtain ⟨vs⟩ := slots
  simp only [List.size_toArray] at lt
  simp only [List.setIfInBounds_toArray, List.getElem?_toArray]
  induction vs generalizing i with
  | nil => simp at lt
  | cons w ws ih =>
    cases i with
    | zero =>
      simp only [List.set_cons_zero, List.getElem?_cons_zero, Option.getD_some, Node.uses_cons]
      omega
    | succ i =>
      simp only [List.length_cons] at lt
      have rest := ih (by omega : i < ws.length)
      simp only [List.set_cons_succ, List.getElem?_cons_succ, Node.uses_cons]
      omega

/-- A slot that is written takes over a handle and frees the one before it. -/
theorem uses_put (node : Node) {f : Frame} {slot : Slot} (has : f.Has slot) (v : Value) :
    node.uses (f.put slot v).values + node.usedBy (f.get slot)
      = node.uses f.values + node.usedBy v := by
  cases slot with
  | scratch =>
    simp only [values, put, get, get?, Option.getD_some, Node.uses_append, Node.uses_cons,
      Node.uses_nil]
    omega
  | temp i =>
    have lt : i < f.temps.size := has
    have sum := uses_setIfInBounds node lt v
    simp only [values, put, get, get?, Node.uses_append]
    omega
  | var i =>
    have lt : i < f.vars.size := has
    have sum := uses_setIfInBounds node lt v
    simp only [values, put, get, get?, Node.uses_append]
    omega
  | symbol name =>
    have sum := node.uses_perm (f.symbols.values_insert_perm name v)
    have old : node.uses (f.symbols.get? name).toList
        = node.usedBy ((f.symbols.get? name).getD .null) := by
      cases f.symbols.get? name <;> simp
    simp only [Node.uses_append, Node.uses_cons, old] at sum
    simp only [values, put, get, get?, Node.uses_append]
    omega

/-- Reading the slot that was written. -/
theorem get_put_self {f : Frame} {slot : Slot} (has : f.Has slot) (v : Value) :
    (f.put slot v).get slot = v := by
  cases slot with
  | scratch => rfl
  | temp i =>
    have lt : i < f.temps.size := has
    simp [get, get?, put, lt]
  | var i =>
    have lt : i < f.vars.size := has
    simp [get, get?, put, lt]
  | symbol name => simp [get, get?, put]

/-- Writing one slot leaves the others alone. -/
theorem get_put_ne (f : Frame) {slot other : Slot} (v : Value) (ne : slot ≠ other) :
    (f.put slot v).get other = f.get other := by
  rw [get, get?_put_ne f v ne]
  rfl

/-- Writing a slot adds and removes none. -/
@[simp] theorem has_put (f : Frame) (slot other : Slot) (v : Value) :
    (f.put slot v).Has other ↔ f.Has other := by
  cases slot <;> cases other <;> simp [put, Has]

/-- Writes to two slots may be exchanged. -/
theorem put_comm (f : Frame) {slot other : Slot} (ne : slot ≠ other) (v w : Value) :
    (f.put slot v).put other w = (f.put other w).put slot v := by
  cases slot with
  | temp i =>
    cases other with
    | temp j =>
      have ne' : i ≠ j := fun eq => ne (congrArg Slot.temp eq)
      simp only [put, Array.setIfInBounds_comm v w ne']
    | _ => rfl
  | var i =>
    cases other with
    | var j =>
      have ne' : i ≠ j := fun eq => ne (congrArg Slot.var eq)
      simp only [put, Array.setIfInBounds_comm v w ne']
    | _ => rfl
  | symbol name =>
    cases other with
    | symbol key =>
      have ne' : name ≠ key := fun eq => ne (congrArg Slot.symbol eq)
      simp only [put, OrderedMap.insert_comm f.symbols ne' v w]
    | _ => rfl
  | scratch =>
    cases other with
    | scratch => exact absurd rfl ne
    | _ => rfl

/-- Of two writes to one slot the second stands. -/
@[simp] theorem put_put (f : Frame) (slot : Slot) (v w : Value) :
    (f.put slot v).put slot w = f.put slot w := by
  cases slot <;> simp [put]

/-- Writing what a slot holds changes nothing. -/
theorem put_of_get? {f : Frame} {slot : Slot} {v : Value} (found : f.get? slot = some v) :
    f.put slot v = f := by
  cases slot with
  | scratch =>
    cases found
    rfl
  | temp i =>
    have same : f.temps.setIfInBounds i v = f.temps := by
      obtain ⟨lt, eq⟩ := Array.getElem?_eq_some_iff.mp found
      rw [← eq, Array.setIfInBounds, dif_pos lt, Array.set_getElem_self]
    rw [put, same]
  | var i =>
    have same : f.vars.setIfInBounds i v = f.vars := by
      obtain ⟨lt, eq⟩ := Array.getElem?_eq_some_iff.mp found
      rw [← eq, Array.setIfInBounds, dif_pos lt, Array.set_getElem_self]
    rw [put, same]
  | symbol name => rw [put, OrderedMap.insert_of_get? found]

/-- A definition changes what no slot holds. -/
@[simp] theorem get_define (f : Frame) (name : String) (slot : Slot) :
    (f.define name).get slot = f.get slot := by
  rw [define]
  split
  · rfl
  · rename_i absent
    by_cases eq : Slot.symbol name = slot
    · subst eq
      have none : f.symbols.get? name = none := by
        simpa [OrderedMap.contains] using absent
      have has : f.Has (.symbol name) := trivial
      rw [get_put_self has]
      simp [get, get?, none]
    · exact get_put_ne f .null eq

/-- Growing a frame changes the value in no slot. -/
@[simp] theorem get_prepare (f : Frame) (temporaryCount variableCount : Nat) (slot : Slot) :
    (f.prepare temporaryCount variableCount).get slot = f.get slot := by
  have extended : ∀ (slots : Array Value) (size i : Nat),
      (extend slots size)[i]?.getD .null = slots[i]?.getD .null := by
    intro slots size i
    unfold extend
    by_cases lt : i < slots.size
    · rw [Array.getElem?_append_left lt]
    · rw [Array.getElem?_append_right (Nat.le_of_not_lt lt), Array.getElem?_replicate,
        Array.getElem?_eq_none (Nat.le_of_not_lt lt)]
      split <;> rfl
  cases slot with
  | temp i => exact extended f.temps temporaryCount i
  | var i => exact extended f.vars variableCount i
  | _ => rfl

/-- A definition adds only its variable. -/
@[simp] theorem has_define (f : Frame) (name : String) (slot : Slot) :
    (f.define name).Has slot ↔ f.Has slot := by
  rw [define]
  split
  · rfl
  · exact has_put f _ slot _

/-- A definition brings no handle. -/
@[simp] theorem uses_define (node : Node) (f : Frame) (name : String) :
    node.uses (f.define name).values = node.uses f.values := by
  rw [define]
  split
  · rfl
  · rename_i absent
    have none : f.symbols.get? name = none := by
      simpa [OrderedMap.contains] using absent
    have has : f.Has (.symbol name) := trivial
    have sum := f.uses_put node has .null
    simp only [get, get?, none, Option.getD_none, Node.usedBy_null] at sum
    omega

end Frame

namespace Store

/-- Account for one more handle. -/
def acquire (s : Store) (v : Value) : Store := { s with heap := s.heap.acquire v }

/-- Give up a handle. -/
def release (s : Store) (v : Value) : Store := { s with heap := s.heap.release v }

@[simp] theorem heap_acquire (s : Store) (v : Value) : (s.acquire v).heap = s.heap.acquire v := rfl

@[simp] theorem frame_acquire (s : Store) (v : Value) : (s.acquire v).frame = s.frame := rfl

@[simp] theorem heap_release (s : Store) (v : Value) : (s.release v).heap = s.heap.release v := rfl

@[simp] theorem frame_release (s : Store) (v : Value) : (s.release v).frame = s.frame := rfl

/-- The frame after a place is overwritten. -/
theorem frame_overwrite (s : Store) (place : Place) (v : Value) :
    (s.overwrite place v).frame = match place with
      | .slot slot => s.frame.put slot v
      | .cell _ => s.frame := by
  cases place <;> rfl

/-- The store has a place: the slot is in the frame, or the cell is in the heap. -/
def HasPlace (s : Store) : Place → Prop
  | .slot slot => s.frame.Has slot
  | .cell cell => (s.heap.cell? cell).isSome

/-- The store is accounted for: every node has as many handles as are in the heap,
in the frame, among the values that are held, and outside. -/
def Owns (s : Store) (held : List Value) (outside : Node → Nat) : Prop :=
  s.heap.Accounts (s.frame.values ++ held) outside

namespace Owns

variable {s : Store} {held rest : List Value} {outside : Node → Nat}

/-- Accounts speak about the handles that are held, not about their order. -/
theorem congr (owns : s.Owns held outside)
    (same : ∀ node : Node, node.uses rest = node.uses held) : s.Owns rest outside :=
  Heap.Accounts.congr owns fun node => by
    rw [Node.uses_append, Node.uses_append, same node]

/-- What is held is alive. -/
theorem alive_held {v : Value} (owns : s.Owns held outside) (mem : v ∈ held) : s.heap.Alive v :=
  Heap.Accounts.alive owns (List.mem_append_right _ mem)

/-- What a slot holds is alive. -/
theorem alive_get (owns : s.Owns held outside) (slot : Slot) : s.heap.Alive (s.frame.get slot) := by
  rcases s.frame.get_eq_null_or_mem_values slot with null | mem
  · rw [null]
    exact s.heap.alive_of_node?_eq_none rfl
  · exact Heap.Accounts.alive owns (List.mem_append_left _ mem)

/-- What a cell holds is alive. -/
theorem alive_content (owns : s.Owns held outside) (cell : CellId) :
    s.heap.Alive (s.heap.content cell) := (Heap.Accounts.closed owns).alive_content cell

/-- The place that a slot shows is there. -/
theorem hasPlace_placeOf (owns : s.Owns held outside) {slot : Slot} (has : s.frame.Has slot) :
    s.HasPlace (s.placeOf slot) := by
  rw [placeOf]
  split
  · rename_i cell eq
    obtain ⟨count, -, live⟩ := owns.alive_get slot (.cell cell) (by rw [eq]; rfl)
    obtain ⟨c, found, -⟩ := Option.map_eq_some_iff.mp live
    exact Option.isSome_iff_exists.mpr ⟨c, found⟩
  · exact has

/-- A new handle is accounted for by whoever gets it. -/
theorem acquire {v : Value} (owns : s.Owns held outside) (alive : s.heap.Alive v) :
    (s.acquire v).Owns (v :: held) outside := by
  have more : (s.heap.acquire v).Accounts (v :: (s.frame.values ++ held)) outside :=
    Heap.Accounts.acquire owns alive
  refine more.congr fun node => ?_
  simp only [frame_acquire, Node.uses_append, Node.uses_cons]
  omega

/-- A handle that is given up need no longer be accounted for. -/
theorem release {v : Value} (owns : s.Owns (v :: held) outside) :
    (s.release v).Owns held outside := by
  have first : s.heap.Accounts (v :: (s.frame.values ++ held)) outside :=
    Heap.Accounts.congr owns fun node => by
      simp only [Node.uses_append, Node.uses_cons]
      omega
  exact first.release

/-- A place that is written takes over a handle and frees the one before it. -/
theorem put {v : Value} {place : Place} (owns : s.Owns (v :: held) outside)
    (has : s.HasPlace place) : (s.put place v).Owns (s.peek place :: held) outside := by
  cases place with
  | slot slot =>
    refine Heap.Accounts.congr owns fun node => ?_
    have sum := s.frame.uses_put node has v
    simp only [Store.put, peek, Node.uses_append, Node.uses_cons]
    omega
  | cell cell =>
    have first : s.heap.Accounts (v :: (s.frame.values ++ held)) outside :=
      Heap.Accounts.congr owns fun node => by
        simp only [Node.uses_append, Node.uses_cons]
        omega
    refine (first.putContent has).congr fun node => ?_
    simp only [Store.put, peek, Node.uses_append, Node.uses_cons]
    omega

/-- A place that is overwritten takes over a handle. -/
theorem overwrite {v : Value} {place : Place} (owns : s.Owns (v :: held) outside)
    (has : s.HasPlace place) : (s.overwrite place v).Owns held outside :=
  (owns.put has).release

/-- Separation of what a slot holds keeps the accounts even. -/
theorem separate_slot (owns : s.Owns held outside) {slot : Slot} (has : s.frame.Has slot) :
    (s.separate (.slot slot)).2.Owns held outside := by
  -- The slot's handle is counted among the held ones while it is traded.
  have first : s.heap.Accounts
      (s.frame.get slot :: ((s.frame.put slot .null).values ++ held)) outside :=
    Heap.Accounts.congr owns fun node => by
      have sum := s.frame.uses_put node has .null
      rw [Node.usedBy_null] at sum
      simp only [Node.uses_append, Node.uses_cons]
      omega
  refine first.separate.congr fun node => ?_
  have empty := s.frame.uses_put node has .null
  have full := s.frame.uses_put node has (s.heap.separate (s.frame.get slot)).1
  rw [Node.usedBy_null] at empty
  simp only [Store.separate, Store.put, peek, Node.uses_append, Node.uses_cons]
  omega

/-- A cell that is bound to another one stays bound to it when that one's composite is
separated. -/
theorem content_separate_ref (owns : s.Owns held outside) {cell inner : CellId}
    (live : (s.heap.cell? cell).isSome) (inside : s.heap.content cell = .ref inner) :
    (s.heap.separate (.ref inner)).2.2.content cell = .ref inner := by
  cases within : s.heap.content inner with
  | composite id =>
    have alive : s.heap.Alive (.composite id) := by
      have alive := owns.alive_content inner
      rwa [within] at alive
    have ne : inner ≠ cell := by
      intro eq
      rw [eq, inside] at within
      cases within
    obtain ⟨-, same⟩ := Heap.cell?_separateComposite alive live
    rw [Heap.separate_ref within]
    dsimp only
    rw [Heap.content_putContent_ne _ _ ne, same, inside]
  | _ =>
    rw [Heap.separate, within]
    exact inside

/-- Separation of what a cell holds keeps the accounts even. -/
theorem separate_cell (owns : s.Owns held outside) {cell : CellId}
    (live : (s.heap.cell? cell).isSome) : (s.separate (.cell cell)).2.Owns held outside := by
  cases inside : s.heap.content cell with
  | composite id =>
    have same : (s.separate (.cell cell)).2
        = { s with heap := (s.heap.separate (.ref cell)).2.2 } := by
      simp only [Store.separate, Store.put, peek, inside, Heap.separate_composite,
        Heap.separate_ref inside]
    rw [same]
    exact Heap.Accounts.separate_ref owns live
  | ref inner =>
    have same : (s.separate (.cell cell)).2
        = { s with heap := (s.heap.separate (.ref inner)).2.2 } := by
      have whole := (s.heap.separate (.ref inner)).2.2.putContent_content cell
      rw [owns.content_separate_ref live inside] at whole
      have first : (s.heap.separate (.ref inner)).1 = .ref inner := by
        rw [Heap.separate]
        split <;> rfl
      simp only [Store.separate, Store.put, peek, inside, first, whole]
    have there : (s.heap.cell? inner).isSome := by
      have alive := owns.alive_content cell
      rw [inside] at alive
      obtain ⟨c, found, -⟩ := alive.cell?
      exact Option.isSome_iff_exists.mpr ⟨c, found⟩
    rw [same]
    exact Heap.Accounts.separate_ref owns there
  | _ =>
    have whole := s.heap.putContent_content cell
    rw [inside] at whole
    simp only [Store.separate, Store.put, peek, inside, Heap.separate, whole]
    exact owns

/-- Separation keeps the accounts even. -/
theorem separate {place : Place} (owns : s.Owns held outside) (has : s.HasPlace place) :
    (s.separate place).2.Owns held outside := by
  cases place with
  | slot slot => exact owns.separate_slot has
  | cell cell => exact owns.separate_cell has

end Owns

end Store

end OverloadMachine
