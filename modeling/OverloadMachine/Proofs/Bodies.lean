import OverloadMachine.Proofs.Bindings
import OverloadMachine.Proofs.Failures

/-!
# What nodes are

What a node is, apart from the number of its handles, changes only where it is written. Most
changes of a heap add nodes and handles first and take some away in the end, and what lives
through both is what it was; the others change one node, or one slot, and leave every other
one alone.
-/

namespace OverloadMachine

/-! ## Bodies -/

/-- What a node is, but for the number of its handles. -/
inductive Body where
  | composite (className : String) (fields : NameMap Value) (flagged : Bool)
  | cell (content : Value)

namespace Heap

variable {h k l : Heap} {node : Node} {id : CompositeId} {cell : CellId} {v : Value} {b : Body}

/-- What a node is, unless it is destroyed. -/
def body? (h : Heap) : Node → Option Body
  | .composite id => (h.composite? id).map fun c => .composite c.className c.fields c.flagged
  | .cell id => (h.cell? id).map fun c => .cell c.content

/-- A node that has handles is something. -/
theorem isSome_body? : (h.body? node).isSome ↔ (h.handles? node).isSome := by
  cases node <;> simp [body?, handles?]

/-- What a node is that remains it was before. -/
theorem Remains.body? (remains : Remains k h) (found : k.body? node = some b) :
    h.body? node = some b := by
  cases node with
  | composite id =>
    obtain ⟨c, there, rfl⟩ := Option.map_eq_some_iff.mp found
    obtain ⟨more, -, before⟩ := remains.composite there
    simp only [Heap.body?, before, Option.map_some]
  | cell id =>
    obtain ⟨c, there, rfl⟩ := Option.map_eq_some_iff.mp found
    obtain ⟨more, -, before⟩ := remains.cell there
    simp only [Heap.body?, before, Option.map_some]

theorem body?_putComposite (h : Heap) (c : Composite) (ne : node ≠ .composite id) :
    (h.putComposite id c).body? node = h.body? node := by
  cases node with
  | composite j =>
    have other : id ≠ j := fun eq => ne (congrArg Node.composite eq.symm)
    rw [body?, body?, composite?_putComposite, if_neg other]
  | cell j => rfl

theorem body?_putCell (h : Heap) (c : Cell) (ne : node ≠ .cell cell) :
    (h.putCell cell c).body? node = h.body? node := by
  cases node with
  | composite j => rfl
  | cell j =>
    have other : cell ≠ j := fun eq => ne (congrArg Node.cell eq.symm)
    rw [body?, body?, cell?_putCell, if_neg other]

theorem body?_putContent (h : Heap) (v : Value) (ne : node ≠ .cell cell) :
    (h.putContent cell v).body? node = h.body? node := by
  unfold putContent
  split
  · exact h.body?_putCell _ ne
  · rfl

theorem body?_setFlag (h : Heap) (flag : Bool) (ne : node ≠ .composite id) :
    (h.setFlag id flag).body? node = h.body? node := by
  unfold setFlag
  split
  · exact h.body?_putComposite _ ne
  · rfl

/-- The content of a cell is what the cell is. -/
theorem content_congr (same : h.body? (.cell cell) = k.body? (.cell cell)) :
    h.content cell = k.content cell := by
  simp only [body?] at same
  unfold content
  cases one : h.cell? cell with
  | none =>
    cases other : k.cell? cell with
    | none => rfl
    | some d =>
      rw [one, other] at same
      cases same
  | some c =>
    cases other : k.cell? cell with
    | none =>
      rw [one, other] at same
      cases same
    | some d =>
      rw [one, other] at same
      exact Body.cell.inj (Option.some.inj same)

/-! ## Nodes that only go -/

/-- What a node is in the second heap it is in the first one too. -/
def Stems (node : Node) (h k : Heap) : Prop := ∀ b, k.body? node = some b → h.body? node = some b

namespace Stems

theorem refl (node : Node) (h : Heap) : Stems node h h := fun _ found => found

theorem trans (first : Stems node h k) (second : Stems node k l) : Stems node h l :=
  fun b found => first b (second b found)

theorem of_remains (remains : Remains k h) : Stems node h k := fun _ found => remains.body? found

theorem of_eq (same : k.body? node = h.body? node) : Stems node h k := fun _ found => same ▸ found

theorem release (node : Node) (h : Heap) (v : Value) : Stems node h (h.release v) :=
  of_remains (h.remains_release v)

theorem insertField (ne : node ≠ .composite id) (h : Heap) (key : String) (v : Value) :
    Stems node h (h.insertField id key v) := by
  cases found : h.composite? id with
  | none =>
    rw [Heap.insertField, found]
    exact release node h v
  | some c =>
    exact (of_eq (h.body?_putComposite _ ne)).trans
      (of_remains (remains_insertField found key v))

theorem insertFields (ne : node ≠ .composite id) (entries : List (String × Value)) (h : Heap) :
    Stems node h (h.insertFields id entries) := by
  induction entries generalizing h with
  | nil => exact refl node h
  | cons e rest ih => exact (insertField ne h e.1 e.2).trans (ih (h.insertField id e.1 e.2))

theorem setFields (ne : node ≠ .composite id) (h : Heap) (entries : List (String × Value)) :
    Stems node h (h.setFields id entries).2 := by
  unfold Heap.setFields
  split
  · exact insertFields ne entries h
  · exact of_remains (remains_releaseAll _ _)

theorem eraseField (ne : node ≠ .composite id) (h : Heap) (key : String) :
    Stems node h (h.eraseField id key).2 := by
  unfold Heap.eraseField
  split
  · split
    · exact (of_eq (h.body?_putComposite _ ne)).trans (release node _ _)
    · exact refl node h
  · exact refl node h

end Stems

/-- A change is refused, and its values are given up, or it changes no node but the one that
it is for. -/
theorem change_cases (h : Heap) (v : Value) (change : Mutation Value) :
    (∃ refusal, h.change v change = (.error refusal, h.releaseAll change.values))
      ∨ ∃ node, v.node? = some node ∧ (h.change v change).1 = .ok ()
        ∧ ∀ other, other ≠ node → Stems other h (h.change v change).2 := by
  cases v with
  | composite id =>
    cases change with
    | setFields guarded entries =>
      cases guarded with
      | false => exact .inr ⟨_, rfl, rfl, fun other ne => .insertFields ne entries h⟩
      | true =>
        rw [Heap.change, if_pos rfl, Heap.setFields]
        cases h.checkMutation id with
        | ok _ => exact .inr ⟨_, rfl, rfl, fun other ne => .insertFields ne entries h⟩
        | error violation => exact .inl ⟨_, rfl⟩
    | removeField guarded key =>
      rw [Heap.change]
      cases if guarded then h.checkMutation id else .ok () with
      | ok _ => exact .inr ⟨_, rfl, rfl, fun other ne => .eraseField ne h key⟩
      | error violation => exact .inl ⟨_, rfl⟩
    | setFlag flag => exact .inr ⟨_, rfl, rfl, fun other ne => .of_eq (h.body?_setFlag flag ne)⟩
    | setContent content => exact .inl ⟨_, rfl⟩
  | ref cell =>
    cases change with
    | setContent content =>
      exact .inr ⟨_, rfl, rfl, fun other ne =>
        (Stems.of_eq (h.body?_putContent content ne)).trans (.release other _ _)⟩
    | _ => exact .inl ⟨_, rfl⟩
  | _ => exact .inl ⟨_, rfl⟩

/-- Between two heaps nodes and handles were first added and then only taken away, so a
node that is in both is the same in both. -/
def Persists (node : Node) (h k : Heap) : Prop := ∃ m, h.Remains m ∧ Stems node m k

namespace Persists

theorem of_remains (remains : h.Remains k) : Persists node h k := ⟨k, remains, .refl node k⟩

theorem of_stems (stems : Stems node h k) : Persists node h k := ⟨h, .refl h, stems⟩

theorem refl (node : Node) (h : Heap) : Persists node h h := of_stems (.refl node h)

theorem after (remains : h.Remains k) (persists : Persists node k l) : Persists node h l := by
  obtain ⟨m, more, stems⟩ := persists
  exact ⟨m, remains.trans more, stems⟩

theorem stems (persists : Persists node h k) (stems : Stems node k l) : Persists node h l := by
  obtain ⟨m, more, before⟩ := persists
  exact ⟨m, more, before.trans stems⟩

/-- What is still there is what it was. -/
theorem body? (persists : Persists node h k) (found : h.body? node = some b)
    (lasts : (k.body? node).isSome) : k.body? node = some b := by
  obtain ⟨m, more, stems⟩ := persists
  obtain ⟨c, there⟩ := Option.isSome_iff_exists.mp lasts
  have before := more.body? found
  rw [stems c there] at before
  rw [there, before]

/-- Separation of one composite: a copy may be added, and a handle is given up for it. -/
theorem separateComposite (closed : h.Closed) (id : CompositeId) (node : Node) :
    Persists node h (h.separateComposite id).2.2 := by
  unfold Heap.separateComposite
  split
  · rename_i c found
    split
    · exact refl node h
    · have undone := release_duplicate fun v mem => closed.alive_value found mem
      have less := remains_release (h.duplicate c).2 (.composite (h.duplicate c).1)
      rw [undone] at less
      exact (of_remains less).stems (.release node _ _)
  · exact refl node h

/-- Separation of a holder changes no cell but the one that is bound to it. -/
theorem separate (closed : h.Closed) (other : ∀ inner, v = .ref inner → node ≠ .cell inner) :
    Persists node h (h.separate v).2.2 := by
  cases v with
  | composite id =>
    rw [Heap.separate_composite]
    exact separateComposite closed id node
  | ref cell =>
    cases inside : h.content cell with
    | composite id =>
      rw [Heap.separate_ref inside]
      exact (separateComposite closed id node).stems
        (.of_eq (body?_putContent _ _ (other cell rfl)))
    | _ =>
      rw [Heap.separate, inside]
      exact refl node h
  | _ => exact refl node h

end Persists

end Heap

/-! ## What may be changed -/

/-- What may be changed through an operand: a slot or a node. -/
inductive Touch where
  | slot (slot : Slot)
  | node (node : Node)
  deriving DecidableEq

/-- A place as something that may be changed. -/
def Place.touch : Place → Touch
  | .slot p => .slot p
  | .cell c => .node (.cell c)

/-- A place is no composite. -/
theorem Place.touch_ne_composite (place : Place) (id : CompositeId) :
    place.touch ≠ .node (.composite id) := by
  cases place <;> exact nofun

/-- The place of a cell is that cell. -/
theorem Place.eq_cell_of_touch {place : Place} {cell : CellId}
    (touches : place.touch = .node (.cell cell)) : place = .cell cell := by
  cases place with
  | slot slot => cases touches
  | cell other =>
    cases touches
    rfl

/-- What a separation of an operand changes: the place that the operand shows, or the cell
that is bound in that place. -/
def Store.separated (s : Store) (constants : Array Value) (o : Operand) : Touch :=
  match s.peek (s.target constants o) with
  | .ref inner => .node (.cell inner)
  | _ => (s.target constants o).touch

/-! ## Places that are written -/

namespace Store

variable {f : Function} {s : Store} {slot : Slot} {place : Place} {node : Node} {o : Operand}
  {outside : Node → Nat} {held : List Value}

/-- A definition leaves the other slots alone. -/
theorem get?_defining_ne (s : Store) {constants : Array Value} (ne : slot ≠ o.slot constants) :
    (s.defining constants o).frame.get? slot = s.frame.get? slot := by
  unfold defining
  split
  · rename_i name is
    have other : Slot.symbol name ≠ slot := fun eq => ne (eq ▸ is.symm)
    unfold Frame.define
    split
    · rfl
    · exact s.frame.get?_put_ne _ other
  · rfl

/-- A write to one place leaves the slots that are not that place alone. -/
theorem get?_overwrite_ne (s : Store) (ne : place ≠ .slot slot) (v : Value) :
    (s.overwrite place v).frame.get? slot = s.frame.get? slot := by
  cases place with
  | slot other => exact s.frame.get?_put_ne v fun eq => ne (congrArg Place.slot eq)
  | cell cell => rfl

/-- A write to one place leaves the nodes that are not that place alone, if they stay. -/
theorem stems_overwrite (s : Store) (ne : place.touch ≠ .node node) (v : Value) :
    Heap.Stems node s.heap (s.overwrite place v).heap := by
  cases place with
  | slot other => exact .release node _ _
  | cell cell =>
    have other : node ≠ .cell cell := by
      rintro rfl
      exact ne rfl
    exact (Heap.Stems.of_eq (s.heap.body?_putContent v other)).trans (.release node _ _)

/-- New nodes and handles do not change what an operand shows. -/
theorem peek_of_remains {h : Heap} (owns : s.Owns held outside) (remains : s.heap.Remains h)
    (o : Operand) : ({ s with heap := h } : Store).peek (s.target f.constants o)
      = s.peek (s.target f.constants o) := by
  cases shows : s.target f.constants o with
  | slot slot => rfl
  | cell cell =>
    have bound := placeOf_eq_cell.mp shows
    have alive := owns.alive_get (o.slot f.constants)
    rw [bound] at alive
    exact remains.content alive

/-- What a definition does to the frame does not depend on the heap. -/
theorem frame_defining_heap (s : Store) (h : Heap) (constants : Array Value) (o : Operand) :
    (({ s with heap := h } : Store).defining constants o).frame
      = (s.defining constants o).frame := by
  unfold defining
  split <;> rfl

/-- Separation in one place leaves the slots that are not that place alone. -/
theorem get?_separate_ne (s : Store) (ne : place ≠ .slot slot) :
    (s.separate place).2.frame.get? slot = s.frame.get? slot := by
  cases place with
  | slot other => exact s.frame.get?_put_ne _ fun eq => ne (congrArg Place.slot eq)
  | cell cell => rfl

/-- A separation that does not change a slot is made in another place. -/
theorem target_ne_of_separated {constants : Array Value}
    (ne : s.separated constants o ≠ .slot slot) : s.target constants o ≠ .slot slot := by
  intro shows
  obtain ⟨-, unbound⟩ := placeOf_eq_slot shows
  obtain ⟨same, -⟩ := placeOf_eq_slot shows
  refine ne ?_
  unfold separated
  rw [shows]
  split
  · rename_i inner is
    rw [peek, ← same] at is
    exact absurd is (unbound inner)
  · rfl

@[simp] theorem target_defining (s : Store) (constants : Array Value) (o p : Operand) :
    (s.defining constants o).target constants p = s.target constants p :=
  placeOf_defining s constants o (p.slot constants)

@[simp] theorem separated_defining (s : Store) (constants : Array Value) (o p : Operand) :
    (s.defining constants o).separated constants p = s.separated constants p := by
  unfold separated
  rw [target_defining, peek_defining]

/-- Separation of what an operand shows changes only what it is said to change. -/
theorem persists_separate {constants : Array Value} (owns : s.Owns held outside)
    (has : s.HasPlace (s.target constants o)) (ne : s.separated constants o ≠ .node node) :
    Heap.Persists node s.heap (s.separate (s.target constants o)).2.heap := by
  have closed : s.heap.Closed := Heap.Accounts.closed owns
  unfold separated at ne
  generalize s.target constants o = place at has ne
  cases place with
  | slot slot =>
    refine Heap.Persists.separate closed fun inner is => ?_
    rintro rfl
    rw [is] at ne
    exact ne rfl
  | cell cell =>
    have eq : (s.separate (.cell cell)).2.heap
        = (s.heap.separate (s.heap.content cell)).2.2.putContent cell
          (s.heap.separate (s.heap.content cell)).1 := rfl
    rw [eq]
    rw [peek] at ne
    by_cases nested : ∃ inner, s.heap.content cell = .ref inner
    · obtain ⟨inner, inside⟩ := nested
      -- The place holds the cell that is changed, and goes on holding it.
      have first : (s.heap.separate (.ref inner)).1 = .ref inner := by
        rw [Heap.separate]
        split <;> rfl
      have whole := (s.heap.separate (.ref inner)).2.2.putContent_content cell
      rw [owns.content_separate_ref has inside] at whole
      rw [inside, first, whole]
      refine Heap.Persists.separate closed fun other is => ?_
      cases is
      rintro rfl
      rw [inside] at ne
      exact ne rfl
    · have other : node ≠ .cell cell := by
        rintro rfl
        refine ne ?_
        split
        · rename_i inner inside
          exact absurd ⟨inner, inside⟩ nested
        · rfl
      exact (Heap.Persists.separate closed fun inner is => absurd ⟨inner, is⟩ nested).stems
        (.of_eq (Heap.body?_putContent _ _ other))

end Store

end OverloadMachine
