import OverloadMachine.Proofs.NodeChanges
import OverloadMachine.Workspace

/-!
# Exact counts

In a workspace, the count of every composite is the number of its handles: those in
slots, in the fields of composites and in cells, whatever was done before and
whether it was allowed or not. No composite is left without a handle, so one is
destroyed exactly when its last handle goes, and cycles stay.
-/

namespace OverloadMachine

namespace Heap

/-! ## Nodes have handles -/

/-- Every node has a handle. -/
def Counted (h : Heap) : Prop := ∀ node count, h.handles? node = some count → 0 < count

namespace Counted

variable {h : Heap}

theorem drop (counted : h.Counted) (node : Node) : (h.drop node).Counted := by
  intro other count live
  rw [handles?_drop] at live
  split at live
  · cases live
  · exact counted other count live

theorem recount (counted : h.Counted) (node : Node) {count : Nat} (pos : 0 < count) :
    (h.recount node count).Counted := by
  intro other n live
  rw [handles?_recount] at live
  split at live
  · obtain ⟨old, -, rfl⟩ := Option.map_eq_some_iff.mp live
    exact pos
  · exact counted other n live

theorem acquireAll (counted : h.Counted) (vs : List Value) : (h.acquireAll vs).Counted := by
  intro node count live
  rw [handles?_acquireAll] at live
  obtain ⟨old, before, rfl⟩ := Option.map_eq_some_iff.mp live
  exact Nat.add_pos_left (counted node old before) _

theorem acquire (counted : h.Counted) (v : Value) : (h.acquire v).Counted :=
  counted.acquireAll [v]

theorem putComposite (counted : h.Counted) (id : CompositeId) {c : Composite} (pos : 0 < c.count) :
    (h.putComposite id c).Counted := by
  intro node count live
  rw [handles?_putComposite] at live
  split at live
  · cases live
    exact pos
  · exact counted node count live

theorem putCell (counted : h.Counted) (id : CellId) {c : Cell} (pos : 0 < c.count) :
    (h.putCell id c).Counted := by
  intro node count live
  rw [handles?_putCell] at live
  split at live
  · cases live
    exact pos
  · exact counted node count live

theorem putContent (counted : h.Counted) (id : CellId) (v : Value) :
    (h.putContent id v).Counted := by
  intro node count live
  rw [handles?_putContent] at live
  exact counted node count live

/-- A release takes a node out when its last handle goes, so it leaves none without one. -/
theorem release (counted : h.Counted) (v : Value) : (h.release v).Counted := by
  induction bound : h.size using Nat.strongRecOn generalizing h v with
  | ind size ih =>
    rw [release_eq]
    split
    · exact counted
    · split
      · exact counted
      · rename_i node _ _ count live
        split
        · -- The values that the node held are released in smaller heaps.
          have all : ∀ (vs : List Value) (k : Heap), k.size < h.size → k.Counted →
              (k.releaseAll vs).Counted := by
            intro vs
            induction vs with
            | nil => exact fun k _ counted => counted
            | cons w ws ihs =>
              intro k lt counted
              have le := size_release_le k w
              exact ihs (k.release w) (by omega) (ih k.size (by omega) counted w rfl)
          have smaller := size_drop live
          exact all _ _ (by omega) (counted.drop node)
        · rename_i several
          exact counted.recount node (by omega)

theorem releaseAll (counted : h.Counted) (vs : List Value) : (h.releaseAll vs).Counted := by
  induction vs generalizing h with
  | nil => exact counted
  | cons v vs ih => exact ih (counted.release v)

theorem create (counted : h.Counted) (className : String) (fields : NameMap Value) :
    (h.create className fields).2.Counted := counted.putComposite _ Nat.one_pos

theorem createCell (counted : h.Counted) (v : Value) : (h.createCell v).2.Counted :=
  counted.putCell _ Nat.one_pos

theorem duplicate (counted : h.Counted) (c : Composite) : (h.duplicate c).2.Counted :=
  (counted.acquireAll _).create _ _

/-- The count of a composite is that of its node. -/
theorem pos (counted : h.Counted) {id : CompositeId} {c : Composite}
    (found : h.composite? id = some c) : 0 < c.count :=
  counted _ _ (handles?_of_composite? found)

theorem setFlag (counted : h.Counted) (id : CompositeId) (flag : Bool) :
    (h.setFlag id flag).Counted := by
  unfold Heap.setFlag
  split
  · rename_i c found
    have pos := counted.pos found
    exact counted.putComposite id pos
  · exact counted

theorem insertField (counted : h.Counted) (id : CompositeId) (key : String) (v : Value) :
    (h.insertField id key v).Counted := by
  unfold Heap.insertField
  split
  · rename_i c found
    have pos := counted.pos found
    have set : (h.putComposite id { c with fields := c.fields.insert key v }).Counted :=
      counted.putComposite id pos
    dsimp only
    split
    · exact set.release _
    · exact set
  · exact counted.release v

theorem insertFields (counted : h.Counted) (id : CompositeId) (entries : List (String × Value)) :
    (h.insertFields id entries).Counted := by
  induction entries generalizing h with
  | nil => exact counted
  | cons e rest ih => exact ih (counted.insertField id e.1 e.2)

theorem setFields (counted : h.Counted) (id : CompositeId) (entries : List (String × Value)) :
    (h.setFields id entries).2.Counted := by
  unfold Heap.setFields
  split
  · exact counted.insertFields id entries
  · exact counted.releaseAll _

theorem eraseField (counted : h.Counted) (id : CompositeId) (key : String) :
    (h.eraseField id key).2.Counted := by
  unfold Heap.eraseField
  split
  · rename_i c found
    have pos := counted.pos found
    split
    · have erased : (h.putComposite id { c with fields := c.fields.erase key }).Counted :=
        counted.putComposite id pos
      exact erased.release _
    · exact counted
  · exact counted

/-- A gathered value that replaces another gives that up. -/
theorem gather (counted : h.Counted) (fields : NameMap Value) (key : String) (v : Value) :
    (h.gather fields key v).2.Counted := by
  unfold Heap.gather
  split
  · exact counted.release _
  · exact counted

theorem foldl_gather (counted : h.Counted) (fields : NameMap Value)
    (entries : List (String × Value)) :
    let gathered := entries.foldl (fun (fields, h) e => h.gather fields e.1 e.2) (fields, h)
    gathered.2.Counted := by
  induction entries generalizing fields h with
  | nil => exact counted
  | cons e rest ih => exact ih (counted.gather fields e.1 e.2) _

theorem createWith (counted : h.Counted) (className : String) (entries : List (String × Value)) :
    (h.createWith className entries).2.Counted :=
  (counted.foldl_gather .empty entries).create className _

theorem separate (counted : h.Counted) (v : Value) : (h.separate v).2.2.Counted := by
  have separated : ∀ id, (h.separateComposite id).2.2.Counted := by
    intro id
    unfold separateComposite
    split
    · split
      · exact counted
      · exact (counted.duplicate _).release _
    · exact counted
  unfold Heap.separate
  split
  · exact separated _
  · split
    · exact (separated _).putContent _ _
    · exact counted
  · exact counted

end Counted

/-- Every node has as many handles as there are in nodes and among the given values, and
none is left without any. -/
structure Exact (h : Heap) (held : List Value) : Prop where
  accounts : h.Accounts held fun _ => 0
  counted : h.Counted

namespace Exact

variable {h : Heap} {held rest : List Value} {v : Value}

theorem congr (exact : h.Exact held) (same : ∀ node : Node, node.uses rest = node.uses held) :
    h.Exact rest := ⟨exact.accounts.congr same, exact.counted⟩

/-- A scalar may be held. -/
theorem scalar (exact : h.Exact held) (scalar : v.node? = none) : h.Exact (v :: held) :=
  exact.congr fun node => by
    rw [Node.uses_cons, node.usedBy_of_node?_eq_none scalar, Nat.zero_add]

theorem acquire (exact : h.Exact held) (alive : h.Alive v) : (h.acquire v).Exact (v :: held) :=
  ⟨exact.accounts.acquire alive, exact.counted.acquire v⟩

theorem acquireAll {vs : List Value} (exact : h.Exact held) (alive : ∀ v ∈ vs, h.Alive v) :
    (h.acquireAll vs).Exact (vs ++ held) :=
  ⟨exact.accounts.acquireAll alive, exact.counted.acquireAll vs⟩

theorem release (exact : h.Exact (v :: held)) : (h.release v).Exact held :=
  ⟨exact.accounts.release, exact.counted.release v⟩

theorem create {fields : NameMap Value} (exact : h.Exact (fields.values ++ held))
    (className : String) :
    (h.create className fields).2.Exact (.composite (h.create className fields).1 :: held) :=
  ⟨exact.accounts.create className, exact.counted.create className fields⟩

theorem createCell (exact : h.Exact (v :: held)) :
    (h.createCell v).2.Exact (.ref (h.createCell v).1 :: held) :=
  ⟨exact.accounts.createCell, exact.counted.createCell v⟩

theorem putContent {id : CellId} (exact : h.Exact (v :: held)) (live : (h.cell? id).isSome) :
    (h.putContent id v).Exact (h.content id :: held) :=
  ⟨exact.accounts.putContent live, exact.counted.putContent id v⟩

theorem duplicate {id : CompositeId} {c : Composite} (exact : h.Exact held)
    (found : h.composite? id = some c) :
    (h.duplicate c).2.Exact (.composite (h.duplicate c).1 :: held) :=
  ⟨exact.accounts.duplicate found, exact.counted.duplicate c⟩

theorem createWith {entries : List (String × Value)}
    (exact : h.Exact (entries.map (·.2) ++ held)) (className : String) :
    (h.createWith className entries).2.Exact
      (.composite (h.createWith className entries).1 :: held) :=
  ⟨exact.accounts.createWith className, exact.counted.createWith className entries⟩

theorem insertFields {entries : List (String × Value)}
    (exact : h.Exact (entries.map (·.2) ++ held)) (id : CompositeId) :
    (h.insertFields id entries).Exact held :=
  ⟨exact.accounts.insertFields id, exact.counted.insertFields id entries⟩

theorem setFields {entries : List (String × Value)}
    (exact : h.Exact (entries.map (·.2) ++ held)) (id : CompositeId) :
    (h.setFields id entries).2.Exact held :=
  ⟨exact.accounts.setFields id, exact.counted.setFields id entries⟩

theorem eraseField (exact : h.Exact held) (id : CompositeId) (key : String) :
    (h.eraseField id key).2.Exact held :=
  ⟨exact.accounts.eraseField id key, exact.counted.eraseField id key⟩

theorem setFlag (exact : h.Exact held) (id : CompositeId) (flag : Bool) :
    (h.setFlag id flag).Exact held :=
  ⟨exact.accounts.setFlag id flag, exact.counted.setFlag id flag⟩

theorem separate (exact : h.Exact (v :: held)) :
    (h.separate v).2.2.Exact ((h.separate v).1 :: held) :=
  ⟨exact.accounts.separate, exact.counted.separate v⟩

end Exact

end Heap

namespace Heap

/-- The number of handles of a composite that is there, and none of one that is not. -/
theorem getD_handles? (h : Heap) (id : CompositeId) :
    (h.handles? (.composite id)).getD 0 = h.countOf id := by
  rw [handles?, countOf]
  cases h.composite? id <;> rfl

/-- A release of a composite takes it out when it was the last, and counts down otherwise. -/
theorem release_composite (h : Heap) {id : CompositeId} {c : Composite}
    (found : h.composite? id = some c) :
    h.release (.composite id) = if c.count - 1 = 0
      then (h.dropComposite id).releaseAll c.fields.values
      else h.putComposite id { c with count := c.count - 1 } := by
  have names : (Value.composite id).node? = some (.composite id) := rfl
  have live := handles?_of_composite? found
  by_cases last : c.count ≤ 1
  · rw [if_pos (by omega), release_of_last names live last]
    simp only [contents, found]
    rfl
  · rw [if_neg (by omega), release_of_shared names live (by omega)]
    simp only [recount, found]

/-- A release leaves one handle less. -/
theorem countOf_release (h : Heap) (id : CompositeId) :
    (h.release (.composite id)).countOf id = h.countOf id - 1 := by
  cases found : h.composite? id with
  | none =>
    have dead : h.handles? (.composite id) = none := by rw [handles?, found]; rfl
    rw [release_of_dead rfl dead, countOf, found]
    rfl
  | some c =>
    have count : h.countOf id = c.count := by rw [countOf, found]
    rw [h.release_composite found, count]
    split
    · rename_i last
      have dead : (h.dropComposite id).handles? (.composite id) = none := by
        rw [handles?, composite?_dropComposite, if_pos rfl]
        rfl
      rw [← getD_handles?, (remains_releaseAll (h.dropComposite id) c.fields.values).dead dead,
        last]
      rfl
    · rw [countOf, composite?_putComposite, if_pos rfl]

end Heap

/-! ## Operations -/

/-- Scalars in a map use no node. -/
theorem OrderedMap.uses_ofList_of_scalars (node : Node) {entries : List (String × Value)}
    (scalars : ∀ e ∈ entries, e.2.node? = none) : node.uses (ofList entries).values = 0 := by
  have all : ∀ (es : List (String × Value)) (m : NameMap Value), (∀ e ∈ es, e.2.node? = none) →
      node.uses m.values = 0 →
      node.uses (es.foldl (fun m e => m.insert e.1 e.2) m).values = 0 := by
    intro es
    induction es with
    | nil => exact fun _ _ none => none
    | cons e rest ih =>
      intro m scalars none
      refine ih _ (fun other mem => scalars other (List.mem_cons_of_mem e mem)) ?_
      have perm := node.uses_perm (m.values_insert_perm e.1 e.2)
      rw [Node.uses_append, Node.uses_cons,
        node.usedBy_of_node?_eq_none (scalars e List.mem_cons_self)] at perm
      dsimp only at none ⊢
      omega
  exact all entries .empty scalars rfl

/-- The scalar part of a value is a scalar. -/
theorem Value.node?_scalarPart (v : Value) : v.scalarPart.node? = none := by
  cases v <;> rfl

namespace Workspace

/-- Number of handles of a node: those in fields, in cells and in slots. -/
def handlesOf (w : Workspace) (node : Node) : Nat :=
  w.heap.composites.total (fun c => node.uses c.fields.values)
    + w.heap.cells.total (fun c => node.usedBy c.content) + node.uses w.slots.values

/-- Every node has as many handles as there are in nodes, in slots and among the values that
are held, and none is left without any. -/
def Exact (w : Workspace) (held : List Value) : Prop := w.heap.Exact (held ++ w.slots.values)

namespace Exact

variable {w : Workspace} {held : List Value} {v : Value}

/-- What is held is exact up to scalars. -/
theorem scalars {vs : List Value} (exact : w.Exact held) (scalars : ∀ v ∈ vs, v.node? = none) :
    w.Exact (vs ++ held) :=
  exact.congr fun node => by
    rw [List.append_assoc, Node.uses_append, node.uses_of_scalars scalars, Nat.zero_add]

/-- What a slot holds is alive. -/
theorem alive_read (exact : w.Exact held) (slot : String) : w.heap.Alive (w.read slot) := by
  unfold read
  cases found : w.slots.get? slot with
  | none => exact w.heap.alive_of_node?_eq_none rfl
  | some v =>
    exact exact.accounts.alive (List.mem_append_right _ (OrderedMap.mem_values.mpr ⟨slot, found⟩))

/-- What a slot shows is alive. -/
theorem alive_lookThrough (exact : w.Exact held) (slot : String) :
    w.heap.Alive (w.heap.lookThrough (w.read slot)).1 := by
  unfold Heap.lookThrough
  split
  · exact exact.accounts.closed.alive_content _
  · exact exact.alive_read slot

/-- A slot takes over a handle, and what it held before is given up. -/
theorem store (exact : w.Exact (v :: held)) (slot : String) : (w.store slot v).Exact held := by
  have traded : w.heap.Exact (w.read slot :: (held ++ (w.slots.insert slot v).values)) :=
    exact.congr fun node => by
      have perm := node.uses_perm (w.slots.values_insert_perm slot v)
      have old : node.uses (w.slots.get? slot).toList = node.usedBy (w.read slot) := by
        unfold read
        cases w.slots.get? slot <;> simp
      simp only [List.cons_append, Node.uses_append, Node.uses_cons, old] at perm ⊢
      omega
  exact traded.release

/-- Another handle is stored. -/
theorem storeCopy (exact : w.Exact held) (alive : w.heap.Alive v) (slot : String) :
    (w.storeCopy slot v).Exact held :=
  Exact.store (w := w.withHeap (w.heap.acquire v)) (Heap.Exact.acquire exact alive) slot

/-- What is taken out of a slot is held. -/
theorem take (exact : w.Exact held) (slot : String) :
    (w.take slot).2.Exact ((w.take slot).1 :: held) :=
  exact.congr fun node => by
    have perm := node.uses_perm (w.slots.values_erase_perm slot)
    have old : node.uses (w.slots.get? slot).toList = node.usedBy (w.read slot) := by
      unfold read
      cases w.slots.get? slot <;> simp
    rw [Node.uses_append, old] at perm
    simp only [Workspace.take, List.cons_append, Node.uses_append, Node.uses_cons]
    omega

/-- What is held is given up. -/
theorem release (exact : w.Exact (v :: held)) : (w.withHeap (w.heap.release v)).Exact held :=
  Heap.Exact.release exact

/-- Fields are set under guard, or the values are given up. -/
theorem setFields {entries : List (String × Value)} (exact : w.Exact (entries.map (·.2) ++ held))
    (id : CompositeId) : (w.setFields id entries).2.Exact held := by
  have first : w.heap.Exact (entries.map (·.2) ++ (held ++ w.slots.values)) := by
    rw [← List.append_assoc]
    exact exact
  exact first.setFields id

/-- The values that are supplied are held. -/
theorem supplied (exact : w.Exact held) (fields : List (String × Supply)) :
    (w.supplied fields).Exact ((w.supplies fields).map (·.2) ++ held) := by
  have alive : ∀ v ∈ (w.supplies fields).map (·.2), w.heap.Alive v := by
    intro v mem
    obtain ⟨e, there, rfl⟩ := List.mem_map.mp mem
    obtain ⟨⟨key, supply⟩, -, rfl⟩ := List.mem_map.mp there
    cases supply with
    | scalar u => exact w.heap.alive_of_node?_eq_none u.node?_scalarPart
    | slot source => exact exact.alive_read source
  have acquired := Heap.Exact.acquireAll exact alive
  unfold Exact
  rw [List.append_assoc]
  exact acquired

/-- The content of a slot moves into a cell that is there. -/
theorem moveInto {cell : CellId} (exact : w.Exact held) (alive : w.heap.Alive (.ref cell))
    (source : String) : (w.moveInto cell source).Exact held := by
  have kept : (w.withHeap (w.heap.acquire (.ref cell))).Exact (.ref cell :: held) :=
    Heap.Exact.acquire exact alive
  have taken := kept.take source
  obtain ⟨c, found, -⟩ := (taken.accounts.alive (v := .ref cell)
    (List.mem_append_left _ (List.mem_cons_of_mem _ List.mem_cons_self))).cell?
  have live :
      ((((w.withHeap (w.heap.acquire (.ref cell))).take source).2.heap).cell? cell).isSome :=
    Option.isSome_iff_exists.mpr ⟨c, found⟩
  exact (Heap.Exact.putContent taken live).release.release

/-- The scalars that fields are set to are held. -/
theorem scalarParts (exact : w.Exact []) (fields : List (String × Value)) :
    w.Exact ((fields.map fun e => (e.1, e.2.scalarPart)).map (·.2) ++ []) := by
  refine exact.scalars fun v mem => ?_
  obtain ⟨e, there, rfl⟩ := List.mem_map.mp mem
  obtain ⟨e, -, rfl⟩ := List.mem_map.mp there
  exact e.2.node?_scalarPart

/-- A composite is made with scalars for fields. -/
theorem createScalars (exact : w.Exact []) (className : String) (fields : List (String × Value)) :
    (w.withHeap (w.heap.create className
      (.ofList (fields.map fun e => (e.1, e.2.scalarPart)))).2).Exact [.composite
      (w.heap.create className (.ofList (fields.map fun e => (e.1, e.2.scalarPart)))).1] := by
  have scalars : ∀ e ∈ fields.map fun e => (e.1, e.2.scalarPart), e.2.node? = none := by
    intro e mem
    obtain ⟨e, -, rfl⟩ := List.mem_map.mp mem
    exact e.2.node?_scalarPart
  have held : w.heap.Exact
      ((OrderedMap.ofList (fields.map fun e => (e.1, e.2.scalarPart))).values ++ w.slots.values) :=
    Heap.Exact.congr exact fun node => by
      rw [Node.uses_append, OrderedMap.uses_ofList_of_scalars node scalars, Nat.zero_add]
      rfl
  exact held.create className

/-- The content of a slot is separated in place. -/
theorem separate (exact : w.Exact []) (slot : String) :
    Exact ⟨(w.heap.separate (w.read slot)).2.2,
      w.slots.insert slot (w.heap.separate (w.read slot)).1⟩ [] := by
  have separated := Heap.Exact.separate (exact.take slot)
  exact separated.congr fun node => by
    have inserted :=
      node.uses_perm (w.slots.values_insert_perm slot (w.heap.separate (w.read slot)).1)
    have erased := node.uses_perm (w.slots.values_erase_perm slot)
    simp only [Workspace.take, Node.uses_append, Node.uses_cons, Node.uses_nil, List.append_eq]
      at inserted erased ⊢
    omega

/-- Acting on the composite in a slot keeps what the act keeps. -/
theorem onComposite (exact : w.Exact []) {slot : String} {act : CompositeId → Reply × Workspace}
    (acts : ∀ id, w.read slot = .composite id → (act id).2.Exact []) :
    (w.onComposite slot act).2.Exact [] := by
  unfold Workspace.onComposite
  split
  · rename_i id there
    refine acts id ?_
    unfold composite? at there
    cases held : w.read slot <;> rw [held] at there <;> cases there
    rfl
  · exact exact

/-! ### Operations -/

/-- A scalar is held by nothing. -/
theorem scalarPart (exact : w.Exact []) (v : Value) : w.Exact [v.scalarPart] :=
  Heap.Exact.scalar exact v.node?_scalarPart

section Making

variable (exact : w.Exact []) (slot : String)

include exact

theorem apply_create (className : String) : (w.apply (.create slot className)).2.Exact [] := by
  have made : (w.withHeap (w.heap.create className .empty).2).Exact
      [.composite (w.heap.create className .empty).1] :=
    @Heap.Exact.create w.heap w.slots.values .empty exact className
  exact made.store slot

theorem apply_assemble (className : String) (fields : List (String × Supply)) :
    (w.apply (.assemble slot className fields)).2.Exact [] := by
  have supplied := exact.supplied fields
  rw [List.append_nil] at supplied
  have made : (w.withHeap ((w.supplied fields).heap.createWith className
        (w.supplies fields)).2).Exact
      [.composite ((w.supplied fields).heap.createWith className (w.supplies fields)).1] :=
    Heap.Exact.createWith supplied className
  exact made.store slot

theorem apply_bind (source : String) : (w.apply (.bind slot source)).2.Exact [] := by
  have made : ((w.take source).2.withHeap ((w.take source).2.heap.createCell
      (w.take source).1).2).Exact
      [.ref ((w.take source).2.heap.createCell (w.take source).1).1] :=
    Heap.Exact.createCell (exact.take source)
  exact made.store slot

theorem apply_moveInto (source : String) : (w.apply (.moveInto slot source)).2.Exact [] := by
  dsimp only [Workspace.apply]
  cases there : w.read slot with
  | ref cell =>
    have alive := exact.alive_read slot
    rw [there] at alive
    exact exact.moveInto alive source
  | _ => exact exact

theorem apply_fetch (source key : String) : (w.apply (.fetch slot source key)).2.Exact [] := by
  refine exact.onComposite fun id _ => ?_
  cases found : w.heap.field? id key with
  | none => exact exact
  | some v =>
    have alive := exact.accounts.closed.alive_field id key
    rw [found] at alive
    exact exact.storeCopy alive slot

theorem apply_duplicate (source : String) : (w.apply (.duplicate slot source)).2.Exact [] := by
  dsimp only [Workspace.apply]
  cases there : w.composite? source >>= w.heap.composite? with
  | none => exact exact
  | some c =>
    obtain ⟨id, -, found⟩ := Option.bind_eq_some_iff.mp there
    have made : (w.withHeap (w.heap.duplicate c).2).Exact
        [.composite (w.heap.duplicate c).1] := Heap.Exact.duplicate exact found
    exact made.store slot

theorem apply_unwrap : (w.apply (.unwrap slot)).2.Exact [] := by
  have released := (exact.take slot).release
  dsimp only [Workspace.apply, Heap.unwrap]
  split <;> exact released

theorem apply_separate : (w.apply (.separate slot)).2.Exact [] := by
  dsimp only [Workspace.apply]
  split
  · exact exact.separate slot
  · exact exact

end Making

section Changing

variable (exact : w.Exact []) (slot : String)

include exact

theorem apply_set (key : String) (v : Value) : (w.apply (.set slot key v)).2.Exact [] := by
  have single : w.Exact ([(key, v.scalarPart)].map (·.2) ++ []) := exact.scalarPart v
  exact exact.onComposite fun id _ => single.setFields id

theorem apply_put (key source : String) : (w.apply (.put slot key source)).2.Exact [] := by
  refine exact.onComposite fun id _ => ?_
  have copied : (w.withHeap (w.heap.acquire (w.read source))).Exact
      ([(key, w.read source)].map (·.2) ++ []) :=
    Heap.Exact.acquire exact (exact.alive_read source)
  exact copied.setFields id

theorem apply_setUnguarded (key : String) (v : Value) :
    (w.apply (.setUnguarded slot key v)).2.Exact [] := by
  have single : w.heap.Exact ([(key, v.scalarPart)].map (·.2) ++ w.slots.values) :=
    exact.scalarPart v
  exact exact.onComposite fun id _ => single.insertFields id

theorem apply_remove (key : String) : (w.apply (.remove slot key)).2.Exact [] := by
  refine exact.onComposite fun id _ => ?_
  dsimp only
  split
  · exact Heap.Exact.eraseField exact id key
  · exact exact

theorem apply_insertUnguarded (fields : List (String × Supply)) :
    (w.apply (.insertUnguarded slot fields)).2.Exact [] := by
  refine exact.onComposite fun id _ => ?_
  have supplied := exact.supplied fields
  rw [List.append_nil] at supplied
  exact Heap.Exact.insertFields supplied id

end Changing

/-- Every operation keeps the counts exact, whether it is allowed or not. -/
theorem apply (exact : w.Exact []) (op : Operation) : (w.apply op).2.Exact [] := by
  cases op with
  | create slot className => exact exact.apply_create slot className
  | createWith slot className fields => exact (exact.createScalars className fields).store slot
  | assemble slot className fields => exact exact.apply_assemble slot className fields
  | value slot v => exact (exact.scalarPart v).store slot
  | clone slot source => exact exact.storeCopy (exact.alive_read source) slot
  | bind slot source => exact exact.apply_bind slot source
  | moveInto slot source => exact exact.apply_moveInto slot source
  | deref slot source => exact exact.storeCopy (exact.alive_lookThrough source) slot
  | fetch slot source key => exact exact.apply_fetch slot source key
  | wrap slot source =>
    exact exact.onComposite fun id there => exact.storeCopy (there ▸ exact.alive_read source) slot
  | duplicate slot source => exact exact.apply_duplicate slot source
  | drop slot => exact (exact.take slot).release
  | unwrap slot => exact exact.apply_unwrap slot
  | separate slot => exact exact.apply_separate slot
  | set slot key v => exact exact.apply_set slot key v
  | put slot key source => exact exact.apply_put slot key source
  | setUnguarded slot key v => exact exact.apply_setUnguarded slot key v
  | remove slot key => exact exact.apply_remove slot key
  | removeUnguarded slot key =>
    exact exact.onComposite fun id _ => Heap.Exact.eraseField exact id key
  | insert slot fields =>
    exact exact.onComposite fun id _ => setFields (exact.scalarParts fields) id
  | insertAll slot fields =>
    exact exact.onComposite fun id _ => (exact.supplied fields).setFields id
  | insertUnguarded slot fields => exact exact.apply_insertUnguarded slot fields
  | flag slot allow =>
    exact exact.onComposite fun id _ => Heap.Exact.setFlag exact id allow
  | same a b =>
    dsimp only [Workspace.apply]
    split <;> exact exact
  | peek slot => exact exact.onComposite fun _ _ => exact
  | get slot key => exact exact.onComposite fun _ _ => exact
  | check slot => exact exact.onComposite fun _ _ => exact
  | size slot => exact exact.onComposite fun _ _ => exact
  | equal a b => exact exact
  | text slot => exact exact

/-- Operations keep the counts exact. -/
theorem applyAll (exact : w.Exact []) (ops : List Operation) : (w.applyAll ops).Exact [] := by
  induction ops generalizing w with
  | nil => exact exact
  | cons op rest ih => exact ih (exact.apply op)

/-- There is nothing to count in the empty workspace. -/
theorem empty : Workspace.empty.Exact [] where
  accounts node := by cases node <;> rfl
  counted node count live := by cases node <;> cases live

/-- A node has as many handles as are counted. -/
theorem handlesOf_eq (exact : w.Exact []) (node : Node) :
    (w.heap.handles? node).getD 0 = w.handlesOf node := exact.accounts node

/-- A node without handles is not there. -/
theorem handles?_eq_none_iff (exact : w.Exact []) (node : Node) :
    w.heap.handles? node = none ↔ w.handlesOf node = 0 := by
  rw [← exact.handlesOf_eq node]
  cases live : w.heap.handles? node with
  | none => simp
  | some count =>
    have pos := exact.counted node count live
    simp
    omega

end Exact

/-- Giving up a slot answers the number of handles that are left. -/
theorem reply_unwrap (w : Workspace) {slot : String} {id : CompositeId}
    (there : w.read slot = .composite id) :
    (w.apply (.unwrap slot)).1
      = .remaining (some ((w.apply (.unwrap slot)).2.heap.countOf id)) := by
  dsimp only [apply, Workspace.take]
  rw [there]
  exact congrArg (Reply.remaining ∘ some) (w.heap.countOf_release id).symm

/-- Whatever is done to a workspace, allowed or not, every composite in it has as many
handles as are found in slots, in fields and in cells; a composite is there while it has
any; a release destroys it, and gives up its fields, when the handle was the last one and
changes nothing else than the count otherwise; and giving up a slot answers the number of
handles that are left. -/
theorem counts_are_exact (ops : List Operation) :
    (∀ id c, (empty.applyAll ops).heap.composite? id = some c →
      c.count = (empty.applyAll ops).handlesOf (.composite id) ∧ 0 < c.count) ∧
    (∀ id, (empty.applyAll ops).heap.composite? id = none ↔
      (empty.applyAll ops).handlesOf (.composite id) = 0) ∧
    (∀ (h : Heap) id c, h.composite? id = some c → h.release (.composite id)
      = if c.count - 1 = 0 then (h.dropComposite id).releaseAll c.fields.values
        else h.putComposite id { c with count := c.count - 1 }) ∧
    (∀ slot id, (empty.applyAll ops).read slot = .composite id →
      ((empty.applyAll ops).apply (.unwrap slot)).1 = .remaining
        (some (((empty.applyAll ops).apply (.unwrap slot)).2.handlesOf (.composite id)))) := by
  have exact := Exact.empty.applyAll ops
  refine ⟨?_, ?_, ?_, ?_⟩
  · intro id c found
    have live := Heap.handles?_of_composite? found
    have count := exact.handlesOf_eq (.composite id)
    rw [live] at count
    exact ⟨count, exact.counted _ _ live⟩
  · intro id
    rw [← exact.handles?_eq_none_iff, Heap.handles?, Option.map_eq_none_iff]
  · exact fun h id c found => h.release_composite found
  · intro slot id there
    have count := (exact.apply (.unwrap slot)).handlesOf_eq (.composite id)
    rw [reply_unwrap _ there, ← count, Heap.getD_handles?]

/-- A composite is made to hold itself, and its slot is emptied. -/
def selfHolding : List Operation :=
  [.create "a" "Node", .flag "a" true, .put "a" "self" "a", .drop "a"]

/-- A composite that holds itself outlives its slots with the one handle in its field. -/
theorem counts_are_exact_selfHolding :
    (empty.applyAll selfHolding).slots.size = 0 ∧
    (empty.applyAll selfHolding).handlesOf (.composite ⟨0⟩) = 1 :=
  have found : (empty.applyAll selfHolding).heap.composite? ⟨0⟩
      = some ⟨"Node", .ofList [("self", .composite ⟨0⟩)], true, 1⟩ := rfl
  ⟨by decide, ((counts_are_exact selfHolding).1 _ _ found).1.symm⟩

end Workspace

end OverloadMachine
