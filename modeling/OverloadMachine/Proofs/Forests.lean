import Mathlib.Logic.Relation
import OverloadMachine.Proofs.Contracts
import OverloadMachine.Proofs.Sharing

/-!
# Forests

A heap is a forest if no cell and no field is bound to a cell, no composite carries its
flag, and composites contain no cycle. A field is set in place only where its composite
has one handle, and that is the one in the place that is written. So no field holds the
composite, and what is stored is another value: no way leads back to it. This module
shows that every built-in instruction leaves a forest where it finds one.
-/

namespace OverloadMachine

/-- What is in a map after a write is the value that was written, or was there before. -/
theorem OrderedMap.mem_values_insert {m : NameMap Value} {key : String} {v w : Value}
    (mem : w ∈ (m.insert key v).values) : w = v ∨ w ∈ m.values :=
  List.mem_cons.mp ((m.values_insert_perm key v).subset (List.mem_append_left _ mem))

namespace Heap

/-! ## Changes that leave a forest -/

/-- No cell and no field is bound to a cell, no composite may be changed while it is
shared, and composites contain no cycle. -/
structure IsForest (h : Heap) : Prop where
  cells : ∀ cell, (h.content cell).Plain
  fields : h.PlainFields
  unflagged : h.Unflagged
  acyclic : h.Acyclic

variable {h k : Heap} {id : CompositeId} {v : Value} {held : List Value} {outside : Node → Nat}

/-- What a composite contains that stands in no field is in no cycle, so a composite that
stands in no field may be replaced. -/
theorem acyclic_putComposite {c : Composite} (acyclic : h.Acyclic) (apart : h.Apart id)
    (self : Value.composite id ∉ c.fields.values) : (h.putComposite id c).Acyclic := by
  have target : ∀ {i j}, (h.putComposite id c).Contains i j → j ≠ id := by
    rintro i j ⟨d, found, mem⟩ rfl
    rw [composite?_putComposite] at found
    split at found
    · cases found
      exact self mem
    · exact apart i d found mem
  have before : ∀ {i j}, (h.putComposite id c).Contains i j → i ≠ id → h.Contains i j := by
    rintro i j ⟨d, found, mem⟩ ne
    rw [composite?_putComposite, if_neg ne.symm] at found
    exact ⟨d, found, mem⟩
  -- No way comes to the composite, so a way that starts elsewhere was there before.
  have ways : ∀ {i j}, Relation.TransGen (h.putComposite id c).Contains i j →
      j ≠ id ∧ (i ≠ id → Relation.TransGen h.Contains i j) := by
    intro i j way
    induction way with
    | single step => exact ⟨target step, fun ne => .single (before step ne)⟩
    | tail _ step ih => exact ⟨target step, fun ne => (ih.2 ne).tail (before step ih.1)⟩
  intro i cyclic
  obtain ⟨ne, way⟩ := ways cyclic
  exact acyclic i (way ne)

/-- A composite that is in no field of a heap is in none of what remains of it. -/
theorem Apart.remains (apart : h.Apart id) (remains : Remains k h) : k.Apart id := by
  intro j c found
  obtain ⟨more, -, before⟩ := remains.composite found
  exact apart j { c with count := more } before

/-- A name that is not given out yet is in no field. -/
theorem apart_next (closed : h.Closed) : h.Apart ⟨h.composites.next⟩ := by
  intro j c found mem
  obtain ⟨d, there, -⟩ := (closed.alive_value found mem).composite?
  have absent : h.composite? ⟨h.composites.next⟩ = none := OrderedMap.get?_next h.composites
  rw [absent] at there
  cases there

namespace IsForest

/-- A heap without nodes is a forest. -/
theorem empty : Heap.empty.IsForest where
  cells cell inner eq := by cases eq
  fields id c found := by cases found
  unflagged id c found := by cases found
  acyclic id cyclic := by
    obtain ⟨other, ⟨c, found, -⟩, -⟩ := Relation.TransGen.head'_iff.mp cyclic
    cases found

/-- A heap is a forest if its composites are those of one, whatever their counts, and its
cells are bound to no cell. -/
theorem of_composites (forest : h.IsForest)
    (composites : ∀ {id c}, k.composite? id = some c →
      ∃ count, h.composite? id = some { c with count := count })
    (cells : ∀ cell, (k.content cell).Plain) : k.IsForest where
  cells := cells
  fields id c found := by
    obtain ⟨count, before⟩ := composites found
    exact forest.fields id { c with count := count } before
  unflagged id c found := by
    obtain ⟨count, before⟩ := composites found
    exact forest.unflagged id { c with count := count } before
  acyclic id cyclic := by
    have contains : ∀ i j, k.Contains i j → h.Contains i j := by
      rintro i j ⟨c, found, mem⟩
      obtain ⟨count, before⟩ := composites found
      exact ⟨{ c with count := count }, before, mem⟩
    exact forest.acyclic id (Relation.TransGen.mono contains id id cyclic)

/-- What remains of a forest is one. -/
theorem remains (forest : h.IsForest) (remains : Remains k h) : k.IsForest := by
  refine forest.of_composites (fun found => ?_) fun cell => ?_
  · obtain ⟨more, -, before⟩ := remains.composite found
    exact ⟨more, before⟩
  · cases found : k.cell? cell with
    | none =>
      rw [content, found]
      exact Value.plain_of_scalar rfl
    | some c =>
      obtain ⟨more, -, before⟩ := remains.cell found
      have plain := forest.cells cell
      rw [content, before] at plain
      rw [content, found]
      exact plain

theorem release (forest : h.IsForest) (v : Value) : (h.release v).IsForest :=
  forest.remains (remains_release h v)

theorem releaseAll (forest : h.IsForest) (vs : List Value) : (h.releaseAll vs).IsForest :=
  forest.remains (remains_releaseAll h vs)

theorem acquire (forest : h.IsForest) (v : Value) : (h.acquire v).IsForest := by
  refine forest.of_composites (fun {id c} found => ?_) fun cell => ?_
  · rw [acquire_eq] at found
    split at found
    · exact ⟨c.count, found⟩
    · split at found
      · exact ⟨c.count, found⟩
      · rw [composite?_recount] at found
        split at found
        · obtain ⟨d, before, rfl⟩ := Option.map_eq_some_iff.mp found
          exact ⟨d.count, before⟩
        · exact ⟨c.count, found⟩
  · have same : (h.acquire v).content cell = h.content cell :=
      List.singleton_inj.mp (contents_acquire h v (.cell cell))
    rw [same]
    exact forest.cells cell

theorem acquireAll (forest : h.IsForest) (vs : List Value) : (h.acquireAll vs).IsForest := by
  induction vs generalizing h with
  | nil => exact forest
  | cons v vs ih => exact ih (forest.acquire v)

theorem putContent (forest : h.IsForest) (cell : CellId) (plain : v.Plain) :
    (h.putContent cell v).IsForest := by
  refine forest.of_composites (fun {id c} found => ⟨c.count, ?_⟩) fun other => ?_
  · rwa [composite?_putContent] at found
  · have before := forest.cells other
    by_cases same : cell = other
    · rw [content, cell?_putContent, if_pos same]
      cases h.cell? other with
      | none => exact Value.plain_of_scalar rfl
      | some c => exact plain
    · rwa [content_putContent_ne _ _ same]

theorem createCell (forest : h.IsForest) (plain : v.Plain) : (h.createCell v).2.IsForest := by
  refine forest.of_composites (fun {id c} found => ⟨c.count, found⟩) fun other => ?_
  rw [Heap.createCell, content, cell?_putCell]
  split
  · rename_i c there
    split at there
    · cases there
      exact plain
    · have before := forest.cells other
      rw [content, there] at before
      exact before
  · exact Value.plain_of_scalar rfl

/-- A composite that stands in no field may be replaced by one that does not hold itself. -/
theorem putComposite {c : Composite} (forest : h.IsForest) (apart : h.Apart id)
    (self : Value.composite id ∉ c.fields.values) (plain : ∀ v ∈ c.fields.values, v.Plain)
    (none : c.flagged = false) : (h.putComposite id c).IsForest where
  cells := forest.cells
  fields j d found := by
    rw [composite?_putComposite] at found
    split at found
    · cases found
      exact plain
    · exact forest.fields j d found
  unflagged j d found := by
    rw [composite?_putComposite] at found
    split at found
    · cases found
      exact none
    · exact forest.unflagged j d found
  acyclic := acyclic_putComposite forest.acyclic apart self

theorem create {fields : NameMap Value} (forest : h.IsForest)
    (accounts : h.Accounts (fields.values ++ held) outside) (plain : ∀ v ∈ fields.values, v.Plain)
    (className : String) : (h.create className fields).2.IsForest := by
  refine forest.putComposite (apart_next accounts.closed) (fun mem => ?_) plain rfl
  obtain ⟨d, there, -⟩ := (accounts.alive (List.mem_append_left held mem)).composite?
  have absent : h.composite? ⟨h.composites.next⟩ = .none := OrderedMap.get?_next h.composites
  rw [absent] at there
  cases there

theorem duplicate {c : Composite} (forest : h.IsForest) (accounts : h.Accounts held outside)
    (found : h.composite? id = some c) : (h.duplicate c).2.IsForest := by
  have alive : ∀ v ∈ c.fields.values, h.Alive v := fun v mem =>
    accounts.closed.alive_value found mem
  exact (forest.acquireAll c.fields.values).create (accounts.acquireAll alive)
    (forest.fields id c found) c.className

theorem separateComposite (forest : h.IsForest) (accounts : h.Accounts held outside)
    (id : CompositeId) : (h.separateComposite id).2.2.IsForest := by
  unfold Heap.separateComposite
  split
  · rename_i c found
    split
    · exact forest
    · exact (forest.duplicate accounts found).release _
  · exact forest

theorem separate (forest : h.IsForest) (accounts : h.Accounts held outside) (v : Value) :
    (h.separate v).2.2.IsForest := by
  unfold Heap.separate
  split
  · exact forest.separateComposite accounts _
  · split
    · exact (forest.separateComposite accounts _).putContent _ (Value.plain_composite _)
    · exact forest
  · exact forest

/-- What is seen with one cell looked through is plain. -/
theorem plain_lookThrough (forest : h.IsForest) (v : Value) : (h.lookThrough v).1.Plain := by
  unfold lookThrough
  split
  · exact forest.cells _
  · rename_i unbound
    exact unbound

/-- What is read from a field is plain. -/
theorem plain_field (forest : h.IsForest) (id : CompositeId) (key : String) :
    ((h.field? id key).getD .null).Plain := by
  unfold field?
  cases found : h.composite? id with
  | none => exact Value.plain_of_scalar rfl
  | some c =>
    cases there : c.fields.get? key with
    | none =>
      rw [Option.bind_eq_bind, Option.bind_some, there]
      exact Value.plain_of_scalar rfl
    | some v =>
      rw [Option.bind_eq_bind, Option.bind_some, there]
      exact forest.fields id c found v (OrderedMap.mem_values.mpr ⟨key, there⟩)

/-- A field of a composite that stands in no field is set to another value. -/
theorem insertField (forest : h.IsForest) (apart : h.Apart id) (key : String) (plain : v.Plain)
    (ne : v ≠ .composite id) :
    (h.insertField id key v).IsForest ∧ (h.insertField id key v).Apart id := by
  cases found : h.composite? id with
  | none =>
    rw [Heap.insertField, found]
    exact ⟨forest.release v, apart.remains (remains_release h v)⟩
  | some c =>
    have remains := remains_insertField found key v
    have self : Value.composite id ∉ (c.fields.insert key v).values := fun mem =>
      (OrderedMap.mem_values_insert mem).elim (fun eq => ne eq.symm) (apart id c found)
    have values : ∀ w ∈ (c.fields.insert key v).values, w.Plain := fun w mem =>
      (OrderedMap.mem_values_insert mem).elim (fun eq => eq ▸ plain) (forest.fields id c found w)
    have set := forest.putComposite (c := { c with fields := c.fields.insert key v }) apart self
      values (forest.unflagged id c found)
    refine ⟨set.remains remains, Apart.remains (fun j d there => ?_) remains⟩
    rw [composite?_putComposite] at there
    split at there
    · cases there
      exact self
    · exact apart j d there

/-- Fields of a composite that stands in no field are set to other values. -/
theorem insertFields {entries : List (String × Value)} (forest : h.IsForest) (apart : h.Apart id)
    (others : ∀ v ∈ entries.map (·.2), v.Plain ∧ v ≠ .composite id) :
    (h.insertFields id entries).IsForest := by
  induction entries generalizing h with
  | nil => exact forest
  | cons e rest ih =>
    obtain ⟨plain, ne⟩ := others e.2 List.mem_cons_self
    obtain ⟨set, apart⟩ := forest.insertField apart e.1 plain ne
    exact ih set apart fun v mem => others v (List.mem_cons_of_mem _ mem)

end IsForest

/-- What the holder of a plain value gets by separation is plain. -/
theorem plain_separate (plain : v.Plain) : (h.separate v).1.Plain := by
  cases v with
  | composite id => exact Value.plain_composite _
  | ref cell => exact absurd rfl (plain cell)
  | _ => exact plain

end Heap

namespace Store

/-! ## Stores -/

/-- A store is accounted for, its heap is a forest, and nothing that is held, no literal and
no slot but those of variables is bound to a cell. -/
structure Forested (f : Function) (outside : Node → Nat) (held : List Value) (s : Store) :
    Prop where
  accounted : s.Accounted f outside held
  heap : s.heap.IsForest
  held : ∀ v ∈ held, v.Plain
  literals : ∀ i : Nat, (f.constants[i]?.getD .null).Plain
  bare : ∀ slot, slot.isVariable = false → (s.frame.get slot).Plain

variable {f : Function} {outside : Node → Nat} {held : List Value} {s : Store} {v : Value}
  {o : Operand} {slot : Slot} {place : Place}

/-- A run starts in a forest. -/
theorem IsForest.forested_start (forest : s.IsForest f outside) (m : Machine) :
    (m.start f s).store.Forested f outside [] where
  accounted := m.accounted_start forest.owns forest.constants
  heap := ⟨forest.cells, forest.fields, forest.unflagged, forest.acyclic⟩
  held := nofun
  literals := forest.literals
  bare slot isVar := by
    have same : (m.start f s).store.frame.get slot = s.frame.get slot :=
      s.frame.get_prepare _ _ slot
    rw [same]
    exact fun cell => forest.bare slot cell isVar

/-- A place is there in which a separation leaves a composite. -/
theorem HasPlace.separate (has : s.HasPlace place) {id : CompositeId}
    (there : (s.separate place).2.peek place = .composite id) :
    (s.separate place).2.HasPlace place := by
  cases place with
  | slot p => exact (Frame.has_put _ _ _ _).mpr has
  | cell cell =>
    cases found : (s.separate (.cell cell)).2.heap.cell? cell with
    | none =>
      rw [Store.peek, Heap.content, found] at there
      cases there
    | some c => exact Option.isSome_iff_exists.mpr ⟨c, found⟩

namespace Forested

/-- A store with a forest is one, if what is held is counted outside. -/
theorem isForest (forested : s.Forested f outside held) :
    s.IsForest f (fun node => outside node + node.uses held) where
  owns node := by
    have eq := forested.accounted.owns node
    rw [Node.uses_append] at eq
    rw [Node.uses_append, Node.uses_nil]
    dsimp only
    omega
  constants node := Nat.le_trans (forested.accounted.constants node) (Nat.le_add_right _ _)
  literals := forested.literals
  cells := forested.heap.cells
  fields := forested.heap.fields
  bare slot cell isVar := forested.bare slot isVar cell
  unflagged := forested.heap.unflagged
  acyclic := forested.heap.acyclic

/-- The order of what is held does not matter. -/
theorem perm {rest : List Value} (forested : s.Forested f outside held) (perm : held.Perm rest) :
    s.Forested f outside rest where
  accounted := ⟨forested.accounted.fits, forested.accounted.owns.congr fun node =>
    (node.uses_perm perm).symm, forested.accounted.constants⟩
  heap := forested.heap
  held v mem := forested.held v (perm.mem_iff.mpr mem)
  literals := forested.literals
  bare := forested.bare

/-- What is in the place that a slot shows is plain. -/
theorem plain_peek (forested : s.Forested f outside held) (slot : Slot) :
    (s.peek (s.placeOf slot)).Plain := by
  cases shows : s.placeOf slot with
  | cell cell => exact forested.heap.cells cell
  | slot p =>
    obtain ⟨rfl, unbound⟩ := placeOf_eq_slot shows
    exact unbound

/-- What an operand shows is plain. -/
theorem plain_shown (forested : s.Forested f outside held) (o : Operand) :
    (s.shown f.constants o).Plain := forested.heap.plain_lookThrough _

theorem acquire (forested : s.Forested f outside held) (alive : s.heap.Alive v)
    (plain : v.Plain) : (s.acquire v).Forested f outside (v :: held) :=
  ⟨forested.accounted.acquire alive, forested.heap.acquire v,
    List.forall_mem_cons.mpr ⟨plain, forested.held⟩, forested.literals, forested.bare⟩

/-- Another handle of what an operand shows is held. -/
theorem load (forested : s.Forested f outside held) (o : Operand) :
    (s.acquire (s.shown f.constants o)).Forested f outside (s.shown f.constants o :: held) :=
  forested.acquire (forested.accounted.alive_shown o) (forested.plain_shown o)

theorem release (forested : s.Forested f outside (v :: held)) :
    (s.release v).Forested f outside held :=
  ⟨forested.accounted.release, forested.heap.release v,
    fun w mem => forested.held w (List.mem_cons_of_mem v mem), forested.literals, forested.bare⟩

theorem scalar (forested : s.Forested f outside held) (scalar : v.node? = none) :
    s.Forested f outside (v :: held) :=
  ⟨forested.accounted.scalar scalar, forested.heap,
    List.forall_mem_cons.mpr ⟨Value.plain_of_scalar scalar, forested.held⟩, forested.literals,
    forested.bare⟩

theorem defining (forested : s.Forested f outside held) (o : Operand) :
    (s.defining f.constants o).Forested f outside held where
  accounted := forested.accounted.defining o
  heap := by
    rw [heap_defining]
    exact forested.heap
  held := forested.held
  literals := forested.literals
  bare slot isVar := by
    have same := s.peek_defining f.constants o (.slot slot)
    change (Store.peek _ (.slot slot)).Plain
    rw [same]
    exact forested.bare slot isVar

/-- A plain value that is put into a place leaves the heap a forest and the slots bare. -/
theorem put_plain (forested : s.Forested f outside held) (has : s.HasPlace place)
    (plain : v.Plain) : (s.put place v).heap.IsForest
      ∧ ∀ slot, slot.isVariable = false → ((s.put place v).frame.get slot).Plain := by
  cases place with
  | cell cell => exact ⟨forested.heap.putContent cell plain, forested.bare⟩
  | slot p =>
    refine ⟨forested.heap, fun slot isVar => ?_⟩
    by_cases same : p = slot
    · subst same
      have now : (s.put (.slot p) v).frame.get p = v := Frame.get_put_self has v
      rw [now]
      exact plain
    · have kept : (s.put (.slot p) v).frame.get slot = s.frame.get slot :=
        s.frame.get_put_ne v same
      rw [kept]
      exact forested.bare slot isVar

/-- The value that was in a place is held after another one was put there. -/
theorem put (forested : s.Forested f outside (v :: held)) (has : s.HasPlace place)
    (plain : (s.peek place).Plain) : (s.put place v).Forested f outside (s.peek place :: held) := by
  obtain ⟨heap, bare⟩ := forested.put_plain has (forested.held v List.mem_cons_self)
  exact ⟨forested.accounted.put has, heap, List.forall_mem_cons.mpr
    ⟨plain, fun w mem => forested.held w (List.mem_cons_of_mem v mem)⟩, forested.literals, bare⟩

theorem overwrite (forested : s.Forested f outside (v :: held)) (has : s.HasPlace place) :
    (s.overwrite place v).Forested f outside held := by
  obtain ⟨heap, bare⟩ := forested.put_plain has (forested.held v List.mem_cons_self)
  exact ⟨forested.accounted.overwrite has, heap.release _,
    fun w mem => forested.held w (List.mem_cons_of_mem v mem), forested.literals, bare⟩

theorem assign (forested : s.Forested f outside (v :: held)) (within : o.Within f) :
    (s.assign f.constants o v).Forested f outside held :=
  (forested.defining o).overwrite (forested.accounted.hasPlace_defining within o)

theorem yield (forested : s.Forested f outside held) (within : o.Within f)
    (alive : s.heap.Alive v) (plain : v.Plain) :
    (s.yield f.constants o v).Forested f outside held := by
  unfold Store.yield
  split
  · exact forested
  · exact (forested.acquire alive plain).assign within

theorem vacate (forested : s.Forested f outside held) (within : o.Within f) :
    (s.vacate o).Forested f outside held := by
  cases o with
  | temp i => exact (forested.scalar rfl).overwrite (within.has_slot forested.accounted.fits)
  | _ => exact forested

theorem vacateRead (forested : s.Forested f outside held) {instr : Instruction}
    (first : instr.op1.Within f) (second : instr.op2.Within f) :
    (s.vacateRead instr).Forested f outside held := by
  have one : (if instr.op1 ≠ instr.result then s.vacate instr.op1 else s).Forested f outside
      held := by
    split
    · exact forested.vacate first
    · exact forested
  unfold Store.vacateRead
  dsimp only
  split
  · exact one.vacate second
  · exact one

/-- A new composite without fields is held. -/
theorem create (forested : s.Forested f outside held) (className : String) :
    ({ s with heap := (s.heap.create className .empty).2 } : Store).Forested f outside
      (.composite (s.heap.create className .empty).1 :: held) where
  accounted := forested.accounted.create className
  heap := by
    have none : s.heap.Accounts
      ((OrderedMap.empty : NameMap Value).values ++ (s.frame.values ++ held)) outside :=
      forested.accounted.owns
    exact forested.heap.create none nofun className
  held := List.forall_mem_cons.mpr ⟨Value.plain_composite _, forested.held⟩
  literals := forested.literals
  bare := forested.bare

/-- A variable is bound to a cell, and the handle that the caller gets is counted outside. -/
theorem bound (forested : s.Forested f outside held) (has : s.frame.Has slot)
    (isVar : slot.isVariable = true) :
    (s.bound slot).2.Forested f (fun node => outside node + node.usedBy (.ref (s.bound slot).1))
      held := by
  have acc := (forested.accounted.bound has).outward
  refine ⟨acc, ?_, forested.held, forested.literals, fun other bare => ?_⟩
  · by_cases bound : ∃ cell, s.frame.get slot = .ref cell
    · obtain ⟨cell, eq⟩ := bound
      rw [bound_of_bound eq]
      exact forested.heap.acquire (.ref cell)
    · have unbound : ∀ cell, s.frame.get slot ≠ .ref cell := fun cell eq => bound ⟨cell, eq⟩
      rw [bound_of_unbound unbound]
      exact (forested.heap.createCell unbound).acquire (.ref (s.heap.createCell _).1)
  · have ne : slot ≠ other := by
      rintro rfl
      rw [isVar] at bare
      cases bare
    have shows := placeOf_bound has other
    rw [if_neg ne, placeOf_of_ne_ref (forested.bare other bare)] at shows
    obtain ⟨-, unbound⟩ := placeOf_eq_slot shows
    exact unbound

/-- A variable gets the handle of a cell that was counted outside. -/
theorem rebind {cell : CellId}
    (forested : s.Forested f (fun node => outside node + node.usedBy (.ref cell)) held)
    (constants : ∀ node : Node, node.uses f.constants.toList ≤ outside node)
    (has : s.frame.Has slot) (isVar : slot.isVariable = true) :
    (s.overwrite (.slot slot) (.ref cell)).Forested f outside held := by
  refine ⟨(forested.accounted.inward constants).overwrite has, forested.heap.release _,
    forested.held, forested.literals, fun other bare => ?_⟩
  have ne : slot ≠ other := by
    rintro rfl
    rw [isVar] at bare
    cases bare
  have kept : (s.overwrite (.slot slot) (.ref cell)).frame.get other = s.frame.get other :=
    s.frame.get_put_ne _ ne
  rw [kept]
  exact forested.bare other bare

theorem separate (forested : s.Forested f outside held) (has : s.HasPlace place)
    (plain : (s.peek place).Plain) : (s.separate place).2.Forested f outside held := by
  have separated := forested.heap.separate forested.accounted.owns (s.peek place)
  have value := Heap.plain_separate (h := s.heap) plain
  refine ⟨⟨(s.fits_separate place f).mpr forested.accounted.fits,
    forested.accounted.owns.separate has, forested.accounted.constants⟩, ?_, forested.held,
    forested.literals, ?_⟩
  · cases place with
    | cell cell => exact separated.putContent cell value
    | slot p => exact separated
  · have bare := (forested.put_plain has value).2
    cases place <;> exact bare

/-- Fields are set under guard of the composite in a place. It carries no flag, so it has
one handle if the guard lets the fields be set, and stands in no field. -/
theorem setFields {entries : List (String × Value)} {id : CompositeId}
    (forested : s.Forested f outside (entries.map (·.2) ++ held)) (has : s.HasPlace place)
    (there : s.peek place = .composite id) :
    ({ s with heap := (s.heap.setFields id entries).2 } : Store).Forested f outside held := by
  have first : s.heap.Accounts (entries.map (·.2) ++ (s.frame.values ++ held)) outside :=
    Heap.Accounts.congr forested.accounted.owns fun node => by
      simp only [Node.uses_append]
      omega
  refine ⟨⟨forested.accounted.fits, first.setFields id, forested.accounted.constants⟩, ?_,
    fun v mem => forested.held v (List.mem_append_right _ mem), forested.literals, forested.bare⟩
  have alive := forested.accounted.owns.alive_place place
  rw [there] at alive
  obtain ⟨c, found, -⟩ := alive.composite?
  have none := forested.heap.unflagged id c found
  unfold Heap.setFields Heap.checkMutation
  rw [found]
  dsimp only
  by_cases can : c.isMutable = true
  · have single : c.count = 1 := by simpa [Composite.isMutable, none] using can
    have confines := forested.accounted.confines has there found single
    rw [if_pos can]
    exact forested.heap.insertFields confines.apart fun v mem =>
      ⟨forested.held v (List.mem_append_left _ mem), confines.held v (List.mem_append_left _ mem)⟩
  · rw [if_neg can]
    exact forested.heap.releaseAll _

end Forested

end Store

namespace Effect

/-! ## Instructions -/

variable {f : Function} {instr : Instruction} {pc : Nat} {outside : Node → Nat}
  {held : List Value} {s : Store}

theorem forested_assign (checked : instr.Checked f pc) (forested : s.Forested f outside held) :
    (assign f.constants instr s).2.Forested f outside held := by
  have vacated := (forested.load instr.op2).vacateRead checked.op1 checked.op2
  have alive := vacated.accounted.alive_held List.mem_cons_self
  exact (vacated.yield checked.result alive (forested.plain_shown _)).assign checked.op1

theorem forested_assignRef (checked : instr.Checked f pc) (is : instr.opcode = .assignRef)
    (forested : s.Forested f outside held) :
    (assignRef f.constants instr s).2.Forested f outside held := by
  obtain ⟨target, source⟩ := checked.assignRef is
  have defined := forested.defining instr.op2
  have bound := defined.bound (checked.op2.has_slot defined.accounted.fits)
    (checked.op2.isVariable_slot source)
  have again := bound.defining instr.op1
  exact again.rebind forested.accounted.constants (checked.op1.has_slot again.accounted.fits)
    (checked.op1.isVariable_slot target)

theorem forested_compound (checked : instr.Checked f pc) (forested : s.Forested f outside held)
    (op : ArithmeticOp) : (compound f.constants instr op s).2.Forested f outside held := by
  have loaded := forested.load instr.op2
  unfold compound
  dsimp only
  split
  · exact (loaded.defining instr.op1).release
  · rename_i v made
    have scalar := Operator.node?_arithmetic made
    have vacated := ((loaded.scalar scalar).assign checked.op1).vacateRead checked.op1 checked.op2
    exact (vacated.yield checked.result (Heap.alive_of_node?_eq_none _ scalar)
      (Value.plain_of_scalar scalar)).release

theorem forested_step (checked : instr.Checked f pc) (forested : s.Forested f outside held)
    (time : StepTime) (direction : StepDirection) :
    (step f.constants instr time direction s).2.Forested f outside held := by
  unfold step
  dsimp only
  split
  · exact forested.defining instr.op1
  · rename_i v made
    have scalar := Operator.node?_step made
    cases time with
    | pre =>
      have assigned := (forested.scalar scalar).assign checked.op1
      exact assigned.yield checked.result (Heap.alive_of_node?_eq_none _ scalar)
        (Value.plain_of_scalar scalar)
    | post =>
      have has := forested.accounted.hasPlace_defining checked.op1 instr.op1
      have plain := forested.plain_peek (instr.op1.slot f.constants)
      have updated := ((forested.defining instr.op1).scalar scalar).put has
        (by rw [Store.peek_defining]; exact plain)
      rw [Store.peek_defining] at updated
      exact updated.assign checked.result

/-- An operator whose operands are emptied before its result is stored. -/
theorem forested_binary (checked : instr.Checked f pc) (forested : s.Forested f outside held)
    {g : Heap → Value → Value → Except Fault Value}
    (scalar : ∀ {h a b v}, g h a b = .ok v → v.node? = none) :
    (binary f.constants instr g s).2.Forested f outside held := by
  unfold binary
  split
  · exact forested
  · rename_i v made
    exact ((forested.vacateRead checked.op1 checked.op2).scalar (scalar made)).assign
      checked.result

theorem forested_newComposite (checked : instr.Checked f pc)
    (forested : s.Forested f outside held) :
    (newComposite f.constants instr s).2.Forested f outside held := by
  unfold newComposite
  split
  · rename_i className _
    exact (forested.create className).assign checked.result
  · exact forested

theorem forested_setFieldAt {place : Place} {v : Value} (key : String)
    (forested : s.Forested f outside (v :: held)) (has : s.HasPlace place)
    (plain : (s.peek place).Plain) : (setFieldAt place key v s).2.Forested f outside held := by
  unfold setFieldAt
  split
  · exact forested.release
  · have separated := forested.separate has plain
    dsimp only
    split
    · rename_i id there
      exact @Store.Forested.setFields _ _ _ _ _ [(key, v)] id separated (has.separate there) there
    · exact separated.release

theorem forested_setField {data : Instruction} (checked : instr.Checked f pc)
    (operand : data.op1.Within f) (forested : s.Forested f outside held) :
    (setField f.constants instr data pc s).2.Forested f outside held := by
  unfold setField
  split
  · exact forested
  · rename_i key _
    have loaded := forested.load data.op1
    have has := loaded.accounted.hasPlace_defining checked.op1 instr.op1
    have defined := loaded.defining instr.op1
    have plain := loaded.plain_peek (instr.op1.slot f.constants)
    have set := forested_setFieldAt key defined has (by rw [Store.peek_defining]; exact plain)
    dsimp only
    split
    · rename_i eq
      rw [Store.target, Store.placeOf_acquire, ← Store.target, eq] at set
      exact set
    · rename_i eq
      rw [Store.target, Store.placeOf_acquire, ← Store.target, eq] at set
      exact (set.vacate checked.op2).vacate operand

theorem forested_getField (checked : instr.Checked f pc) (forested : s.Forested f outside held) :
    (getField f.constants instr s).2.Forested f outside held := by
  unfold getField
  split
  · exact forested
  · rename_i key _
    split
    · rename_i id shown
      have alive := (Heap.Accounts.closed forested.accounted.owns).alive_field id key
      have loaded := forested.acquire alive (forested.heap.plain_field id key)
      exact ((loaded.vacate checked.op1).vacate checked.op2).assign checked.result
    · exact forested

/-- Every instruction of a verified function leaves a forest where it finds one, and the
value that ends a run is not bound to a cell. -/
theorem forested_of (verified : f.Verified) (found : f.code[pc]? = some instr)
    (forested : s.Forested f outside []) :
    (Effect.of f instr pc s).2.Forested f outside (given (Effect.of f instr pc s).1) := by
  have checked := verified.checked found
  by_cases ends : instr.opcode = .ret
  · unfold Effect.of
    rw [ends]
    exact (forested.load instr.op1).vacate checked.op1
  · rw [given_of ends]
    unfold Effect.of
    cases is : instr.opcode with
    | nop => exact forested
    | assign => exact forested_assign checked forested
    | assignRef => exact forested_assignRef checked is forested
    | newComposite => exact forested_newComposite checked forested
    | setField =>
      obtain ⟨-, data, behind, -⟩ := checked.setField is
      dsimp only
      rw [behind, Option.getD_some]
      exact forested_setField checked (verified.checked behind).op1 forested
    | opData => exact forested
    | getField => exact forested_getField checked forested
    | free => exact forested.vacate checked.op1
    | jmp => exact forested
    | jmpIfFalse =>
      dsimp only
      unfold jumpIfFalse
      split
      · exact forested
      · exact forested.vacate checked.op1
    | ret => exact absurd is ends
    | arithmetic op => exact forested_binary checked forested Operator.node?_arithmetic
    | boolXor => exact forested_binary checked forested Operator.node?_boolXor
    | comparison op => exact forested_binary checked forested Operator.node?_ending_comparison?
    | compound op => exact forested_compound checked forested op
    | unary op =>
      exact forested_binary checked forested (g := fun h a _ => Operator.unary h op a)
        Operator.node?_unary
    | step time direction => exact forested_step checked forested time direction

/-- The end of a built-in instruction leaves a forest. -/
theorem forested_finishing {ending : Except Fault Flow × Store}
    (forested : ending.2.Forested f outside held) :
    (finishing ending).2.Forested f outside held := by
  have cleared : (ending.2.overwrite (.slot .scratch) .null).Forested f outside held :=
    (forested.scalar rfl).overwrite (show ending.2.HasPlace (.slot .scratch) from trivial)
  unfold finishing
  split
  · exact forested
  · exact cleared

end Effect

end OverloadMachine
