import OverloadMachine.Proofs.Accounting

/-!
# The order of writes

A temporary that is emptied gives up a handle, which may destroy nodes far away. A
write to another place does not notice: the place is still there, because its
holder is, and what is given up in the end is the same. So an instruction may
empty the temporaries that it has read before it stores its result or afterwards.
-/

namespace OverloadMachine

namespace Heap

/-! ## New contents and releases -/

/-- What is found under the name of a cell after a new content. -/
theorem cell?_putContent (h : Heap) (cell id : CellId) (v : Value) :
    (h.putContent cell v).cell? id
      = if cell = id then (h.cell? id).map fun c => { c with content := v } else h.cell? id := by
  rw [putContent]
  cases found : h.cell? cell with
  | none =>
    by_cases eq : cell = id
    · subst eq
      simp [found]
    · simp [eq]
  | some c =>
    by_cases eq : cell = id
    · subst eq
      simp [found]
    · simp [eq]

/-- A new content leaves the composites alone. -/
@[simp] theorem composite?_putContent (h : Heap) (cell : CellId) (v : Value) (id : CompositeId) :
    (h.putContent cell v).composite? id = h.composite? id := by
  rw [putContent]
  cases h.cell? cell <;> rfl

/-- A new content leaves the contents of other nodes alone. -/
theorem contents_putContent_ne (h : Heap) {cell : CellId} {node : Node} (v : Value)
    (ne : node ≠ .cell cell) : (h.putContent cell v).contents node = h.contents node := by
  cases node with
  | composite id => simp only [contents, composite?_putContent]
  | cell id =>
    have other : cell ≠ id := fun eq => ne (congrArg Node.cell eq.symm)
    simp only [contents, content_putContent_ne h v other]

/-- New contents of two cells may be exchanged. -/
theorem putContent_comm (h : Heap) {cell other : CellId} (ne : cell ≠ other) (v w : Value) :
    (h.putContent cell v).putContent other w = (h.putContent other w).putContent cell v := by
  apply ext_nodes
  · intro id
    simp only [composite?_putContent]
  · intro id
    simp only [cell?_putContent]
    by_cases first : cell = id
    · have second : other ≠ id := fun eq => ne (first.trans eq.symm)
      simp only [if_pos first, if_neg second]
    · simp only [if_neg first]

/-- A new content of one node and a new count of another may be exchanged. -/
theorem recount_putContent (h : Heap) (cell : CellId) (v : Value) (node : Node) (count : Nat) :
    (h.putContent cell v).recount node count = (h.recount node count).putContent cell v := by
  apply ext_nodes
  · intro id
    simp only [composite?_recount, composite?_putContent]
  · intro id
    simp only [cell?_recount, cell?_putContent]
    by_cases first : node = .cell id
    · by_cases second : cell = id
      · simp [first, second, Function.comp_def]
      · simp [first, second]
    · simp [first]

/-- A new content of one node and the removal of another may be exchanged. -/
theorem drop_putContent (h : Heap) {cell : CellId} {node : Node} (v : Value)
    (ne : node ≠ .cell cell) :
    (h.putContent cell v).drop node = (h.drop node).putContent cell v := by
  apply ext_nodes
  · intro id
    simp only [composite?_drop, composite?_putContent]
  · intro id
    simp only [cell?_drop, cell?_putContent]
    by_cases first : node = .cell id
    · have second : cell ≠ id := fun eq => ne (by rw [first, eq])
      simp [first, second]
    · simp [first]

/-- Giving up a handle and putting a new content into a cell that survives it may be
exchanged. -/
theorem release_putContent {h : Heap} {w : Value} {cell : CellId}
    (live : ((h.release w).cell? cell).isSome) (v : Value) :
    (h.putContent cell v).release w = (h.release w).putContent cell v := by
  induction bound : h.size using Nat.strongRecOn generalizing h w with
  | ind size ih =>
    cases names : w.node? with
    | none => rw [release_of_node?_eq_none _ names, release_of_node?_eq_none _ names]
    | some node =>
      have same := handles?_putContent h cell v node
      cases counted : h.handles? node with
      | none =>
        rw [counted] at same
        rw [release_of_dead names same, release_of_dead names counted]
      | some count =>
        rw [counted] at same
        by_cases last : count ≤ 1
        · -- The node is not the cell, which survives; its contents are given up in turn.
          have all : ∀ (vs : List Value) (k : Heap), k.size < h.size →
              ((k.releaseAll vs).cell? cell).isSome →
              (k.putContent cell v).releaseAll vs = (k.releaseAll vs).putContent cell v := by
            intro vs
            induction vs with
            | nil => exact fun k _ _ => rfl
            | cons u us ihs =>
              intro k smaller survives
              have less := size_release_le k u
              obtain ⟨c, found⟩ := Option.isSome_iff_exists.mp survives
              obtain ⟨more, -, there⟩ := (remains_releaseAll (k.release u) us).cell found
              have first := ih k.size (bound ▸ smaller) (h := k) (w := u)
                (by rw [there]; rfl) rfl
              rw [releaseAll_cons, releaseAll_cons, first]
              exact ihs (k.release u) (by omega) survives
          have gone := release_of_last names counted last
          have ne : node ≠ .cell cell := by
            intro eq
            have dead : ((h.drop node).releaseAll (h.contents node)).handles? node = none :=
              (remains_releaseAll _ _).dead (by rw [handles?_drop, if_pos rfl])
            obtain ⟨c, found⟩ := Option.isSome_iff_exists.mp live
            rw [← gone, eq, handles?, found] at dead
            cases dead
          have smaller := size_drop counted
          rw [gone] at live
          rw [release_of_last names same last, gone, contents_putContent_ne h v ne,
            drop_putContent h v ne]
          exact all _ _ (by omega) live
        · have shared : 1 < count := Nat.not_le.mp last
          rw [release_of_shared names same shared, release_of_shared names counted shared,
            recount_putContent]

end Heap

namespace Frame

/-- A definition may be made before a slot is written or afterwards. -/
theorem define_put (f : Frame) (slot : Slot) (v : Value) (name : String) :
    (f.put slot v).define name = (f.define name).put slot v := by
  by_cases same : slot = .symbol name
  · subst same
    have known : (f.put (.symbol name) v).symbols.contains name = true := by
      simp [put, OrderedMap.contains]
    rw [define, if_pos known, define]
    split
    · rfl
    · rw [put_put]
  · have there : (f.put slot v).symbols.contains name = f.symbols.contains name := by
      cases slot with
      | symbol key =>
        have ne : key ≠ name := fun eq => same (congrArg Slot.symbol eq)
        simp [put, OrderedMap.contains, ne]
      | _ => rfl
    rw [define, define, there]
    split
    · rfl
    · exact f.put_comm same v .null

/-- Two definitions may be exchanged. -/
theorem define_comm (f : Frame) (name other : String) :
    (f.define name).define other = (f.define other).define name := by
  by_cases same : name = other
  · rw [same]
  · have there : (f.define other).symbols.contains name = f.symbols.contains name := by
      rw [define]
      split
      · rfl
      · simp [put, OrderedMap.contains, Ne.symm same]
    rw [define.eq_1 f name, define.eq_1 (f.define other) name, there]
    split
    · rfl
    · exact f.define_put _ _ other

end Frame

/-- A temporary is the slot of no other operand. -/
theorem Operand.temp_ne_slot {o : Operand} {i : Nat} (ne : Operand.temp i ≠ o)
    (constants : Array Value) : Slot.temp i ≠ o.slot constants := by
  intro eq
  cases o with
  | temp j => exact ne (congrArg Operand.temp (Slot.temp.inj eq))
  | dynamic j =>
    simp only [slot] at eq
    split at eq <;> cases eq
  | _ => cases eq

/-- What can be stored to can be written, if it is used. -/
theorem Operand.isWritable_of_isLiteral {o : Operand} (storable : o.isLiteral = false)
    (used : o.isUnused = false) : o.isWritable = true := by
  cases o <;> simp_all [isLiteral, isUnused, isWritable]

/-- An operand that can be written has a slot other than the scratch slot. -/
theorem Operand.Within.slot_ne_scratch {f : Function} {o : Operand} (within : o.Within f)
    (writable : o.isWritable = true) : o.slot f.constants ≠ .scratch := by
  intro is
  cases o with
  | dynamic i =>
    obtain ⟨name, found⟩ := within
    rw [slot, found] at is
    cases is
  | temp i => cases is
  | var i => cases is
  | _ => cases writable

namespace Store

variable {s : Store} {slot : Slot} {place other : Place} {v w : Value}

/-- Stores are equal if their parts are. -/
theorem ext_parts {s t : Store} (heap : s.heap = t.heap) (frame : s.frame = t.frame)
    (notes : s.notes = t.notes) : s = t := by
  obtain ⟨_, _, _⟩ := s
  obtain ⟨_, _, _⟩ := t
  dsimp only at heap frame notes
  subst heap frame notes
  rfl

/-! ## Writes to two places -/

/-- A write to one place leaves what is in another one. -/
theorem peek_put_ne (s : Store) (ne : place ≠ other) (v : Value) :
    (s.put place v).peek other = s.peek other := by
  cases place with
  | slot slot =>
    cases other with
    | slot p => exact s.frame.get_put_ne v fun eq => ne (congrArg Place.slot eq)
    | cell cell => rfl
  | cell cell =>
    cases other with
    | slot slot => rfl
    | cell id => exact Heap.content_putContent_ne _ v fun eq => ne (congrArg Place.cell eq)

/-- Two places may be written in any order. -/
theorem put_comm (s : Store) (ne : place ≠ other) (v w : Value) :
    (s.put place v).put other w = (s.put other w).put place v := by
  cases place with
  | slot slot =>
    cases other with
    | slot p =>
      have differ : slot ≠ p := fun eq => ne (congrArg Place.slot eq)
      exact ext_parts rfl (s.frame.put_comm differ v w) rfl
    | cell cell => rfl
  | cell cell =>
    cases other with
    | slot slot => rfl
    | cell id =>
      have differ : cell ≠ id := fun eq => ne (congrArg Place.cell eq)
      exact ext_parts (s.heap.putContent_comm differ v w) rfl rfl

/-- Two handles may be given up in any order. -/
theorem release_comm (s : Store) (v w : Value) :
    (s.release v).release w = (s.release w).release v :=
  ext_parts (Heap.release_comm s.heap v w) rfl rfl

/-- A place that survives a release has what it had. -/
theorem peek_release_of_has (has : (s.release w).HasPlace place) :
    (s.release w).peek place = s.peek place := by
  cases place with
  | slot slot => rfl
  | cell cell =>
    obtain ⟨c, found⟩ := Option.isSome_iff_exists.mp has
    obtain ⟨more, -, there⟩ := (Heap.remains_release s.heap w).cell found
    have kept : (s.heap.release w).cell? cell = some c := found
    simp only [peek, Heap.content, heap_release, kept, there]

/-- A handle may be given up before a place is written that survives it or afterwards. -/
theorem put_release (has : (s.release w).HasPlace place) (v : Value) :
    (s.release w).put place v = (s.put place v).release w := by
  cases place with
  | slot slot => rfl
  | cell cell => exact ext_parts (Heap.release_putContent has v).symm rfl rfl

/-- Of two places that are overwritten both have the new values, and both old ones are
given up. -/
theorem overwrite_overwrite (ne : place ≠ other) (has : (s.overwrite place v).HasPlace other)
    (w : Value) : (s.overwrite place v).overwrite other w
      = (((s.put place v).put other w).release (s.peek place)).release (s.peek other) := by
  have written : s.overwrite place v = (s.put place v).release (s.peek place) := rfl
  rw [written] at has ⊢
  calc ((s.put place v).release (s.peek place)).overwrite other w
      = (((s.put place v).release (s.peek place)).put other w).release
          (((s.put place v).release (s.peek place)).peek other) := rfl
    _ = (((s.put place v).put other w).release (s.peek place)).release (s.peek other) := by
      rw [put_release has, peek_release_of_has has, peek_put_ne s ne]

/-- Two places may be overwritten in any order, if each survives that the other is. -/
theorem overwrite_comm (ne : place ≠ other) (first : (s.overwrite place v).HasPlace other)
    (second : (s.overwrite other w).HasPlace place) :
    (s.overwrite place v).overwrite other w = (s.overwrite other w).overwrite place v := by
  rw [overwrite_overwrite ne first, overwrite_overwrite ne.symm second, release_comm,
    put_comm s ne]

/-- A definition may be made before a place is overwritten or afterwards. -/
theorem defining_overwrite (s : Store) (place : Place) (v : Value) (constants : Array Value)
    (o : Operand) : (s.overwrite place v).defining constants o
      = (s.defining constants o).overwrite place v := by
  unfold defining
  split
  · rename_i name _
    cases place with
    | slot slot =>
      refine ext_parts ?_ (s.frame.define_put slot v name) rfl
      simp only [overwrite, put, peek, Frame.get_define]
    | cell cell => rfl
  · rfl

/-- A definition takes no slot away. -/
theorem has_defining (s : Store) (constants : Array Value) (o : Operand) (slot : Slot) :
    (s.defining constants o).frame.Has slot ↔ s.frame.Has slot := by
  unfold defining
  split
  · exact s.frame.has_define _ slot
  · rfl

/-- A new handle changes what is in no place. -/
theorem peek_acquire (s : Store) (v : Value) (place : Place) :
    (s.acquire v).peek place = s.peek place := by
  cases place with
  | slot slot => rfl
  | cell cell => exact List.singleton_inj.mp (Heap.contents_acquire s.heap v (.cell cell))

/-- A handle that is given up after a definition is taken back. -/
theorem release_defining_acquire {v : Value} (alive : s.heap.Alive v) (constants : Array Value)
    (o : Operand) :
    ((s.acquire v).defining constants o).release v = s.defining constants o := by
  have back : (s.heap.acquire v).release v = s.heap := Heap.release_acquire alive
  unfold defining
  split
  · exact congrArg (fun heap => ({ s with heap := heap, frame := s.frame.define _ } : Store)) back
  · exact congrArg (fun heap => ({ s with heap := heap } : Store)) back

/-! ## Other slots -/

/-- A slot that shows a slot shows itself. -/
theorem placeOf_eq_slot {other : Slot} (shows : s.placeOf slot = .slot other) :
    slot = other ∧ ∀ cell, s.frame.get slot ≠ .ref cell := by
  unfold placeOf at shows
  split at shows
  · cases shows
  · rename_i unbound
    exact ⟨Place.slot.inj shows, unbound⟩

/-- An operand shows no slot but its own. -/
theorem target_ne_slot (s : Store) {constants : Array Value} {o : Operand}
    (ne : slot ≠ o.slot constants) : s.target constants o ≠ .slot slot :=
  fun shows => ne (placeOf_eq_slot shows).1.symm

/-- A definition changes the value of no slot. -/
theorem get_defining (s : Store) (constants : Array Value) (o : Operand) (slot : Slot) :
    (s.defining constants o).frame.get slot = s.frame.get slot :=
  s.peek_defining constants o (.slot slot)

/-- An assignment leaves the slots alone but for that of its operand. -/
theorem get_assign_ne (s : Store) {constants : Array Value} {o : Operand}
    (ne : slot ≠ o.slot constants) (v : Value) :
    (s.assign constants o v).frame.get slot = s.frame.get slot :=
  ((s.defining constants o).peek_put_ne (s.target_ne_slot ne) v).trans
    (s.get_defining constants o slot)

/-! ## Slots that are emptied -/

/-- The store with a slot emptied. -/
def emptied (s : Store) (slot : Slot) : Store := s.overwrite (.slot slot) .null

@[simp] theorem frame_emptied (s : Store) (slot : Slot) :
    (s.emptied slot).frame = s.frame.put slot .null := rfl

@[simp] theorem heap_emptied (s : Store) (slot : Slot) :
    (s.emptied slot).heap = s.heap.release (s.frame.get slot) := rfl

/-- An operand's place does not change when another slot is emptied. -/
theorem target_emptied {constants : Array Value} {o : Operand} (ne : slot ≠ o.slot constants) :
    (s.emptied slot).target constants o = s.target constants o := by
  have kept := s.frame.get_put_ne .null ne
  rw [target, target, placeOf, placeOf, frame_emptied, kept]

variable {f : Function} {outside : Node → Nat} {held : List Value} {instr : Instruction}
  {o : Operand}

theorem Accounted.emptied (acc : s.Accounted f outside held) (has : s.frame.Has slot) :
    (s.emptied slot).Accounted f outside held := (acc.scalar rfl).overwrite has

/-- An operand may be assigned before another slot is emptied or afterwards. -/
theorem Accounted.assign_emptied (acc : s.Accounted f outside held) (within : o.Within f)
    (has : s.frame.Has slot) (differ : slot ≠ o.slot f.constants) (v : Value) :
    (s.emptied slot).assign f.constants o v = (s.assign f.constants o v).emptied slot := by
  have other : Place.slot slot ≠ s.target f.constants o := by
    intro eq
    unfold target placeOf at eq
    split at eq
    · cases eq
    · exact differ (Place.slot.inj eq)
  have defined := (s.has_defining f.constants o slot).mpr has
  have place : ((s.defining f.constants o).emptied slot).HasPlace (s.target f.constants o) := by
    have there := ((acc.defining o).emptied defined).hasPlace within
    have same : ((s.defining f.constants o).emptied slot).target f.constants o
        = s.target f.constants o :=
      (target_emptied differ).trans (placeOf_defining s f.constants o _)
    rwa [same] at there
  have kept : ((s.defining f.constants o).overwrite (s.target f.constants o) v).HasPlace
      (.slot slot) := by
    simp only [HasPlace, frame_overwrite]
    split
    · exact (Frame.has_put _ _ slot v).mpr defined
    · exact defined
  rw [Store.assign, Store.assign, target_emptied differ, Store.emptied, defining_overwrite]
  exact overwrite_comm other place kept

/-- A result may be stored before a temporary is emptied or afterwards. -/
theorem Accounted.vacate_assign (acc : s.Accounted f outside held) {p : Operand}
    (read : p.Within f) (within : o.Within f) (ne : p ≠ o) :
    (s.vacate p).assign f.constants o v = (s.assign f.constants o v).vacate p := by
  cases p with
  | temp i =>
    exact acc.assign_emptied within (read.has_slot acc.fits) (Operand.temp_ne_slot ne _) v
  | _ => rfl

/-- A result may be stored before the temporaries that were read are emptied or
afterwards. -/
theorem Accounted.vacateRead_assign (acc : s.Accounted f outside held)
    (first : instr.op1.Within f) (second : instr.op2.Within f) (result : instr.result.Within f) :
    (s.vacateRead instr).assign f.constants instr.result v
      = (s.assign f.constants instr.result v).vacateRead instr := by
  have one : (if instr.op1 ≠ instr.result then s.vacate instr.op1 else s).Accounted f outside
      held := by
    split
    · exact acc.vacate first
    · exact acc
  have same : (if instr.op1 ≠ instr.result then s.vacate instr.op1 else s).assign f.constants
      instr.result v = if instr.op1 ≠ instr.result
        then (s.assign f.constants instr.result v).vacate instr.op1
        else s.assign f.constants instr.result v := by
    split
    · rename_i ne
      exact acc.vacate_assign first result ne
    · rfl
  unfold Store.vacateRead
  dsimp only
  rw [← same]
  split
  · rename_i ne
    exact one.vacate_assign second result ne
  · rfl

end Store

end OverloadMachine
