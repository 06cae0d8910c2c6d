import OverloadMachine.Proofs.Accounting
import OverloadMachine.Proofs.Copying
import OverloadMachine.Proofs.Vacating

/-!
# Stores and their trees

A store mirrors a tree store when what a slot shows unfolds into the tree of the
slot, and slots show the same place exactly if they are linked. Whatever gives
handles up or makes new nodes keeps the trees of what is alive, so most operations
of the store only need their accounts to keep the mirror true.
-/

namespace OverloadMachine

namespace Heap

/-! ## Trees are kept -/

/-- No composite has its flag set. -/
def Unflagged (h : Heap) : Prop := ∀ id c, h.composite? id = some c → c.flagged = false

/-- Every composite of the first heap is in the second one, with some count, and the
new ones have no flag. -/
structure Grows (h k : Heap) : Prop where
  composite : ∀ {id c}, h.composite? id = some c →
    ∃ count, k.composite? id = some { c with count := count }
  unflagged : h.Unflagged → k.Unflagged

/-- A composite of the first heap that is alive in the second one is what it was there,
and none has got its flag set. -/
structure Carries (h l : Heap) : Prop where
  composite : ∀ {id c}, h.composite? id = some c → l.Alive (.composite id) →
    ∃ count, l.composite? id = some { c with count := count }
  unflagged : h.Unflagged → l.Unflagged

namespace Grows

variable {h k l : Heap}

theorem trans (first : h.Grows k) (second : k.Grows l) : h.Grows l where
  composite found := by
    obtain ⟨m, found⟩ := first.composite found
    obtain ⟨n, found⟩ := second.composite found
    exact ⟨n, found⟩
  unflagged none := second.unflagged (first.unflagged none)

/-- A heap with the same composites. -/
theorem of_composites (same : ∀ id, k.composite? id = h.composite? id) : h.Grows k where
  composite {id c} found := ⟨c.count, by rw [same, found]⟩
  unflagged none id c found := none id c (by rw [← same, found])

theorem refl (h : Heap) : h.Grows h := of_composites fun _ => rfl

/-- A heap with another handle. -/
theorem acquire (h : Heap) (v : Value) : h.Grows (h.acquire v) := by
  rw [acquire_eq]
  split
  · exact refl h
  · split
    · exact refl h
    · rename_i node _ count _
      constructor
      · intro id c found
        rw [composite?_recount, found]
        split
        · exact ⟨_, rfl⟩
        · exact ⟨c.count, rfl⟩
      · intro none id c found
        rw [composite?_recount] at found
        split at found
        · obtain ⟨d, old, rfl⟩ := Option.map_eq_some_iff.mp found
          exact none id d old
        · exact none id c found

theorem acquireAll (h : Heap) (vs : List Value) : h.Grows (h.acquireAll vs) := by
  induction vs generalizing h with
  | nil => exact refl h
  | cons v vs ih => exact (acquire h v).trans (ih (h.acquire v))

/-- A heap with a new composite. -/
theorem create (h : Heap) (className : String) (fields : NameMap Value) :
    h.Grows (h.create className fields).2 where
  composite {id c} found := by
    have live := handles?_of_composite? found
    have ne : (⟨h.composites.next⟩ : CompositeId) ≠ id :=
      fun eq => ne_next_of_live live (congrArg Node.composite eq)
    refine ⟨c.count, ?_⟩
    rw [Heap.create, composite?_putComposite, if_neg ne, found]
  unflagged none id c found := by
    rw [Heap.create, composite?_putComposite] at found
    split at found
    · cases found
      rfl
    · exact none id c found

theorem duplicate (h : Heap) (c : Composite) : h.Grows (h.duplicate c).2 :=
  (acquireAll h c.fields.values).trans (create _ c.className c.fields)

/-- Composites are added to a heap, and then nodes and handles are taken away. -/
theorem carries (grows : h.Grows k) (remains : Remains l k) : h.Carries l where
  composite {id c} found alive := by
    obtain ⟨n, there⟩ := grows.composite found
    obtain ⟨⟨className, fields, flagged, m⟩, left, -⟩ := alive.composite?
    obtain ⟨more, -, before⟩ := remains.composite left
    rw [there] at before
    cases before
    exact ⟨m, left⟩
  unflagged none id c found := by
    obtain ⟨more, -, there⟩ := remains.composite found
    have kept := grows.unflagged none id _ there
    exact kept

end Grows

namespace Carries

variable {h k l : Heap}

theorem of_grows (grows : h.Grows k) : h.Carries k := grows.carries (.refl k)

theorem of_remains (remains : Remains k h) : h.Carries k := (Grows.refl h).carries remains

/-- Only the composites of a heap matter. -/
theorem congr (carries : h.Carries k) (same : ∀ id, l.composite? id = k.composite? id) :
    h.Carries l where
  composite {id c} found alive := by
    have before : k.Alive (.composite id) := by
      intro node names
      cases names
      obtain ⟨count, pos, live⟩ := alive (.composite id) rfl
      rw [handles?, same] at live
      exact ⟨count, pos, live⟩
    rw [same]
    exact carries.composite found before
  unflagged none id c found := carries.unflagged none id c (by rw [← same, found])

end Carries

mutual

/-- What is alive afterwards has the tree that it had. -/
theorem Holds.carries {h l : Heap} (carries : h.Carries l) (closed : l.Closed) :
    ∀ {t : Tree} {v : Value}, h.Holds t v → l.Alive v → l.Holds t v
  | .leaf w scalar, v, holds, _ => holds
  | .node className fields, v, holds, alive => by
    obtain ⟨id, c, rfl, found, rfl, each⟩ := holds
    obtain ⟨count, there⟩ := carries.composite found alive
    refine ⟨id, _, rfl, there, rfl, HoldsEach.carries carries closed each fun e mem => ?_⟩
    exact closed.alive_value there (List.mem_map.mpr ⟨e, mem, rfl⟩)

/-- Fields that are alive afterwards have the trees that they had. -/
theorem HoldsEach.carries {h l : Heap} (carries : h.Carries l) (closed : l.Closed) :
    ∀ {ts : List (String × Tree)} {entries : List (String × Value)}, h.HoldsEach ts entries →
      (∀ e ∈ entries, l.Alive e.2) → l.HoldsEach ts entries
  | [], entries, each, _ => each
  | (key, t) :: rest, entries, each, alive => by
    obtain ⟨v, others, rfl, one, later⟩ := each
    have first := Holds.carries carries closed one (alive _ List.mem_cons_self)
    exact ⟨v, others, rfl, first, HoldsEach.carries carries closed later fun e mem =>
      alive e (List.mem_cons_of_mem _ mem)⟩

end

end Heap

/-- Whether a slot is that of a variable. -/
def Slot.isVariable : Slot → Bool
  | .var _ | .symbol _ => true
  | .scratch | .temp _ => false

/-- Slot of a variable. -/
theorem Operand.Within.isVariable_slot {f : Function} {o : Operand} (within : o.Within f)
    (assigned : o.isVariable = true) : (o.slot f.constants).isVariable = true := by
  cases o with
  | var i => rfl
  | dynamic i =>
    obtain ⟨name, found⟩ := within
    simp only [slot, found]
    rfl
  | _ => cases assigned

namespace Store

/-! ## What slots show -/

variable {s : Store} {slot other : Slot} {place : Place} {cell : CellId} {v : Value}

/-- A slot shows the inside of the cell that it is bound to. -/
theorem placeOf_eq_cell : s.placeOf slot = .cell cell ↔ s.frame.get slot = .ref cell := by
  unfold placeOf
  split
  · rename_i inner eq
    simp [eq]
  · rename_i unbound
    simpa using unbound cell

/-- A slot that is not bound shows itself. -/
theorem placeOf_of_ne_ref (unbound : ∀ cell, s.frame.get slot ≠ .ref cell) :
    s.placeOf slot = .slot slot := by
  unfold placeOf
  split
  · rename_i cell eq
    exact absurd eq (unbound cell)
  · rfl

/-- What a slot holds decides which place it shows. -/
theorem placeOf_congr {s' : Store} (same : s'.frame.get slot = s.frame.get slot) :
    s'.placeOf slot = s.placeOf slot := by
  unfold placeOf
  rw [same]

/-- What is in a place after one was written. -/
theorem peek_put (has : s.HasPlace place) (v : Value) (other : Place) :
    (s.put place v).peek other = if place = other then v else s.peek other := by
  split
  · rename_i eq
    subst eq
    cases place with
    | slot slot => exact Frame.get_put_self has v
    | cell cell =>
      obtain ⟨c, found⟩ := Option.isSome_iff_exists.mp has
      simp only [peek, put, Heap.content, Heap.cell?_putContent, found, if_true, Option.map_some]
  · rename_i ne
    exact s.peek_put_ne ne v

/-- A slot shows the same place after one was written that a slot shows. -/
theorem placeOf_put (has : s.HasPlace (s.placeOf slot)) (value : ∀ cell, v ≠ .ref cell)
    (other : Slot) : (s.put (s.placeOf slot) v).placeOf other = s.placeOf other := by
  cases shows : s.placeOf slot with
  | cell cell => rfl
  | slot p =>
    obtain ⟨rfl, unbound⟩ := placeOf_eq_slot shows
    rw [shows] at has
    by_cases same : slot = other
    · subst same
      have now : (s.put (.slot slot) v).frame.get slot = v := Frame.get_put_self has v
      rw [shows]
      exact placeOf_of_ne_ref fun cell eq => value cell (now.symm.trans eq)
    · exact placeOf_congr (s.frame.get_put_ne v same)

/-- A release does not change what is in a place that is still there. -/
theorem peek_release (w : Value) (place : Place)
    (alive : ∀ cell, place = .cell cell → (s.release w).heap.Alive (.ref cell)) :
    (s.release w).peek place = s.peek place := by
  cases place with
  | slot slot => rfl
  | cell cell => exact ((Heap.remains_release s.heap w).content (alive cell rfl)).symm

/-- A slot that is not bound is bound to a new cell with its value. -/
theorem bound_of_unbound (unbound : ∀ cell, s.frame.get slot ≠ .ref cell) :
    s.bound slot = ((s.heap.createCell (s.frame.get slot)).1, { s with
      heap := (s.heap.createCell (s.frame.get slot)).2.acquire
        (.ref (s.heap.createCell (s.frame.get slot)).1)
      frame := s.frame.put slot (.ref (s.heap.createCell (s.frame.get slot)).1) }) := by
  unfold bound
  cases value : s.frame.get slot with
  | ref cell => exact absurd value (unbound cell)
  | _ => rfl

/-- A slot that is bound is bound to its cell, of which there is another handle. -/
theorem bound_of_bound (eq : s.frame.get slot = .ref cell) :
    s.bound slot = (cell, s.acquire (.ref cell)) := by
  unfold bound
  rw [eq]

/-- A slot that is bound shows its cell, and the other slots show what they showed. -/
theorem placeOf_bound (has : s.frame.Has slot) (other : Slot) :
    (s.bound slot).2.placeOf other
      = if slot = other then .cell (s.bound slot).1 else s.placeOf other := by
  by_cases bound : ∃ cell, s.frame.get slot = .ref cell
  · obtain ⟨cell, eq⟩ := bound
    rw [bound_of_bound eq]
    split
    · rename_i same
      rw [placeOf_acquire, ← same]
      exact placeOf_eq_cell.mpr eq
    · rfl
  · rw [bound_of_unbound fun cell eq => bound ⟨cell, eq⟩]
    split
    · rename_i same
      rw [← same]
      exact placeOf_eq_cell.mpr (Frame.get_put_self has _)
    · rename_i ne
      exact placeOf_congr (s.frame.get_put_ne _ ne)

/-- A slot that gets a handle of a cell shows what the slot shows that is bound to it, and
the other slots show what they showed. -/
theorem placeOf_rebound (source : s.placeOf other = .cell cell) (has : s.frame.Has slot)
    (p : Slot) : (s.overwrite (.slot slot) (.ref cell)).placeOf p
      = s.placeOf (if p = slot then other else p) := by
  by_cases same : p = slot
  · subst same
    rw [if_pos rfl, source]
    exact placeOf_eq_cell.mpr (Frame.get_put_self has _)
  · rw [if_neg same]
    exact placeOf_congr (s.frame.get_put_ne _ (Ne.symm same))

/-- The composites are carried over when a slot is bound. -/
theorem carries_bound (s : Store) (slot : Slot) : s.heap.Carries (s.bound slot).2.heap := by
  by_cases bound : ∃ cell, s.frame.get slot = .ref cell
  · obtain ⟨cell, eq⟩ := bound
    rw [bound_of_bound eq]
    exact .of_grows (.acquire s.heap (.ref cell))
  · rw [bound_of_unbound fun cell eq => bound ⟨cell, eq⟩]
    dsimp only
    have grows : s.heap.Grows (s.heap.createCell (s.frame.get slot)).2 :=
      .of_composites fun _ => rfl
    exact .of_grows (grows.trans (.acquire _ _))

namespace Accounted

variable {f : Function} {outside : Node → Nat} {held : List Value}

/-- A cell is alive that a slot shows. -/
theorem alive_cell (acc : s.Accounted f outside held) (shows : s.placeOf slot = .cell cell) :
    s.heap.Alive (.ref cell) := by
  have alive := acc.owns.alive_get slot
  rwa [placeOf_eq_cell.mp shows] at alive

/-- What a slot shows is alive. -/
theorem alive_peek (acc : s.Accounted f outside held) (slot : Slot) :
    s.heap.Alive (s.peek (s.placeOf slot)) := by
  cases shows : s.placeOf slot with
  | cell cell => exact acc.owns.alive_content cell
  | slot p => exact acc.owns.alive_get p

/-- No slot shows the cell that is made for a slot that is not bound. -/
theorem ne_bound (acc : s.Accounted f outside held) (unbound : ∀ cell, s.frame.get slot ≠ .ref cell)
    (other : Slot) : s.placeOf other ≠ .cell (s.bound slot).1 := by
  intro shows
  rw [bound_of_unbound unbound] at shows
  obtain ⟨count, -, live⟩ := acc.alive_cell shows (.cell _) rfl
  have absent : s.heap.cell? (s.heap.createCell (s.frame.get slot)).1 = none :=
    OrderedMap.get?_next s.heap.cells
  rw [Heap.handles?, absent] at live
  cases live

/-- Slots show one place after a slot is bound exactly if they did before. -/
theorem placeOf_bound_inj (acc : s.Accounted f outside held) (has : s.frame.Has slot)
    (one two : Slot) : (s.bound slot).2.placeOf one = (s.bound slot).2.placeOf two
      ↔ s.placeOf one = s.placeOf two := by
  by_cases bound : ∃ cell, s.frame.get slot = .ref cell
  · obtain ⟨cell, eq⟩ := bound
    rw [bound_of_bound eq, placeOf_acquire, placeOf_acquire]
  · -- A slot that is not bound is linked to itself only, and so is the new cell.
    have unbound : ∀ cell, s.frame.get slot ≠ .ref cell := fun cell eq => bound ⟨cell, eq⟩
    have itself := placeOf_of_ne_ref unbound
    have fresh := acc.ne_bound unbound
    have alone : ∀ {p}, slot ≠ p → s.placeOf p ≠ .slot slot :=
      fun ne shows => ne (placeOf_eq_slot shows).1.symm
    rw [placeOf_bound has, placeOf_bound has]
    by_cases first : slot = one
    · by_cases second : slot = two
      · rw [← first, ← second]
        simp
      · rw [if_pos first, if_neg second, ← first, itself]
        exact ⟨fun same => absurd same.symm (fresh two),
          fun same => absurd same.symm (alone second)⟩
    · by_cases second : slot = two
      · rw [if_neg first, if_pos second, ← second, itself]
        exact ⟨fun same => absurd same (fresh one), fun same => absurd same (alone first)⟩
      · rw [if_neg first, if_neg second]

/-- What slots show does not change when one is bound. -/
theorem peek_bound (acc : s.Accounted f outside held) (has : s.frame.Has slot) (other : Slot) :
    (s.bound slot).2.peek ((s.bound slot).2.placeOf other) = s.peek (s.placeOf other) := by
  by_cases bound : ∃ cell, s.frame.get slot = .ref cell
  · obtain ⟨cell, eq⟩ := bound
    rw [bound_of_bound eq, placeOf_acquire]
    exact peek_acquire s _ _
  · have unbound : ∀ cell, s.frame.get slot ≠ .ref cell := fun cell eq => bound ⟨cell, eq⟩
    rw [placeOf_bound has]
    have fresh := acc.ne_bound unbound other
    rw [bound_of_unbound unbound] at fresh ⊢
    have content : ∀ id, ((s.heap.createCell (s.frame.get slot)).2.acquire
        (.ref (s.heap.createCell (s.frame.get slot)).1)).content id
          = (s.heap.createCell (s.frame.get slot)).2.content id :=
      fun id => List.singleton_inj.mp (Heap.contents_acquire _ _ (.cell id))
    by_cases same : slot = other
    · rw [if_pos same, ← same, placeOf_of_ne_ref unbound]
      refine (content _).trans ?_
      simp [Heap.content, Heap.createCell, peek]
    · rw [if_neg same]
      cases shows : s.placeOf other with
      | slot p =>
        obtain ⟨rfl, -⟩ := placeOf_eq_slot shows
        exact s.frame.get_put_ne _ same
      | cell id =>
        have ne : (s.heap.createCell (s.frame.get slot)).1 ≠ id :=
          fun eq => fresh (by rw [shows, eq])
        refine (content id).trans ?_
        rw [peek, Heap.content, Heap.content]
        rw [Heap.createCell] at ne ⊢
        rw [Heap.cell?_putCell, if_neg ne]

/-- What the slots show does not change but for the one that gets a handle of a cell. -/
theorem peek_rebound (acc : (s.overwrite (.slot slot) (.ref cell)).Accounted f outside held)
    (source : s.placeOf other = .cell cell) (has : s.frame.Has slot) (p : Slot) :
    (s.overwrite (.slot slot) (.ref cell)).peek
        ((s.overwrite (.slot slot) (.ref cell)).placeOf p)
      = s.peek (s.placeOf (if p = slot then other else p)) := by
  have places := placeOf_rebound source has p
  have released := peek_release (s := s.put (.slot slot) (.ref cell)) (s.frame.get slot)
    (s.placeOf (if p = slot then other else p)) fun id shows =>
      acc.alive_cell (places.trans shows)
  rw [places]
  refine released.trans ?_
  by_cases same : p = slot
  · rw [if_pos same, source]
    rfl
  · rw [if_neg same]
    cases shows : s.placeOf p with
    | cell id => rfl
    | slot q =>
      obtain ⟨rfl, -⟩ := placeOf_eq_slot shows
      exact s.frame.get_put_ne _ (Ne.symm same)

/-- A handle that is held may as well be counted outside. -/
theorem outward (acc : s.Accounted f outside (v :: held)) :
    s.Accounted f (fun node => outside node + node.usedBy v) held where
  fits := acc.fits
  owns node := by
    have eq := acc.owns node
    rw [Node.uses_append, Node.uses_cons] at eq
    rw [Node.uses_append]
    dsimp only
    omega
  constants node := Nat.le_trans (acc.constants node) (Nat.le_add_right _ _)

/-- A handle that is counted outside may as well be held. -/
theorem inward (acc : s.Accounted f (fun node => outside node + node.usedBy v) held)
    (constants : ∀ node : Node, node.uses f.constants.toList ≤ outside node) :
    s.Accounted f outside (v :: held) where
  fits := acc.fits
  owns node := by
    have eq := acc.owns node
    rw [Node.uses_append] at eq
    rw [Node.uses_append, Node.uses_cons]
    omega
  constants := constants

end Accounted

/-! ## Mirrors -/

/-- A store mirrors a tree store: it is accounted for, the slots show what unfolds into
the trees, what is held unfolds into the trees that it is held with, and only
variables are bound, to one another as in the tree store. -/
structure Mirrors (f : Function) (outside : Node → Nat) (literals : Array Tree)
    (held : List (Value × Tree)) (s : Store) (T : TreeStore) : Prop where
  accounted : s.Accounted f outside (held.map (·.1))
  unflagged : s.heap.Unflagged
  shown : ∀ slot, slot ≠ .scratch → s.heap.Holds (T.value slot) (s.peek (s.placeOf slot))
  held : ∀ e ∈ held, s.heap.Holds e.2 e.1
  literals : ∀ i : Nat, s.heap.Holds (literals[i]?.getD .null) (f.constants[i]?.getD .null)
  bare : ∀ slot, slot.isVariable = false → s.placeOf slot = .slot slot
  linked : ∀ slot other, T.linked slot other = true ↔ s.placeOf slot = s.placeOf other

namespace Mirrors

variable {f : Function} {outside outside' : Node → Nat} {literals : Array Tree} {t : Tree}
  {held rest : List (Value × Tree)} {s' : Store} {T U : TreeStore} {o : Operand}

/-- A mirror stays true if the trees are carried over and the slots are as they should be. -/
theorem carry (mirrors : s.Mirrors f outside literals held T)
    (acc : s'.Accounted f outside' (rest.map (·.1))) (carries : s.heap.Carries s'.heap)
    (kept : ∀ e ∈ rest, e ∈ held ∨ s'.heap.Holds e.2 e.1)
    (bare : ∀ slot, slot.isVariable = false → s'.placeOf slot = .slot slot)
    (linked : ∀ slot other, U.linked slot other = true ↔ s'.placeOf slot = s'.placeOf other)
    (shown : ∀ slot, slot ≠ .scratch → s'.heap.Holds (U.value slot) (s'.peek (s'.placeOf slot))) :
    s'.Mirrors f outside' literals rest U where
  accounted := acc
  unflagged := carries.unflagged mirrors.unflagged
  shown := shown
  held e mem := by
    rcases kept e mem with old | new
    · have alive := acc.alive_held (List.mem_map.mpr ⟨e, mem, rfl⟩)
      exact (mirrors.held e old).carries carries (Heap.Accounts.closed acc.owns) alive
    · exact new
  literals i := (mirrors.literals i).carries carries (Heap.Accounts.closed acc.owns)
    (acc.alive_const i)
  bare := bare
  linked := linked

/-- A mirror stays true if the trees are carried over, slots show the same places, and
what they show unfolds. -/
theorem carry_places (mirrors : s.Mirrors f outside literals held T)
    (acc : s'.Accounted f outside' (rest.map (·.1))) (carries : s.heap.Carries s'.heap)
    (kept : ∀ e ∈ rest, e ∈ held ∨ s'.heap.Holds e.2 e.1)
    (places : ∀ slot, s'.placeOf slot = s.placeOf slot) (links : U.linked = T.linked)
    (shown : ∀ slot, slot ≠ .scratch → s'.heap.Holds (U.value slot) (s'.peek (s'.placeOf slot))) :
    s'.Mirrors f outside' literals rest U := by
  refine mirrors.carry acc carries kept (fun slot isVar => ?_) (fun slot other => ?_) shown
  · rw [places, mirrors.bare slot isVar]
  · rw [links, places, places, mirrors.linked]

/-- What a slot shows unfolds into the same tree as before if it is the same value. -/
theorem shown_of_same (mirrors : s.Mirrors f outside literals held T)
    (acc : s'.Accounted f outside' (rest.map (·.1))) (carries : s.heap.Carries s'.heap)
    (ne : slot ≠ .scratch) (same : s'.peek (s'.placeOf slot) = s.peek (s.placeOf slot)) :
    s'.heap.Holds (T.value slot) (s'.peek (s'.placeOf slot)) := by
  have alive := acc.alive_peek slot
  rw [same] at alive ⊢
  exact (mirrors.shown slot ne).carries carries (Heap.Accounts.closed acc.owns) alive

/-- What an operand shows unfolds into the tree that is read. -/
theorem read (mirrors : s.Mirrors f outside literals held T) (within : o.Within f) :
    s.heap.Holds (T.read f.constants literals o) (s.shown f.constants o) := by
  have slots : ∀ slot, slot ≠ .scratch →
      s.heap.Holds (T.value slot) (s.heap.lookThrough (s.frame.get slot)).1 := by
    intro slot ne
    have shown := mirrors.shown slot ne
    cases bound : s.frame.get slot with
    | ref cell =>
      rw [placeOf_eq_cell.mpr bound] at shown
      exact shown
    | _ =>
      rw [placeOf_of_ne_ref (fun cell eq => by rw [bound] at eq; cases eq)] at shown
      change s.heap.Holds _ (s.frame.get slot) at shown
      rw [bound] at shown
      exact shown
  cases o with
  | unused => exact s.heap.holds_null
  | const i =>
    have holds := mirrors.literals i
    change s.heap.Holds (literals[i]?.getD .null)
      (s.heap.lookThrough (f.constants[i]?.getD .null)).1
    rw [s.heap.lookThrough_of_ne_ref holds.ne_ref]
    exact holds
  | temp i => exact slots (.temp i) nofun
  | var i => exact slots (.var i) nofun
  | dynamic i =>
    obtain ⟨name, found⟩ := within
    refine slots _ ?_
    simp [Operand.slot, found]

theorem acquire (mirrors : s.Mirrors f outside literals held T) (holds : s.heap.Holds t v)
    (alive : s.heap.Alive v) : (s.acquire v).Mirrors f outside literals ((v, t) :: held) T := by
  have acc : (s.acquire v).Accounted f outside (((v, t) :: held).map (·.1)) :=
    mirrors.accounted.acquire alive
  have carries : s.heap.Carries (s.acquire v).heap := .of_grows (.acquire s.heap v)
  have closed := Heap.Accounts.closed acc.owns
  refine mirrors.carry_places acc carries ?_ (fun _ => rfl) rfl fun slot ne =>
    mirrors.shown_of_same acc carries ne (peek_acquire s v _)
  intro e mem
  rcases List.mem_cons.mp mem with rfl | old
  · exact Or.inr (holds.carries carries closed (acc.alive_held List.mem_cons_self))
  · exact Or.inl old

theorem release (mirrors : s.Mirrors f outside literals ((v, t) :: held) T) :
    (s.release v).Mirrors f outside literals held T := by
  have acc : (s.release v).Accounted f outside (held.map (·.1)) := mirrors.accounted.release
  have carries : s.heap.Carries (s.release v).heap := .of_remains (Heap.remains_release s.heap v)
  refine mirrors.carry_places acc carries (fun e mem => Or.inl (List.mem_cons_of_mem _ mem))
    (fun _ => rfl) rfl fun slot ne => mirrors.shown_of_same acc carries ne ?_
  exact peek_release v _ fun cell shows => acc.alive_cell shows

/-- A scalar may be held with its tree. -/
theorem scalar (mirrors : s.Mirrors f outside literals held T) (scalar : v.node? = none) :
    s.Mirrors f outside literals ((v, .ofValue v) :: held) T where
  accounted := mirrors.accounted.scalar scalar
  unflagged := mirrors.unflagged
  shown := mirrors.shown
  held e mem := by
    rcases List.mem_cons.mp mem with rfl | old
    · exact s.heap.holds_ofValue scalar
    · exact mirrors.held e old
  literals := mirrors.literals
  bare := mirrors.bare
  linked := mirrors.linked

theorem defining (mirrors : s.Mirrors f outside literals held T) (o : Operand) :
    (s.defining f.constants o).Mirrors f outside literals held T where
  accounted := mirrors.accounted.defining o
  unflagged := by simpa using mirrors.unflagged
  shown := by simpa using mirrors.shown
  held := by simpa using mirrors.held
  literals := by simpa using mirrors.literals
  bare := by simpa using mirrors.bare
  linked := by simpa using mirrors.linked

/-- What is put into the place that a slot shows is its tree, and that of the slots that
are linked to it. -/
theorem overwrite (mirrors : s.Mirrors f outside literals ((v, t) :: held) T)
    (has : s.frame.Has slot) :
    (s.overwrite (s.placeOf slot) v).Mirrors f outside literals held (T.write slot t) := by
  have there := mirrors.accounted.owns.hasPlace_placeOf has
  have holds := mirrors.held (v, t) List.mem_cons_self
  have acc : (s.overwrite (s.placeOf slot) v).Accounted f outside (held.map (·.1)) :=
    mirrors.accounted.overwrite there
  have closed := Heap.Accounts.closed acc.owns
  have composites : ∀ id, (s.put (s.placeOf slot) v).heap.composite? id
      = s.heap.composite? id := by
    intro id
    cases s.placeOf slot with
    | slot p => rfl
    | cell cell => exact Heap.composite?_putContent s.heap cell v id
  have carries : s.heap.Carries (s.overwrite (s.placeOf slot) v).heap :=
    (Heap.Grows.of_composites composites).carries (Heap.remains_release _ _)
  have places : ∀ other, (s.overwrite (s.placeOf slot) v).placeOf other = s.placeOf other :=
    fun other => placeOf_put there holds.ne_ref other
  have peeks : ∀ other, (s.overwrite (s.placeOf slot) v).peek (s.placeOf other)
      = if s.placeOf slot = s.placeOf other then v else s.peek (s.placeOf other) := by
    intro other
    rw [← peek_put there]
    refine peek_release (s := s.put (s.placeOf slot) v) _ _ fun cell shows => ?_
    exact acc.alive_cell ((places other).trans shows)
  refine mirrors.carry_places acc carries (fun e mem => Or.inl (List.mem_cons_of_mem _ mem))
    places rfl fun other ne => ?_
  have peek := peeks other
  have alive := acc.alive_peek other
  rw [places] at alive ⊢
  have link := mirrors.linked other slot
  unfold TreeStore.write
  dsimp only
  by_cases same : s.placeOf slot = s.placeOf other
  · rw [if_pos same] at peek
    rw [if_pos (link.mpr same.symm)]
    rw [peek] at alive ⊢
    exact holds.carries carries closed alive
  · rw [if_neg same] at peek
    rw [if_neg fun linked => same (link.mp linked).symm]
    rw [peek] at alive ⊢
    exact (mirrors.shown other ne).carries carries closed alive

/-- Nothing is read from the scratch slot, so its tree does not matter. -/
theorem congr (mirrors : s.Mirrors f outside literals held T) (links : U.linked = T.linked)
    (values : ∀ slot, slot ≠ .scratch → U.value slot = T.value slot) :
    s.Mirrors f outside literals held U where
  accounted := mirrors.accounted
  unflagged := mirrors.unflagged
  shown slot ne := by
    rw [values slot ne]
    exact mirrors.shown slot ne
  held := mirrors.held
  literals := mirrors.literals
  bare := mirrors.bare
  linked := by rw [links]; exact mirrors.linked

/-- No other slot is linked to one that is not that of a variable. -/
theorem not_linked (mirrors : s.Mirrors f outside literals held T)
    (isVar : slot.isVariable = false) (ne : other ≠ slot) : T.linked other slot = false := by
  cases links : T.linked other slot with
  | false => rfl
  | true =>
    have same := (mirrors.linked other slot).mp links
    rw [mirrors.bare slot isVar] at same
    exact absurd (placeOf_eq_slot same).1 ne

/-- What is written into the scratch slot is not seen. -/
theorem of_write_scratch (mirrors : s.Mirrors f outside literals held (T.write .scratch t)) :
    s.Mirrors f outside literals held T := by
  refine mirrors.congr rfl fun slot ne => ?_
  have apart : T.linked slot .scratch = false := mirrors.not_linked rfl ne
  unfold TreeStore.write
  dsimp only
  rw [apart, if_neg Bool.false_ne_true]

theorem assign (mirrors : s.Mirrors f outside literals ((v, t) :: held) T) (within : o.Within f) :
    (s.assign f.constants o v).Mirrors f outside literals held
      (T.write (o.slot f.constants) t) := by
  have defined := mirrors.defining o
  have stored := defined.overwrite (within.has_slot defined.accounted.fits)
  rw [placeOf_defining] at stored
  exact stored

/-- A result that is stored is delivered; one that is not used goes to the scratch slot. -/
theorem assign_result (mirrors : s.Mirrors f outside literals ((v, t) :: held) T)
    (within : o.Within f) :
    (s.assign f.constants o v).Mirrors f outside literals held (T.deliver f.constants o t) := by
  have stored := mirrors.assign within
  unfold TreeStore.deliver
  cases o with
  | unused => exact stored.of_write_scratch
  | _ => exact stored

theorem yield (mirrors : s.Mirrors f outside literals held T) (within : o.Within f)
    (holds : s.heap.Holds t v) (alive : s.heap.Alive v) :
    (s.yield f.constants o v).Mirrors f outside literals held (T.deliver f.constants o t) := by
  unfold Store.yield TreeStore.deliver
  split
  · exact mirrors
  · exact (mirrors.acquire holds alive).assign within

/-- A slot that is not that of a variable is emptied. -/
theorem empty (mirrors : s.Mirrors f outside literals held T) (isVar : slot.isVariable = false)
    (has : s.frame.Has slot) : (s.overwrite (.slot slot) .null).Mirrors f outside literals held
      (T.write slot .null) := by
  have emptied := (mirrors.scalar (v := .null) rfl).overwrite has
  rw [mirrors.bare slot isVar] at emptied
  exact emptied

theorem vacate (mirrors : s.Mirrors f outside literals held T) (within : o.Within f) :
    (s.vacate o).Mirrors f outside literals held (T.vacate o) := by
  cases o with
  | temp i => exact mirrors.empty rfl (within.has_slot mirrors.accounted.fits)
  | _ => exact mirrors

theorem vacateRead (mirrors : s.Mirrors f outside literals held T) {instr : Instruction}
    (first : instr.op1.Within f) (second : instr.op2.Within f) :
    (s.vacateRead instr).Mirrors f outside literals held (T.vacateRead instr) := by
  unfold Store.vacateRead TreeStore.vacateRead
  dsimp only
  have one : (if instr.op1 ≠ instr.result then s.vacate instr.op1 else s).Mirrors f outside
      literals held (if instr.op1 ≠ instr.result then T.vacate instr.op1 else T) := by
    split
    · exact mirrors.vacate first
    · exact mirrors
  split
  · exact one.vacate second
  · exact one

/-- The scratch slot may be emptied. -/
theorem clear (mirrors : s.Mirrors f outside literals held T) :
    (s.overwrite (.slot .scratch) .null).Mirrors f outside literals held T := by
  have has : s.frame.Has .scratch := trivial
  exact (mirrors.empty rfl has).of_write_scratch

/-- A new composite without fields is a node without fields. -/
theorem create (mirrors : s.Mirrors f outside literals held T) (className : String) :
    ({ s with heap := (s.heap.create className .empty).2 } : Store).Mirrors f outside literals
      ((.composite (s.heap.create className .empty).1, .node className []) :: held) T := by
  let e : Value × Tree := (.composite (s.heap.create className .empty).1, .node className [])
  have acc : ({ s with heap := (s.heap.create className .empty).2 } : Store).Accounted f outside
      ((e :: held).map (·.1)) := mirrors.accounted.create className
  have carries : s.heap.Carries (s.heap.create className .empty).2 :=
    .of_grows (.create s.heap className .empty)
  refine mirrors.carry_places acc carries ?_ (fun _ => rfl) rfl fun slot ne =>
    mirrors.shown_of_same acc carries ne ?_
  · intro e mem
    rcases List.mem_cons.mp mem with rfl | old
    · refine Or.inr ⟨_, ⟨className, .empty, false, 1⟩, rfl, ?_, rfl, rfl⟩
      simp only [Heap.create, Heap.composite?_putComposite, if_true]
    · exact Or.inl old
  · change Store.peek _ (s.placeOf slot) = _
    cases s.placeOf slot <;> rfl

/-- A variable that is bound shows what it showed before, and the handle of the cell
that the caller gets is counted outside. -/
theorem bound (mirrors : s.Mirrors f outside literals held T) (has : s.frame.Has slot)
    (isVar : slot.isVariable = true) :
    (s.bound slot).2.placeOf slot = .cell (s.bound slot).1
      ∧ (s.bound slot).2.Mirrors f
        (fun node => outside node + node.usedBy (.ref (s.bound slot).1)) literals held T := by
  have acc := (mirrors.accounted.bound has).outward
  have carries := carries_bound s slot
  refine ⟨(placeOf_bound has slot).trans (if_pos rfl), mirrors.carry acc carries
    (fun _ mem => Or.inl mem) (fun other bare => ?_) (fun one two => ?_) fun other ne => ?_⟩
  · have ne : slot ≠ other := by
      intro eq
      rw [eq, bare] at isVar
      cases isVar
    rw [placeOf_bound has, if_neg ne, mirrors.bare other bare]
  · rw [mirrors.linked, mirrors.accounted.placeOf_bound_inj has]
  · exact mirrors.shown_of_same acc carries ne (mirrors.accounted.peek_bound has other)

/-- A variable that gets a handle of a cell shows what the variable shows that was bound
to the cell. -/
theorem rebind {cell : CellId}
    (mirrors : s.Mirrors f (fun node => outside node + node.usedBy (.ref cell)) literals held T)
    (constants : ∀ node : Node, node.uses f.constants.toList ≤ outside node)
    (source : s.placeOf other = .cell cell) (has : s.frame.Has slot)
    (isVar : slot.isVariable = true) :
    (s.overwrite (.slot slot) (.ref cell)).Mirrors f outside literals held (T.bind slot other) := by
  have acc : (s.overwrite (.slot slot) (.ref cell)).Accounted f outside (held.map (·.1)) :=
    (mirrors.accounted.inward constants).overwrite has
  have carries : s.heap.Carries (s.overwrite (.slot slot) (.ref cell)).heap :=
    .of_remains (Heap.remains_release s.heap (s.frame.get slot))
  have places := placeOf_rebound source has
  have seen : other ≠ .scratch := by
    intro eq
    rw [eq, mirrors.bare .scratch rfl] at source
    cases source
  refine mirrors.carry acc carries (fun _ mem => Or.inl mem) (fun p bare => ?_) (fun p q => ?_)
    fun p ne => ?_
  · have ne : p ≠ slot := by
      intro eq
      rw [eq, isVar] at bare
      cases bare
    rw [places, if_neg ne, mirrors.bare p bare]
  · rw [places, places, ← mirrors.linked]
    rfl
  · have seen' : (if p = slot then other else p) ≠ .scratch := by
      split
      · exact seen
      · exact ne
    have alive := acc.alive_peek p
    rw [acc.peek_rebound source has] at alive ⊢
    exact (mirrors.shown _ seen').carries carries (Heap.Accounts.closed acc.owns) alive

end Mirrors

end Store

end OverloadMachine
