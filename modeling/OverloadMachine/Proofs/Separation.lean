import OverloadMachine.Proofs.Mirrors

/-!
# Writes of fields

A field is written in place once the composite has one handle. The accounts say that
this handle is the one in the place that is written, so the composite is in no other
slot, field, cell or literal and is not the value that is stored, and only the slots
that show this place see the change. A composite with several handles is copied
first, which changes no tree.
-/

namespace OverloadMachine

namespace Heap

variable {h k : Heap} {id : CompositeId} {c : Composite} {key : String} {t : Tree} {v : Value}

/-! ## Fields -/

/-- Placing a field places its tree. -/
theorem HoldsEach.place {ts : List (String × Tree)} {entries : List (String × Value)}
    (each : h.HoldsEach ts entries) (holds : h.Holds t v) :
    h.HoldsEach (OrderedMap.place key t ts) (OrderedMap.place key v entries) := by
  induction ts generalizing entries with
  | nil =>
    obtain rfl : entries = [] := each
    exact ⟨v, [], rfl, holds, rfl⟩
  | cons head rest ih =>
    obtain ⟨w, others, rfl, one, later⟩ := each
    unfold OrderedMap.place
    split
    · exact ⟨v, _, rfl, holds, w, others, rfl, one, later⟩
    · split
      · exact ⟨v, others, rfl, holds, later⟩
      · exact ⟨w, _, rfl, one, ih later⟩

/-- Looking a field up gives its tree. -/
theorem HoldsEach.lookup {ts : List (String × Tree)} {entries : List (String × Value)}
    (each : h.HoldsEach ts entries) (key : String) :
    h.Holds ((OrderedMap.lookup key ts).getD .null)
      ((OrderedMap.lookup key entries).getD .null) := by
  induction ts generalizing entries with
  | nil =>
    obtain rfl : entries = [] := each
    exact h.holds_null
  | cons head rest ih =>
    obtain ⟨w, others, rfl, one, later⟩ := each
    unfold OrderedMap.lookup
    split
    · exact one
    · exact ih later

/-- No composite has a composite in a field. -/
def Apart (h : Heap) (id : CompositeId) : Prop :=
  ∀ j c, h.composite? j = some c → Value.composite id ∉ c.fields.values

mutual

/-- A tree does not change without a composite that is in no field. -/
theorem Holds.apart (apart : h.Apart id) : ∀ {t : Tree} {v : Value}, h.Holds t v →
    v ≠ .composite id → (h.dropComposite id).Holds t v
  | .leaf w scalar, v, holds, _ => holds
  | .node className fields, v, holds, ne => by
    obtain ⟨j, c, rfl, found, rfl, each⟩ := holds
    have other : id ≠ j := fun eq => ne (congrArg Value.composite eq.symm)
    have fields := HoldsEach.apart apart each fun e mem eq =>
      apart j c found (List.mem_map.mpr ⟨e, mem, eq⟩)
    exact ⟨j, c, rfl, by rw [composite?_dropComposite, if_neg other, found], rfl, fields⟩

/-- Trees of fields do not change without a composite that is in no field. -/
theorem HoldsEach.apart (apart : h.Apart id) : ∀ {ts : List (String × Tree)}
    {entries : List (String × Value)}, h.HoldsEach ts entries →
      (∀ e ∈ entries, e.2 ≠ .composite id) → (h.dropComposite id).HoldsEach ts entries
  | [], entries, each, _ => each
  | (key, t) :: rest, entries, each, others => by
    obtain ⟨v, behind, rfl, one, later⟩ := each
    have first := Holds.apart apart one (others _ List.mem_cons_self)
    exact ⟨v, behind, rfl, first, HoldsEach.apart apart later fun e mem =>
      others e (List.mem_cons_of_mem _ mem)⟩

end

/-- What is left of a heap in which a field was set. -/
theorem remains_insertField (found : h.composite? id = some c) (key : String) (v : Value) :
    Remains (h.insertField id key v)
      (h.putComposite id { c with fields := c.fields.insert key v }) := by
  unfold insertField
  rw [found]
  dsimp only
  split
  · exact remains_release _ _
  · exact .refl _

/-- Setting a field of one composite carries the others over. -/
theorem carries_insertField (found : h.composite? id = some c) (none : c.flagged = false)
    (key : String) (v : Value) : (h.dropComposite id).Carries (h.insertField id key v) := by
  refine Grows.carries ⟨?_, ?_⟩ (remains_insertField found key v)
  · intro j d there
    rw [composite?_dropComposite] at there
    split at there
    · cases there
    · rename_i ne
      exact ⟨d.count, by rw [composite?_putComposite, if_neg ne, there]⟩
  · intro others j d there
    rw [composite?_putComposite] at there
    split at there
    · cases there
      exact none
    · rename_i ne
      exact others j d (by rw [composite?_dropComposite, if_neg ne, there])

/-- The composite of which a field was set, if it is still there. -/
theorem composite?_insertField (found : h.composite? id = some c) {key : String} {v : Value}
    (alive : (h.insertField id key v).Alive (.composite id)) :
    ∃ count, (h.insertField id key v).composite? id
      = some ⟨c.className, c.fields.insert key v, c.flagged, count⟩ := by
  obtain ⟨⟨className, fields, flagged, m⟩, left, -⟩ := alive.composite?
  obtain ⟨more, -, before⟩ := (remains_insertField found key v).composite left
  rw [composite?_putComposite, if_pos rfl] at before
  cases before
  exact ⟨m, left⟩

/-- Setting a field of a composite that is in no field changes no other tree. -/
theorem Holds.insertField_ne (found : h.composite? id = some c) (none : c.flagged = false)
    (apart : h.Apart id) (closed : (h.insertField id key v).Closed) {w : Value}
    (holds : h.Holds t w) (ne : w ≠ .composite id) (alive : (h.insertField id key v).Alive w) :
    (h.insertField id key v).Holds t w :=
  (holds.apart apart ne).carries (carries_insertField found none key v) closed alive

/-- Setting a field of a composite that is in no field sets the field of its tree. -/
theorem Holds.insertField_self {className : String} {fields : List (String × Tree)}
    (found : h.composite? id = some c) (none : c.flagged = false) (apart : h.Apart id)
    (closed : (h.insertField id key v).Closed)
    (whole : h.Holds (.node className fields) (.composite id)) (stored : h.Holds t v)
    (ne : v ≠ .composite id) (alive : (h.insertField id key v).Alive (.composite id)) :
    (h.insertField id key v).Holds (.node className (OrderedMap.place key t fields))
      (.composite id) := by
  obtain ⟨j, d, eq, found', rfl, each⟩ := whole
  cases eq
  rw [found] at found'
  cases found'
  obtain ⟨count, set⟩ := composite?_insertField found alive
  have before := HoldsEach.apart apart each fun e mem eq =>
    apart id c found (List.mem_map.mpr ⟨e, mem, eq⟩)
  have placed : (h.dropComposite id).HoldsEach (OrderedMap.place key t fields)
      (OrderedMap.place key v c.fields.entries) := before.place (stored.apart apart ne)
  have carries := carries_insertField found none key v
  refine ⟨id, _, rfl, set, rfl, HoldsEach.carries carries closed placed fun e mem => ?_⟩
  exact closed.alive_value set (List.mem_map.mpr ⟨e, mem, rfl⟩)

/-- Separation gives a composite of the same class and fields with one handle, and
carries the others over. -/
theorem separateComposite_alone (found : h.composite? id = some c) (none : c.flagged = false)
    (pos : 0 < c.count) :
    h.Carries (h.separateComposite id).2.2
      ∧ ∃ d, (h.separateComposite id).2.2.composite? (h.separateComposite id).1 = some d
        ∧ d.className = c.className ∧ d.fields = c.fields ∧ d.count = 1 := by
  cases can : c.isMutable with
  | true =>
    have single : c.count = 1 := by simpa [Composite.isMutable, none] using can
    rw [separateComposite_of_mutable found can]
    exact ⟨.of_grows (.refl h), c, found, rfl, rfl, single⟩
  | false =>
    have made : (h.duplicate c).2.composite? (h.duplicate c).1
        = some ⟨c.className, c.fields, false, 1⟩ := by
      simp [duplicate, create]
    have live := handles?_of_composite? found
    have old := handles?_duplicate live c
    have ne : Node.composite id ≠ .composite (h.duplicate c).1 := by
      have live' : (h.acquireAll c.fields.values).handles? (.composite id)
          = some (c.count + (Node.composite id).uses c.fields.values) := by
        rw [handles?_acquireAll, live, Option.map_some]
      exact Ne.symm (ne_next_of_live live')
    rw [separateComposite_of_shared found can pos]
    refine ⟨(Grows.duplicate h c).carries (.recount old (Nat.sub_le _ _)),
      ⟨c.className, c.fields, false, 1⟩, ?_, rfl, rfl, rfl⟩
    dsimp only
    rw [composite?_recount, if_neg ne, made]

/-- Separation carries what is there over. -/
theorem carries_separate (holds : h.Holds t v) (none : h.Unflagged) (alive : h.Alive v) :
    h.Carries (h.separate v).2.2 := by
  cases v with
  | composite id =>
    obtain ⟨c, found, pos⟩ := alive.composite?
    exact (separateComposite_alone found (none id c found) pos).1
  | ref cell => exact absurd rfl (holds.ne_ref cell)
  | _ => exact .of_grows (.refl h)

/-- Separation leaves every cell with its content. -/
theorem content_separate (holds : h.Holds t v) (alive : h.Alive v) {cell : CellId}
    (live : (h.cell? cell).isSome) : ((h.separate v).2.2.cell? cell).isSome
      ∧ (h.separate v).2.2.content cell = h.content cell := by
  cases v with
  | composite id => exact cell?_separateComposite alive live
  | ref cell => exact absurd rfl (holds.ne_ref cell)
  | _ => exact ⟨live, rfl⟩

/-- What the holder of a composite gets by separation has one handle and is of the
class and with the fields of the composite. -/
theorem separate_node {className : String} {fields : List (String × Tree)}
    (holds : h.Holds (.node className fields) v) (none : h.Unflagged) (alive : h.Alive v) :
    ∃ id d, (h.separate v).1 = .composite id ∧ (h.separate v).2.2.composite? id = some d
      ∧ d.count = 1 ∧ d.className = className ∧ h.HoldsEach fields d.fields.entries := by
  obtain ⟨id, c, rfl, found, rfl, each⟩ := holds
  obtain ⟨d, found', pos⟩ := alive.composite?
  rw [found] at found'
  cases found'
  obtain ⟨-, d, there, sameClass, sameFields, single⟩ :=
    separateComposite_alone found (none id c found) pos
  refine ⟨_, d, rfl, there, single, sameClass, ?_⟩
  rw [sameFields]
  exact each

/-- What the holder of a scalar gets by separation is the scalar. -/
theorem separate_leaf {w : Value} (scalar : w.node? = none) : (h.separate w).1 = w := by
  cases w <;> first | rfl | cases scalar

/-- What the holder gets by separation has the tree of what it held. -/
theorem Holds.separate {l : Heap} (holds : h.Holds t v) (none : h.Unflagged) (alive : h.Alive v)
    (same : ∀ id, l.composite? id = (h.separate v).2.2.composite? id) (closed : l.Closed) :
    l.Holds t (h.separate v).1 := by
  cases t with
  | leaf w scalar =>
    obtain rfl : v = w := holds
    rw [separate_leaf scalar]
    rfl
  | node className fields =>
    obtain ⟨id, d, eq, there, -, rfl, each⟩ := separate_node holds none alive
    have carries := (carries_separate holds none alive).congr same
    rw [← same] at there
    refine ⟨id, d, eq, there, rfl, HoldsEach.carries carries closed each fun e mem => ?_⟩
    exact closed.alive_value there (List.mem_map.mpr ⟨e, mem, rfl⟩)

end Heap

namespace Store

variable {f : Function} {outside : Node → Nat} {literals : Array Tree} {s : Store}
  {T : TreeStore} {slot : Slot} {place : Place} {key : String} {v : Value} {t : Tree}
  {id : CompositeId} {c : Composite}

/-! ## One handle -/

/-- A composite is in one place at most: in no other one, in no field, in no literal and
not among what is held. -/
structure Confines (s : Store) (f : Function) (held : List Value) (place : Place)
    (id : CompositeId) : Prop where
  apart : s.heap.Apart id
  peek : ∀ other, place ≠ other → s.peek other ≠ .composite id
  held : ∀ v ∈ held, v ≠ .composite id
  literal : ∀ i : Nat, f.constants[i]?.getD .null ≠ .composite id

/-- Values that use no handle of a composite are not the composite. -/
theorem ne_of_uses {vs : List Value} (none : (Node.composite id).uses vs = 0) {v : Value}
    (mem : v ∈ vs) : v ≠ .composite id := by
  intro eq
  have le := (Node.composite id).usedBy_le_uses mem
  rw [Node.usedBy_of_node? (v := v) (by rw [eq]; rfl)] at le
  omega

/-- A composite with one handle that is in a place is confined to it. -/
theorem Accounted.confines {held : List Value} (acc : s.Accounted f outside held)
    (has : s.HasPlace place) (there : s.peek place = .composite id)
    (found : s.heap.composite? id = some c) (single : c.count = 1) :
    s.Confines f held place id := by
  -- With the place emptied, the one handle is the one that was taken out of it.
  have freed := (acc.scalar (v := .null) rfl).put has
  have composites : ∀ j, (s.put place .null).heap.composite? j = s.heap.composite? j := by
    intro j
    cases place with
    | slot p => rfl
    | cell cell => exact Heap.composite?_putContent s.heap cell .null j
  have sum := freed.owns (.composite id)
  rw [there, Heap.handles?, composites, found, Option.map_some, Option.getD_some,
    Node.uses_append, Node.uses_cons, Node.usedBy_of_node? (v := .composite id) rfl] at sum
  have inner : (s.put place .null).heap.inner (.composite id) = 0 := by omega
  have frame : (Node.composite id).uses (s.put place .null).frame.values = 0 := by omega
  have others : (Node.composite id).uses held = 0 := by omega
  have beyond : outside (.composite id) = 0 := by omega
  have contents : ∀ node, (Node.composite id).uses ((s.put place .null).heap.contents node) = 0 :=
    fun node => Nat.le_zero.mp (inner ▸ Heap.uses_contents_le _ (.composite id) node)
  refine ⟨?_, ?_, fun v mem => ne_of_uses others mem, ?_⟩
  · intro j d within
    have none := contents (.composite j)
    rw [Heap.contents, composites, within] at none
    exact fun mem => ne_of_uses none mem rfl
  · intro other ne
    have same := peek_put has .null other
    rw [if_neg ne] at same
    rw [← same]
    cases other with
    | slot q =>
      rcases (s.put place .null).frame.get_eq_null_or_mem_values q with null | mem
      · change (s.put place .null).frame.get q ≠ .composite id
        rw [null]
        intro eq
        cases eq
      · exact ne_of_uses frame mem
    | cell cell => exact ne_of_uses (contents (.cell cell)) (List.mem_singleton_self _)
  · intro i
    cases within : f.constants[i]? with
    | none =>
      intro eq
      cases eq
    | some w =>
      have none : (Node.composite id).uses f.constants.toList = 0 :=
        Nat.le_zero.mp (beyond ▸ acc.constants (.composite id))
      exact ne_of_uses none (Array.mem_toList_iff.mpr (Array.mem_of_getElem? within))

/-- What slots show does not change when a field is set. -/
theorem Accounted.peek_insertField {held : List Value}
    (acc : ({ s with heap := s.heap.insertField id key v } : Store).Accounted f outside held)
    (found : s.heap.composite? id = some c) (other : Slot) :
    ({ s with heap := s.heap.insertField id key v } : Store).peek
        (({ s with heap := s.heap.insertField id key v } : Store).placeOf other)
      = s.peek (s.placeOf other) := by
  change Store.peek _ (s.placeOf other) = _
  cases shows : s.placeOf other with
  | slot p => rfl
  | cell cell =>
    have alive : (s.heap.insertField id key v).Alive (.ref cell) :=
      @Accounted.alive_cell _ other _ _ _ _ acc shows
    have content := (Heap.remains_insertField found key v).content alive
    exact content.symm.trans (by simp [peek, Heap.content])

/-! ## Separation -/

namespace Mirrors

variable {held : List (Value × Tree)} {className : String} {fields : List (String × Tree)}

/-- The place of a slot is still there while what it holds is separated. -/
theorem hasPlace_separate (mirrors : s.Mirrors f outside literals held T)
    (has : s.frame.Has slot) (ne : slot ≠ .scratch) :
    ({ s with heap := (s.heap.separate (s.peek (s.placeOf slot))).2.2 } : Store).HasPlace
      (s.placeOf slot) := by
  have there := mirrors.accounted.owns.hasPlace_placeOf has
  have alive := mirrors.accounted.alive_peek slot
  have holds := mirrors.shown slot ne
  generalize s.peek (s.placeOf slot) = v at alive holds
  cases shows : s.placeOf slot with
  | slot p =>
    rw [shows] at there
    exact there
  | cell cell =>
    rw [shows] at there
    exact (Heap.content_separate holds alive there).1

/-- After a separation the place of the slot holds what its holder gets. -/
theorem peek_separate (mirrors : s.Mirrors f outside literals held T)
    (has : s.frame.Has slot) (ne : slot ≠ .scratch) :
    (s.separate (s.placeOf slot)).2.peek (s.placeOf slot)
      = (s.heap.separate (s.peek (s.placeOf slot))).1 := by
  have peek := peek_put (mirrors.hasPlace_separate has ne)
    (s.heap.separate (s.peek (s.placeOf slot))).1 (s.placeOf slot)
  rw [if_pos rfl] at peek
  exact peek

/-- Separation leaves the composites of the heap with what the heap made of them. -/
theorem composite?_separate (s : Store) (place : Place) (id : CompositeId) :
    (s.separate place).2.heap.composite? id
      = (s.heap.separate (s.peek place)).2.2.composite? id := by
  cases place with
  | slot p => rfl
  | cell cell => exact Heap.composite?_putContent _ cell _ id

/-- Separation changes no tree and no place. -/
theorem separate (mirrors : s.Mirrors f outside literals held T) (has : s.frame.Has slot)
    (ne : slot ≠ .scratch) :
    (s.separate (s.placeOf slot)).2.Mirrors f outside literals held T
      ∧ ∀ other, (s.separate (s.placeOf slot)).2.placeOf other = s.placeOf other := by
  have there := mirrors.accounted.owns.hasPlace_placeOf has
  have alive := mirrors.accounted.alive_peek slot
  have holds := mirrors.shown slot ne
  have acc : (s.separate (s.placeOf slot)).2.Accounted f outside (held.map (·.1)) :=
    ⟨(s.fits_separate _ f).mpr mirrors.accounted.fits, mirrors.accounted.owns.separate there,
      mirrors.accounted.constants⟩
  have closed := Heap.Accounts.closed acc.owns
  have composites := composite?_separate s (s.placeOf slot)
  have carries := (Heap.carries_separate holds mirrors.unflagged alive).congr composites
  have kept := holds.separate mirrors.unflagged alive composites closed
  have has' := mirrors.hasPlace_separate has ne
  have places : ∀ other, (s.separate (s.placeOf slot)).2.placeOf other = s.placeOf other :=
    fun other => placeOf_put has' kept.ne_ref other
  refine ⟨mirrors.carry_places acc carries (fun e mem => Or.inl mem) places rfl
    fun other ne' => ?_, places⟩
  by_cases same : s.placeOf slot = s.placeOf other
  · have tree : T.value other = T.value slot := (mirrors.shown other ne').unique (same ▸ holds)
    rw [places, ← same, mirrors.peek_separate has ne, tree]
    exact kept
  · refine mirrors.shown_of_same acc carries ne' ?_
    have peek := peek_put has' (s.heap.separate (s.peek (s.placeOf slot))).1 (s.placeOf other)
    rw [if_neg same] at peek
    rw [places]
    refine peek.trans ?_
    cases shows : s.placeOf other with
    | slot p => rfl
    | cell cell =>
      obtain ⟨d, found, -⟩ := (mirrors.accounted.alive_cell shows).cell?
      exact (Heap.content_separate holds alive (Option.isSome_iff_exists.mpr ⟨d, found⟩)).2

/-! ## Fields -/

/-- Setting a field in place, while the composite has one handle, sets the field of the
tree of the slot and of those that are linked to it. -/
theorem insertField (mirrors : s.Mirrors f outside literals ((v, t) :: held) T)
    (has : s.frame.Has slot) (ne : slot ≠ .scratch)
    (there : s.peek (s.placeOf slot) = .composite id)
    (found : s.heap.composite? id = some c) (single : c.count = 1)
    (tree : T.value slot = .node className fields) :
    ({ s with heap := s.heap.insertField id key v } : Store).Mirrors f outside literals held
      (T.write slot (.node className (OrderedMap.place key t fields))) := by
  have hasPlace := mirrors.accounted.owns.hasPlace_placeOf has
  have confines := mirrors.accounted.confines hasPlace there found single
  have acc : ({ s with heap := s.heap.insertField id key v } : Store).Accounted f outside
      (held.map (·.1)) := by
    refine ⟨mirrors.accounted.fits, ?_, mirrors.accounted.constants⟩
    have first : s.heap.Accounts (v :: (s.frame.values ++ held.map (·.1))) outside :=
      Heap.Accounts.congr mirrors.accounted.owns fun node => by
        simp only [List.map_cons, Node.uses_append, Node.uses_cons]
        omega
    exact first.insertField id key
  have closed : (s.heap.insertField id key v).Closed := Heap.Accounts.closed acc.owns
  have none := mirrors.unflagged id c found
  have stored := mirrors.held (v, t) List.mem_cons_self
  have apart := confines.held v List.mem_cons_self
  -- Every other value has the tree that it had, if it is still there.
  have kept : ∀ {u w}, s.heap.Holds u w → w ≠ .composite id →
      (s.heap.insertField id key v).Alive w → (s.heap.insertField id key v).Holds u w :=
    fun holds ne alive => holds.insertField_ne found none confines.apart closed ne alive
  refine ⟨acc, ?_, fun other ne' => ?_, fun e mem => ?_, fun i => ?_, mirrors.bare,
    mirrors.linked⟩
  · refine (Heap.carries_insertField found none key v).unflagged fun j d within => ?_
    rw [Heap.composite?_dropComposite] at within
    split at within
    · cases within
    · exact mirrors.unflagged j d within
  · have peek := acc.peek_insertField found other
    have alive := acc.alive_peek other
    have link := mirrors.linked other slot
    rw [peek] at alive ⊢
    unfold TreeStore.write
    dsimp only
    by_cases same : s.placeOf slot = s.placeOf other
    · have whole := mirrors.shown slot ne
      rw [tree, there] at whole
      rw [if_pos (link.mpr same.symm)]
      rw [← same, there] at alive ⊢
      exact whole.insertField_self found none confines.apart closed stored apart alive
    · rw [if_neg fun linked => same (link.mp linked).symm]
      exact kept (mirrors.shown other ne') (confines.peek _ same) alive
  · exact kept (mirrors.held e (List.mem_cons_of_mem _ mem))
      (confines.held e.1 (List.mem_map.mpr ⟨e, List.mem_cons_of_mem _ mem, rfl⟩))
      (acc.alive_held (List.mem_map.mpr ⟨e, mem, rfl⟩))
  · exact kept (mirrors.literals i) (confines.literal i) (acc.alive_const i)

/-- A slot that shows what unfolds is not bound to a cell that is bound to itself. -/
theorem isSelfBound (mirrors : s.Mirrors f outside literals held T) (ne : slot ≠ .scratch) :
    s.isSelfBound (s.placeOf slot) = false := by
  have holds := mirrors.shown slot ne
  cases shows : s.placeOf slot with
  | slot p => rfl
  | cell cell =>
    rw [shows] at holds
    unfold Store.isSelfBound
    dsimp only
    split
    · rename_i inner eq
      exact absurd eq (holds.ne_ref inner)
    · rfl

/-- Setting a field of what a slot shows sets the field of its tree. -/
theorem setFieldAt_node (mirrors : s.Mirrors f outside literals ((v, t) :: held) T)
    (key : String) (has : s.frame.Has slot) (ne : slot ≠ .scratch)
    (tree : T.value slot = .node className fields) :
    ∃ s', Effect.setFieldAt (s.placeOf slot) key v s = (.ok (), s')
      ∧ s'.Mirrors f outside literals held
        (T.write slot (.node className (OrderedMap.place key t fields))) := by
  have alive := mirrors.accounted.alive_peek slot
  have holds := mirrors.shown slot ne
  rw [tree] at holds
  obtain ⟨id, d, eq, found, single, -, -⟩ := Heap.separate_node holds mirrors.unflagged alive
  obtain ⟨separated, places⟩ := mirrors.separate has ne
  have there := mirrors.peek_separate has ne
  have has' : (s.separate (s.placeOf slot)).2.frame.Has slot := by
    cases s.placeOf slot with
    | slot p => exact (s.frame.has_put p slot _).mpr has
    | cell cell => exact has
  rw [eq] at there
  rw [← composite?_separate] at found
  have free : (s.separate (s.placeOf slot)).2.heap.checkMutation id = .ok () := by
    rw [Heap.checkMutation, found]
    simp [Composite.isMutable, single]
  refine ⟨_, ?_, separated.insertField has' ne ((places slot).symm ▸ there) found single tree⟩
  unfold Effect.setFieldAt
  rw [mirrors.isSelfBound ne, if_neg Bool.false_ne_true]
  dsimp only
  rw [there]
  dsimp only
  rw [Heap.setField, Heap.setFields, free]
  rfl

/-- A scalar has no fields, and nothing is changed. -/
theorem setFieldAt_leaf {w : Value} {scalar : w.node? = none}
    (mirrors : s.Mirrors f outside literals ((v, t) :: held) T) (key : String)
    (has : s.frame.Has slot) (ne : slot ≠ .scratch) (tree : T.value slot = .leaf w scalar) :
    ∃ s', Effect.setFieldAt (s.placeOf slot) key v s
        = (.error (.type (.fieldWrite key w.kind)), s')
      ∧ s'.Mirrors f outside literals held T := by
  have holds := mirrors.shown slot ne
  rw [tree] at holds
  have shown : s.peek (s.placeOf slot) = w := holds
  have separated := (mirrors.separate has ne).1
  have there := mirrors.peek_separate has ne
  rw [shown, Heap.separate_leaf scalar] at there
  refine ⟨_, ?_, separated.release⟩
  unfold Effect.setFieldAt
  rw [mirrors.isSelfBound ne, if_neg Bool.false_ne_true]
  dsimp only
  rw [there]
  cases w <;> first | rfl | cases scalar

end Mirrors

end Store

end OverloadMachine
