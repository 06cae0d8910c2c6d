import OverloadMachine.Proofs.FieldWrites

/-!
# Exact separation

What a separation does, node by node. The composite that a place holds, itself or through
one cell, is left alone where it may be changed in place. Elsewhere the place gets a copy of
it: a new composite with one handle and no flag, with its class and with the values of its
fields, nested composites by the same handles. The composite loses the handle that the place
had, every node gains one for each field of the copy that holds it, and nothing else changes.
-/

namespace OverloadMachine

namespace Heap

variable {h k : Heap} {node : Node} {id copy : CompositeId} {c : Composite}

/-- From one heap to another, a holder of a composite has traded its handle for one to a copy. -/
structure Copies (h k : Heap) (id copy : CompositeId) (c : Composite) : Prop where
  fresh : h.composite? copy = none
  made : k.composite? copy = some ⟨c.className, c.fields, false, 1⟩
  nodes : ∀ node, node ≠ .composite copy → k.body? node = h.body? node
  counts : ∀ node n, h.handles? node = some n →
    ∃ m, k.handles? node = some m ∧ m + node.usedBy (.composite id) = n + node.uses c.fields.values

/-- What a node is does not depend on the number of its handles. -/
theorem body?_recount (h : Heap) (node other : Node) (count : Nat) :
    (h.recount other count).body? node = h.body? node := by
  cases node with
  | composite id =>
    rw [body?, composite?_recount]
    split
    · rw [Option.map_map]
      rfl
    · rfl
  | cell cell =>
    rw [body?, cell?_recount]
    split
    · rw [Option.map_map]
      rfl
    · rfl

/-- A composite that may not be changed in place is copied for its holder. -/
theorem copies_separateComposite (found : h.composite? id = some c) (shared : c.isMutable = false)
    (pos : 0 < c.count) :
    h.Copies (h.separateComposite id).2.2 id (h.separateComposite id).1 c := by
  have fresh := (separateComposite_copies found shared).2
  have old := handles?_of_composite? found
  have ne : Node.composite id ≠ .composite (h.separateComposite id).1 := by
    intro eq
    rw [← Node.composite.inj eq, found] at fresh
    cases fresh
  rw [separateComposite_of_shared found shared pos] at fresh ne ⊢
  refine ⟨fresh, ?_, fun node other => ?_, fun node n live => ?_⟩
  · rw [composite?_recount, if_neg ne]
    simp [duplicate, create]
  · rw [body?_recount]
    exact (body?_putComposite _ _ other).trans (h.body?_acquireAll _ node)
  · rw [handles?_recount, handles?_duplicate live c]
    by_cases same : Node.composite id = node
    · subst same
      rw [if_pos rfl, Node.usedBy_of_node? (v := .composite id) rfl]
      cases live.symm.trans old
      refine ⟨_, rfl, ?_⟩
      dsimp only
      omega
    · rw [if_neg same, Node.usedBy_of_ne (v := .composite id) rfl same]
      exact ⟨_, rfl, rfl⟩

end Heap

namespace Store

variable {s t : Store} {place : Place} {id copy : CompositeId} {c : Composite} {inner : CellId}
  {held : List Value} {outside : Node → Nat}

/-- Place whose composite is separated for a holder: the inside of the cell that the holder is
bound to, else its own place. -/
def opened (s : Store) (place : Place) : Place :=
  match s.peek place with
  | .ref cell => .cell cell
  | _ => place

theorem opened_of_ref (there : s.peek place = .ref inner) : s.opened place = .cell inner := by
  rw [opened, there]

theorem opened_of_ne_ref (plain : ∀ cell, s.peek place ≠ .ref cell) : s.opened place = place := by
  unfold opened
  split
  · rename_i cell is
    exact absurd is (plain cell)
  · rfl

/-- Where the other slots and cells are the same, the other places hold what they held. -/
theorem peek_eq_of_ne {other : Place}
    (slots : ∀ slot, place ≠ .slot slot → t.frame.get? slot = s.frame.get? slot)
    (cells : ∀ cell, place.touch ≠ .node (.cell cell) →
      t.heap.body? (.cell cell) = s.heap.body? (.cell cell))
    (ne : place ≠ other) : t.peek other = s.peek other := by
  cases other with
  | slot slot =>
    have same := slots slot ne
    exact congrArg (Option.getD · .null) same
  | cell cell =>
    refine Heap.content_congr (cells cell fun touches => ?_)
    exact ne (Place.eq_cell_of_touch touches)

/-- From one store to another, the holder in a place has got a copy of its composite, and nothing
else has changed but the number of handles. -/
structure Copies (s t : Store) (place : Place) (id copy : CompositeId) (c : Composite) : Prop where
  fresh : s.heap.composite? copy = none
  made : t.heap.composite? copy = some ⟨c.className, c.fields, false, 1⟩
  holds : t.peek place = .composite copy
  slots : ∀ slot, place ≠ .slot slot → t.frame.get? slot = s.frame.get? slot
  nodes : ∀ node, node ≠ .composite copy → place.touch ≠ .node node →
    t.heap.body? node = s.heap.body? node
  counts : ∀ node n, s.heap.handles? node = some n → ∃ m, t.heap.handles? node = some m
    ∧ m + node.usedBy (.composite id) = n + node.uses c.fields.values

/-- A place with a composite that may not be changed in place gets a copy. -/
theorem copies_separate (owns : s.Owns held outside) (has : s.HasPlace place)
    (there : s.peek place = .composite id) (found : s.heap.composite? id = some c)
    (shared : c.isMutable = false) :
    (s.separate place).1 = true
      ∧ s.Copies (s.separate place).2 place id (s.heap.separateComposite id).1 c := by
  have alive := owns.alive_place place
  have gets := owns.peek_separate has alive
  rw [there] at alive gets
  obtain ⟨d, found', pos⟩ := alive.composite?
  cases found.symm.trans found'
  have copied := Heap.copies_separateComposite found shared pos
  have composites := Mirrors.composite?_separate s place
  rw [there, Heap.separate_composite] at composites
  refine ⟨?_, copied.fresh, (composites _).trans copied.made, gets, fun slot ne => ?_,
    fun node other ne => ?_, fun node n live => ?_⟩
  · rw [separate, there]
    exact (Heap.separateComposite_copies found shared).1
  · unfold separate
    cases place with
    | slot p => exact s.frame.get?_put_ne _ fun eq => ne (congrArg Place.slot eq)
    | cell cell => rfl
  · rw [← copied.nodes node other, separate, there]
    cases place with
    | slot p => rfl
    | cell cell => exact Heap.body?_putContent _ _ fun eq => ne (congrArg Touch.node eq.symm)
  · obtain ⟨m, now, sum⟩ := copied.counts node n live
    refine ⟨m, ?_, sum⟩
    rw [← now, separate, there]
    cases place with
    | slot p => rfl
    | cell cell => exact Heap.handles?_putContent _ cell _ node

/-- A place that is bound to a cell with a composite is separated by separating the inside of the
cell. -/
theorem separate_of_ref (owns : s.Owns held outside) (has : s.HasPlace place)
    (filled : s.Filled place) (there : s.peek place = .ref inner)
    (inside : s.heap.content inner = .composite id) :
    s.separate place = s.separate (.cell inner) := by
  have both : s.separate place
      = ((s.separate (.cell inner)).1, (s.separate (.cell inner)).2.put place (.ref inner)) := by
    unfold separate
    rw [there, peek, inside, Heap.separate_ref inside, Heap.separate_composite]
    rfl
  -- The place is not the inside of the cell that it is bound to, so it stays bound.
  have stays : (s.separate (.cell inner)).2.peek place = .ref inner := by
    cases place with
    | slot p => exact there
    | cell cell =>
      have kept := owns.content_separate_ref has there
      rw [Heap.separate_ref inside] at kept
      have shows : s.peek (.cell inner) = .composite id := inside
      rw [separate, shows]
      exact kept
  have same : (s.separate (.cell inner)).2.put place ((s.separate (.cell inner)).2.peek place)
      = (s.separate (.cell inner)).2 := put_peek filled
  rw [stays] at same
  rw [both, same]

/-- Where the composite of a holder may be changed in place, or there is none, separation makes no
copy and changes nothing. -/
theorem separate_of_mayChange (filled : s.Filled place)
    (may : ∀ id, s.peek (s.opened place) = .composite id → s.heap.MayChange id) :
    s.separate place = (false, s) := by
  have keeps : ∀ id, s.peek (s.opened place) = .composite id →
      (s.heap.separateComposite id).2.1 = false := fun id shows => by
    obtain ⟨c, found, can⟩ := may id shows
    exact Heap.separateComposite_keeps fun d found' => by
      cases found.symm.trans found'
      exact can
  have uncopied : (s.heap.separate (s.peek place)).2.1 = false := by
    cases there : s.peek place with
    | composite id =>
      refine keeps id ?_
      rw [opened_of_ne_ref fun cell is => by rw [there] at is; cases is]
      exact there
    | ref inner =>
      unfold Heap.separate
      dsimp only
      split
      · rename_i id inside
        refine keeps id ?_
        rw [opened_of_ref there]
        exact inside
      · rfl
    | _ => rfl
  rw [separate, Heap.separate_of_not_copied _ uncopied]
  exact congrArg (Prod.mk false) (put_peek filled)

/-- The place that is separated for a holder is there. -/
theorem hasPlace_opened (owns : s.Owns held outside) (has : s.HasPlace place) :
    s.HasPlace (s.opened place) := by
  unfold opened
  split
  · rename_i inner there
    have alive := owns.alive_place place
    rw [there] at alive
    obtain ⟨cell, live, -⟩ := alive.cell?
    exact Option.isSome_iff_exists.mpr ⟨cell, live⟩
  · exact has

/-- A separation makes no copy and changes nothing, because the composite of the holder may be
changed in place or there is none; or else the holder gets a copy. -/
theorem separate_cases (owns : s.Owns held outside) (has : s.HasPlace place)
    (filled : s.Filled place) :
    (s.separate place = (false, s)
        ∧ ∀ id, s.peek (s.opened place) = .composite id → s.heap.MayChange id)
      ∨ ∃ id copy c t, s.separate place = (true, t) ∧ s.peek (s.opened place) = .composite id
        ∧ s.heap.composite? id = some c ∧ s.Copies t (s.opened place) id copy c := by
  by_cases may : ∀ id, s.peek (s.opened place) = .composite id → s.heap.MayChange id
  · exact .inl ⟨separate_of_mayChange filled may, may⟩
  · obtain ⟨id, shows, fixed⟩ : ∃ id, s.peek (s.opened place) = .composite id
        ∧ ¬s.heap.MayChange id := by simpa using may
    have alive := owns.alive_place (s.opened place)
    rw [shows] at alive
    obtain ⟨c, found, -⟩ := alive.composite?
    have shared : c.isMutable = false := by
      cases can : c.isMutable with
      | false => rfl
      | true => exact absurd ⟨c, found, can⟩ fixed
    have same : s.separate place = s.separate (s.opened place) := by
      cases there : s.peek place with
      | ref inner =>
        rw [opened_of_ref there] at shows ⊢
        exact separate_of_ref owns has filled there shows
      | _ => rw [opened_of_ne_ref fun cell is => by rw [there] at is; cases is]
    obtain ⟨copied, copies⟩ :=
      copies_separate owns (hasPlace_opened owns has) shows found shared
    exact .inr ⟨id, _, c, _, same.trans (Prod.ext copied rfl), shows, found, copies⟩

namespace Copies

variable {other : Place} (copies : s.Copies t place id copy c)

include copies

/-- Other places hold what they held. -/
theorem peek_ne (ne : place ≠ other) : t.peek other = s.peek other :=
  peek_eq_of_ne copies.slots (fun cell => copies.nodes (.cell cell) nofun) ne

/-- The copy may be changed in place. -/
theorem mayChange : t.heap.MayChange copy := ⟨_, copies.made, rfl⟩

end Copies

/-- A place of a holder is not the inside of a cell that is bound to itself exactly if it holds no
handle of that cell. -/
theorem isSelfBound_eq_false :
    s.isSelfBound place = false ↔ ∀ cell, place = .cell cell → s.peek place ≠ .ref cell := by
  cases place with
  | slot slot => simp [isSelfBound]
  | cell cell =>
    unfold isSelfBound
    dsimp only
    constructor
    · rintro open' _ ⟨⟩ is
      change s.heap.content cell = _ at is
      simp [is] at open'
    · intro closed
      split
      · rename_i inner is
        have ne : inner ≠ cell := fun eq => closed cell rfl (eq ▸ is)
        simpa using ne
      · rfl

section Holders

variable (copies : s.Copies t (s.opened place) id copy c)
  (shows : s.peek (s.opened place) = .composite id)

include copies shows

/-- A holder of a copy holds it as it held the composite: in its place, or through the cell that
it is bound to. -/
theorem Copies.holder :
    s.opened place = place ∧ t.peek place = .composite copy
      ∨ ∃ inner, s.opened place = .cell inner ∧ s.opened place ≠ place
        ∧ s.peek place = .ref inner ∧ t.peek place = .ref inner := by
  have held := copies.holds
  cases there : s.peek place with
  | ref inner =>
    have opens := opened_of_ref there
    have ne : s.opened place ≠ place := by
      intro eq
      rw [eq, there] at shows
      cases shows
    exact .inr ⟨inner, opens, ne, rfl, (copies.peek_ne ne).trans there⟩
  | _ =>
    have opens : s.opened place = place :=
      opened_of_ne_ref fun cell is => by rw [there] at is; cases is
    rw [opens] at held
    exact .inl ⟨opens, held⟩

/-- The holder opens the same place. -/
theorem Copies.opened_eq : t.opened place = s.opened place := by
  rcases copies.holder shows with ⟨opens, holds⟩ | ⟨inner, opens, -, -, holds⟩
  · rw [opens]
    exact opened_of_ne_ref fun cell is => by rw [holds] at is; cases is
  · rw [opens, opened_of_ref holds]

/-- The holder is not bound to itself if it was not. -/
theorem Copies.isSelfBound (closed : s.isSelfBound place = false) :
    t.isSelfBound place = false := by
  rw [isSelfBound_eq_false] at closed ⊢
  intro cell is
  rcases copies.holder shows with ⟨-, holds⟩ | ⟨inner, -, -, held, holds⟩
  · rw [holds]
    exact nofun
  · rw [holds, ← held]
    exact closed cell is

/-- The place of the holder still has a value. -/
theorem Copies.filled (filled : s.Filled place) : t.Filled place := by
  rintro slot rfl
  rcases copies.holder shows with ⟨opens, holds⟩ | ⟨inner, opens, ne, -, -⟩
  · cases there : t.frame.get? slot with
    | some v => exact ⟨v, rfl⟩
    | none =>
      rw [peek, Frame.get, there] at holds
      cases holds
  · obtain ⟨v, there⟩ := filled slot rfl
    exact ⟨v, (copies.slots slot ne).trans there⟩

end Holders

/-- Separation is safe and exact, whatever the composites share and contain and however the holder
is bound. It ends, unless the holder is the inside of a cell that is bound to itself. The holder
then has a composite, where it had one, that passes the guard and has the same class and the same
values of fields. A copy is new, has one handle and no flag, and no other slot, cell or field has
changed; the composite has lost the handle of the holder, and every node has gained one for each
field of the copy that holds it. Without a copy nothing at all has changed. A second separation
makes no copy. -/
theorem separation_is_exact (owns : s.Owns held outside) (has : s.HasPlace place)
    (filled : s.Filled place) (closed : s.isSelfBound place = false) :
    ∃ copied t, Action.separate place s = (.ok copied, t)
      ∧ t.opened place = s.opened place
      ∧ (∀ id c, s.peek (s.opened place) = .composite id → s.heap.composite? id = some c →
          ∃ now d, t.peek (t.opened place) = .composite now ∧ t.heap.composite? now = some d
            ∧ t.heap.checkMutation now = .ok ()
            ∧ d.className = c.className ∧ d.fields = c.fields)
      ∧ (copied = true → ∃ id copy c, s.peek (s.opened place) = .composite id
          ∧ s.heap.composite? id = some c ∧ s.Copies t (s.opened place) id copy c)
      ∧ (copied = false → t = s)
      ∧ Action.separate place t = (.ok false, t) := by
  have ends := Builtin.separate_eq closed
  rcases separate_cases owns has filled with
    ⟨same, may⟩ | ⟨id, copy, c, t, same, shows, found, copies⟩
  · rw [same] at ends
    refine ⟨false, s, ends, rfl, fun id c shows found => ?_, nofun, fun _ => rfl, ends⟩
    exact ⟨id, c, shows, found, (may id shows).checkMutation, rfl, rfl⟩
  · rw [same] at ends
    have opens := copies.opened_eq shows
    have again : t.separate place = (false, t) := by
      refine separate_of_mayChange (copies.filled shows filled) fun other is => ?_
      rw [opens, copies.holds] at is
      cases is
      exact copies.mayChange
    have ends' := Builtin.separate_eq (copies.isSelfBound shows closed)
    rw [again] at ends'
    refine ⟨true, t, ends, opens, fun other d shows' found' => ?_,
      fun _ => ⟨id, copy, c, shows, found, copies⟩, nofun, ends'⟩
    cases shows.symm.trans shows'
    cases found.symm.trans found'
    exact ⟨copy, _, by rw [opens]; exact copies.holds, copies.made,
      copies.mayChange.checkMutation, rfl, rfl⟩

/-- A store with a composite that holds itself. One variable is bound to a cell with it, another
one holds it. -/
def knotted : Store where
  heap :=
    { composites := OrderedMap.empty.insert 0
        ⟨"Knot", OrderedMap.empty.insert "self" (.composite ⟨0⟩), false, 3⟩
      cells := OrderedMap.empty.insert 0 ⟨.composite ⟨0⟩, 1⟩ }
  frame := { Frame.ofSizes 0 0 with vars := #[.ref ⟨0⟩, .composite ⟨0⟩] }
  notes := #[]

theorem owns_knotted : knotted.Owns [] fun _ => 0 := by
  rintro (⟨_ | n⟩ | ⟨_ | n⟩)
  · decide
  · rfl
  · decide
  · rfl

/-- Separation of the variable that is bound puts a copy into the cell. The composite loses the
handle of the cell and gains that of the field of the copy. -/
theorem separation_is_exact_knotted :
    ∃ t, Action.separate (.slot (.var 0)) knotted = (.ok true, t)
      ∧ (∃ copy c, knotted.Copies t (.cell ⟨0⟩) ⟨0⟩ copy c)
      ∧ Action.separate (.slot (.var 0)) t = (.ok false, t) := by
  have has : knotted.HasPlace (.slot (.var 0)) := Nat.zero_lt_two
  have filled : knotted.Filled (.slot (.var 0)) := fun _ is => by
    cases is
    exact ⟨_, rfl⟩
  obtain ⟨copied, t, ends, -, -, copies, -, again⟩ :=
    separation_is_exact owns_knotted has filled rfl
  have shared : (Action.separate (.slot (.var 0)) knotted).1 = .ok true := rfl
  rw [ends] at shared
  cases shared
  obtain ⟨id, copy, c, shows, -, copies⟩ := copies rfl
  cases shows
  exact ⟨t, ends, ⟨copy, c, copies⟩, again⟩

end Store

end OverloadMachine
