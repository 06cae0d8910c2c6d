import OverloadMachine.Proofs.ExactSeparation
import OverloadMachine.Proofs.OperandStore
import OverloadMachine.Proofs.VectorTrees

/-!
# Replacement of a vector's components

An update of a vector writes its two components and leaves its other fields alone. It does so in
the composite of the first operand's place if nobody else has a handle of that, and in a copy
otherwise, so no other holder is reached. Behind the update the call ends: the result is stored,
the operands that were read are emptied, and so is the scratch slot. What lives through that and
is none of these places is the same before and behind it.
-/

namespace OverloadMachine

/-! ## Vectors -/

/-- A number is made of the value that it is. -/
theorem Number.ofValue?_eq_some {v : Value} {n : Number} :
    Number.ofValue? v = some n ↔ v = n.toValue := by
  cases v <;> cases n <;> simp [Number.ofValue?, Number.toValue]

/-- A composite is a vector: it has the class of vectors and numbers as its components. It may
have other fields. -/
structure Composite.IsVector (c : Composite) (u : Vector2) : Prop where
  className : c.className = Vector2.className
  x : c.fields.get? "x" = some u.x.toValue
  y : c.fields.get? "y" = some u.y.toValue

namespace Vector2

variable {h : Heap} {id : CompositeId} {c : Composite} {u v : Vector2}

theorem component?_eq_ok {key : String} {n : Number} :
    component? c key = .ok n ↔ c.fields.get? key = some n.toValue := by
  unfold component?
  cases there : c.fields.get? key with
  | none => simp
  | some w =>
    have number : (some w >>= Number.ofValue?) = Number.ofValue? w := rfl
    rw [number, Option.some.injEq, ← Number.ofValue?_eq_some]
    cases Number.ofValue? w <;> simp

/-- The vectors are the composites that are taken for vectors. -/
theorem ofComposite_eq_ok : ofComposite c = .ok u ↔ c.IsVector u := by
  unfold ofComposite
  constructor
  · intro is
    split at is
    · rename_i isVector
      obtain ⟨x, first, is⟩ := bind_eq_ok.mp is
      obtain ⟨y, second, is⟩ := bind_eq_ok.mp is
      cases is
      exact ⟨isVector, component?_eq_ok.mp first, component?_eq_ok.mp second⟩
    · cases is
  · intro is
    rw [if_pos is.className, component?_eq_ok.mpr is.x, component?_eq_ok.mpr is.y]
    rfl

theorem ofValue_composite (found : h.composite? id = some c) :
    ofValue h (.composite id) = ofComposite c := by
  have there : ((Value.composite id).composite? >>= h.composite?) = some c := found
  rw [ofValue, there]

/-- What is a vector as a value is a composite that is one. -/
theorem ofValue_eq_ok {w : Value} : ofValue h w = .ok u
    ↔ ∃ id c, w = .composite id ∧ h.composite? id = some c ∧ c.IsVector u := by
  constructor
  · intro is
    obtain ⟨id, c, rfl, found, -⟩ := composite_of_ofValue is
    rw [ofValue_composite found, ofComposite_eq_ok] at is
    exact ⟨id, c, rfl, found, is⟩
  · rintro ⟨id, c, rfl, found, is⟩
    rw [ofValue_composite found, ofComposite_eq_ok.mpr is]

/-- The components are written, and no other field. -/
theorem get?_writeInto (v : Vector2) (fields : NameMap Value) (key : String) :
    (v.writeInto fields).get? key
      = if key = "x" then some v.x.toValue else if key = "y" then some v.y.toValue
        else fields.get? key := by
  simp only [writeInto, entries, List.foldl_cons, List.foldl_nil, OrderedMap.get?_insert]
  by_cases x : key = "x"
  · subst x
    rfl
  · by_cases y : key = "y"
    · subst y
      rfl
    · rw [if_neg x, if_neg y, if_neg (Ne.symm x), if_neg (Ne.symm y)]

end Vector2

namespace Heap

variable {h : Heap} {id : CompositeId} {c : Composite}

/-- Of two composites under one name the second one stands. -/
theorem putComposite_putComposite (h : Heap) (id : CompositeId) (c d : Composite) :
    (h.putComposite id c).putComposite id d = h.putComposite id d := by
  apply ext_nodes
  · intro j
    simp only [composite?_putComposite]
    split <;> rfl
  · exact fun j => rfl

/-- Putting a composite where it is changes nothing. -/
theorem putComposite_of_composite? (found : h.composite? id = some c) :
    h.putComposite id c = h := by
  apply ext_nodes
  · intro j
    rw [composite?_putComposite]
    split
    · rename_i same
      rw [← same, found]
    · rfl
  · exact fun j => rfl

/-- Scalars are set in place of scalars, and no handle is given up for them. -/
theorem insertFields_of_scalars {entries : List (String × Value)}
    (found : h.composite? id = some c) (scalars : ∀ e ∈ entries, e.2.node? = none)
    (old : ∀ e ∈ entries, ((c.fields.get? e.1).getD .null).node? = none) :
    h.insertFields id entries = h.putComposite id
      { c with fields := entries.foldl (fun m e => m.insert e.1 e.2) c.fields } := by
  induction entries generalizing h c with
  | nil => exact (putComposite_of_composite? found).symm
  | cons e rest ih =>
    have first := insertField_of_scalar found (old e List.mem_cons_self) e.2
    have later := ih (h := h.insertField id e.1 e.2)
      (c := { c with fields := c.fields.insert e.1 e.2 })
      (by rw [first, composite?_putComposite, if_pos rfl])
      (fun e mem => scalars e (List.mem_cons_of_mem _ mem)) fun other mem => by
        rw [OrderedMap.get?_insert]
        split
        · exact scalars e List.mem_cons_self
        · exact old other (List.mem_cons_of_mem _ mem)
    have whole : h.insertFields id (e :: rest) = (h.insertField id e.1 e.2).insertFields id rest :=
      rfl
    rw [whole, later, first, putComposite_putComposite]
    rfl

/-- The components of a vector are replaced, and nothing else changes. -/
theorem insertFields_entries {u : Vector2} (found : h.composite? id = some c) (is : c.IsVector u)
    (v : Vector2) :
    h.insertFields id v.entries = h.putComposite id { c with fields := v.writeInto c.fields } := by
  have isVector : Vector2.ofValue h (.composite id) = .ok u :=
    Vector2.ofValue_eq_ok.mpr ⟨id, c, rfl, found, is⟩
  exact insertFields_of_scalars found v.scalar_entries (scalar_of_vector found isVector v)

end Heap

/-! ## Replacement -/

namespace Store

variable {f : Function} {outside : Node → Nat} {held : List Value} {s t : Store} {place : Place}
  {id now : CompositeId} {c : Composite} {fields : NameMap Value} {slot : Slot}
  {constants : Array Value} {o : Operand}

/-- From one store to another, the composite in a place has got new fields, in place if it had one
handle and in a copy otherwise. Nothing else has changed but numbers of handles. -/
structure Replaces (s t : Store) (place : Place) (id now : CompositeId) (c : Composite)
    (fields : NameMap Value) : Prop where
  holds : t.peek place = .composite now
  made : t.heap.composite? now = some ⟨c.className, fields, false, 1⟩
  slots : ∀ slot, place ≠ .slot slot → t.frame.get? slot = s.frame.get? slot
  nodes : ∀ node, node ≠ .composite now → place.touch ≠ .node node →
    t.heap.body? node = s.heap.body? node
  own : now = id ∧ c.count = 1 ∨ c.count ≠ 1 ∧ s.heap.composite? now = none

namespace Replaces

variable (replaces : s.Replaces t place id now c fields)

include replaces

theorem get_eq (ne : place ≠ .slot slot) : t.frame.get slot = s.frame.get slot :=
  congrArg (·.getD .null) (replaces.slots slot ne)

/-- Other places hold what they held. -/
theorem peek_ne {other : Place} (ne : place ≠ other) : t.peek other = s.peek other :=
  peek_eq_of_ne replaces.slots (fun cell => replaces.nodes (.cell cell) nofun) ne

/-- Every slot shows the place that it showed. -/
theorem placeOf_eq (there : s.peek place = .composite id) (slot : Slot) :
    t.placeOf slot = s.placeOf slot := by
  by_cases same : place = .slot slot
  · subst same
    have before : s.frame.get slot = .composite id := there
    have after : t.frame.get slot = .composite now := replaces.holds
    rw [placeOf, placeOf, before, after]
  · rw [placeOf, placeOf, replaces.get_eq same]

theorem target_eq (there : s.peek place = .composite id) (constants : Array Value) (o : Operand) :
    t.target constants o = s.target constants o := replaces.placeOf_eq there _

/-- A composite that is not there afterwards was not there before, and is not the one with the new
fields. -/
theorem fresh {other : CompositeId} (unmade : t.heap.composite? other = none) :
    other ≠ now ∧ s.heap.composite? other = none := by
  have apart : other ≠ now := by
    rintro rfl
    rw [replaces.made] at unmade
    cases unmade
  refine ⟨apart, ?_⟩
  rw [← Heap.body?_composite_eq_none] at unmade ⊢
  rw [← unmade, replaces.nodes (.composite other) (fun same => apart (Node.composite.inj same))
    (Place.touch_ne_composite _ _)]

end Replaces

/-- The composite in a place is separated. -/
theorem exists_separate (owns : s.Owns held outside) (has : s.HasPlace place)
    (filled : s.Filled place) (there : s.peek place = .composite id)
    (found : s.heap.composite? id = some c) (unflagged : c.flagged = false) :
    ∃ now, s.Replaces (s.separate place).2 place id now c c.fields := by
  have opens : s.opened place = place :=
    opened_of_ne_ref fun cell is => by rw [there] at is; cases is
  rcases separate_cases owns has filled with
    ⟨same, may⟩ | ⟨other, copy, d, t, same, shows, found', copies⟩
  · obtain ⟨d, found', can⟩ := may id (by rw [opens]; exact there)
    cases found.symm.trans found'
    have single : c.count = 1 := by simpa [Composite.isMutable, unflagged] using can
    rw [same]
    refine ⟨id, there, ?_, fun _ _ => rfl, fun _ _ _ => rfl, .inl ⟨rfl, single⟩⟩
    rw [found, ← single, ← unflagged]
  · rw [opens] at shows copies
    cases there.symm.trans shows
    cases found.symm.trans found'
    rw [same]
    refine ⟨copy, copies.holds, copies.made, copies.slots, copies.nodes, .inr ⟨?_, copies.fresh⟩⟩
    -- With one handle and no flag the composite would have been left alone.
    intro single
    have kept := separate_of_mayChange filled fun j is => by
      rw [opens, there] at is
      cases is
      exact ⟨c, found, by simp [Composite.isMutable, single]⟩
    rw [kept] at same
    cases same

/-- The components of the separated vector are replaced. -/
theorem Replaces.insert {u : Vector2} (replaces : s.Replaces t place id now c c.fields)
    (is : c.IsVector u) (v : Vector2) (constants : Array Value) (o : Operand)
    (frame : ∀ slot, place ≠ .slot slot →
      (t.defining constants o).frame.get? slot = t.frame.get? slot) :
    s.Replaces { t.defining constants o with heap := t.heap.insertFields now v.entries } place id
      now c (v.writeInto c.fields) := by
  have vector : Composite.IsVector ⟨c.className, c.fields, false, 1⟩ u := ⟨is.className, is.x, is.y⟩
  rw [Heap.insertFields_entries replaces.made vector v]
  refine ⟨?_, ?_, fun slot ne => ?_, fun node ne other => ?_, replaces.own⟩
  · rw [← replaces.holds]
    cases place with
    | slot slot => exact t.get_defining constants o slot
    | cell cell => rfl
  · exact (Heap.composite?_putComposite _ _ _ _).trans (if_pos rfl)
  · exact (frame slot ne).trans (replaces.slots slot ne)
  · exact (Heap.body?_putComposite _ _ ne).trans (replaces.nodes node ne other)

end Store

namespace Vector2

variable {f : Function} {pc : Nat} {ctx : CallContext} {outside : Node → Nat} {s : Store}
  {id : CompositeId} {c : Composite} {u : Vector2}

/-- The vector that the first operand shows is separated and its components are replaced. -/
theorem exists_replaces (call : ctx.Of f pc) (assigns : ctx.category.isAssignment = true)
    (acc : s.Accounted f outside [])
    (there : s.peek (s.target f.constants ctx.instr.op1) = .composite id)
    (found : s.heap.composite? id = some c) (is : c.IsVector u) (unflagged : c.flagged = false)
    (v : Vector2) (next : Except Refusal Unit → Handler) :
    ∃ t now, (v.replace next).run ctx ⟨s, none, none⟩ = (next (.ok ())).run ctx ⟨t, none, none⟩
      ∧ t.Accounted f outside []
      ∧ s.Replaces t (s.target f.constants ctx.instr.op1) id now c (v.writeInto c.fields) := by
  have start : (⟨s, none, none⟩ : CallState).Accounted f outside := acc
  have defined := acc.defining ctx.instr.op1
  have has := acc.hasPlace_defining call.checked.op1 ctx.instr.op1
  have filled := Store.filled_target call.checked.op1 acc.fits
  have holds : (s.defining f.constants ctx.instr.op1).peek (s.target f.constants ctx.instr.op1)
      = .composite id := (Store.peek_defining _ _ _ _).trans there
  have free : (s.defining f.constants ctx.instr.op1).isSelfBound
      (s.target f.constants ctx.instr.op1) = false :=
    Store.isSelfBound_eq_false.mpr fun cell _ bound => by
      rw [holds] at bound
      cases bound
  have separates := separate_of_free call assigns acc.fits free
  obtain ⟨now, separated⟩ := Store.exists_separate defined.owns has filled holds
    (by rw [Store.heap_defining]; exact found) unflagged
  have once := start.separate call
  rw [separates] at once
  have target : ((s.defining f.constants ctx.instr.op1).separate
      (s.target f.constants ctx.instr.op1)).2.target f.constants ctx.instr.op1
      = s.target f.constants ctx.instr.op1 :=
    (separated.target_eq holds _ _).trans (Store.target_defining _ _ _ _)
  generalize ((s.defining f.constants ctx.instr.op1).separate
    (s.target f.constants ctx.instr.op1)).1 = copied at separates
  generalize ((s.defining f.constants ctx.instr.op1).separate
    (s.target f.constants ctx.instr.op1)).2 = t at separates separated once target
  -- The fields are those of the separated composite, in the place that the operand still shows.
  have sets := setFields_eq call assigns once.fits (target.symm ▸ separated.holds) separated.made
    rfl v
  have twice := once.setFields call true (v.entries.map fun e => (e.1, .scalar e.2))
  rw [sets] at twice
  have replaced := separated.insert is v f.constants ctx.instr.op1
    fun slot ne => Store.get?_defining_of_target_ne (target.symm ▸ ne)
  refine ⟨_, now, ?_, twice, ?_⟩
  · rw [replace, Handler.run, separates]
    dsimp only [Handler.orViolated]
    rw [Handler.run, sets]
  · refine ⟨replaced.holds, replaced.made, fun slot ne => ?_, fun node ne other => ?_, ?_⟩
    · exact (replaced.slots slot ne).trans (Store.get?_defining_of_target_ne ne)
    · rw [replaced.nodes node ne other, Store.heap_defining]
    · have own := replaced.own
      rwa [Store.heap_defining] at own

end Vector2

/-! ## The end of a call -/

/-- What a value is a handle of is there. -/
theorem Heap.Alive.isSome_body? {h : Heap} {v : Value} {node : Node} (alive : h.Alive v)
    (names : v.node? = some node) : (h.body? node).isSome := by
  obtain ⟨count, -, live⟩ := alive node names
  rw [Heap.isSome_body?, live]
  rfl

/-- A composite is in a heap, whatever the number of its handles. -/
def Heap.Retains (h : Heap) (id : CompositeId) (c : Composite) : Prop :=
  ∃ n, h.composite? id = some { c with count := n }

theorem Heap.retains_iff {h : Heap} {id : CompositeId} {c : Composite} : h.Retains id c
    ↔ h.body? (.composite id) = some (.composite c.className c.fields c.flagged) := by
  rw [body?, Option.map_eq_some_iff]
  constructor
  · rintro ⟨n, found⟩
    exact ⟨_, found, rfl⟩
  · rintro ⟨d, found, same⟩
    obtain ⟨className, fields, flagged⟩ := Body.composite.inj same
    refine ⟨d.count, found.trans ?_⟩
    rw [← className, ← fields, ← flagged]

/-- An instruction that is handled empties a slot: that of an operand that it has read, or the
scratch slot. -/
def Instruction.Clears (instr : Instruction) (slot : Slot) : Prop :=
  slot = .scratch ∨ instr.Vacates slot

/-- What a variable names is not emptied. -/
theorem Instruction.not_clears_of_isVariable (instr : Instruction) {slot : Slot}
    (isVar : slot.isVariable = true) : ¬instr.Clears slot := by
  rintro (rfl | ⟨i, rfl, -⟩) <;> cases isVar

namespace Store

variable {f : Function} {outside : Node → Nat} {held held' : List Value} {s t u : Store}
  {constants : Array Value} {instr : Instruction} {slot : Slot} {cell : CellId} {node : Node}
  {id now : CompositeId} {c d : Composite} {fields : NameMap Value}

/-- A result is stored into a place. -/
def Delivers (s : Store) (constants : Array Value) (instr : Instruction) (place : Place) : Prop :=
  instr.result.isUnused = false ∧ s.target constants instr.result = place

/-- Where a slot is that of the result, what the slot shows is the place of the result. -/
theorem Delivers.placeOf (delivers : s.Delivers constants instr (.slot slot)) :
    s.Delivers constants instr (s.placeOf slot) :=
  ⟨delivers.1, congrArg s.placeOf (placeOf_eq_slot delivers.2).1⟩

/-- From one store to another a call has come to its end: slots are the same but for that of the
result and those that are emptied, and nodes that live through it are, but for the cell of the
result. -/
structure Closes (s : Store) (constants : Array Value) (instr : Instruction) (t : Store) :
    Prop where
  slots : ∀ slot, ¬s.Delivers constants instr (.slot slot) → ¬instr.Clears slot →
    t.frame.get slot = s.frame.get slot
  nodes : ∀ node, (∀ place, s.Delivers constants instr place → place.touch ≠ .node node) →
    Heap.Persists node s.heap t.heap

namespace Closes

variable (closes : s.Closes constants instr t)

include closes

/-- A cell that lasts keeps its content, if the result is not stored into it. -/
theorem content (unstored : ¬s.Delivers constants instr (.cell cell))
    (there : (s.heap.body? (.cell cell)).isSome) (lasts : (t.heap.body? (.cell cell)).isSome) :
    t.heap.content cell = s.heap.content cell := by
  obtain ⟨b, before⟩ := Option.isSome_iff_exists.mp there
  have persists := closes.nodes (.cell cell) fun place delivers touches =>
    unstored (Place.eq_cell_of_touch touches ▸ delivers)
  refine Heap.content_congr ?_
  rw [before, persists.body? before lasts]

/-- A composite that lasts stays as it is. -/
theorem retains (there : s.heap.Retains id c) (lasts : (t.heap.body? (.composite id)).isSome) :
    t.heap.Retains id c := by
  rw [Heap.retains_iff] at there ⊢
  exact (closes.nodes (.composite id) fun place _ => place.touch_ne_composite id).body? there lasts

/-- A slot shows what it showed, if it is not emptied and the result is stored elsewhere. -/
theorem peek (acc : s.Accounted f outside held) (acc' : t.Accounted f outside held')
    (unstored : ¬s.Delivers constants instr (s.placeOf slot)) (kept : ¬instr.Clears slot) :
    t.placeOf slot = s.placeOf slot ∧ t.peek (s.placeOf slot) = s.peek (s.placeOf slot) := by
  have same := closes.slots slot (fun delivers => unstored delivers.placeOf) kept
  refine ⟨by rw [placeOf, placeOf, same], ?_⟩
  cases shows : s.placeOf slot with
  | slot other =>
    obtain ⟨rfl, -⟩ := placeOf_eq_slot shows
    exact same
  | cell cell =>
    have bound := placeOf_eq_cell.mp shows
    exact closes.content (shows ▸ unstored)
      (acc.isSome_body?_of_get (congrArg Value.node? bound))
      (acc'.isSome_body?_of_get (congrArg Value.node? (same.trans bound)))

end Closes

/-- The fields of the composite that the first operand of an instruction shows have been replaced,
and then the call has come to its end. -/
structure Revises (s : Store) (f : Function) (instr : Instruction) (outside : Node → Nat)
    (id now : CompositeId) (c : Composite) (fields : NameMap Value) (u t : Store) : Prop where
  before : s.Accounted f outside []
  has : s.HasPlace (s.target f.constants instr.op1)
  there : s.peek (s.target f.constants instr.op1) = .composite id
  found : s.heap.composite? id = some c
  replaces : s.Replaces u (s.target f.constants instr.op1) id now c fields
  between : u.Accounted f outside []
  closes : u.Closes f.constants instr t
  after : t.Accounted f outside []

namespace Revises

variable (revises : s.Revises f instr outside id now c fields u t)

include revises

theorem delivers_iff {place : Place} :
    u.Delivers f.constants instr place ↔ s.Delivers f.constants instr place := by
  rw [Delivers, Delivers, revises.replaces.target_eq revises.there]

/-- A composite that is there before is not the one with the new fields, unless it is held nowhere
else and so changed in place. -/
theorem ne_now {other : CompositeId} (there : s.heap.composite? other = some d)
    (shared : other = id → ¬s.Confines f [] (s.target f.constants instr.op1) id) : other ≠ now := by
  rintro rfl
  rcases revises.replaces.own with ⟨same, single⟩ | ⟨-, fresh⟩
  · exact shared same
      (revises.before.confines revises.has revises.there revises.found single)
  · rw [fresh] at there
    cases there

/-- It is changed in place exactly if nobody else has a handle of it. -/
theorem now_eq_iff : now = id ↔ c.count = 1 := by
  rcases revises.replaces.own with ⟨same, single⟩ | ⟨many, fresh⟩
  · exact iff_of_true same single
  · refine iff_of_false (fun same => ?_) many
    rw [same, revises.found] at fresh
    cases fresh

/-- A composite that lasts stays as it is, unless it is the one with the new fields. -/
theorem retains {other : CompositeId} (found : s.heap.composite? other = some d)
    (ne : other ≠ now) (lasts : (t.heap.body? (.composite other)).isSome) :
    t.heap.Retains other d := by
  refine revises.closes.retains (Heap.retains_iff.mpr ?_) lasts
  rw [revises.replaces.nodes (.composite other) (fun same => ne (Node.composite.inj same))
    (Place.touch_ne_composite _ _)]
  exact Heap.retains_iff.mp ⟨d.count, found⟩

/-- A cell that lasts keeps its content, unless the operand or the result shows it. -/
theorem content (apart : s.target f.constants instr.op1 ≠ .cell cell)
    (unstored : ¬s.Delivers f.constants instr (.cell cell))
    (there : (s.heap.body? (.cell cell)).isSome) (lasts : (t.heap.body? (.cell cell)).isSome) :
    t.heap.content cell = s.heap.content cell := by
  have nodes := revises.replaces.nodes (.cell cell) nofun fun touches =>
    apart (Place.eq_cell_of_touch touches)
  rw [revises.closes.content (fun delivers => unstored (revises.delivers_iff.mp delivers))
    (by rw [nodes]; exact there) lasts]
  have same : u.peek (.cell cell) = s.peek (.cell cell) := revises.replaces.peek_ne apart
  exact same

/-- A slot shows what it showed, if it is not emptied and neither the operand nor the result shows
the same place. -/
theorem peek (apart : s.target f.constants instr.op1 ≠ s.placeOf slot)
    (unstored : ¬s.Delivers f.constants instr (s.placeOf slot)) (kept : ¬instr.Clears slot) :
    t.placeOf slot = s.placeOf slot ∧ t.peek (s.placeOf slot) = s.peek (s.placeOf slot) := by
  have place := revises.replaces.placeOf_eq revises.there slot
  have closed := revises.closes.peek revises.between revises.after
    (fun delivers => unstored (revises.delivers_iff.mp (place ▸ delivers))) kept
  rw [place] at closed
  exact ⟨closed.1, closed.2.trans (revises.replaces.peek_ne apart)⟩

/-- The operand shows the composite with the new fields, if the result is stored elsewhere. -/
theorem peek_target (assigned : instr.op1.isVariable = true) (within : instr.op1.Within f)
    (unstored : ¬s.Delivers f.constants instr (s.target f.constants instr.op1)) :
    t.target f.constants instr.op1 = s.target f.constants instr.op1
      ∧ t.peek (s.target f.constants instr.op1) = .composite now := by
  have place := revises.replaces.target_eq revises.there f.constants instr.op1
  have kept := instr.not_clears_of_isVariable (within.isVariable_slot assigned)
  have closed := revises.closes.peek revises.between revises.after
    (fun delivers => unstored (revises.delivers_iff.mp (place ▸ delivers))) kept
  rw [← target, ← target, place] at closed
  exact ⟨closed.1, closed.2.trans revises.replaces.holds⟩

/-- The composite that a place holds in the end has the new fields, if it is that one. -/
theorem retains_now {place : Place} (holds : t.peek place = .composite now) :
    t.heap.Retains now ⟨c.className, fields, false, 1⟩ := by
  have alive := revises.after.owns.alive_place place
  rw [holds] at alive
  exact revises.closes.retains ⟨1, revises.replaces.made⟩ (alive.isSome_body? rfl)

/-- If components were replaced, that composite is the vector of the new ones, with the other fields
as before. -/
theorem exists_vector {a w : Vector2} (is : c.IsVector a)
    (components : fields = w.writeInto c.fields) {place : Place}
    (holds : t.peek place = .composite now) :
    ∃ d, t.heap.Retains now d ∧ d.IsVector w
      ∧ ∀ key, key ≠ "x" → key ≠ "y" → d.fields.get? key = c.fields.get? key := by
  refine ⟨_, revises.retains_now holds, ⟨is.className, ?_, ?_⟩, fun key x y => ?_⟩
  · rw [components, w.get?_writeInto, if_pos rfl]
  · rw [components, w.get?_writeInto, if_neg (by decide), if_pos rfl]
  · rw [components, w.get?_writeInto, if_neg x, if_neg y]

end Revises

end Store

namespace Effect

variable {f : Function} {instr : Instruction} {pc : Nat} {outside : Node → Nat} {s : Store}
  {constants : Array Value} {pending : Option Value} {h : Heap} {v : Value}

/-- The end of an instruction that its handler has handled. -/
def ended (constants : Array Value) (instr : Instruction) (pending : Option Value) (s : Store) :
    Store :=
  ((storePending constants instr pending s).vacateRead instr).overwrite (.slot .scratch) .null

theorem settle_handled (constants : Array Value) (instr : Instruction) (pending : Option Value)
    (s : Store) : settle constants instr (some .handled, ⟨s, pending, none⟩)
      = (.ok .handled, ended constants instr pending s) := rfl

theorem accounted_ended (checked : instr.Checked f pc)
    (acc : s.Accounted f outside pending.toList) :
    (ended f.constants instr pending s).Accounted f outside [] :=
  let ending : Option Answer × CallState := (some .handled, ⟨s, pending, none⟩)
  have left : ending.2.Accounted f outside := acc
  settle_accounted checked left

/-- A result that is not used is not stored. -/
theorem storePending_of_isUnused (unused : instr.result.isUnused = true) (pending : Option Value)
    (s : Store) : storePending constants instr pending s = dropPending pending s := by
  cases pending with
  | none => rfl
  | some v => exact if_pos unused

/-- After nodes and handles were added for the result, a call comes to its end. -/
theorem closes_ended (remains : s.heap.Remains h) (constants : Array Value) (instr : Instruction)
    (pending : Option Value) :
    s.Closes constants instr (ended constants instr pending { s with heap := h }) := by
  refine ⟨fun slot unstored kept => ?_, fun node apart => ⟨h, remains, ?_⟩⟩
  · have stored : (storePending constants instr pending { s with heap := h }).frame.get slot
        = s.frame.get slot := by
      by_cases unused : instr.result.isUnused = true
      · rw [storePending_of_isUnused unused, frame_dropPending]
      · exact get_storePending_ne pending { s with heap := h } fun shows =>
          unstored ⟨Bool.eq_false_iff.mpr unused, shows⟩
    have emptied := Store.get?_vacateRead_ne
      (storePending constants instr pending { s with heap := h }) fun vacates => kept (.inr vacates)
    have cleared := get?_cleared
      ((storePending constants instr pending { s with heap := h }).vacateRead instr)
      fun scratch => kept (.inl scratch)
    exact (congrArg (·.getD .null) (cleared.trans emptied)).trans stored
  · have stored : Heap.Stems node h
        (storePending constants instr pending { s with heap := h }).heap := by
      by_cases unused : instr.result.isUnused = true
      · rw [storePending_of_isUnused unused]
        exact stems_dropPending node pending { s with heap := h }
      · exact stems_storePending pending { s with heap := h }
          (apart _ ⟨Bool.eq_false_iff.mpr unused, rfl⟩)
    exact (stored.trans (Store.stems_vacateRead node _ instr)).trans (stems_cleared node _)

/-- The result shows what was held back for it. -/
theorem peek_ended (checked : instr.Checked f pc) (storable : instr.result.isLiteral = false)
    (acc : s.Accounted f outside [v]) (used : instr.result.isUnused = false)
    (plain : ∀ cell, v ≠ .ref cell) :
    (ended f.constants instr (some v) s).target f.constants instr.result
        = s.target f.constants instr.result
      ∧ (ended f.constants instr (some v) s).peek (s.target f.constants instr.result) = v := by
  have stored : storePending f.constants instr (some v) s
      = s.assign f.constants instr.result v := by
    simp only [storePending, used, Bool.false_eq_true, if_false]
  have place := acc.placeOf_assign checked.result plain (instr.result.slot f.constants)
  have there := acc.peek_target_assign checked.result plain
  have final : (ended f.constants instr (some v) s).Accounted f outside [] :=
    accounted_ended checked acc
  unfold ended at final ⊢
  rw [stored] at final ⊢
  have apart : instr.result.slot f.constants ≠ .scratch :=
    checked.result.slot_ne_scratch (Operand.isWritable_of_isLiteral storable used)
  have same : (((s.assign f.constants instr.result v).vacateRead instr).overwrite
      (.slot .scratch) .null).frame.get (instr.result.slot f.constants)
      = (s.assign f.constants instr.result v).frame.get (instr.result.slot f.constants) :=
    congrArg (·.getD .null) ((get?_cleared _ apart).trans
      (Store.get?_vacateRead_ne _ (instr.not_vacates_result f.constants)))
  have shows := final.peek_of_stems same fun cell _ =>
    (Store.stems_vacateRead (.cell cell) _ instr).trans (stems_cleared (.cell cell) _)
  rw [place] at shows
  refine ⟨?_, shows.trans there⟩
  rw [Store.target, Store.placeOf, same]
  exact place

end Effect

namespace Vector2

variable {f : Function} {pc : Nat} {ctx : CallContext} {outside : Node → Nat} {u : Store}
  {draft : Draft} {v : Value} {h : Heap}

/-- A result that is asked for is made, and the call comes to its end with the result stored. What
was made for it lives through that end like everything else. -/
theorem exists_yielded (call : ctx.Of f pc) (given : ctx.hasResult = true)
    (used : ctx.instr.result.isUnused = false) (acc : u.Accounted f outside [])
    (built : draft.build (ctx.view u) u.heap = (v, h)) (plain : ∀ cell, v ≠ .ref cell) :
    ∃ t, Effect.settle f.constants ctx.instr ((yield draft).run ctx ⟨u, none, none⟩)
        = (.ok .handled, t)
      ∧ u.Closes f.constants ctx.instr t
      ∧ ({ u with heap := h } : Store).Closes f.constants ctx.instr t
      ∧ t.Accounted f outside []
      ∧ t.target f.constants ctx.instr.result = u.target f.constants ctx.instr.result
      ∧ t.peek (u.target f.constants ctx.instr.result) = v := by
  have made := CallState.accounted_build (c := ⟨u, none, none⟩) call acc draft
  have remains := CallState.remains_build (c := ⟨u, none, none⟩) call acc draft
  unfold CallState.build at made remains
  dsimp only at made remains
  rw [built] at made remains
  have storable := (call.checked.operator call.category).result
  obtain ⟨kept, holds⟩ := Effect.peek_ended call.checked storable made used plain
  rw [run_yield given, built]
  exact ⟨_, Effect.settle_handled _ _ _ _, Effect.closes_ended remains _ _ _,
    Effect.closes_ended (.refl h) _ _ _,
    Effect.accounted_ended call.checked made, kept, holds⟩

end Vector2

end OverloadMachine
