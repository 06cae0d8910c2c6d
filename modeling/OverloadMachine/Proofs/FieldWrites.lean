import OverloadMachine.Proofs.InterceptedCalls
import OverloadMachine.Proofs.Literals

/-!
# Writes of fields

What an instruction may change that sets a field: the place that its first operand shows, one
cell looked through, the composite in that place, and the temporaries that hold the key and the
value. It keeps to that unless the place holds a reference itself. Then the composite behind
that second cell, if it may not be changed in place, is copied and the copy put into the cell,
before the instruction fails because there is no composite in the place.
-/

namespace OverloadMachine

namespace Heap

variable {h : Heap} {node : Node} {id : CompositeId}

theorem body?_composite_eq_none : h.body? (.composite id) = none ↔ h.composite? id = none :=
  Option.map_eq_none_iff

theorem body?_acquireAll (h : Heap) (vs : List Value) (node : Node) :
    (h.acquireAll vs).body? node = h.body? node := by
  induction vs generalizing h with
  | nil => rfl
  | cons v rest ih => exact (ih (h.acquire v)).trans (h.body?_acquire v node)

/-- The only node that separation of a composite adds is the copy. -/
theorem stems_separateComposite (ne : node ≠ .composite (h.separateComposite id).1) :
    Stems node h (h.separateComposite id).2.2 := by
  unfold separateComposite at ne ⊢
  split at ne
  · split at ne
    · rename_i can
      rw [if_pos can]
      exact .refl node h
    · rename_i c found shared
      rw [if_neg shared]
      have copied : (h.duplicate c).2.body? node = h.body? node :=
        (body?_putComposite _ _ ne).trans (h.body?_acquireAll _ node)
      exact (Stems.of_eq copied).trans (.release node _ _)
  · exact .refl node h

/-- A composite that may not be changed in place is copied, and the copy is new. -/
theorem separateComposite_copies {c : Composite} (found : h.composite? id = some c)
    (shared : c.isMutable = false) :
    (h.separateComposite id).2.1 = true ∧ h.composite? (h.separateComposite id).1 = none := by
  unfold separateComposite
  rw [found]
  simp only [shared, Bool.false_eq_true, if_false, true_and]
  have fresh : (h.acquireAll c.fields.values).composite? (h.duplicate c).1 = none :=
    OrderedMap.get?_next _
  rw [← body?_composite_eq_none, body?_acquireAll] at fresh
  exact body?_composite_eq_none.mp fresh

/-- One that may be changed in place is left alone. -/
theorem separateComposite_keeps (can : ∀ c, h.composite? id = some c → c.isMutable = true) :
    (h.separateComposite id).2.1 = false := by
  unfold separateComposite
  split
  · rename_i c found
    rw [if_pos (can c found)]
  · rfl

end Heap

namespace Store

variable {s t : Store} {constants : Array Value} {instr data : Instruction} {o : Operand}
  {slot : Slot} {place : Place} {node : Node} {id : CompositeId} {outside : Node → Nat}

/-- A definition leaves the slots alone that are not the place of its operand. -/
theorem get?_defining_of_target_ne (ne : s.target constants o ≠ .slot slot) :
    (s.defining constants o).frame.get? slot = s.frame.get? slot := by
  by_cases same : slot = o.slot constants
  · subst same
    cases bound : s.frame.get (o.slot constants) with
    | ref cell =>
      have binds : s.Binds (o.slot constants) cell := bound
      exact (binds.defining constants o).get?_eq.trans binds.get?_eq.symm
    | _ =>
      refine absurd (placeOf_of_ne_ref fun cell is => ?_) ne
      rw [bound] at is
      cases is
  · exact s.get?_defining_ne same

/-- Separation of what a place holds adds and changes no node but the place, if that is a cell,
and the composite that the place holds behind it. -/
theorem stems_separate (there : s.peek place = .composite id) (node : Node)
    (ne : place.touch ≠ .node node) (other : node ≠ .composite (s.heap.separateComposite id).1) :
    Heap.Stems node s.heap (s.separate place).2.heap := by
  have separated := Heap.stems_separateComposite other
  unfold separate
  rw [there, Heap.separate_composite]
  cases place with
  | slot slot => exact separated
  | cell cell =>
    have elsewhere : node ≠ .cell cell := fun eq => ne (congrArg Touch.node eq.symm)
    exact separated.trans (.of_eq (Heap.body?_putContent _ _ elsewhere))

/-- If a place holds a reference to a cell with a composite, separation changes the cell. -/
theorem Owns.content_separate_inner {held : List Value} {inner : CellId}
    (owns : s.Owns held outside) (has : s.HasPlace place) (there : s.peek place = .ref inner)
    (inside : s.heap.content inner = .composite id) :
    (s.separate place).2.heap.content inner = .composite (s.heap.separateComposite id).1 := by
  have alive := owns.alive_place place
  rw [there] at alive
  obtain ⟨k, live, -⟩ := alive.cell?
  have within := owns.alive_content inner
  rw [inside] at within
  have lasts : ({ s with heap := (s.heap.separateComposite id).2.2 } : Store).HasPlace
      (.cell inner) := (Heap.cell?_separateComposite within (by rw [live]; rfl)).1
  have given := peek_put lasts (.composite (s.heap.separateComposite id).1) (.cell inner)
  rw [if_pos rfl] at given
  unfold Store.separate
  rw [there, Heap.separate_ref inside]
  cases place with
  | slot slot => exact given
  | cell cell =>
    have other : cell ≠ inner := by
      rintro rfl
      rw [peek, inside] at there
      cases there
    exact (Heap.content_putContent_ne _ _ other).trans given

/-- The store with a field of a composite set, whoever shares it. -/
def insertField (s : Store) (id : CompositeId) (key : String) (v : Value) : Store :=
  { s with heap := s.heap.insertField id key v }

@[simp] theorem frame_insertField (s : Store) (id : CompositeId) (key : String) (v : Value) :
    (s.insertField id key v).frame = s.frame := rfl

theorem stems_insertField (ne : node ≠ .composite id) (s : Store) (key : String) (v : Value) :
    Heap.Stems node s.heap (s.insertField id key v).heap := .insertField ne s.heap key v

/-- Between two stores nothing has changed but the place that the first operand of an
instruction shows, the composite that is in it in the end, and the temporaries that hold the
key and the value. Beside that composite there is no new node, and the handles are accounted for,
so what has gone has gone because nothing held it any more. -/
structure ChangesOnly (s : Store) (constants : Array Value) (instr data : Instruction)
    (outside : Node → Nat) (t : Store) : Prop where
  slots : ∀ slot, s.target constants instr.op1 ≠ .slot slot →
    (∀ i, instr.op2 = .temp i ∨ data.op1 = .temp i → slot ≠ .temp i) →
      t.frame.get? slot = s.frame.get? slot
  nodes : ∀ node, (s.target constants instr.op1).touch ≠ .node node →
    (∀ id, t.peek (s.target constants instr.op1) = .composite id → node ≠ .composite id) →
      Heap.Stems node s.heap t.heap
  owns : t.Owns [] outside

/-- The place that the first operand shows holds a reference to another cell, and in that is a
composite that may not be changed in place once the value is loaded. -/
def Overreaches (s : Store) (constants : Array Value) (instr data : Instruction) : Prop :=
  (∃ key, Builtin.fieldName (s.shown constants instr.op2) = .ok key)
    ∧ ∃ inner id c, s.peek (s.target constants instr.op1) = .ref inner
      ∧ s.heap.content inner = .composite id
      ∧ (s.heap.acquire (s.shown constants data.op1)).composite? id = some c
      ∧ c.isMutable = false

/-- The store in which a field is set: the value is loaded, and the first operand is defined. -/
def loading (s : Store) (constants : Array Value) (instr data : Instruction) : Store :=
  (s.acquire (s.shown constants data.op1)).defining constants instr.op1

theorem target_loading (s : Store) : (s.loading constants instr data).placeOf
    (instr.op1.slot constants) = s.target constants instr.op1 := by
  rw [loading, placeOf_defining, placeOf_acquire, target]

theorem peek_loading (s : Store) (constants : Array Value) (instr data : Instruction)
    (place : Place) : (s.loading constants instr data).peek place = s.peek place := by
  rw [loading, peek_defining, peek_acquire]

theorem heap_loading (s : Store) : (s.loading constants instr data).heap
    = s.heap.acquire (s.shown constants data.op1) := heap_defining _ _ _

theorem get?_loading (ne : s.target constants instr.op1 ≠ .slot slot) :
    (s.loading constants instr data).frame.get? slot = s.frame.get? slot :=
  get?_defining_of_target_ne (s := s.acquire _) ne

theorem stems_loading (s : Store) (node : Node) :
    Heap.Stems node s.heap (s.loading constants instr data).heap :=
  (stems_acquire node s _).trans (stems_defining node _ _ _)

theorem Accounted.loading {f : Function} (acc : s.Accounted f outside []) :
    (s.loading f.constants instr data).Accounted f outside [s.shown f.constants data.op1] :=
  (acc.acquire (acc.alive_shown data.op1)).defining instr.op1

/-- Separation makes no copy where there is no composite and the instruction does not overreach. -/
theorem unseparated_of_not_overreaches {key : String}
    (none : ∀ id, s.peek (s.target constants instr.op1) ≠ .composite id)
    (named : Builtin.fieldName (s.shown constants instr.op2) = .ok key)
    (not : ¬s.Overreaches constants instr data) :
    ((s.loading constants instr data).separate (s.target constants instr.op1)).1 = false := by
  unfold separate
  rw [peek_loading, heap_loading]
  dsimp only
  cases there : s.peek (s.target constants instr.op1) with
  | composite id => exact absurd there (none id)
  | ref inner =>
    have inside : (s.heap.acquire (s.shown constants data.op1)).content inner
        = s.heap.content inner := s.peek_acquire _ (.cell inner)
    cases within : s.heap.content inner with
    | composite id =>
      rw [Heap.separate_ref (inside.trans within)]
      refine Heap.separateComposite_keeps fun c found => ?_
      refine (Bool.not_eq_false _).mp fun shared => ?_
      exact not ⟨⟨key, named⟩, inner, id, c, there, within, found, shared⟩
    | _ => rw [Heap.separate, inside, within]
  | _ => rfl

/-- What is no temporary of the key or the value is kept when those are emptied. -/
theorem get?_vacate_vacate (s : Store) (instr data : Instruction) (slot : Slot)
    (ne : ∀ i, instr.op2 = .temp i ∨ data.op1 = .temp i → slot ≠ .temp i) :
    ((s.vacate instr.op2).vacate data.op1).frame.get? slot = s.frame.get? slot := by
  rw [get?_vacate_ne _ fun i is => ne i (.inr is), get?_vacate_ne _ fun i is => ne i (.inl is)]

theorem DefinesAtMost.heap (defines : s.DefinesAtMost constants o t) : t.heap = s.heap := by
  rcases defines with rfl | ⟨i, name, -, -, -, rfl⟩
  · rfl
  · rfl

/-- A definition at most is within what may change. -/
theorem changesOnly_defining (owns : (s.defining constants instr.op1).Owns [] outside)
    (data : Instruction) :
    s.ChangesOnly constants instr data outside (s.defining constants instr.op1) where
  slots _ ne _ := get?_defining_of_target_ne ne
  nodes _ _ _ := .of_eq (by rw [heap_defining])
  owns := owns

theorem changesOnly_refl (owns : s.Owns [] outside) (constants : Array Value)
    (instr data : Instruction) : s.ChangesOnly constants instr data outside s where
  slots _ _ _ := rfl
  nodes node _ _ := .refl node s.heap
  owns := owns

end Store

namespace Effect

variable {f : Function} {instr data : Instruction} {pc : Nat} {outside : Node → Nat}
  {held : List Value} {s : Store} {v : Value} {place : Place} {id : CompositeId}

/-- A field is set in the composite that is in a place after its separation. -/
theorem setFieldAt_composite (key : String) (acc : s.Accounted f outside held)
    (has : s.HasPlace place) (there : s.peek place = .composite id) :
    (s.separate place).2.peek place = .composite (s.heap.separateComposite id).1
      ∧ setFieldAt place key v s
        = (.ok (), (s.separate place).2.insertField (s.heap.separateComposite id).1 key v) := by
  have single : s.isSelfBound place = false := by
    cases place with
    | slot slot => rfl
    | cell cell =>
      rw [Store.peek] at there
      rw [Store.isSelfBound, there]
  have now : (s.separate place).2.peek place = .composite (s.heap.separateComposite id).1 := by
    rw [acc.owns.peek_separate has (acc.owns.alive_place place), there]
    rfl
  have guard := (acc.owns.mayChange_separate has now).checkMutation
  refine ⟨now, ?_⟩
  unfold setFieldAt
  rw [single]
  simp only [Bool.false_eq_true, if_false, now, Heap.setField, Heap.setFields, guard]
  rfl

/-- No field is set where there is no composite. If separation has made no copy, only the value
is given up. -/
theorem setFieldAt_unseparated (key : String) (filled : s.Filled place)
    (none : ∀ id, s.peek place ≠ .composite id) (same : (s.separate place).1 = false) :
    ∃ fault, setFieldAt place key v s = (.error fault, s.release v) := by
  unfold setFieldAt
  split
  · exact ⟨_, rfl⟩
  · rw [Store.separate_of_not_copied filled same]
    dsimp only
    split
    · rename_i id there
      exact absurd there (none id)
    · exact ⟨_, rfl⟩

/-- Where the place of a slot holds a reference to a cell with a composite that may not be changed
in place, the cell is given a copy before the instruction fails. -/
theorem setFieldAt_nested (key : String) {slot : Slot} {inner : CellId}
    (acc : s.Accounted f outside (v :: held)) (has : s.frame.Has slot)
    (there : s.peek (s.placeOf slot) = .ref inner) (inside : s.heap.content inner = .composite id)
    (shared : ∃ c, s.heap.composite? id = some c ∧ c.isMutable = false) :
    ∃ t copy, setFieldAt (s.placeOf slot) key v s = (.error (.type (.fieldWrite key .ref)), t)
      ∧ t.heap.content inner = .composite copy ∧ s.heap.composite? copy = none := by
  obtain ⟨c, found, unique⟩ := shared
  obtain ⟨-, fresh⟩ := Heap.separateComposite_copies found unique
  have place := acc.owns.hasPlace_placeOf has
  have single : s.isSelfBound (s.placeOf slot) = false := by
    cases shows : s.placeOf slot with
    | slot other => rfl
    | cell cell =>
      rw [shows, Store.peek] at there
      simp only [Store.isSelfBound, there, beq_eq_false_iff_ne]
      rintro rfl
      rw [inside] at there
      cases there
  have now : (s.separate (s.placeOf slot)).2.peek (s.placeOf slot) = .ref inner := by
    rw [acc.owns.peek_separate place (acc.owns.alive_place _), there, Heap.separate_ref inside]
  have given := acc.owns.content_separate_inner place there inside
  have ends : setFieldAt (s.placeOf slot) key v s = (.error (.type (.fieldWrite key .ref)),
      (s.separate (s.placeOf slot)).2.release v) := by
    unfold setFieldAt
    rw [single]
    simp only [Bool.false_eq_true, if_false, now]
    rfl
  have kept : ((s.separate (s.placeOf slot)).2.release v).Accounted f outside held := by
    have kept := setFieldAt_accounted key acc place
    rwa [ends] at kept
  have shows : _ = (s.separate (s.placeOf slot)).2.peek
      ((s.separate (s.placeOf slot)).2.placeOf slot) :=
    kept.peek_of_stems rfl fun cell _ => .release _ _ _
  rw [Store.placeOf_separate has, now] at shows
  have alive := kept.owns.alive_place (s.placeOf slot)
  rw [shows] at alive
  exact ⟨_, _, ends, ((Heap.remains_release _ v).content alive).symm.trans given, fresh⟩

/-- Setting a field whose name is in order. -/
theorem setField_of_named {key : String}
    (named : Builtin.fieldName (s.shown f.constants instr.op2) = .ok key) :
    setField f.constants instr data pc s
      = match setFieldAt (s.target f.constants instr.op1) key (s.shown f.constants data.op1)
          (s.loading f.constants instr data) with
        | (.error fault, t) => (.error fault, t)
        | (.ok _, t) => (.ok (.jump (pc + 2)), (t.vacate instr.op2).vacate data.op1) := by
  unfold setField
  rw [named]
  rfl

/-- An instruction that fails to set a field has changed nothing, unless it overreaches: its value
is given up again. -/
theorem failed_setField (checked : instr.Checked f pc) (acc : s.Accounted f outside [])
    (none : ∀ id, s.peek (s.target f.constants instr.op1) ≠ .composite id)
    (not : ¬s.Overreaches f.constants instr data) {key : String}
    (named : Builtin.fieldName (s.shown f.constants instr.op2) = .ok key) :
    ∃ fault, setField f.constants instr data pc s
      = (.error fault, s.defining f.constants instr.op1) := by
  have filled : (s.loading f.constants instr data).Filled (s.target f.constants instr.op1) :=
    Store.filled_target checked.op1 (s := s.acquire (s.shown f.constants data.op1))
      (acc.acquire (acc.alive_shown data.op1)).fits
  have still := Store.unseparated_of_not_overreaches none named not
  obtain ⟨fault, ends⟩ := setFieldAt_unseparated (v := s.shown f.constants data.op1) key filled
    (fun id => s.peek_loading _ _ _ _ ▸ none id) still
  refine ⟨fault, ?_⟩
  rw [setField_of_named named, ends]
  dsimp only
  rw [Store.loading, Store.release_defining_acquire (acc.alive_shown data.op1)]

/-- An instruction that sets a field changes the composite in the place of its first operand. -/
theorem ends_setField (checked : instr.Checked f pc) (assigned : instr.op1.isVariable = true)
    (operand : data.op1.Within f) (acc : s.Accounted f outside [])
    (there : s.peek (s.target f.constants instr.op1) = .composite id) {key : String}
    (named : Builtin.fieldName (s.shown f.constants instr.op2) = .ok key) :
    (setField f.constants instr data pc s).1 = .ok (.jump (pc + 2))
      ∧ s.ChangesOnly f.constants instr data outside (setField f.constants instr data pc s).2 := by
  have loaded : (s.loading f.constants instr data).Accounted f outside _ := acc.loading
  have owned : (setField f.constants instr data pc s).2.Accounted f outside [] :=
    setField_accounted checked operand acc
  have has := checked.op1.has_slot loaded.fits
  have apart : ∀ i, instr.op1.slot f.constants ≠ .temp i := fun i => Ne.symm
    (Operand.temp_ne_slot (fun eq => by rw [← eq] at assigned; cases assigned) f.constants)
  have place := loaded.owns.hasPlace_placeOf has
  have still := Store.placeOf_separate has
  rw [Store.target_loading] at place still
  have before := (s.peek_loading f.constants instr data _).trans there
  obtain ⟨now, set⟩ := setFieldAt_composite key loaded place before
  have separated := Store.stems_separate before
  have elsewhere : ∀ slot, s.target f.constants instr.op1 ≠ .slot slot →
      ((s.loading f.constants instr data).separate
        (s.target f.constants instr.op1)).2.frame.get? slot = s.frame.get? slot :=
    fun slot ne => (Store.get?_separate_ne _ ne).trans (Store.get?_loading ne)
  rw [setField_of_named named, set] at owned ⊢
  dsimp only at owned ⊢
  generalize ((s.loading f.constants instr data).separate (s.target f.constants instr.op1)).2 = u
    at still now separated elsewhere owned ⊢
  generalize ((s.loading f.constants instr data).heap.separateComposite id).1 = copy
    at now separated owned ⊢
  have written (node : Node) (ne : node ≠ .composite copy) := ((Store.stems_insertField ne u key
    (s.shown f.constants data.op1)).trans (Store.stems_vacate node _ instr.op2)).trans
      (Store.stems_vacate node _ data.op1)
  have kept :=
    (u.insertField copy key (s.shown f.constants data.op1)).get?_vacate_vacate instr data
  have back := owned.peek_of_stems (congrArg (·.getD .null) (kept _ fun i _ => apart i))
    fun cell _ => written (.cell cell) nofun
  rw [still, now] at back
  refine ⟨rfl, fun slot ne empty => (kept slot empty).trans (elsewhere slot ne), ?_, owned.owns⟩
  intro node ne other
  exact ((s.stems_loading node).trans (separated node ne (other copy back))).trans
    (written node (other copy back))

/-- An instruction that does not overreach keeps to what it may change, and if it fails it has
changed nothing at all. -/
theorem keeps_setField (checked : instr.Checked f pc) (assigned : instr.op1.isVariable = true)
    (operand : data.op1.Within f) (acc : s.Accounted f outside [])
    (not : ¬s.Overreaches f.constants instr data) :
    s.ChangesOnly f.constants instr data outside (setField f.constants instr data pc s).2
      ∧ ∀ fault, (setField f.constants instr data pc s).1 = .error fault →
        s.DefinesAtMost f.constants instr.op1 (setField f.constants instr data pc s).2 := by
  cases named : Builtin.fieldName (s.shown f.constants instr.op2) with
  | error fault =>
    have ends : setField f.constants instr data pc s = (.error fault, s) := by
      rw [setField, named]
    rw [ends]
    exact ⟨Store.changesOnly_refl acc.owns _ _ _, fun _ _ => .inl rfl⟩
  | ok key =>
    by_cases holds : ∃ id, s.peek (s.target f.constants instr.op1) = .composite id
    · obtain ⟨id, there⟩ := holds
      obtain ⟨ends, changes⟩ := ends_setField checked assigned operand acc there named
      refine ⟨changes, fun fault fails => ?_⟩
      rw [ends] at fails
      cases fails
    · obtain ⟨fault, ends⟩ := failed_setField checked acc
        (fun id there => holds ⟨id, there⟩) not named
      rw [ends]
      exact ⟨Store.changesOnly_defining (acc.defining instr.op1).owns data,
        fun _ _ => s.definesAtMost_defining f.constants instr.op1⟩

/-- An instruction that overreaches fails, and leaves a new composite in a cell that its operand
does not show. -/
theorem setField_overreaches (checked : instr.Checked f pc) (acc : s.Accounted f outside [])
    (reaches : s.Overreaches f.constants instr data) :
    ∃ key inner copy, (setField f.constants instr data pc s).1
        = .error (.type (.fieldWrite key .ref))
      ∧ s.peek (s.target f.constants instr.op1) = .ref inner
      ∧ (setField f.constants instr data pc s).2.heap.content inner = .composite copy
      ∧ s.heap.composite? copy = none := by
  obtain ⟨⟨key, named⟩, inner, id, c, there, inside, found, shared⟩ := reaches
  have loaded : (s.loading f.constants instr data).Accounted f outside _ := acc.loading
  have has := checked.op1.has_slot loaded.fits
  have holds := (s.peek_loading f.constants instr data _).trans there
  rw [← Store.target_loading] at holds
  have within := (s.peek_loading f.constants instr data (.cell inner)).trans inside
  obtain ⟨t, copy, ends, given, fresh⟩ := setFieldAt_nested key loaded has holds within
    ⟨c, (congrArg (·.composite? id) s.heap_loading).trans found, shared⟩
  rw [Store.target_loading] at ends
  rw [setField_of_named named, ends]
  refine ⟨key, inner, copy, rfl, there, given, ?_⟩
  rw [Store.heap_loading, ← Heap.body?_composite_eq_none, Heap.body?_acquire] at fresh
  exact Heap.body?_composite_eq_none.mp fresh

end Effect

namespace Builtin

variable {f : Function} {instr data : Instruction} {pc : Nat} {outside : Node → Nat} {s : Store}

/-- A write of a field keeps to the place that its first operand shows, one cell looked through,
and changes nothing if it fails for the kind of a value, exactly if it does not overreach. Then
it changes nothing whatever it fails for. If it does overreach, it fails because there is no
composite in the place, with a copy left behind in another cell. -/
theorem field_write_reaches_through_one_cell_iff (verified : f.Verified)
    (found : f.code[pc]? = some instr) (is : instr.opcode = .setField)
    (behind : f.code[pc + 1]? = some data) (fits : s.frame.Fits f) (owns : s.Owns [] outside)
    (constants : ∀ node : Node, node.uses f.constants.toList ≤ outside node) :
    let ending := execute f instr pc s
    ((s.ChangesOnly f.constants instr data outside ending.2
        ∧ ∀ fault, ending.1 = .error (.type fault) →
          s.DefinesAtMost f.constants instr.op1 ending.2)
      ↔ ¬s.Overreaches f.constants instr data)
    ∧ (¬s.Overreaches f.constants instr data → ∀ fault, ending.1 = .error fault →
      s.DefinesAtMost f.constants instr.op1 ending.2)
    ∧ (s.Overreaches f.constants instr data → ∃ key inner copy,
      ending.1 = .error (.type (.fieldWrite key .ref))
        ∧ s.peek (s.target f.constants instr.op1) = .ref inner
        ∧ ending.2.heap.content inner = .composite copy ∧ s.heap.composite? copy = none) := by
  have checked := verified.checked found
  have acc : s.Accounted f outside [] := ⟨fits, owns, constants⟩
  have effect : execute f instr pc s = Effect.setField f.constants instr data pc s := by
    rw [execute_eq verified found fits, Effect.of, is, behind]
    rfl
  have keeps := Effect.keeps_setField checked (checked.setField is).1
    (verified.checked behind).op1 acc
  have overreaches := @Effect.setField_overreaches f instr data pc outside s checked acc
  rw [effect]
  refine ⟨⟨fun ⟨_, undone⟩ reaches => ?_, fun not => ?_⟩, fun not => (keeps not).2, overreaches⟩
  · obtain ⟨key, inner, copy, fails, there, given, fresh⟩ := overreaches reaches
    have alive := owns.alive_content inner
    rw [← (undone _ fails).heap, given] at alive
    obtain ⟨c, there, -⟩ := alive.composite?
    rw [(undone _ fails).heap, fresh] at there
    cases there
  · exact ⟨(keeps not).1, fun fault fails => (keeps not).2 _ fails⟩

/-- Sets a field of its variable to one. -/
def marking : Function where
  name := "marking"
  code := #[
    ⟨.setField, .var 0, .const 0, .unused, 0⟩,
    ⟨.opData, .const 1, .unused, .unused, 0⟩,
    ⟨.ret, .unused, .unused, .unused, 0⟩]
  constants := #[.str "mark", .int 1]
  temporaries := 0
  variableNames := #["a"]

/-- A store in which a variable is bound to a cell that holds another cell, and that holds the
first composite of a heap. -/
def chained (h : Heap) : Store where
  heap := ((h.createCell (.composite ⟨0⟩)).2.createCell (.ref ⟨0⟩)).2
  frame := { Frame.ofSizes 0 0 with vars := #[.ref ⟨1⟩] }
  notes := #[]

/-- If nobody else has a handle of the composite, the field is refused and nothing has
changed. -/
theorem field_write_reaches_through_one_cell_iff_marking :
    let s := chained (Heap.empty.create "P" .empty).2
    let ending := execute marking marking.code[0] 0 s
    ending.1 = .error (.type (.fieldWrite "mark" .ref))
      ∧ s.DefinesAtMost marking.constants (.var 0) ending.2 := by
  intro s ending
  have nothing : Heap.empty.Accounts [] fun _ => 0 := fun node => by cases node <;> rfl
  have one : (Heap.empty.create "P" .empty).2.Accounts [.composite ⟨0⟩] fun _ => 0 :=
    @Heap.Accounts.create _ [] _ .empty nothing "P"
  have three : s.heap.Accounts [.ref ⟨1⟩] fun _ => 0 := one.createCell.createCell
  have owns : s.Owns [] fun _ => 0 := three
  have constants : ∀ node : Node, node.uses marking.constants.toList ≤ 0 := fun _ => Nat.le_refl _
  have within : ¬s.Overreaches marking.constants marking.code[0] marking.code[1] := by
    rintro ⟨-, inner, id, c, there, inside, found, shared⟩
    have first : Value.ref ⟨0⟩ = .ref inner := there
    cases first
    have second : Value.composite ⟨0⟩ = .composite id := inside
    cases second
    have third : some (⟨"P", .empty, false, 1⟩ : Composite) = some c := found
    cases third
    cases shared
  have fails : ending.1 = .error (.type (.fieldWrite "mark" .ref)) := rfl
  have found : marking.code[0]? = some marking.code[0] := rfl
  have reaches := field_write_reaches_through_one_cell_iff (s := s)
    (Function.verified_of_verify rfl) found rfl rfl ⟨by decide, by decide⟩ owns constants
  exact ⟨fails, reaches.2.1 within _ fails⟩

/-- If somebody has, the inner cell holds a copy of the composite afterwards. -/
theorem refused_field_write_copies_behind_two_cells :
    let s := chained ((Heap.empty.create "P" .empty).2.acquire (.composite ⟨0⟩))
    let ending := execute marking marking.code[0] 0 s
    marking.verify = .ok ()
      ∧ ending.1 = .error (.type (.fieldWrite "mark" .ref))
      ∧ s.heap.content ⟨0⟩ = .composite ⟨0⟩ ∧ ending.2.heap.content ⟨0⟩ = .composite ⟨1⟩
      ∧ s.heap.countOf ⟨0⟩ = 2 ∧ ending.2.heap.countOf ⟨0⟩ = 1
      ∧ s.heap.composite? ⟨1⟩ = none ∧ (ending.2.heap.composite? ⟨1⟩).isSome :=
  ⟨rfl, rfl, rfl, rfl, rfl, rfl, rfl, rfl⟩

end Builtin

end OverloadMachine
