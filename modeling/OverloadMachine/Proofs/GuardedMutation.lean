import OverloadMachine.Proofs.Sights

/-!
# Guarded mutation

A change under the guard is seen by nobody but the holder who makes it. Counts are exact,
so the guard lets a change pass only if the slot has the one handle of its composite: then
nothing that is held elsewhere leads to the composite, and what every other slot and every
cell shows is the same tree as before, however deep one looks. A change that the guard
refuses gives up what it has brought along, and leaves everything as it was.
-/

namespace OverloadMachine

/-! ## Flags -/

namespace Heap

variable {h k : Heap} {id : CompositeId} {c : Composite}

namespace Unflagged

theorem grows (none : h.Unflagged) (grows : h.Grows k) : k.Unflagged := grows.unflagged none

theorem remains (none : h.Unflagged) (remains : Remains k h) : k.Unflagged :=
  (Carries.of_remains remains).unflagged none

theorem acquireAll (none : h.Unflagged) (vs : List Value) : (h.acquireAll vs).Unflagged :=
  none.grows (.acquireAll h vs)

theorem release (none : h.Unflagged) (v : Value) : (h.release v).Unflagged :=
  none.remains (remains_release h v)

theorem create (none : h.Unflagged) (className : String) (fields : NameMap Value) :
    (h.create className fields).2.Unflagged := none.grows (.create h className fields)

theorem putContent (none : h.Unflagged) (cell : CellId) (v : Value) :
    (h.putContent cell v).Unflagged :=
  none.grows (.of_composites fun id => composite?_putContent h cell v id)

/-- New fields set no flag. -/
theorem putFields (none : h.Unflagged) (found : h.composite? id = some c)
    (fields : NameMap Value) : (h.putComposite id { c with fields := fields }).Unflagged := by
  intro j d there
  rw [composite?_putComposite] at there
  split at there
  · cases there
    exact none id c found
  · exact none j d there

theorem insertField (none : h.Unflagged) (id : CompositeId) (key : String) (v : Value) :
    (h.insertField id key v).Unflagged := by
  cases found : h.composite? id with
  | none =>
    rw [Heap.insertField, found]
    exact none.release v
  | some c => exact (none.putFields found _).remains (remains_insertField found key v)

theorem setFields (none : h.Unflagged) (id : CompositeId) (entries : List (String × Value)) :
    (h.setFields id entries).2.Unflagged := by
  have inserted : (h.insertFields id entries).Unflagged := by
    unfold insertFields
    induction entries generalizing h with
    | nil => exact none
    | cons e entries ih => exact ih (none.insertField id e.1 e.2)
  rw [Heap.setFields]
  cases h.checkMutation id with
  | ok _ => exact inserted
  | error violation => exact none.remains (remains_releaseAll h _)

theorem eraseField (none : h.Unflagged) (id : CompositeId) (key : String) :
    (h.eraseField id key).2.Unflagged := by
  unfold Heap.eraseField
  split
  · rename_i c found
    split
    · exact (none.putFields found _).release _
    · exact none
  · exact none

theorem foldl_gather (none : h.Unflagged) (fields : NameMap Value)
    (entries : List (String × Value)) :
    let gathered := entries.foldl (fun (fields, h) e => h.gather fields e.1 e.2) (fields, h)
    gathered.2.Unflagged := by
  induction entries generalizing h fields with
  | nil => exact none
  | cons e entries ih =>
    refine ih (h := (h.gather fields e.1 e.2).2) ?_ (h.gather fields e.1 e.2).1
    unfold gather
    dsimp only
    split
    · exact none.release _
    · exact none

theorem createWith (none : h.Unflagged) (className : String) (entries : List (String × Value)) :
    (h.createWith className entries).2.Unflagged :=
  (none.foldl_gather .empty entries).create className _

theorem separate (none : h.Unflagged) (v : Value) : (h.separate v).2.2.Unflagged := by
  have separated : ∀ id, (h.separateComposite id).2.2.Unflagged := by
    intro id
    unfold separateComposite
    split
    · split
      · exact none
      · exact (none.grows (.duplicate h _)).release _
    · exact none
  unfold Heap.separate
  split
  · exact separated _
  · split
    · exact (separated _).putContent _ _
    · exact none
  · exact none

/-- Without flags the guard lets a composite be changed while it has one handle. -/
theorem checkMutation_eq (none : h.Unflagged) (found : h.composite? id = some c) :
    h.checkMutation id = if c.count = 1 then .ok () else .error (.sharedMutation c.count) := by
  have unflagged := none id c found
  simp only [checkMutation, found, Composite.isMutable, unflagged, Bool.or_false, beq_iff_eq]

end Unflagged

end Heap

/-! ## Guarded changes -/

namespace Operation

/-- Whether an operation leaves flags and fields alone that the guard does not give it. -/
def isGuarded : Operation → Bool
  | setUnguarded .. | removeUnguarded .. | insertUnguarded .. | flag .. => false
  | _ => true

/-- The slot whose composite an operation changes under the guard. -/
def target? : Operation → Option String
  | set slot .. | put slot .. | remove slot _ | insert slot _ | insertAll slot _ => some slot
  | _ => none

/-- What a guarded change answers if it is allowed. -/
def success : Operation → NameMap Value → Reply
  | remove _ key, fields => .flag (fields.contains key)
  | _, _ => .done

end Operation

namespace Workspace

variable {w : Workspace} {slot : String} {id : CompositeId} {op : Operation}

/-- Storing a value sets no flag. -/
theorem unflagged_store (none : w.heap.Unflagged) (slot : String) (v : Value) :
    (w.store slot v).heap.Unflagged := none.release _

/-- Storing another handle of a value sets no flag. -/
theorem unflagged_storeCopy (none : w.heap.Unflagged) (slot : String) (v : Value) :
    (w.storeCopy slot v).heap.Unflagged :=
  unflagged_store (w := w.withHeap (w.heap.acquire v)) (none.acquireAll [v]) slot v

/-- A slot without a composite is answered for without a change. -/
theorem unflagged_onComposite (none : w.heap.Unflagged) {act : CompositeId → Reply × Workspace}
    (acts : ∀ id, (act id).2.heap.Unflagged) : (w.onComposite slot act).2.heap.Unflagged := by
  unfold Workspace.onComposite
  split
  · exact acts _
  · exact none

/-- Operations that leave flags alone keep a workspace without any. -/
theorem unflagged_apply (none : w.heap.Unflagged) (guarded : op.isGuarded = true) :
    (w.apply op).2.heap.Unflagged := by
  cases op with
  | create slot className => exact unflagged_store (w := w.withHeap _) (none.create _ _) _ _
  | createWith slot className fields =>
    exact unflagged_store (w := w.withHeap _) (none.create _ _) _ _
  | assemble slot className fields =>
    exact unflagged_store (w := w.withHeap _) ((none.acquireAll _).createWith _ _) _ _
  | value slot v => exact unflagged_store none _ _
  | clone slot source => exact unflagged_storeCopy none _ _
  | bind slot source =>
    exact unflagged_store (w := Workspace.withHeap _ (Heap.createCell w.heap _).2) none _ _
  | moveInto slot source =>
    unfold apply
    dsimp only
    split
    · rename_i cell _
      have held : (w.heap.acquire (.ref cell)).Unflagged := none.acquireAll [.ref cell]
      unfold Workspace.moveInto take
      exact ((held.putContent cell _).release _).release (.ref cell)
    · exact none
  | deref slot source => exact unflagged_storeCopy none _ _
  | fetch slot source key =>
    refine unflagged_onComposite none fun id => ?_
    split
    · exact unflagged_storeCopy none _ _
    · exact none
  | wrap slot source => exact unflagged_onComposite none fun id => unflagged_storeCopy none _ _
  | duplicate slot source =>
    unfold apply
    dsimp only
    split
    · exact unflagged_store (w := w.withHeap _) (none.grows (.duplicate _ _)) _ _
    · exact none
  | drop slot => exact none.release _
  | unwrap slot =>
    unfold apply Heap.unwrap
    dsimp only
    split <;> exact none.release _
  | separate slot =>
    unfold apply
    dsimp only
    split
    · exact none.separate _
    · exact none
  | set slot key v => exact unflagged_onComposite none fun id => none.setFields _ _
  | put slot key source =>
    exact unflagged_onComposite none fun id => (none.acquireAll [_]).setFields _ _
  | remove slot key =>
    refine unflagged_onComposite none fun id => ?_
    split
    · exact none.eraseField _ _
    · exact none
  | peek slot => exact unflagged_onComposite none fun id => none
  | insert slot fields => exact unflagged_onComposite none fun id => none.setFields _ _
  | insertAll slot fields =>
    exact unflagged_onComposite none fun id => (none.acquireAll _).setFields _ _
  | get slot key => exact unflagged_onComposite none fun id => none
  | check slot => exact unflagged_onComposite none fun id => none
  | size slot => exact unflagged_onComposite none fun id => none
  | equal a b => exact none
  | same a b =>
    unfold apply
    dsimp only
    split <;> exact none
  | text slot => exact none
  | setUnguarded slot key v => cases guarded
  | removeUnguarded slot key => cases guarded
  | insertUnguarded slot fields => cases guarded
  | flag slot allow => cases guarded

/-- A workspace that is made without flags has none. -/
theorem unflagged_applyAll {ops : List Operation} (none : w.heap.Unflagged)
    (guarded : ∀ op ∈ ops, op.isGuarded = true) : (w.applyAll ops).heap.Unflagged := by
  induction ops generalizing w with
  | nil => exact none
  | cons op ops ih =>
    exact ih (unflagged_apply none (guarded op List.mem_cons_self))
      fun later mem => guarded later (List.mem_cons_of_mem op mem)

/-! ## Sole holders -/

/-- Fields that a change under the guard sets. -/
def brought (w : Workspace) : Operation → List (String × Value)
  | .set _ key v => [(key, v.scalarPart)]
  | .put _ key source => [(key, w.read source)]
  | .insert _ fields => fields.map fun e => (e.1, e.2.scalarPart)
  | .insertAll _ fields => w.supplies fields
  | _ => []

/-- Values that are held while the guard is asked. -/
def pending (w : Workspace) (op : Operation) : List Value := (w.brought op).map (·.2)

/-- What a change under the guard makes of the fields. -/
def changed (w : Workspace) (op : Operation) (fields : NameMap Value) : NameMap Value :=
  match op with
  | .remove _ key => fields.erase key
  | _ => (w.brought op).foldl (fun fields e => fields.insert e.1 e.2) fields

/-- No other slot, no field, no cell and no value that is held has the composite of a slot. -/
structure SoleHolder (w : Workspace) (slot : String) (id : CompositeId) (held : List Value) :
    Prop where
  slots : ∀ other, w.read other = .composite id → other = slot
  detached : w.heap.Detached id
  held : .composite id ∉ held

/-- A change of the composite in a slot that is not seen elsewhere: slots hold what they
held, the composite has the fields that it should have, and what every other slot and every
cell shows looks the same as before. -/
structure Unseen (w after : Workspace) (slot : String) (id : CompositeId)
    (change : NameMap Value → NameMap Value) : Prop where
  slots : after.slots = w.slots
  changed : ∃ c d, w.heap.composite? id = some c ∧ after.heap.composite? id = some d
    ∧ d.className = c.className ∧ d.fields = change c.fields
  others : ∀ other, other ≠ slot → ∀ depth,
    after.heap.sight depth (after.read other) = w.heap.sight depth (w.read other)
  cells : ∀ cell, (after.heap.cell? cell).isSome → ∀ depth,
    after.heap.sight depth (.ref cell) = w.heap.sight depth (.ref cell)

/-- A slot that reads as a composite is there. -/
theorem get?_of_read (there : w.read slot = .composite id) :
    w.slots.get? slot = some (.composite id) := by
  unfold read at there
  cases found : w.slots.get? slot with
  | none =>
    rw [found] at there
    cases there
  | some v =>
    rw [found] at there
    exact congrArg some there

/-- A composite in a slot has one handle, with those that are held, exactly if the slot is its
sole holder. -/
theorem handlesOf_eq_one (there : w.read slot = .composite id) (held : List Value) :
    w.handlesOf (.composite id) + (Node.composite id).uses held = 1
      ↔ w.SoleHolder slot id held := by
  have found := get?_of_read there
  have rest : (Node.composite id).uses (w.slots.erase slot).values + 1
      = (Node.composite id).uses w.slots.values := by
    have sum := w.slots.total_erase (Node.composite id).usedBy slot
    rw [found, Option.map_some, Option.getD_some, Node.usedBy_of_node? (v := .composite id) rfl]
      at sum
    exact sum
  have others : (Node.composite id).uses (w.slots.erase slot).values = 0
      ↔ ∀ other, w.read other = .composite id → other = slot := by
    rw [Node.uses_composite_eq_zero, OrderedMap.mem_values]
    constructor
    · intro none other holds
      refine Decidable.byContradiction fun ne => none ⟨other, ?_⟩
      rw [OrderedMap.get?_erase, if_neg (Ne.symm ne)]
      exact get?_of_read holds
    · rintro only ⟨other, holds⟩
      rw [OrderedMap.get?_erase] at holds
      split at holds
      · cases holds
      · rename_i ne
        exact ne (only other (by rw [read, holds]; rfl)).symm
  have sum : w.handlesOf (.composite id)
      = w.heap.inner (.composite id) + (Node.composite id).uses w.slots.values := rfl
  constructor
  · intro one
    exact ⟨others.mp (by omega), Heap.inner_eq_zero.mp (by omega),
      Node.uses_composite_eq_zero.mp (by omega)⟩
  · intro sole
    have slots := others.mpr sole.slots
    have inner := Heap.inner_eq_zero.mpr sole.detached
    have beside := Node.uses_composite_eq_zero.mpr sole.held
    omega

/-! ## Changes under the guard -/

/-- What is held while the guard is asked is alive. -/
theorem Exact.alive_pending (exact : w.Exact []) (op : Operation) :
    ∀ v ∈ w.pending op, w.heap.Alive v := by
  have scalar : ∀ v : Value, w.heap.Alive v.scalarPart := fun v =>
    w.heap.alive_of_node?_eq_none v.node?_scalarPart
  intro v mem
  obtain ⟨⟨key, u⟩, within, rfl⟩ := List.mem_map.mp mem
  cases op with
  | set slot key u =>
    cases List.mem_singleton.mp within
    exact scalar u
  | put slot key source =>
    cases List.mem_singleton.mp within
    exact exact.alive_read source
  | insert slot fields =>
    obtain ⟨⟨key, u⟩, -, eq⟩ := List.mem_map.mp within
    cases eq
    exact scalar u
  | insertAll slot fields =>
    obtain ⟨⟨key, supply⟩, -, eq⟩ := List.mem_map.mp within
    cases eq
    cases supply with
    | scalar u => exact scalar u
    | slot source => exact exact.alive_read source
  | _ => cases within

/-- The heap after a change that the guard has allowed. -/
def performed (w : Workspace) (op : Operation) (id : CompositeId) : Heap :=
  match op with
  | .remove _ key => (w.heap.eraseField id key).2
  | _ => (w.heap.acquireAll (w.pending op)).insertFields id (w.brought op)

/-- An operation that sets fields holds the values while it asks the guard. -/
theorem apply_eq_setFields (there : w.read slot = .composite id)
    (targets : op.target? = some slot) (sets : ∀ key, op ≠ .remove slot key) :
    w.apply op
      = (w.withHeap (w.heap.acquireAll (w.pending op))).setFields id (w.brought op) := by
  have on : ∀ act, w.onComposite slot act = act id := by
    intro act
    rw [onComposite, composite?, there]
    rfl
  cases op with
  | set target key v =>
    cases targets
    have same : w.heap.acquireAll [v.scalarPart] = w.heap :=
      Heap.acquireAll_of_scalars fun u mem => by
        cases List.mem_singleton.mp mem
        exact v.node?_scalarPart
    exact (on _).trans (congrArg (fun h => (w.withHeap h).setFields id _) same.symm)
  | put target key source =>
    cases targets
    exact on _
  | remove target key =>
    cases targets
    exact absurd rfl (sets key)
  | insert target fields =>
    cases targets
    have same : w.heap.acquireAll ((fields.map fun e => (e.1, e.2.scalarPart)).map (·.2))
        = w.heap := Heap.acquireAll_of_scalars fun u mem => by
      obtain ⟨e, within, rfl⟩ := List.mem_map.mp mem
      obtain ⟨e, -, rfl⟩ := List.mem_map.mp within
      exact e.2.node?_scalarPart
    exact (on _).trans (congrArg (fun h => (w.withHeap h).setFields id _) same.symm)
  | insertAll target fields =>
    cases targets
    exact on _
  | _ => cases targets

/-- A change that the guard allows is performed. -/
theorem apply_of_allowed (there : w.read slot = .composite id) (targets : op.target? = some slot)
    {c : Composite} (found : w.heap.composite? id = some c)
    (allowed : (w.heap.acquireAll (w.pending op)).checkMutation id = .ok ()) :
    w.apply op = (op.success c.fields, w.withHeap (w.performed op id)) := by
  by_cases removes : ∃ key, op = .remove slot key
  · obtain ⟨key, rfl⟩ := removes
    have allowed : w.heap.checkMutation id = .ok () := allowed
    have erased : (w.heap.eraseField id key).1 = c.fields.contains key := by
      rw [Heap.eraseField, found, OrderedMap.contains]
      dsimp only
      cases c.fields.get? key <;> rfl
    simp only [apply, onComposite, composite?, there, Value.composite?, allowed, erased,
      Operation.success, performed]
  · have sets : ∀ key, op ≠ .remove slot key := fun key eq => removes ⟨key, eq⟩
    have performs : w.performed op id
        = (w.heap.acquireAll (w.pending op)).insertFields id (w.brought op)
        ∧ op.success c.fields = .done := by
      cases op with
      | remove target key =>
        cases targets
        exact absurd rfl (sets key)
      | _ => exact ⟨rfl, rfl⟩
    rw [apply_eq_setFields there targets sets, performs.1, performs.2]
    simp only [setFields, withHeap, Heap.setFields, allowed, reply]

/-- A change that the guard refuses leaves everything as it was. -/
theorem apply_of_refused (exact : w.Exact []) (there : w.read slot = .composite id)
    (targets : op.target? = some slot) {violation : Violation}
    (refused : (w.heap.acquireAll (w.pending op)).checkMutation id = .error violation) :
    w.apply op = (.refused violation, w) := by
  by_cases removes : ∃ key, op = .remove slot key
  · obtain ⟨key, rfl⟩ := removes
    have refused : w.heap.checkMutation id = .error violation := refused
    simp only [apply, onComposite, composite?, there, Value.composite?, refused]
  · have undone := Heap.releaseAll_acquireAll (exact.alive_pending op)
    rw [apply_eq_setFields there targets fun key eq => removes ⟨key, eq⟩]
    simp only [setFields, withHeap, Heap.setFields, refused, reply]
    exact congrArg (fun h => (Reply.refused violation, Workspace.mk h w.slots)) undone

/-- The guard allows a change exactly if the slot is the sole holder of its composite, and else
it names the number of handles. -/
theorem checkMutation_pending (exact : w.Exact []) (none : w.heap.Unflagged)
    (there : w.read slot = .composite id) (op : Operation) :
    let count := w.handlesOf (.composite id) + (Node.composite id).uses (w.pending op)
    0 < count ∧ (w.heap.acquireAll (w.pending op)).checkMutation id
      = if count = 1 then .ok () else .error (.sharedMutation count) := by
  have alive := exact.alive_read slot
  rw [there] at alive
  obtain ⟨c, found, pos⟩ := alive.composite?
  have handles := exact.handlesOf_eq (.composite id)
  rw [Heap.handles?_of_composite? found, Option.getD_some] at handles
  have live := Heap.handles?_acquireAll w.heap (w.pending op) (.composite id)
  rw [Heap.handles?_of_composite? found, Option.map_some, handles] at live
  obtain ⟨d, held, count⟩ := Option.map_eq_some_iff.mp live
  have guard := (none.acquireAll (w.pending op)).checkMutation_eq held
  rw [count] at guard
  exact ⟨by omega, guard⟩

/-- A composite of which a handle is held has, after its fields are set one after another,
the fields that this makes of them. -/
theorem composite?_insertFields {held : List Value} (mem : .composite id ∈ held)
    {entries : List (String × Value)} {h : Heap} {c : Composite}
    (exact : h.Exact (entries.map (·.2) ++ held)) (found : h.composite? id = some c) :
    ∃ d, (h.insertFields id entries).composite? id = some d ∧ d.className = c.className
      ∧ d.fields = entries.foldl (fun fields e => fields.insert e.1 e.2) c.fields := by
  induction entries generalizing h c with
  | nil => exact ⟨c, found, rfl, rfl⟩
  | cons e entries ih =>
    have one : (h.insertField id e.1 e.2).Exact (entries.map (·.2) ++ held) :=
      @Heap.Exact.insertFields h _ [e] exact id
    obtain ⟨count, set⟩ := Heap.composite?_insertField found
      (one.accounts.alive (List.mem_append_right _ mem))
    exact ih one set

/-- A composite of which a handle is held has, after a field is removed, the other ones. -/
theorem composite?_eraseField {held : List Value} (mem : .composite id ∈ held) {h : Heap}
    {c : Composite} (exact : h.Exact held) (found : h.composite? id = some c) (key : String) :
    ∃ d, (h.eraseField id key).2.composite? id = some d ∧ d.className = c.className
      ∧ d.fields = c.fields.erase key := by
  obtain ⟨d, left, -⟩ := ((exact.eraseField id key).accounts.alive mem).composite?
  cases has : c.fields.get? key with
  | none =>
    have same : (h.eraseField id key).2 = h := by simp only [Heap.eraseField, found, has]
    refine ⟨c, by rw [same, found], rfl, OrderedMap.ext_get? fun name => ?_⟩
    rw [OrderedMap.get?_erase]
    split
    · rename_i eq
      rw [← eq, has]
    · rfl
  | some old =>
    have erased : (h.eraseField id key).2
        = (h.putComposite id { c with fields := c.fields.erase key }).release old := by
      simp only [Heap.eraseField, found, has]
    rw [erased] at left ⊢
    obtain ⟨more, -, before⟩ := (Heap.remains_release _ old).composite left
    rw [Heap.composite?_putComposite, if_pos rfl] at before
    exact ⟨d, left, (congrArg Composite.className (Option.some.inj before)).symm,
      (congrArg Composite.fields (Option.some.inj before)).symm⟩

/-- A change that is performed gives the composite of the slot the fields that it should have,
and spares every other node. -/
theorem performed_spares (exact : w.Exact []) (there : w.read slot = .composite id)
    {c : Composite} (found : w.heap.composite? id = some c) (op : Operation) :
    w.heap.Spares (w.performed op id) id
      ∧ ∃ d, (w.performed op id).composite? id = some d ∧ d.className = c.className
        ∧ d.fields = w.changed op c.fields := by
  have mem : .composite id ∈ [] ++ w.slots.values :=
    OrderedMap.mem_values.mpr ⟨slot, get?_of_read there⟩
  have setting : w.heap.Spares
        ((w.heap.acquireAll (w.pending op)).insertFields id (w.brought op)) id
      ∧ ∃ d, ((w.heap.acquireAll (w.pending op)).insertFields id (w.brought op)).composite? id
          = some d ∧ d.className = c.className
        ∧ d.fields = (w.brought op).foldl (fun fields e => fields.insert e.1 e.2) c.fields := by
    refine ⟨(Heap.Spares.acquireAll w.heap _ id).trans (.insertFields _ id _), ?_⟩
    obtain ⟨count, acquired⟩ := (Heap.Grows.acquireAll w.heap (w.pending op)).composite found
    have held := Heap.Exact.acquireAll exact (exact.alive_pending op)
    obtain ⟨d, set, className, fields⟩ := composite?_insertFields mem held acquired
    exact ⟨d, set, className, fields⟩
  cases op with
  | remove target key =>
    exact ⟨.eraseField w.heap id key, composite?_eraseField mem exact found key⟩
  | _ => exact setting

/-- A change that the guard allows is not seen elsewhere. -/
theorem unseen_of_allowed (exact : w.Exact []) (there : w.read slot = .composite id)
    (sole : w.SoleHolder slot id (w.pending op)) {c : Composite}
    (found : w.heap.composite? id = some c)
    (kept : (w.withHeap (w.performed op id)).Exact []) :
    w.Unseen (w.withHeap (w.performed op id)) slot id (w.changed op) := by
  obtain ⟨spares, d, left, className, fields⟩ := performed_spares exact there found op
  have closed : (w.performed op id).Closed := Heap.Accounts.closed kept.accounts
  refine ⟨rfl, ⟨c, d, found, left, className, fields⟩, ?_, ?_⟩
  · intro other ne depth
    exact spares.sight_eq sole.detached closed depth (fun eq => ne (sole.slots other eq))
      (kept.alive_read other)
  · intro cell live depth
    obtain ⟨content, there⟩ := Option.isSome_iff_exists.mp live
    have handles := Heap.handles?_of_cell? there
    refine spares.sight_eq sole.detached closed depth (fun eq => by cases eq) ?_
    rintro node ⟨⟩
    exact ⟨content.count, kept.counted _ _ handles, handles⟩

/-- In a workspace that is made without unguarded changes and without flags, a guarded change
of the composite in a slot succeeds exactly if no other slot, no field, no cell and no value
that waits to be stored has the composite. Then it changes the fields as it should, and
what every other slot and every cell shows looks the same as before at every depth.
Otherwise it is refused with the number of handles at that moment, at least two, and the
workspace is as it was, with every slot, field and count. -/
theorem guarded_mutation_is_unseen {ops : List Operation}
    (guarded : ∀ op ∈ ops, op.isGuarded = true) (targets : op.target? = some slot)
    (there : (empty.applyAll ops).read slot = .composite id) :
    let w := empty.applyAll ops
    let count := w.handlesOf (.composite id) + (Node.composite id).uses (w.pending op)
    ((∀ violation, (w.apply op).1 ≠ .refused violation) ↔ w.SoleHolder slot id (w.pending op))
      ∧ (w.SoleHolder slot id (w.pending op) →
        (∃ c, w.heap.composite? id = some c ∧ (w.apply op).1 = op.success c.fields)
        ∧ w.Unseen (w.apply op).2 slot id (w.changed op))
      ∧ (¬w.SoleHolder slot id (w.pending op) →
        2 ≤ count ∧ w.apply op = (.refused (.sharedMutation count), w)) := by
  intro w count
  have exact : w.Exact [] := Exact.empty.applyAll ops
  have none : w.heap.Unflagged := unflagged_applyAll (fun id c found => by cases found) guarded
  have alive := exact.alive_read slot
  rw [there] at alive
  obtain ⟨c, found, -⟩ := alive.composite?
  obtain ⟨pos, guard⟩ := checkMutation_pending exact none there op
  have single : count = 1 ↔ w.SoleHolder slot id (w.pending op) := handlesOf_eq_one there _
  have allowed : w.SoleHolder slot id (w.pending op) →
      w.apply op = (op.success c.fields, w.withHeap (w.performed op id)) := by
    intro sole
    rw [if_pos (single.mpr sole)] at guard
    exact apply_of_allowed there targets found guard
  have refused : ¬w.SoleHolder slot id (w.pending op) →
      w.apply op = (.refused (.sharedMutation count), w) := by
    intro shared
    rw [if_neg fun one => shared (single.mp one)] at guard
    exact apply_of_refused exact there targets guard
  refine ⟨⟨fun succeeds => ?_, fun sole violation => ?_⟩, fun sole => ?_, fun shared => ?_⟩
  · refine Classical.byContradiction fun shared => succeeds (.sharedMutation count) ?_
    rw [refused shared]
  · rw [allowed sole]
    cases op <;> simp [Operation.success]
  · have kept := exact.apply op
    rw [allowed sole] at kept ⊢
    exact ⟨⟨c, found, rfl⟩, unseen_of_allowed exact there sole found kept⟩
  · have several : count ≠ 1 := fun one => shared (single.mp one)
    exact ⟨by omega, refused shared⟩

/-- A point that two slots share. -/
def sharedPoint : List Operation := [.createWith "a" "Point" [("x", .int 1)], .clone "b" "a"]

/-- A shared point is not changed, and a point that is stored into itself is not either; after
a separation the change is made, and the other slot does not see it. -/
theorem guarded_mutation_is_unseen_sharedPoint :
    let shared := empty.applyAll sharedPoint
    let separate := empty.applyAll (sharedPoint ++ [.separate "a"])
    shared.apply (.set "a" "x" (.int 2)) = (.refused (.sharedMutation 2), shared)
      ∧ separate.Unseen (separate.apply (.set "a" "x" (.int 2))).2 "a" ⟨1⟩
        (separate.changed (.set "a" "x" (.int 2)))
      ∧ separate.apply (.put "a" "self" "a") = (.refused (.sharedMutation 2), separate) := by
  intro shared separate
  have guarded : ∀ op ∈ sharedPoint ++ [.separate "a"], op.isGuarded = true := by decide
  have refused : ¬shared.SoleHolder "a" ⟨0⟩ (shared.pending (.set "a" "x" (.int 2))) :=
    fun sole => absurd (sole.slots "b" rfl) (by decide)
  have itself : ¬separate.SoleHolder "a" ⟨1⟩ (separate.pending (.put "a" "self" "a")) :=
    fun sole => sole.held List.mem_cons_self
  refine ⟨((guarded_mutation_is_unseen (by decide) rfl rfl).2.2 refused).2, ?_,
    ((guarded_mutation_is_unseen guarded rfl rfl).2.2 itself).2⟩
  obtain ⟨succeeds, allowed, -⟩ :=
    @guarded_mutation_is_unseen "a" ⟨1⟩ (.set "a" "x" (.int 2)) _ guarded rfl rfl
  have done : ∀ violation, (separate.apply (.set "a" "x" (.int 2))).1 ≠ .refused violation := by
    intro violation eq
    cases eq
  exact (allowed (succeeds.mp done)).2

end Workspace

end OverloadMachine
