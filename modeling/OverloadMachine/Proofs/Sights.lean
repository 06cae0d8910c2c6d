import OverloadMachine.Proofs.ExactCounts
import OverloadMachine.Proofs.Separation

/-!
# What is seen of a value

What is seen of a value down to a depth is a tree of classes, fields and contents, without the
names of the nodes. Two heaps show the same of whatever is held if they differ in the counts,
or at one composite that no field and no cell holds and that is not held itself: that nothing
leads to it is read off its count of handles inside the heap.
-/

namespace OverloadMachine

namespace Node

/-- Only its own handles use a composite. -/
theorem usedBy_composite_eq_zero {id : CompositeId} {v : Value} :
    (Node.composite id).usedBy v = 0 ↔ v ≠ .composite id := by
  cases v <;> simp [Node.usedBy, Value.node?]

theorem uses_composite_eq_zero {id : CompositeId} {vs : List Value} :
    (Node.composite id).uses vs = 0 ↔ .composite id ∉ vs := by
  rw [Node.uses, sumOf_eq_zero]
  constructor
  · exact fun none mem => usedBy_composite_eq_zero.mp (none _ mem) rfl
  · exact fun without v mem => usedBy_composite_eq_zero.mpr fun eq => without (eq ▸ mem)

end Node

/-! ## What is seen -/

/-- What is seen of a value down to some depth. -/
inductive Sight where
  /-- It lies deeper. -/
  | beyond
  /-- A handle of no node. -/
  | gone
  | scalar (v : Value)
  | cell (content : Sight)
  | composite (className : String) (fields : List (String × Sight))

namespace Heap

/-- What is seen of a value down to a depth: the classes and fields of composites and the
contents of cells, without the names of either. -/
def sight (h : Heap) : (depth : Nat) → Value → Sight
  | 0, _ => .beyond
  | depth + 1, .composite id =>
    match h.composite? id with
    | some c => .composite c.className (c.fields.entries.map fun e => (e.1, h.sight depth e.2))
    | none => .gone
  | depth + 1, .ref cell =>
    match h.cell? cell with
    | some c => .cell (h.sight depth c.content)
    | none => .gone
  | _ + 1, v => .scalar v

/-- Every node of the second heap, but for one composite, is in the first one, with the
same class and fields or the same content. -/
structure Spares (h k : Heap) (id : CompositeId) : Prop where
  composite : ∀ {j c}, j ≠ id → k.composite? j = some c →
    ∃ d, h.composite? j = some d ∧ d.className = c.className ∧ d.fields = c.fields
  cell : ∀ {j c}, k.cell? j = some c → ∃ d, h.cell? j = some d ∧ d.content = c.content

/-- No field and no cell holds a composite. -/
structure Detached (h : Heap) (id : CompositeId) : Prop where
  fields : h.Apart id
  cells : ∀ j c, h.cell? j = some c → c.content ≠ .composite id

variable {h k l : Heap} {id : CompositeId} {c : Composite} {v : Value}

namespace Spares

theorem trans (first : h.Spares k id) (second : k.Spares l id) : h.Spares l id where
  composite ne found := by
    obtain ⟨d, before, className, fields⟩ := second.composite ne found
    obtain ⟨e, earlier, className', fields'⟩ := first.composite ne before
    exact ⟨e, earlier, className'.trans className, fields'.trans fields⟩
  cell found := by
    obtain ⟨d, before, content⟩ := second.cell found
    obtain ⟨e, earlier, content'⟩ := first.cell before
    exact ⟨e, earlier, content'.trans content⟩

theorem of_remains (remains : Remains k h) (id : CompositeId) : h.Spares k id where
  composite _ found := by
    obtain ⟨more, -, before⟩ := remains.composite found
    exact ⟨_, before, rfl, rfl⟩
  cell found := by
    obtain ⟨more, -, before⟩ := remains.cell found
    exact ⟨_, before, rfl⟩

/-- New counts spare every composite. -/
theorem recount (h : Heap) (node : Node) (count : Nat) (id : CompositeId) :
    h.Spares (h.recount node count) id where
  composite {j c} _ found := by
    rw [composite?_recount] at found
    split at found
    · obtain ⟨d, before, rfl⟩ := Option.map_eq_some_iff.mp found
      exact ⟨d, before, rfl, rfl⟩
    · exact ⟨c, found, rfl, rfl⟩
  cell {j c} found := by
    rw [cell?_recount] at found
    split at found
    · obtain ⟨d, before, rfl⟩ := Option.map_eq_some_iff.mp found
      exact ⟨d, before, rfl⟩
    · exact ⟨c, found, rfl⟩

theorem acquire (h : Heap) (v : Value) (id : CompositeId) : h.Spares (h.acquire v) id := by
  rw [acquire_eq]
  split
  · exact of_remains (.refl h) id
  · split
    · exact of_remains (.refl h) id
    · exact recount h _ _ id

theorem acquireAll (h : Heap) (vs : List Value) (id : CompositeId) :
    h.Spares (h.acquireAll vs) id := by
  induction vs generalizing h with
  | nil => exact of_remains (.refl h) id
  | cons v vs ih => exact (acquire h v id).trans (ih (h.acquire v))

/-- Replacing a composite spares the others. -/
theorem putComposite (h : Heap) (id : CompositeId) (c : Composite) :
    h.Spares (h.putComposite id c) id where
  composite {j d} ne found := by
    rw [composite?_putComposite, if_neg (Ne.symm ne)] at found
    exact ⟨d, found, rfl, rfl⟩
  cell {j d} found := ⟨d, found, rfl⟩

theorem insertField (h : Heap) (id : CompositeId) (key : String) (v : Value) :
    h.Spares (h.insertField id key v) id := by
  cases found : h.composite? id with
  | none =>
    rw [Heap.insertField, found]
    exact of_remains (remains_release h v) id
  | some c => exact (putComposite h id _).trans (of_remains (remains_insertField found key v) id)

theorem insertFields (h : Heap) (id : CompositeId) (entries : List (String × Value)) :
    h.Spares (h.insertFields id entries) id := by
  induction entries generalizing h with
  | nil => exact of_remains (.refl h) id
  | cons e entries ih => exact (insertField h id e.1 e.2).trans (ih _)

theorem eraseField (h : Heap) (id : CompositeId) (key : String) :
    h.Spares (h.eraseField id key).2 id := by
  unfold Heap.eraseField
  split
  · split
    · exact (putComposite h id _).trans (of_remains (remains_release _ _) id)
    · exact of_remains (.refl h) id
  · exact of_remains (.refl h) id

/-- What does not lead to the composite that is not spared looks the same as before. -/
theorem sight_eq (spares : h.Spares k id) (detached : h.Detached id) (closed : k.Closed)
    (depth : Nat) (ne : v ≠ .composite id) (alive : k.Alive v) :
    k.sight depth v = h.sight depth v := by
  induction depth generalizing v with
  | zero => rfl
  | succ depth ih =>
    cases v with
    | composite j =>
      have other : j ≠ id := fun eq => ne (congrArg Value.composite eq)
      obtain ⟨c, found, -⟩ := alive.composite?
      obtain ⟨d, before, className, fields⟩ := spares.composite other found
      have each : ∀ e ∈ c.fields.entries, k.sight depth e.2 = h.sight depth e.2 := by
        intro e mem
        have value : e.2 ∈ c.fields.values := List.mem_map_of_mem mem
        refine ih ?_ ?_
        · have apart := detached.fields j d before
          rw [fields] at apart
          exact fun eq => apart (eq ▸ value)
        · refine closed (.composite j) c.count (handles?_of_composite? found) e.2 ?_
          rw [contents, found]
          exact value
      simp only [sight, found, before, className, fields]
      exact congrArg _ (List.map_congr_left fun e mem => congrArg _ (each e mem))
    | ref cell =>
      obtain ⟨c, found, -⟩ := alive.cell?
      obtain ⟨d, before, content⟩ := spares.cell found
      have inside : k.sight depth c.content = h.sight depth c.content := by
        refine ih ?_ ?_
        · rw [← content]
          exact detached.cells cell d before
        · refine closed (.cell cell) c.count (handles?_of_cell? found) c.content ?_
          simp [contents, Heap.content, found]
      simp only [sight, found, before, content, inside]
    | _ => rfl

end Spares

/-! ## Handles -/

/-- No handle of a composite is in a node exactly if no field and no cell has one. -/
theorem inner_eq_zero : h.inner (.composite id) = 0 ↔ h.Detached id := by
  have fields : h.composites.total (fun c => (Node.composite id).uses c.fields.values) = 0
      ↔ h.Apart id := by
    rw [OrderedMap.total, sumOf_eq_zero]
    constructor
    · exact fun none j c found =>
        Node.uses_composite_eq_zero.mp (none c (OrderedMap.mem_values.mpr ⟨j.index, found⟩))
    · intro apart c mem
      obtain ⟨key, found⟩ := OrderedMap.mem_values.mp mem
      exact Node.uses_composite_eq_zero.mpr (apart ⟨key⟩ c found)
  have cells : h.cells.total (fun c => (Node.composite id).usedBy c.content) = 0
      ↔ ∀ j c, h.cell? j = some c → c.content ≠ .composite id := by
    rw [OrderedMap.total, sumOf_eq_zero]
    constructor
    · exact fun none j c found =>
        Node.usedBy_composite_eq_zero.mp (none c (OrderedMap.mem_values.mpr ⟨j.index, found⟩))
    · intro apart c mem
      obtain ⟨key, found⟩ := OrderedMap.mem_values.mp mem
      exact Node.usedBy_composite_eq_zero.mpr (apart ⟨key⟩ c found)
  rw [inner, Nat.add_eq_zero_iff, fields, cells]
  exact ⟨fun both => ⟨both.1, both.2⟩, fun detached => ⟨detached.fields, detached.cells⟩⟩

/-- No handle is accounted for where scalars are held. -/
theorem acquireAll_of_scalars {vs : List Value} (scalars : ∀ v ∈ vs, v.node? = none) :
    h.acquireAll vs = h := by
  induction vs with
  | nil => rfl
  | cons v vs ih =>
    have same : h.acquire v = h := by rw [acquire_eq, scalars v List.mem_cons_self]
    rw [acquireAll, List.foldl_cons, same]
    exact ih fun u mem => scalars u (List.mem_cons_of_mem v mem)

end Heap

end OverloadMachine
