import OverloadMachine.Heap.Survey

/-!
# Giving up handles

A release may destroy a node, which releases what the node held, and so on. This
module shows that the heap in which this ends does not depend on the order: two
releases may be exchanged, so a list of handles may be given up in any order.
Composites and cells are treated alike, as nodes with a number of handles and
with contents. What a release leaves is what was there before, with fewer handles.
-/

namespace OverloadMachine

namespace Heap

/-! ## Nodes -/

/-- Number of handles of a node, unless it is destroyed. -/
def handles? (h : Heap) : Node → Option Nat
  | .composite id => (h.composite? id).map (·.count)
  | .cell id => (h.cell? id).map (·.count)

/-- A composite has its number of handles. -/
theorem handles?_of_composite? {h : Heap} {id : CompositeId} {c : Composite}
    (found : h.composite? id = some c) : h.handles? (.composite id) = some c.count := by
  rw [handles?, found, Option.map_some]

/-- A cell has its number of handles. -/
theorem handles?_of_cell? {h : Heap} {id : CellId} {c : Cell} (found : h.cell? id = some c) :
    h.handles? (.cell id) = some c.count := by
  rw [handles?, found, Option.map_some]

/-- Take a node out of the heap. -/
def drop (h : Heap) : Node → Heap
  | .composite id => h.dropComposite id
  | .cell id => h.dropCell id

/-- Set the number of handles of a node, if it is there. -/
def recount (h : Heap) (node : Node) (count : Nat) : Heap :=
  match node with
  | .composite id =>
    match h.composite? id with
    | some c => h.putComposite id { c with count := count }
    | none => h
  | .cell id =>
    match h.cell? id with
    | some c => h.putCell id { c with count := count }
    | none => h

/-- What is found under the name of a composite after a new count. -/
theorem composite?_recount (h : Heap) (node : Node) (count : Nat) (id : CompositeId) :
    (h.recount node count).composite? id
      = if node = .composite id then
          (h.composite? id).map fun c => { c with count := count }
        else h.composite? id := by
  cases node with
  | composite i =>
    cases found : h.composite? i with
    | none =>
      by_cases eq : i = id
      · subst eq
        simp [recount, found]
      · simp [recount, found, eq]
    | some c =>
      by_cases eq : i = id
      · subst eq
        simp [recount, found]
      · simp [recount, found, eq]
  | cell i => cases found : h.cell? i <;> simp [recount, found]

/-- What is found under the name of a cell after a new count. -/
theorem cell?_recount (h : Heap) (node : Node) (count : Nat) (id : CellId) :
    (h.recount node count).cell? id
      = if node = .cell id then (h.cell? id).map fun c => { c with count := count }
        else h.cell? id := by
  cases node with
  | composite i => cases found : h.composite? i <;> simp [recount, found]
  | cell i =>
    cases found : h.cell? i with
    | none =>
      by_cases eq : i = id
      · subst eq
        simp [recount, found]
      · simp [recount, found, eq]
    | some c =>
      by_cases eq : i = id
      · subst eq
        simp [recount, found]
      · simp [recount, found, eq]

/-- What is found under the name of a composite after a node is taken out. -/
theorem composite?_drop (h : Heap) (node : Node) (id : CompositeId) :
    (h.drop node).composite? id
      = if node = .composite id then none else h.composite? id := by
  cases node <;> simp [drop]

/-- What is found under the name of a cell after a node is taken out. -/
theorem cell?_drop (h : Heap) (node : Node) (id : CellId) :
    (h.drop node).cell? id = if node = .cell id then none else h.cell? id := by
  cases node <;> simp [drop]

@[simp] theorem handles?_drop (h : Heap) (node other : Node) :
    (h.drop node).handles? other = if node = other then none else h.handles? other := by
  cases other with
  | composite id =>
    rw [handles?, composite?_drop]
    split <;> rfl
  | cell id =>
    rw [handles?, cell?_drop]
    split <;> rfl

@[simp] theorem handles?_recount (h : Heap) (node other : Node) (count : Nat) :
    (h.recount node count).handles? other
      = if node = other then (h.handles? other).map fun _ => count else h.handles? other := by
  cases other with
  | composite id =>
    rw [handles?, composite?_recount]
    split <;> simp [handles?, Function.comp_def]
  | cell id =>
    rw [handles?, cell?_recount]
    split <;> simp [handles?, Function.comp_def]

/-- Taking one node out leaves the contents of the others alone. -/
theorem contents_drop (h : Heap) {node other : Node} (ne : node ≠ other) :
    (h.drop node).contents other = h.contents other := by
  cases other with
  | composite id => rw [contents, composite?_drop, if_neg ne]; rfl
  | cell id => rw [contents, content, cell?_drop, if_neg ne]; rfl

/-- A new count leaves the contents of every node alone. -/
@[simp] theorem contents_recount (h : Heap) (node other : Node) (count : Nat) :
    (h.recount node count).contents other = h.contents other := by
  cases other with
  | composite id =>
    rw [contents, contents, composite?_recount]
    by_cases eq : node = .composite id
    · rw [if_pos eq]
      cases h.composite? id <;> rfl
    · rw [if_neg eq]
  | cell id =>
    rw [contents, contents, content, content, cell?_recount]
    by_cases eq : node = .cell id
    · rw [if_pos eq]
      cases h.cell? id <;> rfl
    · rw [if_neg eq]

/-- Two nodes may be taken out in either order. -/
theorem drop_comm (h : Heap) (node other : Node) :
    (h.drop node).drop other = (h.drop other).drop node := by
  apply ext_nodes
  · intro id
    simp only [composite?_drop]
    split <;> split <;> rfl
  · intro id
    simp only [cell?_drop]
    split <;> split <;> rfl

/-- A new count of one node and the removal of another may be exchanged. -/
theorem drop_recount (h : Heap) (node other : Node) (count : Nat) :
    (h.recount other count).drop node = (h.drop node).recount other count := by
  apply ext_nodes
  · intro id
    simp only [composite?_drop, composite?_recount]
    by_cases first : node = .composite id
    · simp [first]
    · simp [first]
  · intro id
    simp only [cell?_drop, cell?_recount]
    by_cases first : node = .cell id
    · simp [first]
    · simp [first]

/-- New counts of two nodes may be exchanged. -/
theorem recount_comm (h : Heap) {node other : Node} (ne : node ≠ other) (m n : Nat) :
    (h.recount node m).recount other n = (h.recount other n).recount node m := by
  apply ext_nodes
  · intro id
    simp only [composite?_recount]
    by_cases first : node = .composite id
    · have second : other ≠ .composite id := fun eq => ne (first.trans eq.symm)
      simp [first, second]
    · simp [first]
  · intro id
    simp only [cell?_recount]
    by_cases first : node = .cell id
    · have second : other ≠ .cell id := fun eq => ne (first.trans eq.symm)
      simp [first, second]
    · simp [first]

/-- Of two new counts the second stands. -/
@[simp] theorem recount_recount (h : Heap) (node : Node) (m n : Nat) :
    (h.recount node m).recount node n = h.recount node n := by
  apply ext_nodes
  · intro id
    simp only [composite?_recount]
    split <;> simp [Function.comp_def]
  · intro id
    simp only [cell?_recount]
    split <;> simp [Function.comp_def]

/-- A node's own count changes nothing. -/
theorem recount_self {h : Heap} {node : Node} {count : Nat} (live : h.handles? node = some count) :
    h.recount node count = h := by
  cases node with
  | composite id =>
    obtain ⟨c, found, rfl⟩ := Option.map_eq_some_iff.mp live
    apply ext_nodes
    · intro other
      rw [composite?_recount]
      split
      · rename_i eq
        cases eq
        rw [found, Option.map_some]
      · rfl
    · intro other
      simp [cell?_recount]
  | cell id =>
    obtain ⟨c, found, rfl⟩ := Option.map_eq_some_iff.mp live
    apply ext_nodes
    · intro other
      simp [composite?_recount]
    · intro other
      rw [cell?_recount]
      split
      · rename_i eq
        cases eq
        rw [found, Option.map_some]
      · rfl

/-- Taking out a node that is there makes the heap smaller. -/
theorem size_drop {h : Heap} {node : Node} {count : Nat} (live : h.handles? node = some count) :
    (h.drop node).size + 1 = h.size := by
  cases node with
  | composite id =>
    obtain ⟨c, found, -⟩ := Option.map_eq_some_iff.mp live
    have there : h.composites.get? id.index = some c := found
    have smaller := OrderedMap.size_erase_of_get? there
    simp only [drop, dropComposite, size]
    omega
  | cell id =>
    obtain ⟨c, found, -⟩ := Option.map_eq_some_iff.mp live
    have there : h.cells.get? id.index = some c := found
    have smaller := OrderedMap.size_erase_of_get? there
    simp only [drop, dropCell, size]
    omega

/-- A new count keeps the size of the heap. -/
@[simp] theorem size_recount (h : Heap) (node : Node) (count : Nat) :
    (h.recount node count).size = h.size := by
  cases node with
  | composite id =>
    cases found : h.composite? id with
    | none => simp [recount, found]
    | some c =>
      have there : h.composites.get? id.index = some c := found
      have same := OrderedMap.size_insert_of_get? there { c with count := count }
      simp only [recount, found, putComposite, size, same]
  | cell id =>
    cases found : h.cell? id with
    | none => simp [recount, found]
    | some c =>
      have there : h.cells.get? id.index = some c := found
      have same := OrderedMap.size_insert_of_get? there { c with count := count }
      simp only [recount, found, putCell, size, same]

/-! ## One release -/

/-- One more handle, by the node that the value names. -/
theorem acquire_eq (h : Heap) (v : Value) :
    h.acquire v = match v.node? with
      | none => h
      | some node =>
        match h.handles? node with
        | none => h
        | some count => h.recount node (count + 1) := by
  cases v with
  | composite id =>
    cases found : h.composite? id <;> simp [acquire, Value.node?, handles?, recount, found]
  | ref id =>
    cases found : h.cell? id <;> simp [acquire, Value.node?, handles?, recount, found]
  | _ => rfl

/-- One release within a bound, by the node that the value names. -/
theorem releaseWithin_succ (fuel : Nat) (h : Heap) (v : Value) :
    releaseWithin (fuel + 1) h v = match v.node? with
      | none => h
      | some node =>
        match h.handles? node with
        | none => h
        | some count =>
          if count ≤ 1 then (h.contents node).foldl (releaseWithin fuel) (h.drop node)
          else h.recount node (count - 1) := by
  cases v with
  | composite id =>
    cases found : h.composite? id <;>
      simp [releaseWithin, Value.node?, handles?, recount, found, contents, drop]
  | ref id =>
    cases found : h.cell? id <;>
      simp [releaseWithin, Value.node?, handles?, recount, found, contents, drop, content]
  | _ => rfl

/-- A release within a bound makes no heap larger. -/
theorem size_releaseWithin_le (fuel : Nat) (h : Heap) (v : Value) :
    (releaseWithin fuel h v).size ≤ h.size := by
  induction fuel generalizing h v with
  | zero => exact Nat.le_refl _
  | succ fuel ih =>
    have all : ∀ (vs : List Value) (k : Heap), (vs.foldl (releaseWithin fuel) k).size ≤ k.size := by
      intro vs
      induction vs with
      | nil => exact fun k => Nat.le_refl _
      | cons w ws ihs => exact fun k => Nat.le_trans (ihs _) (ih k w)
    rw [releaseWithin_succ]
    split
    · exact Nat.le_refl _
    · split
      · exact Nat.le_refl _
      · rename_i node _ _ count live
        split
        · have smaller := size_drop live
          have rest := all (h.contents node) (h.drop node)
          omega
        · exact Nat.le_of_eq (size_recount h node _)

/-- Bounds beyond the size of the heap make no difference. -/
theorem releaseWithin_eq {fuel more : Nat} {h : Heap} (enough : h.size < fuel)
    (also : h.size < more) (v : Value) : releaseWithin fuel h v = releaseWithin more h v := by
  induction fuel generalizing more h v with
  | zero => omega
  | succ fuel ih =>
    cases more with
    | zero => omega
    | succ more =>
      have all : ∀ (vs : List Value) (k : Heap), k.size < fuel → k.size < more →
          vs.foldl (releaseWithin fuel) k = vs.foldl (releaseWithin more) k := by
        intro vs
        induction vs with
        | nil => exact fun k _ _ => rfl
        | cons w ws ihs =>
          intro k hk hm
          have le := size_releaseWithin_le more k w
          rw [List.foldl_cons, List.foldl_cons, ih hk hm w]
          exact ihs _ (by omega) (by omega)
      rw [releaseWithin_succ, releaseWithin_succ]
      split
      · rfl
      · split
        · rfl
        · rename_i live
          split
          · have smaller := size_drop live
            exact all _ _ (by omega) (by omega)
          · rfl

/-- A release makes no heap larger. -/
theorem size_release_le (h : Heap) (v : Value) : (h.release v).size ≤ h.size :=
  size_releaseWithin_le _ h v

@[simp] theorem releaseAll_nil (h : Heap) : h.releaseAll [] = h := rfl

@[simp] theorem releaseAll_cons (h : Heap) (v : Value) (vs : List Value) :
    h.releaseAll (v :: vs) = (h.release v).releaseAll vs := rfl

/-- Releasing one list and then another. -/
theorem releaseAll_append (h : Heap) (vs ws : List Value) :
    h.releaseAll (vs ++ ws) = (h.releaseAll vs).releaseAll ws := List.foldl_append

/-- What a release does: a node that has its last handle is taken out and its
contents are released, and any other loses one handle. -/
theorem release_eq (h : Heap) (v : Value) :
    h.release v = match v.node? with
      | none => h
      | some node =>
        match h.handles? node with
        | none => h
        | some count =>
          if count ≤ 1 then (h.drop node).releaseAll (h.contents node)
          else h.recount node (count - 1) := by
  have all : ∀ (vs : List Value) (k : Heap), k.size < h.size →
      vs.foldl (releaseWithin h.size) k = k.releaseAll vs := by
    intro vs
    induction vs with
    | nil => exact fun k _ => rfl
    | cons w ws ihs =>
      intro k hk
      have le := size_release_le k w
      have first : releaseWithin h.size k w = k.release w := releaseWithin_eq hk (by omega) w
      rw [List.foldl_cons, first, releaseAll_cons]
      exact ihs _ (by omega)
  rw [release, releaseWithin_succ]
  split
  · rfl
  · split
    · rfl
    · rename_i live
      split
      · have smaller := size_drop live
        exact all _ _ (by omega)
      · rfl

/-- Giving up what is no handle changes nothing. -/
theorem release_of_node?_eq_none (h : Heap) {v : Value} (scalar : v.node? = none) :
    h.release v = h := by rw [release_eq, scalar]

/-- Giving up a handle of a destroyed node changes nothing. -/
theorem release_of_dead {h : Heap} {v : Value} {node : Node} (names : v.node? = some node)
    (dead : h.handles? node = none) : h.release v = h := by
  rw [release_eq, names]
  simp only [dead]

/-- Giving up the last handle destroys the node. -/
theorem release_of_last {h : Heap} {v : Value} {node : Node} {count : Nat}
    (names : v.node? = some node) (live : h.handles? node = some count) (last : count ≤ 1) :
    h.release v = (h.drop node).releaseAll (h.contents node) := by
  rw [release_eq, names]
  simp only [live, if_pos last]

/-- Giving up one of several handles leaves the node. -/
theorem release_of_shared {h : Heap} {v : Value} {node : Node} {count : Nat}
    (names : v.node? = some node) (live : h.handles? node = some count) (shared : 1 < count) :
    h.release v = h.recount node (count - 1) := by
  rw [release_eq, names]
  simp only [live, if_neg (Nat.not_le.mpr shared)]

/-- A release depends on the value only by the node that it names. -/
theorem release_congr (h : Heap) {v w : Value} (same : v.node? = w.node?) :
    h.release v = h.release w := by
  rw [release_eq, release_eq, same]

/-! ## What a release leaves -/

/-- Every node of the first heap is in the second one, with the same contents and
at least as many handles. -/
structure Remains (k h : Heap) : Prop where
  composite : ∀ {id c}, k.composite? id = some c →
    ∃ more, c.count ≤ more ∧ h.composite? id = some { c with count := more }
  cell : ∀ {id c}, k.cell? id = some c →
    ∃ more, c.count ≤ more ∧ h.cell? id = some { c with count := more }

namespace Remains

theorem refl (h : Heap) : Remains h h :=
  ⟨fun {_ c} found => ⟨c.count, Nat.le_refl _, found⟩,
    fun {_ c} found => ⟨c.count, Nat.le_refl _, found⟩⟩

theorem trans {h k l : Heap} (first : Remains l k) (second : Remains k h) : Remains l h where
  composite found := by
    obtain ⟨m, le, found⟩ := first.composite found
    obtain ⟨n, le', found⟩ := second.composite found
    exact ⟨n, Nat.le_trans le le', found⟩
  cell found := by
    obtain ⟨m, le, found⟩ := first.cell found
    obtain ⟨n, le', found⟩ := second.cell found
    exact ⟨n, Nat.le_trans le le', found⟩

/-- A heap that lacks a node remains. -/
theorem drop (h : Heap) (node : Node) : Remains (h.drop node) h where
  composite found := by
    rw [composite?_drop] at found
    split at found
    · cases found
    · exact (refl h).composite found
  cell found := by
    rw [cell?_drop] at found
    split at found
    · cases found
    · exact (refl h).cell found

/-- A heap with a lower count remains. -/
theorem recount {h : Heap} {node : Node} {count fewer : Nat} (live : h.handles? node = some count)
    (le : fewer ≤ count) : Remains (h.recount node fewer) h where
  composite {id c} found := by
    rw [composite?_recount] at found
    split at found
    · rename_i eq
      subst eq
      obtain ⟨d, old, rfl⟩ := Option.map_eq_some_iff.mp found
      have eq : d.count = count := by simpa [handles?, old] using live
      exact ⟨count, le, by rw [old, ← eq]⟩
    · exact (refl h).composite found
  cell {id c} found := by
    rw [cell?_recount] at found
    split at found
    · rename_i eq
      subst eq
      obtain ⟨d, old, rfl⟩ := Option.map_eq_some_iff.mp found
      have eq : d.count = count := by simpa [handles?, old] using live
      exact ⟨count, le, by rw [old, ← eq]⟩
    · exact (refl h).cell found

/-- A node that remains was there with at least as many handles. -/
theorem handles? {h k : Heap} (remains : Remains k h) {node : Node} {count : Nat}
    (live : k.handles? node = some count) : ∃ more, count ≤ more ∧ h.handles? node = some more := by
  cases node with
  | composite id =>
    obtain ⟨c, found, rfl⟩ := Option.map_eq_some_iff.mp live
    obtain ⟨more, le, found⟩ := remains.composite found
    exact ⟨more, le, by simp [Heap.handles?, found]⟩
  | cell id =>
    obtain ⟨c, found, rfl⟩ := Option.map_eq_some_iff.mp live
    obtain ⟨more, le, found⟩ := remains.cell found
    exact ⟨more, le, by simp [Heap.handles?, found]⟩

/-- A node that was destroyed stays so. -/
theorem dead {h k : Heap} (remains : Remains k h) {node : Node} (dead : h.handles? node = none) :
    k.handles? node = none := by
  cases live : k.handles? node with
  | none => rfl
  | some count =>
    obtain ⟨more, -, found⟩ := remains.handles? live
    rw [dead] at found
    cases found

/-- A node that remains has kept its contents. -/
theorem contents {h k : Heap} (remains : Remains k h) {node : Node} {count : Nat}
    (live : k.handles? node = some count) : k.contents node = h.contents node := by
  cases node with
  | composite id =>
    obtain ⟨c, found, rfl⟩ := Option.map_eq_some_iff.mp live
    obtain ⟨more, -, old⟩ := remains.composite found
    simp only [Heap.contents, found, old]
  | cell id =>
    obtain ⟨c, found, rfl⟩ := Option.map_eq_some_iff.mp live
    obtain ⟨more, -, old⟩ := remains.cell found
    simp only [Heap.contents, content, found, old]

end Remains

/-- A release only takes nodes and handles away. -/
theorem remains_releaseWithin (fuel : Nat) (h : Heap) (v : Value) :
    Remains (releaseWithin fuel h v) h := by
  induction fuel generalizing h v with
  | zero => exact .refl h
  | succ fuel ih =>
    have all : ∀ (vs : List Value) (k : Heap), Remains (vs.foldl (releaseWithin fuel) k) k := by
      intro vs
      induction vs with
      | nil => exact fun k => .refl k
      | cons w ws ihs => exact fun k => (ihs _).trans (ih k w)
    rw [releaseWithin_succ]
    split
    · exact .refl h
    · split
      · exact .refl h
      · rename_i live
        split
        · exact (all _ _).trans (.drop h _)
        · exact .recount live (Nat.sub_le _ _)

theorem remains_release (h : Heap) (v : Value) : Remains (h.release v) h :=
  remains_releaseWithin _ h v

theorem remains_releaseAll (h : Heap) (vs : List Value) : Remains (h.releaseAll vs) h := by
  induction vs generalizing h with
  | nil => exact .refl h
  | cons v vs ih => exact (ih _).trans (remains_release h v)

/-! ## The order of releases -/

/-- If releases may be exchanged in the heaps up to a size, lists may be released
in any order there. -/
theorem releaseAll_perm_of_comm {bound : Nat}
    (comm : ∀ h : Heap, h.size ≤ bound → ∀ a b, (h.release a).release b = (h.release b).release a)
    {vs ws : List Value} (perm : vs.Perm ws) {h : Heap} (small : h.size ≤ bound) :
    h.releaseAll vs = h.releaseAll ws := by
  induction perm generalizing h with
  | nil => rfl
  | cons v _ ih => exact ih (Nat.le_trans (size_release_le h v) small)
  | swap v w rest => simp only [releaseAll_cons, comm h small v w]
  | trans _ _ first second => exact (first small).trans (second small)

/-- After the last handle of a node another handle may be released before the
contents of the node, if releases may be exchanged in smaller heaps. -/
theorem release_release_of_last {h : Heap}
    (smaller : ∀ k : Heap, k.size < h.size → ∀ a b,
      (k.release a).release b = (k.release b).release a)
    {a : Value} {node : Node} {count : Nat} (names : a.node? = some node)
    (live : h.handles? node = some count) (last : count ≤ 1) (b : Value) :
    (h.release a).release b = ((h.drop node).release b).releaseAll (h.contents node) := by
  have less := size_drop live
  have comm : ∀ k : Heap, k.size ≤ (h.drop node).size → ∀ a b,
      (k.release a).release b = (k.release b).release a :=
    fun k le => smaller k (by omega)
  have perm : (h.contents node ++ [b]).Perm (b :: h.contents node) :=
    List.perm_append_singleton _ _
  calc (h.release a).release b
      = (h.drop node).releaseAll (h.contents node ++ [b]) := by
        rw [release_of_last names live last, releaseAll_append]
        rfl
    _ = (h.drop node).releaseAll (b :: h.contents node) :=
        releaseAll_perm_of_comm comm perm (Nat.le_refl _)
    _ = ((h.drop node).release b).releaseAll (h.contents node) := releaseAll_cons _ _ _

/-- Releases of two nodes may be exchanged, if the first one is destroyed by its
release and releases may be exchanged in smaller heaps. -/
theorem release_comm_of_last {h : Heap}
    (smaller : ∀ k : Heap, k.size < h.size → ∀ a b,
      (k.release a).release b = (k.release b).release a)
    {a b : Value} {node other : Node} {m n : Nat} (ne : node ≠ other)
    (namesA : a.node? = some node) (namesB : b.node? = some other)
    (liveA : h.handles? node = some m) (liveB : h.handles? other = some n) (last : m ≤ 1) :
    (h.release a).release b = (h.release b).release a := by
  have liveB' : (h.drop node).handles? other = some n := by simp [ne, liveB]
  by_cases lastB : n ≤ 1
  · have liveA' : (h.drop other).handles? node = some m := by simp [Ne.symm ne, liveA]
    have less := size_drop liveB
    have less' := size_drop liveA'
    have comm : ∀ k : Heap, k.size ≤ ((h.drop other).drop node).size → ∀ a b,
        (k.release a).release b = (k.release b).release a :=
      fun k le => smaller k (by omega)
    calc (h.release a).release b
        = ((h.drop node).release b).releaseAll (h.contents node) :=
          release_release_of_last smaller namesA liveA last b
      _ = ((h.drop other).drop node).releaseAll (h.contents other ++ h.contents node) := by
          rw [release_of_last namesB liveB' lastB, contents_drop h ne, drop_comm,
            releaseAll_append]
      _ = ((h.drop other).drop node).releaseAll (h.contents node ++ h.contents other) :=
          releaseAll_perm_of_comm comm List.perm_append_comm (Nat.le_refl _)
      _ = ((h.drop other).release a).releaseAll (h.contents other) := by
          rw [release_of_last namesA liveA' last, contents_drop h (Ne.symm ne),
            releaseAll_append]
      _ = (h.release b).release a :=
          (release_release_of_last smaller namesB liveB lastB a).symm
  · have shared : 1 < n := Nat.not_le.mp lastB
    have liveA' : (h.recount other (n - 1)).handles? node = some m := by
      simp [Ne.symm ne, liveA]
    calc (h.release a).release b
        = ((h.drop node).release b).releaseAll (h.contents node) :=
          release_release_of_last smaller namesA liveA last b
      _ = (h.release b).release a := by
          rw [release_of_shared namesB liveB' shared, release_of_shared namesB liveB shared,
            release_of_last namesA liveA' last, contents_recount, drop_recount]

/-- Two releases may be exchanged. -/
theorem release_comm (h : Heap) (a b : Value) :
    (h.release a).release b = (h.release b).release a := by
  induction bound : h.size using Nat.strongRecOn generalizing h a b with
  | ind size ih =>
    have smaller : ∀ k : Heap, k.size < h.size → ∀ a b,
        (k.release a).release b = (k.release b).release a :=
      fun k lt a b => ih k.size (bound ▸ lt) k a b rfl
    cases namesA : a.node? with
    | none =>
      rw [release_of_node?_eq_none h namesA, release_of_node?_eq_none _ namesA]
    | some node =>
      cases namesB : b.node? with
      | none =>
        rw [release_of_node?_eq_none h namesB, release_of_node?_eq_none _ namesB]
      | some other =>
        by_cases eq : node = other
        · have same : a.node? = b.node? := by rw [namesA, namesB, eq]
          rw [release_congr h same, release_congr (h.release b) same]
        · cases liveA : h.handles? node with
          | none =>
            have dead := (remains_release h b).dead liveA
            rw [release_of_dead namesA liveA, release_of_dead namesA dead]
          | some m =>
            cases liveB : h.handles? other with
            | none =>
              have dead := (remains_release h a).dead liveB
              rw [release_of_dead namesB liveB, release_of_dead namesB dead]
            | some n =>
              by_cases lastA : m ≤ 1
              · exact release_comm_of_last smaller eq namesA namesB liveA liveB lastA
              · by_cases lastB : n ≤ 1
                · exact (release_comm_of_last smaller (Ne.symm eq) namesB namesA liveB liveA
                    lastB).symm
                · have sharedA : 1 < m := Nat.not_le.mp lastA
                  have sharedB : 1 < n := Nat.not_le.mp lastB
                  have liveA' : (h.recount other (n - 1)).handles? node = some m := by
                    simp [Ne.symm eq, liveA]
                  have liveB' : (h.recount node (m - 1)).handles? other = some n := by
                    simp [eq, liveB]
                  rw [release_of_shared namesA liveA sharedA,
                    release_of_shared namesB liveB' sharedB,
                    release_of_shared namesB liveB sharedB,
                    release_of_shared namesA liveA' sharedA, recount_comm h eq]

/-- The order in which handles are given up makes no difference. -/
theorem releaseAll_perm {vs ws : List Value} (perm : vs.Perm ws) (h : Heap) :
    h.releaseAll vs = h.releaseAll ws :=
  perm.foldl_eq' (fun a _ b _ k => release_comm k a b) h

/-- A handle may be given up before others or after them. -/
theorem releaseAll_release (h : Heap) (v : Value) (vs : List Value) :
    (h.release v).releaseAll vs = (h.releaseAll vs).release v := by
  have perm : (v :: vs).Perm (vs ++ [v]) := (List.perm_append_singleton v vs).symm
  rw [← releaseAll_cons, releaseAll_perm perm, releaseAll_append]
  rfl

end Heap

end OverloadMachine
