import OverloadMachine.Proofs.Release
import OverloadMachine.Store

/-!
# Ownership

A heap is accounted for when every node has as many handles as are found in the
heap itself, among some values, and outside. Then no handle names a destroyed
node, and a node with one handle is held in one place only. Who takes a handle must
account for it, who gives one up frees it, and what was just made is given up without a
trace.
-/

namespace OverloadMachine

/-! ## Handles of a node -/

namespace Node

/-- Number of handles of a node that a value is. -/
def usedBy (node : Node) (v : Value) : Nat := if v.node? = some node then 1 else 0

/-- Number of handles of a node among some values. -/
def uses (node : Node) (vs : List Value) : Nat := sumOf node.usedBy vs

@[simp] theorem uses_nil (node : Node) : node.uses [] = 0 := rfl

@[simp] theorem uses_cons (node : Node) (v : Value) (vs : List Value) :
    node.uses (v :: vs) = node.usedBy v + node.uses vs := rfl

@[simp] theorem uses_append (node : Node) (vs ws : List Value) :
    node.uses (vs ++ ws) = node.uses vs + node.uses ws := sumOf_append node.usedBy vs ws

/-- What is no handle is a handle of no node. -/
theorem usedBy_of_node?_eq_none (node : Node) {v : Value} (scalar : v.node? = none) :
    node.usedBy v = 0 := by simp [usedBy, scalar]

/-- Scalars use no node. -/
theorem uses_of_scalars (node : Node) {vs : List Value} (scalars : ∀ v ∈ vs, v.node? = none) :
    node.uses vs = 0 := by
  induction vs with
  | nil => rfl
  | cons v vs ih =>
    rw [uses_cons, node.usedBy_of_node?_eq_none (scalars v List.mem_cons_self),
      ih fun w mem => scalars w (List.mem_cons_of_mem v mem)]

@[simp] theorem usedBy_null (node : Node) : node.usedBy .null = 0 := rfl

/-- A handle of a node is a handle of no other one. -/
theorem usedBy_of_ne {node other : Node} {v : Value} (names : v.node? = some other)
    (ne : other ≠ node) : node.usedBy v = 0 := by simp [usedBy, names, ne]

/-- A handle of a node is a handle of it. -/
theorem usedBy_of_node? {node : Node} {v : Value} (names : v.node? = some node) :
    node.usedBy v = 1 := by simp [usedBy, names]

/-- A handle among some values is counted. -/
theorem usedBy_le_uses (node : Node) {v : Value} {vs : List Value} (mem : v ∈ vs) :
    node.usedBy v ≤ node.uses vs := by
  obtain ⟨before, after, rfl⟩ := List.append_of_mem mem
  rw [uses_append, uses_cons]
  omega

/-- The handles are the same in every order. -/
theorem uses_perm (node : Node) {vs ws : List Value} (perm : vs.Perm ws) :
    node.uses vs = node.uses ws := sumOf_perm node.usedBy perm

end Node

namespace Heap

/-! ## Accounts -/

/-- Number of handles of a node within the heap. -/
def inner (h : Heap) (node : Node) : Nat :=
  h.composites.total (fun c => node.uses c.fields.values)
    + h.cells.total (fun c => node.usedBy c.content)

/-- A value is no handle, or it names a node that is there. -/
def Alive (h : Heap) (v : Value) : Prop :=
  ∀ node, v.node? = some node → ∃ count, 0 < count ∧ h.handles? node = some count

/-- Every node has as many handles as are in the heap, among the values that are
held, and outside. -/
def Accounts (h : Heap) (held : List Value) (outside : Node → Nat) : Prop :=
  ∀ node, (h.handles? node).getD 0 = h.inner node + node.uses held + outside node

/-- What the nodes of a heap hold is alive. -/
def Closed (h : Heap) : Prop :=
  ∀ node count, h.handles? node = some count → ∀ v ∈ h.contents node, h.Alive v

theorem alive_of_node?_eq_none (h : Heap) {v : Value} (scalar : v.node? = none) : h.Alive v := by
  intro node names
  rw [scalar] at names
  cases names

/-- A composite that is alive is there. -/
theorem Alive.composite? {h : Heap} {id : CompositeId} (alive : h.Alive (.composite id)) :
    ∃ c, h.composite? id = some c ∧ 0 < c.count := by
  obtain ⟨count, pos, live⟩ := alive (.composite id) rfl
  obtain ⟨c, found, rfl⟩ := Option.map_eq_some_iff.mp live
  exact ⟨c, found, pos⟩

/-- A cell that is alive is there. -/
theorem Alive.cell? {h : Heap} {cell : CellId} (alive : h.Alive (.ref cell)) :
    ∃ c, h.cell? cell = some c ∧ 0 < c.count := by
  obtain ⟨count, pos, live⟩ := alive (.cell cell) rfl
  obtain ⟨c, found, rfl⟩ := Option.map_eq_some_iff.mp live
  exact ⟨c, found, pos⟩

/-- What remains alive was alive. -/
theorem Remains.alive {h k : Heap} (remains : Remains k h) {v : Value} (alive : k.Alive v) :
    h.Alive v := by
  intro node names
  obtain ⟨count, pos, live⟩ := alive node names
  obtain ⟨more, le, live⟩ := remains.handles? live
  exact ⟨more, Nat.lt_of_lt_of_le pos le, live⟩

/-- What a node holds that remains is what it held. -/
theorem Remains.content {h k : Heap} (remains : Remains k h) {cell : CellId}
    (alive : k.Alive (.ref cell)) : h.content cell = k.content cell := by
  obtain ⟨count, -, live⟩ := alive (.cell cell) rfl
  exact (List.singleton_inj.mp (remains.contents live)).symm

/-- The fields of a composite that remains are what they were. -/
theorem Remains.field? {h k : Heap} (remains : Remains k h) {id : CompositeId}
    (alive : k.Alive (.composite id)) (key : String) : h.field? id key = k.field? id key := by
  obtain ⟨c, found, -⟩ := alive.composite?
  obtain ⟨more, -, there⟩ := remains.composite found
  rw [Heap.field?, Heap.field?, found, there]
  rfl

/-- What a cell holds is alive. -/
theorem Closed.alive_content {h : Heap} (closed : h.Closed) (cell : CellId) :
    h.Alive (h.content cell) := by
  cases found : h.cell? cell with
  | none =>
    rw [content, found]
    exact h.alive_of_node?_eq_none rfl
  | some c =>
    exact closed _ _ (handles?_of_cell? found) _ (List.mem_singleton_self _)

/-- What a composite holds is alive. -/
theorem Closed.alive_value {h : Heap} (closed : h.Closed) {id : CompositeId} {c : Composite}
    (found : h.composite? id = some c) {v : Value} (mem : v ∈ c.fields.values) : h.Alive v := by
  refine closed _ _ (handles?_of_composite? found) v ?_
  rw [contents, found]
  exact mem

/-- What a field holds is alive. -/
theorem Closed.alive_field {h : Heap} (closed : h.Closed) (id : CompositeId) (key : String) :
    h.Alive ((h.field? id key).getD .null) := by
  cases found : h.composite? id with
  | none =>
    have absent : h.field? id key = none := by simp [field?, found]
    rw [absent]
    exact h.alive_of_node?_eq_none rfl
  | some c =>
    have same : h.field? id key = c.fields.get? key := by simp [field?, found]
    rw [same]
    cases there : c.fields.get? key with
    | none => exact h.alive_of_node?_eq_none rfl
    | some v => exact closed.alive_value found (OrderedMap.mem_values.mpr ⟨key, there⟩)

/-- Handles within the heap after a composite is put in the place of another. -/
theorem inner_putComposite (h : Heap) (id : CompositeId) (c : Composite) (node : Node) :
    (h.putComposite id c).inner node + node.uses (h.contents (.composite id))
      = h.inner node + node.uses c.fields.values := by
  have sum := h.composites.total_insert (fun c => node.uses c.fields.values) id.index c
  have old : ((h.composites.get? id.index).map fun c => node.uses c.fields.values).getD 0
      = node.uses (h.contents (.composite id)) := by
    simp only [contents, composite?]
    cases h.composites.get? id.index <;> rfl
  simp only [inner, putComposite]
  omega

/-- Handles within the heap after a cell is put in the place of another. -/
theorem inner_putCell (h : Heap) (id : CellId) (c : Cell) (node : Node) :
    (h.putCell id c).inner node + node.usedBy (h.content id)
      = h.inner node + node.usedBy c.content := by
  have sum := h.cells.total_insert (fun c => node.usedBy c.content) id.index c
  have old : ((h.cells.get? id.index).map fun c => node.usedBy c.content).getD 0
      = node.usedBy (h.content id) := by
    simp only [content, cell?]
    cases h.cells.get? id.index <;> rfl
  simp only [inner, putCell]
  omega

/-- Handles within the heap after a node is taken out. -/
theorem inner_drop (h : Heap) (node other : Node) :
    (h.drop other).inner node + node.uses (h.contents other) = h.inner node := by
  cases other with
  | composite id =>
    have sum := h.composites.total_erase (fun c => node.uses c.fields.values) id.index
    have old : ((h.composites.get? id.index).map fun c => node.uses c.fields.values).getD 0
        = node.uses (h.contents (.composite id)) := by
      simp only [contents, composite?]
      cases h.composites.get? id.index <;> rfl
    simp only [inner, drop, dropComposite]
    omega
  | cell id =>
    have sum := h.cells.total_erase (fun c => node.usedBy c.content) id.index
    have old : ((h.cells.get? id.index).map fun c => node.usedBy c.content).getD 0
        = node.uses (h.contents (.cell id)) := by
      simp only [contents, content, cell?]
      cases h.cells.get? id.index <;> rfl
    simp only [inner, drop, dropCell]
    omega

/-- A new count changes no handle within the heap. -/
@[simp] theorem inner_recount (h : Heap) (node other : Node) (count : Nat) :
    (h.recount other count).inner node = h.inner node := by
  cases other with
  | composite id =>
    cases found : h.composite? id with
    | none => simp [recount, found]
    | some c =>
      have sum := h.inner_putComposite id { c with count := count } node
      have old : h.contents (.composite id) = c.fields.values := by simp [contents, found]
      rw [old] at sum
      simp only [recount, found]
      dsimp only at sum
      omega
  | cell id =>
    cases found : h.cell? id with
    | none => simp [recount, found]
    | some c =>
      have sum := h.inner_putCell id { c with count := count } node
      have old : h.content id = c.content := by simp [content, found]
      rw [old] at sum
      simp only [recount, found]
      dsimp only at sum
      omega

/-- What a node holds is found within the heap. -/
theorem uses_contents_le (h : Heap) (node other : Node) :
    node.uses (h.contents other) ≤ h.inner node := by
  have sum := h.inner_drop node other
  omega

namespace Accounts

variable {h : Heap} {held rest : List Value} {outside : Node → Nat}

/-- Accounts speak about the handles that are held, not about their order. -/
theorem congr (accounts : h.Accounts held outside)
    (same : ∀ node : Node, node.uses rest = node.uses held) : h.Accounts rest outside := by
  intro node
  rw [same node]
  exact accounts node

/-- A node that is counted is there. -/
theorem live (accounts : h.Accounts held outside) {node : Node}
    (counted : 0 < h.inner node + node.uses held + outside node) :
    h.handles? node = some (h.inner node + node.uses held + outside node) := by
  have eq := accounts node
  cases found : h.handles? node with
  | none =>
    rw [found, Option.getD_none] at eq
    omega
  | some count =>
    rw [found, Option.getD_some] at eq
    rw [eq]

/-- What is held is alive. -/
theorem alive (accounts : h.Accounts held outside) {v : Value} (mem : v ∈ held) : h.Alive v := by
  intro node names
  have le := node.usedBy_le_uses mem
  rw [Node.usedBy_of_node? names] at le
  exact ⟨_, by omega, accounts.live (by omega)⟩

/-- What is outside is alive. -/
theorem alive_outside (accounts : h.Accounts held outside) {v : Value}
    (counted : ∀ node, node.usedBy v ≤ outside node) : h.Alive v := by
  intro node names
  have le := counted node
  rw [Node.usedBy_of_node? names] at le
  exact ⟨_, by omega, accounts.live (by omega)⟩

/-- What nodes hold is alive. -/
theorem closed (accounts : h.Accounts held outside) : h.Closed := by
  intro other count _ v mem node names
  have le := node.usedBy_le_uses mem
  have within := h.uses_contents_le node other
  rw [Node.usedBy_of_node? names] at le
  exact ⟨_, by omega, accounts.live (by omega)⟩

/-- A new handle is accounted for by whoever gets it. -/
theorem acquire (accounts : h.Accounts held outside) {v : Value} (alive : h.Alive v) :
    (h.acquire v).Accounts (v :: held) outside := by
  intro node
  have eq := accounts node
  rw [acquire_eq]
  cases names : v.node? with
  | none =>
    dsimp only
    rw [Node.uses_cons, Node.usedBy_of_node?_eq_none node names]
    omega
  | some other =>
    obtain ⟨count, -, found⟩ := alive other names
    simp only [found, handles?_recount, inner_recount, Node.uses_cons, Node.usedBy, names,
      Option.some.injEq]
    by_cases same : other = node
    · subst same
      rw [found, Option.getD_some] at eq
      rw [if_pos rfl, if_pos rfl, found, Option.map_some, Option.getD_some]
      omega
    · rw [if_neg same, if_neg same]
      omega

/-- The last handle of a node goes with it, and what it held is to be given up then. -/
theorem drop {v : Value} {node : Node} {count : Nat} (accounts : h.Accounts (v :: held) outside)
    (names : v.node? = some node) (live : h.handles? node = some count) (last : count ≤ 1) :
    (h.drop node).Accounts (h.contents node ++ held) outside := by
  have eq := accounts node
  rw [live, Option.getD_some, Node.uses_cons, Node.usedBy_of_node? names] at eq
  intro other
  have sum := h.inner_drop other node
  rw [handles?_drop, Node.uses_append]
  by_cases same : node = other
  · subst same
    rw [if_pos rfl, Option.getD_none]
    omega
  · have eq' := accounts other
    rw [Node.uses_cons, Node.usedBy_of_ne names same] at eq'
    rw [if_neg same]
    omega

/-- One of several handles of a node goes without it. -/
theorem recount {v : Value} {node : Node} {count : Nat}
    (accounts : h.Accounts (v :: held) outside) (names : v.node? = some node)
    (live : h.handles? node = some count) :
    (h.recount node (count - 1)).Accounts held outside := by
  intro other
  have eq := accounts other
  rw [handles?_recount, inner_recount]
  by_cases same : node = other
  · subst same
    rw [live, Option.getD_some, Node.uses_cons, Node.usedBy_of_node? names] at eq
    rw [if_pos rfl, live, Option.map_some, Option.getD_some]
    omega
  · rw [Node.uses_cons, Node.usedBy_of_ne names same] at eq
    rw [if_neg same]
    omega

/-- A handle that is given up need no longer be accounted for. -/
theorem release {v : Value} (accounts : h.Accounts (v :: held) outside) :
    (h.release v).Accounts held outside := by
  induction bound : h.size using Nat.strongRecOn generalizing h v held with
  | ind size ih =>
    cases names : v.node? with
    | none =>
      rw [release_of_node?_eq_none h names]
      intro node
      have eq := accounts node
      rw [Node.uses_cons, Node.usedBy_of_node?_eq_none node names] at eq
      omega
    | some other =>
      obtain ⟨count, pos, found⟩ := accounts.alive (List.mem_cons_self) other names
      by_cases last : count ≤ 1
      · -- The node goes, and what it held joins the values to be released.
        have all : ∀ (vs : List Value) (k : Heap), k.size < h.size →
            k.Accounts (vs ++ held) outside → (k.releaseAll vs).Accounts held outside := by
          intro vs
          induction vs with
          | nil => exact fun k _ accounts => accounts
          | cons w ws ihs =>
            intro k lt accounts
            have le := size_release_le k w
            exact ihs _ (by omega) (ih k.size (bound ▸ lt) accounts rfl)
        rw [release_of_last names found last]
        have smaller := size_drop found
        exact all _ _ (by omega) (accounts.drop names found last)
      · rw [release_of_shared names found (Nat.not_le.mp last)]
        exact accounts.recount names found

/-- Handles that are given up need no longer be accounted for. -/
theorem releaseAll {vs : List Value} (accounts : h.Accounts (vs ++ held) outside) :
    (h.releaseAll vs).Accounts held outside := by
  induction vs generalizing h with
  | nil => exact accounts
  | cons v vs ih => exact ih accounts.release

end Accounts

/-- Number of handles after one more is accounted for. -/
@[simp] theorem handles?_acquire (h : Heap) (v : Value) (node : Node) :
    (h.acquire v).handles? node = (h.handles? node).map (· + node.usedBy v) := by
  rw [acquire_eq]
  cases names : v.node? with
  | none =>
    dsimp only
    rw [Node.usedBy_of_node?_eq_none node names]
    cases h.handles? node <;> rfl
  | some other =>
    dsimp only
    by_cases same : other = node
    · subst same
      rw [Node.usedBy_of_node? names]
      cases found : h.handles? other with
      | none => simp [found]
      | some count => simp [found]
    · have zero : node.usedBy v = 0 := by simp [Node.usedBy, names, same]
      rw [zero]
      cases h.handles? other with
      | none => cases h.handles? node <;> rfl
      | some count =>
        dsimp only
        rw [handles?_recount, if_neg same]
        cases h.handles? node <;> rfl

/-- Another handle leaves the contents of every node alone. -/
@[simp] theorem contents_acquire (h : Heap) (v : Value) (node : Node) :
    (h.acquire v).contents node = h.contents node := by
  rw [acquire_eq]
  split
  · rfl
  · split
    · rfl
    · exact contents_recount h _ node _

/-- Number of handles after more of them are accounted for. -/
@[simp] theorem handles?_acquireAll (h : Heap) (vs : List Value) (node : Node) :
    (h.acquireAll vs).handles? node = (h.handles? node).map (· + node.uses vs) := by
  induction vs generalizing h with
  | nil => cases found : h.handles? node <;> simp [acquireAll, found]
  | cons v vs ih =>
    have more := ih (h.acquire v)
    rw [handles?_acquire, Option.map_map] at more
    rw [Node.uses_cons]
    refine more.trans ?_
    cases h.handles? node with
    | none => rfl
    | some count => simp [Function.comp_def, Nat.add_assoc]

/-- More handles leave the contents of every node alone. -/
@[simp] theorem contents_acquireAll (h : Heap) (vs : List Value) (node : Node) :
    (h.acquireAll vs).contents node = h.contents node := by
  induction vs generalizing h with
  | nil => rfl
  | cons v vs ih => exact (ih (h.acquire v)).trans (contents_acquire h v node)

/-- What is alive stays so when another handle is accounted for. -/
theorem Alive.acquire {h : Heap} {v : Value} (alive : h.Alive v) (w : Value) :
    (h.acquire w).Alive v := by
  intro node names
  obtain ⟨count, pos, live⟩ := alive node names
  exact ⟨count + node.usedBy w, by omega, by rw [handles?_acquire, live, Option.map_some]⟩

/-- What is alive stays so when more handles are accounted for. -/
theorem Alive.acquireAll {h : Heap} {v : Value} (alive : h.Alive v) (vs : List Value) :
    (h.acquireAll vs).Alive v := by
  induction vs generalizing h with
  | nil => exact alive
  | cons w vs ih => exact ih (alive.acquire w)

/-- More handles leave what a value shows alone. -/
theorem lookThrough_acquireAll (h : Heap) (vs : List Value) (v : Value) :
    (h.acquireAll vs).lookThrough v = h.lookThrough v := by
  cases v with
  | ref cell =>
    have same := contents_acquireAll h vs (.cell cell)
    rw [lookThrough, lookThrough, List.singleton_inj.mp same]
  | _ => rfl

/-- Giving up a new handle undoes it. -/
theorem release_acquire {h : Heap} {v : Value} (alive : h.Alive v) :
    (h.acquire v).release v = h := by
  cases names : v.node? with
  | none =>
    rw [release_of_node?_eq_none _ names, acquire_eq, names]
  | some node =>
    obtain ⟨count, pos, live⟩ := alive node names
    have more : h.acquire v = h.recount node (count + 1) := by
      rw [acquire_eq, names]
      simp only [live]
    have live' : (h.acquire v).handles? node = some (count + 1) := by
      rw [handles?_acquire, live, Option.map_some, Node.usedBy_of_node? names]
    rw [release_of_shared names live' (by omega), more, recount_recount, Nat.add_sub_cancel]
    exact recount_self live

/-- Giving up new handles undoes them. -/
theorem releaseAll_acquireAll {h : Heap} {vs : List Value} (alive : ∀ v ∈ vs, h.Alive v) :
    (h.acquireAll vs).releaseAll vs = h := by
  induction vs generalizing h with
  | nil => rfl
  | cons v vs ih =>
    have rest : ∀ w ∈ vs, (h.acquire v).Alive w :=
      fun w mem => (alive w (List.mem_cons_of_mem v mem)).acquire v
    calc (h.acquireAll (v :: vs)).releaseAll (v :: vs)
        = (((h.acquire v).acquireAll vs).release v).releaseAll vs := rfl
      _ = (((h.acquire v).acquireAll vs).releaseAll vs).release v := releaseAll_release _ v vs
      _ = (h.acquire v).release v := by rw [ih rest]
      _ = h := release_acquire (alive v List.mem_cons_self)

/-- A new composite is given up by giving up what it was made of. -/
theorem release_create (h : Heap) (className : String) (fields : NameMap Value) :
    (h.create className fields).2.release (.composite (h.create className fields).1)
      = h.releaseAll fields.values := by
  have live : (h.create className fields).2.handles? (.composite (h.create className fields).1)
      = some 1 := by simp [create, handles?]
  have contents : (h.create className fields).2.contents
      (.composite (h.create className fields).1) = fields.values := by
    simp [create, Heap.contents]
  rw [release_of_last rfl live (Nat.le_refl 1), contents]
  congr 1
  apply ext_nodes
  · intro id
    rw [composite?_drop]
    by_cases eq : (⟨h.composites.next⟩ : CompositeId) = id
    · rw [if_pos (by rw [← eq]; rfl), ← eq]
      exact (OrderedMap.get?_next h.composites).symm
    · rw [if_neg (by simpa [create] using eq)]
      simp [create, eq]
  · intro id
    rw [cell?_drop, if_neg (by simp)]
    simp [create]

/-- A new cell is given up by giving up its content. -/
theorem release_createCell (h : Heap) (v : Value) :
    (h.createCell v).2.release (.ref (h.createCell v).1) = h.release v := by
  have live : (h.createCell v).2.handles? (.cell (h.createCell v).1) = some 1 := by
    simp [createCell, handles?]
  have contents : (h.createCell v).2.contents (.cell (h.createCell v).1) = [v] := by
    simp [createCell, Heap.contents, content]
  rw [release_of_last rfl live (Nat.le_refl 1), contents, releaseAll_cons, releaseAll_nil]
  congr 1
  apply ext_nodes
  · intro id
    rw [composite?_drop, if_neg (by simp)]
    simp [createCell]
  · intro id
    rw [cell?_drop]
    by_cases eq : (⟨h.cells.next⟩ : CellId) = id
    · rw [if_pos (by rw [← eq]; rfl), ← eq]
      exact (OrderedMap.get?_next h.cells).symm
    · rw [if_neg (by simpa [createCell] using eq)]
      simp [createCell, eq]

end Heap

end OverloadMachine
