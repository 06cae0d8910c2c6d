import OverloadMachine.Proofs.Ownership

/-!
# Accounts of changes

How the accounts of a heap change when nodes are made, filled, changed in place, copied and
separated: what is stored takes over the handle of whoever stores it, and what it replaces
is given up.
-/

namespace OverloadMachine

namespace Heap

/-! ## Nodes that are put in place -/

/-- Number of handles after a composite is put in the place of another. -/
theorem handles?_putComposite (h : Heap) (id : CompositeId) (c : Composite) (node : Node) :
    (h.putComposite id c).handles? node
      = if .composite id = node then some c.count else h.handles? node := by
  cases node with
  | composite other =>
    simp only [handles?, composite?_putComposite, Node.composite.injEq]
    split <;> rfl
  | cell other => simp [handles?]

/-- Number of handles after a cell is put in the place of another. -/
theorem handles?_putCell (h : Heap) (id : CellId) (c : Cell) (node : Node) :
    (h.putCell id c).handles? node
      = if .cell id = node then some c.count else h.handles? node := by
  cases node with
  | composite other => simp [handles?]
  | cell other =>
    simp only [handles?, cell?_putCell, Node.cell.injEq]
    split <;> rfl

/-- A node that is there is not the next one to be made. -/
theorem ne_next_of_live {h : Heap} {node : Node} {count : Nat}
    (live : h.handles? node = some count) : Node.composite ⟨h.composites.next⟩ ≠ node := by
  intro eq
  have fresh : h.composite? ⟨h.composites.next⟩ = none := OrderedMap.get?_next h.composites
  rw [← eq, handles?, fresh] at live
  cases live

/-- Number of handles of the nodes that were there before a copy was made. -/
theorem handles?_duplicate {h : Heap} {node : Node} {count : Nat}
    (live : h.handles? node = some count) (c : Composite) :
    (h.duplicate c).2.handles? node = some (count + node.uses c.fields.values) := by
  have old : (h.acquireAll c.fields.values).handles? node
      = some (count + node.uses c.fields.values) := by
    rw [handles?_acquireAll, live, Option.map_some]
  rw [duplicate, create, handles?_putComposite, if_neg (ne_next_of_live old), old]

/-- A copy leaves the contents of the nodes that were there before alone. -/
theorem contents_duplicate {h : Heap} {node : Node} {count : Nat}
    (live : h.handles? node = some count) (c : Composite) :
    (h.duplicate c).2.contents node = h.contents node := by
  have old : (h.acquireAll c.fields.values).handles? node
      = some (count + node.uses c.fields.values) := by
    rw [handles?_acquireAll, live, Option.map_some]
  rw [← contents_acquireAll h c.fields.values node, duplicate, create]
  cases node with
  | cell id => rfl
  | composite id =>
    have ne : (⟨(h.acquireAll c.fields.values).composites.next⟩ : CompositeId) ≠ id :=
      fun eq => ne_next_of_live old (congrArg Node.composite eq)
    simp only [contents, composite?_putComposite, if_neg ne]

/-- Separation from other holders: a copy is made, and the composite loses a handle. -/
theorem separateComposite_of_shared {h : Heap} {id : CompositeId} {c : Composite}
    (found : h.composite? id = some c) (shared : c.isMutable = false) (pos : 0 < c.count) :
    h.separateComposite id = ((h.duplicate c).1, true, (h.duplicate c).2.recount (.composite id)
      (c.count + (Node.composite id).uses c.fields.values - 1)) := by
  have live := handles?_of_composite? found
  have ne : c.count ≠ 1 := by
    intro one
    simp [Composite.isMutable, one] at shared
  rw [separateComposite, found]
  simp only [shared, Bool.false_eq_true, if_false]
  rw [release_of_shared rfl (handles?_duplicate live c) (by omega)]

/-- A composite that may be changed is its own separation. -/
theorem separateComposite_of_mutable {h : Heap} {id : CompositeId} {c : Composite}
    (found : h.composite? id = some c) (can : c.isMutable = true) :
    h.separateComposite id = (id, false, h) := by
  rw [separateComposite, found]
  simp only [can, if_true]

/-- A new content leaves the number of handles of every node alone. -/
@[simp] theorem handles?_putContent (h : Heap) (id : CellId) (v : Value) (node : Node) :
    (h.putContent id v).handles? node = h.handles? node := by
  rw [putContent]
  cases found : h.cell? id with
  | none => rfl
  | some c =>
    dsimp only
    rw [handles?_putCell]
    split
    · rename_i eq
      subst eq
      rw [handles?, found, Option.map_some]
    · rfl

/-- Handles within the heap after a new content. -/
theorem inner_putContent {h : Heap} {id : CellId} (live : (h.cell? id).isSome) (v : Value)
    (node : Node) :
    (h.putContent id v).inner node + node.usedBy (h.content id)
      = h.inner node + node.usedBy v := by
  obtain ⟨c, found⟩ := Option.isSome_iff_exists.mp live
  have sum := h.inner_putCell id { c with content := v } node
  rw [putContent, found]
  exact sum

namespace Accounts

variable {h : Heap} {held : List Value} {outside : Node → Nat}

/-- New handles are accounted for by whoever gets them. -/
theorem acquireAll {vs : List Value} (accounts : h.Accounts held outside)
    (alive : ∀ v ∈ vs, h.Alive v) : (h.acquireAll vs).Accounts (vs ++ held) outside := by
  induction vs generalizing h held with
  | nil => exact accounts
  | cons v vs ih =>
    have rest : ∀ w ∈ vs, (h.acquire v).Alive w :=
      fun w mem => (alive w (List.mem_cons_of_mem v mem)).acquire v
    refine (ih (accounts.acquire (alive v List.mem_cons_self)) rest).congr fun node => ?_
    simp only [List.cons_append, Node.uses_cons, Node.uses_append]
    omega

/-- A new composite takes over what it is made of. -/
theorem create {fields : NameMap Value} (accounts : h.Accounts (fields.values ++ held) outside)
    (className : String) :
    (h.create className fields).2.Accounts
      (.composite (h.create className fields).1 :: held) outside := by
  intro node
  have eq := accounts node
  have sum := h.inner_putComposite ⟨h.composites.next⟩ ⟨className, fields, false, 1⟩ node
  have fresh : h.composite? ⟨h.composites.next⟩ = none := OrderedMap.get?_next h.composites
  simp only [contents, fresh, Node.uses_nil, Nat.add_zero] at sum
  rw [Node.uses_append] at eq
  simp only [Heap.create, handles?_putComposite, Node.uses_cons, Node.usedBy, Value.node?,
    Option.some.injEq]
  by_cases same : Node.composite ⟨h.composites.next⟩ = node
  · subst same
    rw [handles?, fresh, Option.map_none, Option.getD_none] at eq
    rw [if_pos rfl, if_pos rfl, Option.getD_some]
    omega
  · rw [if_neg same, if_neg same]
    omega

/-- A new cell takes over its content. -/
theorem createCell {v : Value} (accounts : h.Accounts (v :: held) outside) :
    (h.createCell v).2.Accounts (.ref (h.createCell v).1 :: held) outside := by
  intro node
  have eq := accounts node
  have sum := h.inner_putCell ⟨h.cells.next⟩ ⟨v, 1⟩ node
  have fresh : h.cell? ⟨h.cells.next⟩ = none := OrderedMap.get?_next h.cells
  simp only [content, fresh, Node.usedBy_null, Nat.add_zero] at sum
  rw [Node.uses_cons] at eq
  simp only [Heap.createCell, handles?_putCell, Node.uses_cons, Node.usedBy, Value.node?,
    Option.some.injEq]
  by_cases same : Node.cell ⟨h.cells.next⟩ = node
  · subst same
    rw [handles?, fresh, Option.map_none, Option.getD_none] at eq
    rw [if_pos rfl, if_pos rfl, Option.getD_some]
    simp only [Node.usedBy] at eq sum
    omega
  · rw [if_neg same, if_neg same]
    simp only [Node.usedBy] at eq sum
    omega

/-- The content of a cell takes over a handle and frees the one before it. -/
theorem putContent {v : Value} {id : CellId} (accounts : h.Accounts (v :: held) outside)
    (live : (h.cell? id).isSome) :
    (h.putContent id v).Accounts (h.content id :: held) outside := by
  intro node
  have eq := accounts node
  have sum := inner_putContent live v node
  rw [Node.uses_cons] at eq
  rw [handles?_putContent, Node.uses_cons]
  omega

/-- A field takes over a handle, and the one before it is given up. -/
theorem insertField {v : Value} (accounts : h.Accounts (v :: held) outside) (id : CompositeId)
    (key : String) : (h.insertField id key v).Accounts held outside := by
  rw [Heap.insertField]
  cases found : h.composite? id with
  | none => exact accounts.release
  | some c =>
    have next : (h.putComposite id { c with fields := c.fields.insert key v }).Accounts
        ((c.fields.get? key).toList ++ held) outside := by
      intro node
      have eq := accounts node
      have sum := h.inner_putComposite id { c with fields := c.fields.insert key v } node
      have perm := node.uses_perm (c.fields.values_insert_perm key v)
      rw [Node.uses_append, Node.uses_cons] at perm
      rw [Node.uses_cons] at eq
      simp only [contents, found] at sum
      have same : (h.putComposite id { c with fields := c.fields.insert key v }).handles? node
          = h.handles? node := by
        rw [handles?_putComposite]
        split
        · rename_i eq
          subst eq
          rw [handles?, found, Option.map_some]
        · rfl
      rw [same, Node.uses_append]
      omega
    dsimp only
    cases old : c.fields.get? key with
    | none =>
      rw [old] at next
      exact next
    | some w =>
      rw [old] at next
      exact next.release

/-- A field that is removed frees its handle. -/
theorem eraseField (accounts : h.Accounts held outside) (id : CompositeId) (key : String) :
    (h.eraseField id key).2.Accounts held outside := by
  unfold Heap.eraseField
  cases found : h.composite? id with
  | none => exact accounts
  | some c =>
    dsimp only
    cases old : c.fields.get? key with
    | none => exact accounts
    | some v =>
      have erased : (h.putComposite id { c with fields := c.fields.erase key }).Accounts
          (v :: held) outside := by
        intro node
        have eq := accounts node
        have sum := h.inner_putComposite id { c with fields := c.fields.erase key } node
        have perm := node.uses_perm (c.fields.values_erase_perm key)
        rw [old, Option.toList_some, Node.uses_append, Node.uses_cons, Node.uses_nil] at perm
        simp only [contents, found] at sum
        have same : (h.putComposite id { c with fields := c.fields.erase key }).handles? node
            = h.handles? node := by
          rw [handles?_putComposite]
          split
          · rename_i eq
            subst eq
            rw [handles?, found, Option.map_some]
          · rfl
        rw [same, Node.uses_cons]
        omega
      exact erased.release

/-- Gathered fields take over a value, and the one before it is given up. -/
theorem gather {fields : NameMap Value} {v : Value}
    (accounts : h.Accounts (v :: (fields.values ++ held)) outside) (key : String) :
    (h.gather fields key v).2.Accounts ((h.gather fields key v).1.values ++ held) outside := by
  have traded : h.Accounts ((fields.get? key).toList ++ ((fields.insert key v).values ++ held))
      outside := accounts.congr fun node => by
    have perm := node.uses_perm (fields.values_insert_perm key v)
    simp only [Node.uses_append, Node.uses_cons] at perm ⊢
    omega
  unfold Heap.gather
  cases old : fields.get? key with
  | none =>
    rw [old] at traded
    exact traded
  | some w =>
    rw [old] at traded
    exact traded.release

/-- Gathering entries takes over their values. -/
theorem foldl_gather (entries : List (String × Value)) (fields : NameMap Value)
    (accounts : h.Accounts (fields.values ++ (entries.map (·.2) ++ held)) outside) :
    let gathered := entries.foldl (fun (fields, h) e => h.gather fields e.1 e.2) (fields, h)
    gathered.2.Accounts (gathered.1.values ++ held) outside := by
  induction entries generalizing fields h with
  | nil => exact accounts
  | cons e rest ih =>
    have first : h.Accounts (e.2 :: (fields.values ++ (rest.map (·.2) ++ held))) outside :=
      accounts.congr fun node => by
        simp only [List.map_cons, Node.uses_append, Node.uses_cons]
        omega
    exact ih _ (first.gather e.1)

/-- A composite that is made of entries takes over their values. -/
theorem createWith {entries : List (String × Value)}
    (accounts : h.Accounts (entries.map (·.2) ++ held) outside) (className : String) :
    (h.createWith className entries).2.Accounts
      (.composite (h.createWith className entries).1 :: held) outside := by
  have gathered := foldl_gather entries .empty accounts
  exact gathered.create className

/-- Fields that are set one after another take over their values. -/
theorem insertFields {entries : List (String × Value)}
    (accounts : h.Accounts (entries.map (·.2) ++ held) outside) (id : CompositeId) :
    (h.insertFields id entries).Accounts held outside := by
  induction entries generalizing h with
  | nil => exact accounts
  | cons e rest ih => exact ih (accounts.insertField id e.1)

/-- Setting fields in place gives up the values if that is not allowed. -/
theorem setFields {entries : List (String × Value)}
    (accounts : h.Accounts (entries.map (·.2) ++ held) outside) (id : CompositeId) :
    (h.setFields id entries).2.Accounts held outside := by
  rw [Heap.setFields]
  cases h.checkMutation id with
  | ok _ => exact accounts.insertFields id
  | error violation => exact accounts.releaseAll

/-- Setting one field in place gives up the value if that is not allowed. -/
theorem setField {v : Value} (accounts : h.Accounts (v :: held) outside) (id : CompositeId)
    (key : String) : (h.setField id key v).2.Accounts held outside :=
  accounts.setFields id

/-- The flag of a composite does not count. -/
theorem setFlag (accounts : h.Accounts held outside) (id : CompositeId) (flag : Bool) :
    (h.setFlag id flag).Accounts held outside := by
  unfold Heap.setFlag
  cases found : h.composite? id with
  | none => exact accounts
  | some c =>
    intro node
    have eq := accounts node
    have sum := h.inner_putComposite id { c with flagged := flag } node
    simp only [contents, found] at sum
    dsimp only
    rw [handles?_putComposite]
    split
    · rename_i same
      subst same
      rw [handles?, found, Option.map_some, Option.getD_some] at eq
      rw [Option.getD_some]
      dsimp only
      omega
    · omega

/-- A copy of a composite has handles of its own. -/
theorem duplicate (accounts : h.Accounts held outside) {id : CompositeId} {c : Composite}
    (found : h.composite? id = some c) :
    (h.duplicate c).2.Accounts (.composite (h.duplicate c).1 :: held) outside := by
  have alive : ∀ v ∈ c.fields.values, h.Alive v := fun v mem =>
    accounts.closed.alive_value found mem
  exact (accounts.acquireAll alive).create c.className

/-- Separation trades a handle of one composite for a handle of another: with the
first handle counted among the nodes, and the second one held, the accounts stay
even. -/
theorem trade_separateComposite (accounts : h.Accounts held outside) {id : CompositeId}
    (alive : h.Alive (.composite id)) (node : Node) :
    ((h.separateComposite id).2.2.handles? node).getD 0 + node.usedBy (.composite id)
      = (h.separateComposite id).2.2.inner node
        + node.usedBy (.composite (h.separateComposite id).1) + node.uses held
        + outside node := by
  have eq := accounts node
  obtain ⟨c, found, pos⟩ := alive.composite?
  have live := handles?_of_composite? found
  cases can : c.isMutable with
  | true =>
    rw [separateComposite_of_mutable found can]
    dsimp only
    omega
  | false =>
    have eq' := accounts.duplicate found node
    rw [Node.uses_cons] at eq'
    have now := handles?_duplicate live c
    rw [separateComposite_of_shared found can pos]
    dsimp only
    rw [handles?_recount, inner_recount]
    by_cases same : Node.composite id = node
    · subst same
      rw [now, Option.getD_some] at eq'
      rw [if_pos rfl, now, Option.map_some, Option.getD_some,
        Node.usedBy_of_node? (v := .composite id) rfl]
      omega
    · have zero : node.usedBy (.composite id) = 0 := by simp [Node.usedBy, Value.node?, same]
      rw [if_neg same, zero]
      omega

end Accounts

/-- Separation of one composite leaves every cell with its content. -/
theorem cell?_separateComposite {h : Heap} {id : CompositeId} (alive : h.Alive (.composite id))
    {cell : CellId} (live : (h.cell? cell).isSome) :
    ((h.separateComposite id).2.2.cell? cell).isSome
      ∧ (h.separateComposite id).2.2.content cell = h.content cell := by
  obtain ⟨c, found, pos⟩ := alive.composite?
  cases can : c.isMutable with
  | true =>
    rw [separateComposite_of_mutable found can]
    exact ⟨live, rfl⟩
  | false =>
    rw [separateComposite_of_shared found can pos]
    obtain ⟨k, there⟩ := Option.isSome_iff_exists.mp live
    have counted := handles?_of_cell? there
    have now := handles?_duplicate counted c
    have same := contents_duplicate counted c
    constructor
    · have after : ((h.duplicate c).2.recount (.composite id)
          (c.count + (Node.composite id).uses c.fields.values - 1)).handles? (.cell cell)
          = some (k.count + (Node.cell cell).uses c.fields.values) := by
        rw [handles?_recount, if_neg (by simp), now]
      obtain ⟨d, there, -⟩ := Option.map_eq_some_iff.mp after
      exact Option.isSome_iff_exists.mpr ⟨d, there⟩
    · have after := contents_recount (h.duplicate c).2 (.composite id) (.cell cell)
        (c.count + (Node.composite id).uses c.fields.values - 1)
      exact List.singleton_inj.mp (after.trans same)

/-- Separation of the holder of a composite. -/
theorem separate_composite (h : Heap) (id : CompositeId) :
    h.separate (.composite id) = (.composite (h.separateComposite id).1,
      (h.separateComposite id).2.1, (h.separateComposite id).2.2) := rfl

/-- Separation of a cell that holds a composite. -/
theorem separate_ref {h : Heap} {cell : CellId} {id : CompositeId}
    (inside : h.content cell = .composite id) :
    h.separate (.ref cell) = (.ref cell, (h.separateComposite id).2.1,
      (h.separateComposite id).2.2.putContent cell (.composite (h.separateComposite id).1)) := by
  rw [separate, inside]

/-- Writing the content of a cell into it changes nothing. -/
theorem putContent_content (h : Heap) (cell : CellId) : h.putContent cell (h.content cell) = h := by
  rw [putContent, content]
  cases found : h.cell? cell with
  | none => rfl
  | some c =>
    apply ext_nodes
    · intro id
      rfl
    · intro id
      dsimp only
      rw [cell?_putCell]
      split
      · rename_i eq
        rw [← eq, found]
      · rfl

/-- A new content of one cell leaves the content of another alone. -/
theorem content_putContent_ne (h : Heap) {cell other : CellId} (v : Value) (ne : cell ≠ other) :
    (h.putContent cell v).content other = h.content other := by
  rw [putContent]
  cases h.cell? cell with
  | none => rfl
  | some c =>
    dsimp only
    rw [content, cell?_putCell, if_neg ne]
    rfl

/-- Separation of what a cell holds keeps the accounts even. -/
theorem Accounts.separate_ref {h : Heap} {held : List Value} {outside : Node → Nat}
    (accounts : h.Accounts held outside) {cell : CellId} (live : (h.cell? cell).isSome) :
    (h.separate (.ref cell)).2.2.Accounts held outside := by
  cases inside : h.content cell with
  | composite id =>
    obtain ⟨k, there⟩ := Option.isSome_iff_exists.mp live
    have counted := handles?_of_cell? there
    have alive : h.Alive (.composite id) :=
      accounts.closed _ _ counted _ (by rw [contents, inside]; exact List.mem_singleton_self _)
    obtain ⟨live', same⟩ := cell?_separateComposite alive live
    intro node
    have trade := accounts.trade_separateComposite alive node
    have sum := inner_putContent live' (.composite (h.separateComposite id).1) node
    rw [same, inside] at sum
    rw [Heap.separate_ref inside]
    dsimp only
    rw [handles?_putContent]
    omega
  | _ =>
    rw [Heap.separate, inside]
    exact accounts

/-- Separation of a holder trades its handle for the one that it then holds. -/
theorem Accounts.separate {h : Heap} {v : Value} {held : List Value} {outside : Node → Nat}
    (accounts : h.Accounts (v :: held) outside) :
    (h.separate v).2.2.Accounts ((h.separate v).1 :: held) outside := by
  cases v with
  | composite id =>
    intro node
    have trade := accounts.trade_separateComposite (accounts.alive List.mem_cons_self) node
    rw [Node.uses_cons] at trade
    rw [separate_composite, Node.uses_cons]
    dsimp only
    omega
  | ref cell =>
    obtain ⟨k, there, -⟩ := (accounts.alive List.mem_cons_self).cell?
    have same : (h.separate (.ref cell)).1 = .ref cell := by
      rw [Heap.separate]
      split <;> rfl
    rw [same]
    exact accounts.separate_ref (by rw [there]; rfl)
  | _ => exact accounts

end Heap

end OverloadMachine
