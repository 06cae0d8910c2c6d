import OverloadMachine.Proofs.NodeChanges
import OverloadMachine.Proofs.Verified

/-!
# Values as trees

A value that leads into no cycle unfolds into a tree: a scalar, or a class with the
trees of its fields. A tree says everything that a program can find out about a
value as long as it does not ask for identity, and whether parts of the value are
shared is not to be seen in it. This module unfolds values, and shows that a heap
without cycles unfolds, that the tree of a value is determined by the heap, and
that it is no higher than the heap is large.
-/

namespace OverloadMachine

/-- A scalar, or the fields of a composite under the name of its class. -/
inductive Tree where
  | leaf (v : Value) (scalar : v.node? = none)
  | node (className : String) (fields : List (String × Tree))

namespace Tree

/-- The tree of null. -/
def null : Tree := .leaf .null rfl

instance : Inhabited Tree := ⟨null⟩

/-- The tree of a scalar; that of a handle is null. -/
def ofValue (v : Value) : Tree := if scalar : v.node? = none then .leaf v scalar else null

/-- A scalar is the root of its tree. -/
theorem ofValue_of_scalar {v : Value} (scalar : v.node? = none) : ofValue v = .leaf v scalar := by
  rw [ofValue, dif_pos scalar]

mutual

/-- Number of composites on the longest way down. -/
def height : Tree → Nat
  | .leaf _ _ => 0
  | .node _ fields => heightEach fields + 1

/-- Height of the highest of some fields. -/
def heightEach : List (String × Tree) → Nat
  | [] => 0
  | (_, t) :: rest => max t.height (heightEach rest)

end

end Tree

namespace Heap

/-! ## Unfolding -/

mutual

/-- A value unfolds into a tree. -/
def Holds (h : Heap) : Tree → Value → Prop
  | .leaf w _, v => v = w
  | .node className fields, v => ∃ id c, v = .composite id ∧ h.composite? id = some c
      ∧ c.className = className ∧ HoldsEach h fields c.fields.entries

/-- Named values unfold into named trees, in order. -/
def HoldsEach (h : Heap) : List (String × Tree) → List (String × Value) → Prop
  | [], entries => entries = []
  | (key, t) :: rest, entries => ∃ v others, entries = (key, v) :: others ∧ Holds h t v
      ∧ HoldsEach h rest others

end

/-- Tree of a value within a bound on the height. -/
def treeWithin (h : Heap) : (fuel : Nat) → Value → Tree
  | 0, v => .ofValue v
  | fuel + 1, .composite id =>
    match h.composite? id with
    | some c => .node c.className (c.fields.entries.map fun e => (e.1, treeWithin h fuel e.2))
    | none => .null
  | _ + 1, v => .ofValue v

/-- Tree of a value. -/
def tree (h : Heap) (v : Value) : Tree := h.treeWithin h.size v

/-- A composite has another one in a field. -/
def Contains (h : Heap) (id other : CompositeId) : Prop :=
  ∃ c, h.composite? id = some c ∧ Value.composite other ∈ c.fields.values

/-- Composites contain no cycle. -/
def Acyclic (h : Heap) : Prop := ∀ id, ¬Relation.TransGen h.Contains id id

variable {h k : Heap}

/-- A scalar unfolds into itself. -/
theorem holds_ofValue (h : Heap) {v : Value} (scalar : v.node? = none) :
    h.Holds (.ofValue v) v := by
  rw [Tree.ofValue_of_scalar scalar]
  rfl

theorem holds_null (h : Heap) : h.Holds .null .null := rfl

/-- What unfolds is not bound to a cell. -/
theorem Holds.ne_ref {t : Tree} {v : Value} (holds : h.Holds t v) (cell : CellId) :
    v ≠ .ref cell := by
  cases t with
  | leaf w scalar =>
    intro eq
    have same : v = w := holds
    rw [← same, eq] at scalar
    cases scalar
  | node className fields =>
    obtain ⟨id, c, rfl, -⟩ := holds
    intro eq
    cases eq

/-- The tree of a scalar is its leaf. -/
theorem Holds.eq_ofValue {t : Tree} {v : Value} (holds : h.Holds t v) (scalar : v.node? = none) :
    t = .ofValue v := by
  cases t with
  | leaf w scalar' =>
    have same : v = w := holds
    subst same
    rw [Tree.ofValue_of_scalar scalar]
  | node className fields =>
    obtain ⟨id, c, rfl, -⟩ := holds
    cases scalar

/-- The tree of a composite is a node with its fields. -/
theorem Holds.of_composite {t : Tree} {id : CompositeId} (holds : h.Holds t (.composite id)) :
    ∃ c fields, h.composite? id = some c ∧ t = .node c.className fields
      ∧ h.HoldsEach fields c.fields.entries := by
  cases t with
  | leaf w scalar =>
    have same : Value.composite id = w := holds
    rw [← same] at scalar
    cases scalar
  | node className fields =>
    obtain ⟨other, c, eq, found, rfl, each⟩ := holds
    cases eq
    exact ⟨c, fields, found, rfl, each⟩

/-- As many fields have trees as there are fields. -/
theorem HoldsEach.length {fields : List (String × Tree)} {entries : List (String × Value)}
    (each : h.HoldsEach fields entries) : fields.length = entries.length := by
  induction fields generalizing entries with
  | nil =>
    have none : entries = [] := each
    rw [none]
    rfl
  | cons head rest ih =>
    obtain ⟨v, others, rfl, -, later⟩ := each
    rw [List.length_cons, List.length_cons, ih later]

mutual

/-- The tree of a value is determined by the heap. -/
theorem Holds.unique : ∀ {t u : Tree} {v : Value}, h.Holds t v → h.Holds u v → t = u
  | .leaf w scalar, u, v, first, second => by
    have same : v = w := first
    subst same
    rw [second.eq_ofValue scalar, Tree.ofValue_of_scalar scalar]
  | .node className fields, u, v, first, second => by
    obtain ⟨id, c, rfl, found, rfl, each⟩ := first
    obtain ⟨d, others, found', rfl, each'⟩ := second.of_composite
    rw [found] at found'
    cases found'
    rw [HoldsEach.unique each each']

/-- The trees of fields are determined by the heap. -/
theorem HoldsEach.unique : ∀ {ts us : List (String × Tree)} {entries : List (String × Value)},
    h.HoldsEach ts entries → h.HoldsEach us entries → ts = us
  | [], us, entries, first, second => by
    have none : entries = [] := first
    subst none
    exact (List.length_eq_zero_iff.mp second.length).symm
  | (key, t) :: rest, us, entries, first, second => by
    obtain ⟨v, others, rfl, one, later⟩ := first
    cases us with
    | nil =>
      have none : (key, v) :: others = [] := second
      cases none
    | cons head us =>
      obtain ⟨w, others', eq, one', later'⟩ := second
      cases eq
      have same := Holds.unique one one'
      have others := HoldsEach.unique later later'
      rw [same, others]

end

/-! ## Heights -/

mutual

/-- A value of a lower tree does not lead to the composite of a higher one. -/
theorem Holds.dropComposite {t : Tree} {id : CompositeId} (whole : h.Holds t (.composite id)) :
    ∀ {u : Tree} {v : Value}, h.Holds u v → u.height < t.height →
      (h.dropComposite id).Holds u v
  | .leaf w scalar, v, holds, _ => holds
  | .node className fields, v, holds, lower => by
    obtain ⟨other, c, rfl, found, rfl, each⟩ := holds
    have ne : id ≠ other := by
      intro eq
      subst eq
      have same : t = .node c.className fields :=
        whole.unique (u := .node c.className fields) ⟨id, c, rfl, found, rfl, each⟩
      rw [same] at lower
      exact Nat.lt_irrefl _ lower
    have less : Tree.heightEach fields < t.height := by
      rw [Tree.height] at lower
      omega
    refine ⟨other, c, rfl, ?_, rfl, HoldsEach.dropComposite whole each less⟩
    rw [composite?_dropComposite, if_neg ne, found]

/-- Fields with lower trees do not lead to the composite of a higher one. -/
theorem HoldsEach.dropComposite {t : Tree} {id : CompositeId} (whole : h.Holds t (.composite id)) :
    ∀ {us : List (String × Tree)} {entries : List (String × Value)}, h.HoldsEach us entries →
      Tree.heightEach us < t.height → (h.dropComposite id).HoldsEach us entries
  | [], entries, each, _ => each
  | (key, u) :: rest, entries, each, lower => by
    obtain ⟨v, others, rfl, one, later⟩ := each
    rw [Tree.heightEach] at lower
    have first : u.height < t.height := by omega
    have others' : Tree.heightEach rest < t.height := by omega
    exact ⟨v, others, rfl, Holds.dropComposite whole one first,
      HoldsEach.dropComposite whole later others'⟩

end

mutual

/-- The tree of a value is no higher than there are composites. -/
theorem Holds.height_le : ∀ {t : Tree} {h : Heap} {v : Value}, h.Holds t v →
    t.height ≤ h.composites.size
  | .leaf w scalar, h, v, _ => Nat.zero_le _
  | .node className fields, h, v, holds => by
    have whole := holds
    obtain ⟨id, c, rfl, found, rfl, each⟩ := holds
    have lower : Tree.heightEach fields < (Tree.node c.className fields).height := by
      rw [Tree.height]
      omega
    have below := HoldsEach.heightEach_le (HoldsEach.dropComposite whole each lower)
    have there : h.composites.get? id.index = some c := found
    have smaller := OrderedMap.size_erase_of_get? there
    have same : (h.dropComposite id).composites.size = (h.composites.erase id.index).size := rfl
    rw [Tree.height]
    omega

/-- The trees of fields are no higher than there are composites. -/
theorem HoldsEach.heightEach_le : ∀ {ts : List (String × Tree)} {h : Heap}
    {entries : List (String × Value)}, h.HoldsEach ts entries →
      Tree.heightEach ts ≤ h.composites.size
  | [], h, entries, _ => Nat.zero_le _
  | (key, t) :: rest, h, entries, each => by
    obtain ⟨v, others, rfl, one, later⟩ := each
    have first := one.height_le
    have second := later.heightEach_le
    rw [Tree.heightEach]
    omega

end

mutual

/-- A bound that is no lower than the tree is high enough to unfold it. -/
theorem Holds.treeWithin_eq : ∀ {t : Tree} {v : Value} {fuel : Nat}, h.Holds t v →
    t.height ≤ fuel → h.treeWithin fuel v = t
  | .leaf w scalar, v, fuel, holds, _ => by
    have same : v = w := holds
    subst same
    have leaf := Tree.ofValue_of_scalar scalar
    cases fuel with
    | zero => exact leaf
    | succ fuel => cases v <;> first | exact leaf | cases scalar
  | .node className fields, v, fuel, holds, le => by
    obtain ⟨id, c, rfl, found, rfl, each⟩ := holds
    rw [Tree.height] at le
    cases fuel with
    | zero => omega
    | succ fuel =>
      have below := HoldsEach.map_treeWithin each (by omega : Tree.heightEach fields ≤ fuel)
      rw [treeWithin, found]
      dsimp only
      rw [below]

/-- A bound that is no lower than the trees of fields is high enough to unfold them. -/
theorem HoldsEach.map_treeWithin : ∀ {ts : List (String × Tree)}
    {entries : List (String × Value)} {fuel : Nat}, h.HoldsEach ts entries →
      Tree.heightEach ts ≤ fuel → entries.map (fun e => (e.1, h.treeWithin fuel e.2)) = ts
  | [], entries, fuel, each, _ => by
    have none : entries = [] := each
    rw [none]
    rfl
  | (key, t) :: rest, entries, fuel, each, le => by
    obtain ⟨v, others, rfl, one, later⟩ := each
    rw [Tree.heightEach] at le
    have first := one.treeWithin_eq (by omega : t.height ≤ fuel)
    have others' := later.map_treeWithin (by omega : Tree.heightEach rest ≤ fuel)
    rw [List.map_cons, first, others']

end

/-- The tree of a value that unfolds. -/
theorem Holds.tree_eq {t : Tree} {v : Value} (holds : h.Holds t v) : h.tree v = t := by
  have le := holds.height_le
  exact holds.treeWithin_eq (by rw [size]; omega)

/-! ## Heaps without cycles -/

/-- Distinct keys with values are at most as many as there are values. -/
theorem length_le_size {α : Type} {keys : List Nat} {m : OrderedMap Nat α} (distinct : keys.Nodup)
    (live : ∀ key ∈ keys, (m.get? key).isSome) : keys.length ≤ m.size := by
  induction keys generalizing m with
  | nil => exact Nat.zero_le _
  | cons key rest ih =>
    obtain ⟨fresh, later⟩ := List.nodup_cons.mp distinct
    obtain ⟨a, found⟩ := Option.isSome_iff_exists.mp (live key List.mem_cons_self)
    have smaller := OrderedMap.size_erase_of_get? found
    have others := ih (m := m.erase key) later fun other mem => by
      have ne : key ≠ other := fun eq => fresh (eq ▸ mem)
      rw [OrderedMap.get?_erase, if_neg ne]
      exact live other (List.mem_cons_of_mem key mem)
    rw [List.length_cons]
    omega

/-- Fields unfold if the value of every field does. -/
theorem exists_holdsEach {entries : List (String × Value)}
    (each : ∀ e ∈ entries, ∃ t, h.Holds t e.2) : ∃ ts, h.HoldsEach ts entries := by
  induction entries with
  | nil => exact ⟨[], rfl⟩
  | cons e rest ih =>
    obtain ⟨t, one⟩ := each e List.mem_cons_self
    obtain ⟨ts, later⟩ := ih fun other mem => each other (List.mem_cons_of_mem e mem)
    exact ⟨(e.1, t) :: ts, e.2, rest, rfl, one, later⟩

/-- No composite has a field that is bound to a cell. -/
def PlainFields (h : Heap) : Prop :=
  ∀ id c, h.composite? id = some c → ∀ v ∈ c.fields.values, ∀ cell, v ≠ .ref cell

/-- A composite unfolds if no way leads back to it; on the way down to it distinct
composites were met, so there are only so many left. -/
theorem exists_holds_composite (acyclic : h.Acyclic) (closed : h.Closed) (plain : h.PlainFields)
    {left : Nat} {path : List CompositeId} {id : CompositeId} (distinct : (id :: path).Nodup)
    (live : ∀ k ∈ id :: path, (h.composite? k).isSome)
    (leads : ∀ k ∈ path, Relation.TransGen h.Contains k id)
    (enough : h.composites.size ≤ path.length + left) : ∃ t, h.Holds t (.composite id) := by
  induction left generalizing path id with
  | zero =>
    have indices : ((id :: path).map CompositeId.index).Nodup :=
      List.Pairwise.map _ (fun i j ne eq => ne (index_inj.mp eq)) distinct
    have few := length_le_size (m := h.composites) indices fun key mem => by
      obtain ⟨k, there, rfl⟩ := List.mem_map.mp mem
      exact live k there
    rw [List.length_map, List.length_cons] at few
    omega
  | succ left ih =>
    obtain ⟨c, found⟩ := Option.isSome_iff_exists.mp (live id List.mem_cons_self)
    have each : ∀ e ∈ c.fields.entries, ∃ t, h.Holds t e.2 := by
      intro e mem
      have among : e.2 ∈ c.fields.values := List.mem_map.mpr ⟨e, mem, rfl⟩
      cases field : e.2 with
      | composite other =>
        rw [field] at among
        have contains : h.Contains id other := ⟨c, found, among⟩
        have alive : h.Alive (.composite other) := closed.alive_value found among
        obtain ⟨d, found', -⟩ := alive.composite?
        have fresh : other ∉ id :: path := by
          intro met
          rcases List.mem_cons.mp met with eq | before
          · exact acyclic id (.single (eq ▸ contains))
          · exact acyclic other ((leads other before).tail contains)
        refine ih (List.nodup_cons.mpr ⟨fresh, distinct⟩) ?_ ?_ ?_
        · intro k mem
          rcases List.mem_cons.mp mem with eq | before
          · rw [eq, found']
            rfl
          · exact live k before
        · intro k mem
          rcases List.mem_cons.mp mem with eq | before
          · exact eq ▸ .single contains
          · exact (leads k before).tail contains
        · rw [List.length_cons]
          omega
      | ref cell => exact absurd field (plain id c found e.2 among cell)
      | _ => exact ⟨_, h.holds_ofValue rfl⟩
    obtain ⟨ts, all⟩ := exists_holdsEach each
    exact ⟨.node c.className ts, id, c, rfl, found, rfl, all⟩

/-- In a heap without cycles every value unfolds that is not bound to a cell. -/
theorem holds_tree (acyclic : h.Acyclic) (closed : h.Closed) (plain : h.PlainFields) {v : Value}
    (alive : h.Alive v) (value : ∀ cell, v ≠ .ref cell) : h.Holds (h.tree v) v := by
  have unfolds : ∃ t, h.Holds t v := by
    cases v with
    | composite id =>
      obtain ⟨c, found, -⟩ := alive.composite?
      have alone : [id].Nodup := List.pairwise_singleton _ id
      have enough : h.composites.size ≤ ([] : List CompositeId).length + h.composites.size :=
        Nat.le_add_left _ _
      refine exists_holds_composite acyclic closed plain alone ?_ nofun enough
      intro k mem
      rw [List.mem_singleton.mp mem, found]
      rfl
    | ref cell => exact absurd rfl (value cell)
    | _ => exact ⟨_, h.holds_ofValue rfl⟩
  obtain ⟨t, holds⟩ := unfolds
  rw [holds.tree_eq]
  exact holds

end Heap

end OverloadMachine
