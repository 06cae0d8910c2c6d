import Mathlib.Data.Nat.Find
import OverloadMachine.Proofs.Recursions

/-!
# Grounded values

A value is grounded if every way down from it ends, through composites and cells in any
nesting. A recursion that starts at a grounded value meets no node twice on its way, so it
makes no more nested calls than there are nodes, and the bound that the machine's functions
set is never reached. In particular the loose order of grounded values is what the recursion
without a bound makes of the loose orders below them. This holds in every heap, whatever
cycles there are elsewhere in it.
-/

namespace OverloadMachine

namespace Heap

/-- Every way down from a value ends: its handles name nodes that are there, and no way leads
back to where it came from. -/
inductive Grounded (h : Heap) : Value → Prop where
  | scalar {v : Value} (scalar : v.node? = none) : Grounded h v
  | handle {v : Value} {node : Node} {count : Nat} (names : v.node? = some node)
      (live : h.handles? node = some count) (below : ∀ w ∈ h.contents node, Grounded h w) :
      Grounded h v

variable {h : Heap} {node : Node} {v w : Value}

/-! ## Composites and cells -/

/-- What a composite that is there holds. -/
theorem contents_of_composite? {id : CompositeId} {c : Composite}
    (found : h.composite? id = some c) : h.contents (.composite id) = c.fields.values := by
  rw [contents, found]

/-- A composite with grounded fields is grounded. -/
theorem Grounded.composite {id : CompositeId} {c : Composite} (found : h.composite? id = some c)
    (fields : ∀ w ∈ c.fields.values, h.Grounded w) : h.Grounded (.composite id) := by
  rw [← contents_of_composite? found] at fields
  exact .handle rfl (handles?_of_composite? found) fields

/-- A cell with a grounded content is grounded. -/
theorem Grounded.cell {id : CellId} {c : Cell} (found : h.cell? id = some c)
    (content : h.Grounded c.content) : h.Grounded (.ref id) := by
  refine .handle rfl (handles?_of_cell? found) fun w mem => ?_
  rw [contents, Heap.content, found] at mem
  exact List.mem_singleton.mp mem ▸ content

/-- What the node of a grounded value holds is grounded. -/
theorem Grounded.each (grounded : h.Grounded v) (names : v.node? = some node) :
    ∀ w ∈ h.contents node, h.Grounded w := by
  cases grounded with
  | scalar scalar =>
    rw [scalar] at names
    cases names
  | handle same _ below =>
    rw [same] at names
    cases names
    exact below

/-- The fields of a grounded composite are grounded. -/
theorem Grounded.fields {id : CompositeId} {c : Composite} (grounded : h.Grounded (.composite id))
    (found : h.composite? id = some c) : ∀ w ∈ c.fields.values, h.Grounded w := by
  rw [← contents_of_composite? found]
  exact grounded.each rfl

/-- The content of a grounded cell is grounded. -/
theorem Grounded.content {id : CellId} (grounded : h.Grounded (.ref id)) :
    h.Grounded (h.content id) :=
  grounded.each rfl _ (List.mem_singleton.mpr rfl)

/-- Grounded values stay so in a heap in which the nodes remain with what they hold. -/
theorem Grounded.extend {k : Heap} (grounded : h.Grounded v)
    (live : ∀ node count, h.handles? node = some count → ∃ more, k.handles? node = some more)
    (same : ∀ node count, h.handles? node = some count → k.contents node = h.contents node) :
    k.Grounded v := by
  induction grounded with
  | scalar scalar => exact .scalar scalar
  | handle names found _ ih =>
    obtain ⟨more, found'⟩ := live _ _ found
    refine .handle names found' ?_
    rw [same _ _ found]
    exact ih

/-! ## Depth -/

/-- One more call is enough if the calls below are. -/
theorem endsWithin_succ_iff {calls : Nat} : h.EndsWithin (calls + 1) v
    ↔ ∀ node, v.node? = some node → ∀ w ∈ h.contents node, h.EndsWithin calls w := by
  cases v with
  | composite id =>
    simp only [EndsWithin, Value.node?, Option.some.injEq, forall_eq']
    cases found : h.composite? id with
    | none => simp [contents, found]
    | some c => simp [contents, found]
  | ref cell => simp [EndsWithin, Value.node?, contents]
  | _ => simp [EndsWithin, Value.node?]

/-- From a grounded value some number of nested calls is enough. -/
theorem Grounded.exists_endsWithin (grounded : h.Grounded v) : ∃ calls, h.EndsWithin calls v := by
  have most : ∀ ws : List Value, (∀ w ∈ ws, ∃ calls, h.EndsWithin calls w) →
      ∃ calls, ∀ w ∈ ws, h.EndsWithin calls w := by
    intro ws each
    induction ws with
    | nil => exact ⟨0, nofun⟩
    | cons w ws ih =>
      obtain ⟨n, first⟩ := each w List.mem_cons_self
      obtain ⟨m, rest⟩ := ih fun u mem => each u (List.mem_cons_of_mem w mem)
      refine ⟨max n m, List.forall_mem_cons.mpr ⟨first.mono (Nat.le_max_left n m), ?_⟩⟩
      exact fun u mem => (rest u mem).mono (Nat.le_max_right n m)
  induction grounded with
  | @scalar v scalar =>
    refine ⟨1, endsWithin_succ_iff.mpr fun node names => ?_⟩
    rw [scalar] at names
    cases names
  | @handle v node count names _ _ ih =>
    obtain ⟨calls, enough⟩ := most _ ih
    refine ⟨calls + 1, endsWithin_succ_iff.mpr fun other names' => ?_⟩
    rw [names] at names'
    cases names'
    exact enough

/-- A value with fewer nested calls below it than a node's handle does not lead to the node, so
it stays grounded without it. -/
theorem Grounded.drop {calls : Nat} (grounded : h.Grounded w) (names : v.node? = some node)
    (ends : h.EndsWithin calls w) (deeper : ¬h.EndsWithin calls v) :
    (h.drop node).Grounded w := by
  induction grounded generalizing calls with
  | scalar scalar => exact .scalar scalar
  | @handle w other count names' live _ ih =>
    cases calls with
    | zero => exact ends.elim
    | succ calls =>
      have below := endsWithin_succ_iff.mp ends other names'
      have ne : node ≠ other := by
        rintro rfl
        refine deeper (endsWithin_succ_iff.mpr fun third names'' => ?_)
        rw [names] at names''
        cases names''
        exact below
      have lower : ¬h.EndsWithin calls v := fun ends => deeper (ends.mono (Nat.le_succ calls))
      have live' : (h.drop node).handles? other = some count := by
        rw [handles?_drop, if_neg ne, live]
      refine .handle names' live' ?_
      rw [contents_drop h ne]
      exact fun u mem => ih u mem (below u mem) lower

/-- What ends in a smaller heap ends in a larger one if it does not lead to what was taken out. -/
theorem Grounded.endsWithin_of_drop {calls : Nat} (grounded : (h.drop node).Grounded w)
    (ends : (h.drop node).EndsWithin calls w) : h.EndsWithin calls w := by
  induction grounded generalizing calls with
  | @scalar w scalar =>
    cases calls with
    | zero => exact ends.elim
    | succ calls =>
      refine endsWithin_succ_iff.mpr fun node names => ?_
      rw [scalar] at names
      cases names
  | @handle w other count names live _ ih =>
    cases calls with
    | zero => exact ends.elim
    | succ calls =>
      have ne : node ≠ other := by
        rintro rfl
        simp at live
      have below := endsWithin_succ_iff.mp ends other names
      refine endsWithin_succ_iff.mpr fun third names' => ?_
      rw [names] at names'
      cases names'
      rw [contents_drop h ne] at ih below
      exact fun u mem => ih u mem (below u mem)

/-- From a grounded value a recursion meets at most as many nodes as there are. The induction is
on their number: the node at the value is left out of the way below it. -/
theorem Grounded.endsWithin_size (grounded : h.Grounded v) : h.EndsWithin (h.size + 1) v := by
  induction size : h.size generalizing h v with
  | zero =>
    refine endsWithin_succ_iff.mpr fun node names => ?_
    cases grounded with
    | scalar scalar =>
      rw [scalar] at names
      cases names
    | handle _ live _ =>
      have smaller := size_drop live
      omega
  | succ size ih =>
    refine endsWithin_succ_iff.mpr fun node names w mem => ?_
    -- The least number of calls for the value is too large for what is below it.
    have exists_least := grounded.exists_endsWithin
    classical
    have enough := Nat.find_spec exists_least
    have least := fun n => Nat.find_min exists_least (m := n)
    generalize Nat.find exists_least = calls at enough least
    cases calls with
    | zero => exact enough.elim
    | succ calls =>
      have ends := endsWithin_succ_iff.mp enough node names w mem
      have apart := (grounded.each names w mem).drop names ends (least calls (Nat.lt_succ_self _))
      refine apart.endsWithin_of_drop (ih apart ?_)
      cases grounded with
      | scalar scalar =>
        rw [scalar] at names
        cases names
      | handle same live _ =>
        rw [same] at names
        cases names
        have smaller := size_drop live
        omega

/-! ## The loose order -/

/-- A comparison of grounded values ends within its bound. -/
theorem Grounded.comparesWithin (left : h.Grounded v) (right : h.Grounded w) :
    h.ComparesWithin ((h.size + 1) * (h.size + 1)) v w := by
  refine ⟨h.size, h.size, left.endsWithin_size, right.endsWithin_size, ?_⟩
  rw [Nat.add_mul, Nat.mul_add, Nat.mul_one, Nat.one_mul]
  omega

/-- The loose order of grounded values is found. -/
theorem Grounded.compare?_eq_some (left : h.Grounded v) (right : h.Grounded w) :
    Operator.compare? h v w = some (Operator.compare h v w) := by
  have ends := (left.comparesWithin right).isSome_compareWithin
  obtain ⟨order, found⟩ := Option.isSome_iff_exists.mp ends
  rw [Operator.compare, Operator.compare?, found]
  rfl

/-- The loose order of grounded values is what one call makes of the loose orders below them. -/
theorem Grounded.compare?_eq (left : h.Grounded v) (right : h.Grounded w) :
    Operator.compare? h v w = h.compareStep (Operator.compare? h) v w := by
  have whole : Operator.compare? h
      = h.compareStep^[(h.size + 1) * (h.size + 1)] (Operator.compareWithin h 0) :=
    compareWithin_eq h _
  have ends := left.comparesWithin right
  calc Operator.compare? h v w
      = h.compareStep^[(h.size + 1) * (h.size + 1)]
          (h.compareStep (Operator.compareWithin h 0)) v w := by
        rw [whole]
        exact ends.iterate_eq _ _
    _ = h.compareStep (Operator.compare? h) v w := by
        rw [← Function.iterate_succ_apply, Function.iterate_succ_apply', ← whole]

end Heap

end OverloadMachine
