import OverloadMachine.Proofs.Forests
import OverloadMachine.Proofs.Recursions

/-!
# Recursions in forests

In a forest every recursion over values ends, within the bound that the machine's functions
set, so that they never come to their bound.
-/

namespace OverloadMachine

namespace Heap

variable {h : Heap} {v : Value}

/-! ## Depth -/

mutual

/-- A recursion from a value that unfolds goes down its tree. -/
theorem Holds.endsWithin : ∀ {t : Tree} {v : Value} {n : Nat}, h.Holds t v → t.height < n →
    h.EndsWithin n v
  | .leaf w scalar, v, n + 1, holds, _ => by
    obtain rfl : v = w := holds
    cases v <;> trivial
  | .node className fields, v, n + 1, holds, lt => by
    obtain ⟨id, c, rfl, found, rfl, each⟩ := holds
    rw [Tree.height] at lt
    have below := HoldsEach.endsWithin each (by omega : Tree.heightEach fields < n)
    intro d found' w mem
    rw [found] at found'
    cases found'
    obtain ⟨e, there, rfl⟩ := List.mem_map.mp mem
    exact below e there

/-- A recursion from the values of fields goes down their trees. -/
theorem HoldsEach.endsWithin : ∀ {ts : List (String × Tree)} {entries : List (String × Value)}
    {n : Nat}, h.HoldsEach ts entries → Tree.heightEach ts < n →
    ∀ e ∈ entries, h.EndsWithin n e.2
  | [], entries, n, each, _ => by
    obtain rfl : entries = [] := each
    exact nofun
  | (key, t) :: rest, entries, n, each, lt => by
    obtain ⟨v, others, rfl, one, later⟩ := each
    rw [Tree.heightEach] at lt
    exact List.forall_mem_cons.mpr ⟨one.endsWithin (by omega),
      later.endsWithin (by omega : Tree.heightEach rest < n)⟩

end

/-- In a forest a recursion meets at most as many nodes as there are, and then a scalar. -/
theorem IsForest.endsWithin (forest : h.IsForest) (closed : h.Closed) (alive : h.Alive v) :
    h.EndsWithin (h.size + 1) v := by
  have unbound : ∀ {w}, h.Alive w → w.Plain → h.EndsWithin (h.composites.size + 1) w := by
    intro w alive plain
    have holds := holds_tree forest.acyclic closed forest.fields alive plain
    exact holds.endsWithin (Nat.lt_succ_of_le holds.height_le)
  by_cases bound : ∃ cell, v = .ref cell
  · obtain ⟨cell, rfl⟩ := bound
    obtain ⟨c, found, -⟩ := alive.cell?
    have one : 0 < h.cells.size := by
      have smaller := OrderedMap.size_erase_of_get? (m := h.cells) found
      omega
    have below := unbound (closed.alive_content cell) (forest.cells cell)
    have whole : h.EndsWithin (h.composites.size + 1 + 1) (.ref cell) := below
    exact whole.mono (by rw [size]; omega)
  · exact (unbound alive fun cell eq => bound ⟨cell, eq⟩).mono (by rw [size]; omega)

/-! ## Answers -/

/-- The recursions over values end: unfolded as often as the machine's functions unfold
them, they have their answers, whatever calls further down would answer. -/
structure RecursionsEnd (h : Heap) : Prop where
  truth : ∀ {v}, h.Alive v → ∀ below, h.truthStep^[h.size + 1] below v = some (h.isTruthy v)
  plain : ∀ {v}, h.Alive v → ∀ below, h.plainStep^[h.size + 1] below v = some (h.plainText v)
  listing : ∀ {v}, h.Alive v → ∀ below, h.listingStep^[h.size + 1] below v = h.listing v
  order : ∀ {v w}, h.Alive v → h.Alive w → ∀ below,
    h.compareStep^[(h.size + 1) * (h.size + 1)] below v w = some (Operator.compare h v w)

/-- In a forest the recursions over values end. -/
theorem IsForest.recursionsEnd (forest : h.IsForest) (closed : h.Closed) : h.RecursionsEnd where
  truth {v} alive below := by
    have ends := forest.endsWithin closed alive
    obtain ⟨truthy, found⟩ := Option.isSome_iff_exists.mp ends.isSome_truthWithin
    rw [isTruthy, truth?, found, ends.iterate_eq truthStep_congr _ (h.truthWithin 0),
      ← truthWithin_eq, found]
    rfl
  plain {v} alive below := by
    have ends := forest.endsWithin closed alive
    obtain ⟨text, found⟩ := Option.isSome_iff_exists.mp ends.isSome_plainWithin
    rw [plainText, plain?, found, ends.iterate_eq plainStep_congr _ (h.plainWithin 0),
      ← plainWithin_eq, found]
    rfl
  listing {v} alive below := by
    have ends := forest.endsWithin closed alive
    rw [Heap.listing, listingWithin_eq]
    exact ends.iterate_eq listingStep_congr _ _
  order {v w} alive alive' below := by
    have enough : h.size + h.size < (h.size + 1) * (h.size + 1) := by
      rw [Nat.add_mul, Nat.mul_add, Nat.mul_one, Nat.one_mul]
      omega
    have ends : h.ComparesWithin ((h.size + 1) * (h.size + 1)) v w :=
      ⟨h.size, h.size, forest.endsWithin closed alive, forest.endsWithin closed alive', enough⟩
    obtain ⟨order, found⟩ := Option.isSome_iff_exists.mp ends.isSome_compareWithin
    rw [Operator.compare, Operator.compare?, found, ends.iterate_eq _ (Operator.compareWithin h 0),
      ← compareWithin_eq, found]
    rfl

end Heap

end OverloadMachine
