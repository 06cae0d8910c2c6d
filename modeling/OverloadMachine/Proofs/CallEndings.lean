import OverloadMachine.Proofs.Footprints

/-!
# Endings of calls

What the answer of a handler does behind its run. A call that does not end with the
instruction handled keeps every slot but the scratch slot, and nothing is written to a node;
one that is handled writes the place of its result.
-/

namespace OverloadMachine

namespace Store

/-- Emptying temporaries only takes nodes and handles away. -/
theorem stems_vacate (node : Node) (s : Store) (o : Operand) :
    Heap.Stems node s.heap (s.vacate o).heap := by
  cases o with
  | temp i => exact .release node _ _
  | _ => exact .refl node _

theorem stems_vacateRead (node : Node) (s : Store) (instr : Instruction) :
    Heap.Stems node s.heap (s.vacateRead instr).heap := by
  have first : Heap.Stems node s.heap
      (if instr.op1 ≠ instr.result then s.vacate instr.op1 else s).heap := by
    split
    · exact stems_vacate node s instr.op1
    · exact .refl node _
  unfold vacateRead
  dsimp only
  split
  · exact first.trans (stems_vacate node _ instr.op2)
  · exact first

end Store

namespace Effect

variable {constants : Array Value} {instr : Instruction} {node : Node}

/-- Giving up the result that was held back only takes nodes and handles away. -/
theorem stems_dropPending (node : Node) (pending : Option Value) (s : Store) :
    Heap.Stems node s.heap (dropPending pending s).heap := by
  cases pending with
  | none => exact .refl node _
  | some v => exact .release node _ v

/-- To store the result leaves the nodes alone that the result does not show. -/
theorem stems_storePending (pending : Option Value) (s : Store)
    (ne : (s.target constants instr.result).touch ≠ .node node) :
    Heap.Stems node s.heap (storePending constants instr pending s).heap := by
  unfold storePending
  split
  · split
    · exact .release node _ _
    · have stems := Store.stems_overwrite (s.defining constants instr.result) ne
      rw [Store.heap_defining] at stems
      exact stems _
  · exact .refl node _

/-- At its end a call empties the scratch slot and leaves the others alone. -/
theorem get?_cleared (s : Store) {slot : Slot} (ne : slot ≠ .scratch) :
    (s.overwrite (.slot .scratch) .null).frame.get? slot = s.frame.get? slot :=
  s.get?_overwrite_ne (fun eq => ne (Place.slot.inj eq).symm) .null

theorem stems_cleared (node : Node) (s : Store) :
    Heap.Stems node s.heap (s.overwrite (.slot .scratch) .null).heap :=
  .release node _ _

/-- A call ends with the instruction handled, with it declined, or with a fault. -/
theorem settle_cases (constants : Array Value) (instr : Instruction) (answer : Option Answer)
    (d : CallState) :
    (answer = some .handled ∧ d.violation = none
        ∧ settle constants instr (answer, d) = (.ok .handled,
          ((storePending constants instr d.pending d.store).vacateRead instr).overwrite
            (.slot .scratch) .null))
      ∨ (∃ reply, answer = some reply ∧ reply.Declines ∧ d.violation = none
        ∧ settle constants instr (answer, d) = (.ok .declined,
          (dropPending d.pending d.store).overwrite (.slot .scratch) .null))
      ∨ ∃ fault, settle constants instr (answer, d)
        = (.error fault, dropPending d.pending d.store) := by
  cases answer with
  | none => exact .inr (.inr ⟨_, rfl⟩)
  | some reply =>
    cases met : d.violation with
    | some violation => exact .inr (.inr ⟨.contract violation, by simp only [settle, met]⟩)
    | none =>
      cases reply with
      | handled => exact .inl ⟨rfl, rfl, by simp only [settle, met, conclude]⟩
      | declined =>
        exact .inr (.inl ⟨_, rfl, trivial, rfl, by simp only [settle, met, conclude]⟩)
      | unsupported reason =>
        exact .inr (.inl ⟨_, rfl, trivial, rfl, by simp only [settle, met, conclude]⟩)
      | violated violation =>
        exact .inr (.inr ⟨.contract violation, by simp only [settle, met, conclude]⟩)

/-- A call that does not end with the instruction handled keeps the slots, and only takes
nodes and handles away. -/
theorem settle_unhandled {ending : Option Answer × CallState}
    (unhandled : (settle constants instr ending).1 ≠ .ok .handled) :
    (∀ slot, slot ≠ .scratch →
        (settle constants instr ending).2.frame.get? slot = ending.2.store.frame.get? slot)
      ∧ ∀ node, Heap.Stems node ending.2.store.heap (settle constants instr ending).2.heap := by
  obtain ⟨answer, d⟩ := ending
  rcases settle_cases constants instr answer d with
    ⟨-, -, eq⟩ | ⟨reply, -, -, -, eq⟩ | ⟨fault, eq⟩
  · rw [eq] at unhandled
    exact absurd rfl unhandled
  · rw [eq]
    refine ⟨fun slot ne => ?_, fun node => ?_⟩
    · exact (get?_cleared _ ne).trans (congrArg (·.get? slot) (frame_dropPending d.pending d.store))
    · exact (stems_dropPending node d.pending d.store).trans (stems_cleared node _)
  · rw [eq]
    exact ⟨fun slot _ => congrArg (·.get? slot) (frame_dropPending d.pending d.store),
      fun node => stems_dropPending node d.pending d.store⟩

/-- At its end a call only takes nodes and handles away, but for the place of the result. -/
theorem stems_settle {ending : Option Answer × CallState}
    (ne : (ending.2.store.target constants instr.result).touch ≠ .node node) :
    Heap.Stems node ending.2.store.heap (settle constants instr ending).2.heap := by
  by_cases handled : (settle constants instr ending).1 = .ok .handled
  · obtain ⟨answer, d⟩ := ending
    rcases settle_cases constants instr answer d with
      ⟨-, -, eq⟩ | ⟨reply, -, -, -, eq⟩ | ⟨fault, eq⟩
    · rw [eq]
      exact ((stems_storePending d.pending d.store ne).trans
        (Store.stems_vacateRead node _ instr)).trans (stems_cleared node _)
    · rw [eq] at handled
      cases handled
    · rw [eq] at handled
      cases handled
  · exact (settle_unhandled handled).2 node

end Effect

end OverloadMachine
