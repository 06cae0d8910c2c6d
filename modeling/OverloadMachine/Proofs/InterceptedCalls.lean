import OverloadMachine.Proofs.CallEndings

/-!
# Intercepted calls

What a call may change whose handler only assigns: it writes the first operand and sets the
result, in any order and as often as it likes, and changes no composite in place. What it
writes goes to the place that the first operand shows, and the result is held back until it
has answered. A handled instruction then stores the result that was set last and empties
the temporaries that it has read. One that is declined, or fails, does neither.
-/

namespace OverloadMachine

/-- An instruction empties a slot when it is handled: that of an operand which is a temporary
and not the result. -/
def Instruction.Vacates (instr : Instruction) (slot : Slot) : Prop :=
  ∃ i, slot = .temp i ∧ .temp i ≠ instr.result ∧ (instr.op1 = .temp i ∨ instr.op2 = .temp i)

/-- The result is not emptied. -/
theorem Instruction.not_vacates_result (instr : Instruction) (constants : Array Value) :
    ¬instr.Vacates (instr.result.slot constants) := by
  rintro ⟨i, same, ne, -⟩
  exact Operand.temp_ne_slot ne constants same.symm

namespace Store

variable {s : Store} {instr : Instruction} {slot : Slot} {node : Node}

/-- A slot that is bound is there. -/
theorem Binds.get?_eq {cell : CellId} (binds : s.Binds slot cell) :
    s.frame.get? slot = some (.ref cell) := by
  unfold Binds Frame.get at binds
  cases found : s.frame.get? slot with
  | none =>
    rw [found] at binds
    cases binds
  | some v =>
    rw [found] at binds
    exact congrArg some binds

/-! ## Temporaries that are emptied -/

theorem get?_vacate_ne (s : Store) {o : Operand} (ne : ∀ i, o = .temp i → slot ≠ .temp i) :
    (s.vacate o).frame.get? slot = s.frame.get? slot := by
  cases o with
  | temp i => exact s.get?_overwrite_ne (fun eq => ne i rfl (Place.slot.inj eq).symm) .null
  | _ => rfl

/-- A slot that is emptied is empty, whether or not the frame has it. -/
theorem get_vacate_self (s : Store) (i : Nat) :
    (s.vacate (.temp i)).frame.get (.temp i) = .null := by
  unfold vacate
  rw [frame_overwrite]
  simp only [Frame.get, Frame.get?, Frame.put, Array.getElem?_setIfInBounds, if_true]
  split <;> rfl

/-- What is empty stays so when operands are emptied. -/
theorem get_vacate_of_null (empty : s.frame.get slot = .null) (o : Operand) :
    (s.vacate o).frame.get slot = .null := by
  by_cases same : ∃ i, o = .temp i ∧ slot = .temp i
  · obtain ⟨i, rfl, rfl⟩ := same
    exact s.get_vacate_self i
  · have kept : (s.vacate o).frame.get? slot = s.frame.get? slot :=
      s.get?_vacate_ne fun i is eq => same ⟨i, is, eq⟩
    exact (congrArg (·.getD .null) kept).trans empty

/-- An instruction leaves the slots alone that it does not empty. -/
theorem get?_vacateRead_ne (s : Store) (kept : ¬instr.Vacates slot) :
    (s.vacateRead instr).frame.get? slot = s.frame.get? slot := by
  have first : (if instr.op1 ≠ instr.result then s.vacate instr.op1 else s).frame.get? slot
      = s.frame.get? slot := by
    split
    · rename_i read
      exact s.get?_vacate_ne fun i is eq => kept ⟨i, eq, is ▸ read, .inl is⟩
    · rfl
  unfold vacateRead
  dsimp only
  split
  · rename_i read
    exact (get?_vacate_ne _ fun i is eq => kept ⟨i, eq, is ▸ read, .inr is⟩).trans first
  · exact first

/-- An instruction empties the slots that it is said to empty. -/
theorem get_vacateRead (s : Store) (vacates : instr.Vacates slot) :
    (s.vacateRead instr).frame.get slot = .null := by
  obtain ⟨i, rfl, ne, first | second⟩ := vacates
  · have emptied : (if instr.op1 ≠ instr.result then s.vacate instr.op1 else s).frame.get
        (.temp i) = .null := by
      rw [first, if_pos ne]
      exact s.get_vacate_self i
    unfold vacateRead
    dsimp only
    split
    · exact get_vacate_of_null emptied instr.op2
    · exact emptied
  · unfold vacateRead
    dsimp only
    rw [second, if_pos ne]
    exact get_vacate_self _ i

end Store

/-! ## The result that is stored -/

namespace Effect

variable {f : Function} {instr : Instruction} {pc : Nat} {outside : Node → Nat} {s : Store}
  {slot : Slot} {node : Node} {v : Value} {constants : Array Value}

/-- To store the result leaves the slots alone but for that of the result. -/
theorem get?_storePending_ne (pending : Option Value) (s : Store)
    (ne : slot ≠ instr.result.slot constants) :
    (storePending constants instr pending s).frame.get? slot = s.frame.get? slot := by
  unfold storePending
  split
  · split
    · rfl
    · exact (Store.get?_overwrite_ne _ (Store.target_ne_slot _ ne) _).trans
        (Store.get?_defining_ne _ ne)
  · rfl

/-- To store the result leaves the values of the slots alone that the result does not show. -/
theorem get_storePending_ne (pending : Option Value) (s : Store)
    (ne : s.target constants instr.result ≠ .slot slot) :
    (storePending constants instr pending s).frame.get slot = s.frame.get slot := by
  unfold storePending
  split
  · split
    · rfl
    · have same := Store.get?_overwrite_ne (s.defining constants instr.result) ne
      exact (congrArg (·.getD .null) (same _)).trans (Store.get_defining _ _ _ slot)
  · rfl

/-- The place that the result shows has the value that is stored. -/
theorem peek_storePending (checked : instr.Checked f pc)
    (acc : s.Accounted f outside [v]) (used : instr.result.isUnused = false) :
    (storePending f.constants instr (some v) s).peek (s.target f.constants instr.result) = v := by
  have stored : storePending f.constants instr (some v) s
      = s.assign f.constants instr.result v := by
    simp only [storePending, used, Bool.false_eq_true, if_false]
  rw [stored]
  cases shows : s.target f.constants instr.result with
  | slot slot =>
    have has := acc.hasPlace_defining checked.result instr.result
    rw [Store.assign, shows]
    rw [shows] at has
    exact Frame.get_put_self has v
  | cell cell => exact Store.content_assign acc checked.result (Store.placeOf_eq_cell.mp shows)

end Effect

/-! ## Handlers that only assign -/

namespace CallState

variable {ctx : CallContext}

/-- Looking for the place to write leaves the result that is held back. -/
theorem pending_target (c : CallState) : (c.target ctx).2.pending = c.pending := by
  unfold target
  dsimp only
  split
  · split <;> rfl
  · rfl

theorem pending_write (c : CallState) (draft : Draft) :
    (c.write ctx draft).2.pending = c.pending := by
  have kept : ((c.build ctx draft).2.target ctx).2.pending = c.pending := pending_target _
  unfold write
  dsimp only
  split
  · rename_i place d eq
    rw [eq] at kept
    exact kept
  · rename_i violation d eq
    rw [eq] at kept
    exact kept

end CallState

namespace Handler

/-- A handler changes nothing but by writing the first operand and by setting the result. -/
def OnlyAssigns : Handler → Prop
  | .answer _ => True
  | .inspect next => ∀ view, (next view).OnlyAssigns
  | .note _ next => next.OnlyAssigns
  | .setResult _ next => ∀ result, (next result).OnlyAssigns
  | .write _ next => ∀ result, (next result).OnlyAssigns
  | .separate _ | .setFields _ _ _ | .setFlag _ _ | .mutate _ _ _ => False

/-- The values that a handler sets as the result of its call, in the order in which it does. -/
def results (ctx : CallContext) : Handler → CallState → List Value
  | .answer _, _ => []
  | .inspect next, c => (next (ctx.view c.store)).results ctx c
  | .note line next, c => next.results ctx (c.addNote line)
  | .setResult draft next, c =>
    let later := (next (c.setResult ctx draft).1).results ctx (c.setResult ctx draft).2
    if ctx.hasResult then (c.build ctx draft).1 :: later else later
  | .write draft next, c => (next (c.write ctx draft).1).results ctx (c.write ctx draft).2
  | .separate next, c =>
    match c.separate ctx with
    | (some result, c) => (next result).results ctx c
    | (none, _) => []
  | .setFields guarded fields next, c =>
    (next (c.setFields ctx guarded fields).1).results ctx (c.setFields ctx guarded fields).2
  | .setFlag flag next, c => (next (c.setFlag ctx flag).1).results ctx (c.setFlag ctx flag).2
  | .mutate source change next, c =>
    (next (c.mutate ctx source change).1).results ctx (c.mutate ctx source change).2

variable {f : Function} {pc : Nat} {ctx : CallContext} {outside : Node → Nat}
  {h k : Handler} {c d : CallState} {x : Touch} {slot : Slot} {cell : CellId}

/-- The result that is held back in the end is the one that was set last. -/
theorem pending_run (only : h.OnlyAssigns) (c : CallState) :
    (h.run ctx c).2.pending = (h.results ctx c).getLast?.or c.pending := by
  induction h generalizing c with
  | answer reply => rfl
  | inspect next ih => exact ih _ (only _) c
  | note line next ih => exact ih only (c.addNote line)
  | setResult draft next ih =>
    have later := ih (c.setResult ctx draft).1 (only _) (c.setResult ctx draft).2
    rw [run, results]
    refine later.trans ?_
    split
    · rename_i given
      have held : (c.setResult ctx draft).2.pending = some (c.build ctx draft).1 := by
        unfold CallState.setResult
        dsimp only
        rw [if_pos given]
      rw [held, List.getLast?_cons, Option.some_or]
      cases List.getLast? _ <;> rfl
    · rename_i absent
      have held : (c.setResult ctx draft).2.pending = c.pending := by
        unfold CallState.setResult
        dsimp only
        rw [if_neg absent]
        rfl
      rw [held]
  | write draft next ih =>
    have held : (c.write ctx draft).2.pending = c.pending := CallState.pending_write c draft
    have later := ih (c.write ctx draft).1 (only _) (c.write ctx draft).2
    rw [held] at later
    exact later
  | _ => exact only.elim

/-- A handler that only assigns comes to answer. -/
theorem answers_run (only : h.OnlyAssigns) (c : CallState) :
    ∃ reply, (h.run ctx c).1 = some reply := by
  induction h generalizing c with
  | answer reply => exact ⟨reply, rfl⟩
  | inspect next ih => exact ih _ (only _) c
  | note line next ih => exact ih only _
  | setResult draft next ih => exact ih _ (only _) _
  | write draft next ih => exact ih _ (only _) _
  | _ => exact only.elim

namespace OnlyAssigns

/-- What is left of a handler that only assigns only assigns. -/
theorem advance (only : h.OnlyAssigns) (advances : h.advance ctx c = some (k, d)) :
    k.OnlyAssigns := by
  cases h with
  | answer reply => cases advances
  | inspect next =>
    cases advances
    exact only _
  | note line next =>
    cases advances
    exact only
  | setResult draft next =>
    cases advances
    exact only _
  | write draft next =>
    cases advances
    exact only _
  | _ => exact only.elim

theorem reaches (only : h.OnlyAssigns) (reaches : Reaches ctx h c k d) : k.OnlyAssigns := by
  induction reaches with
  | start => exact only
  | step _ advances ih => exact ih.advance advances

/-- A step changes the place that the first operand shows, if the instruction assigns. -/
theorem touch?_eq (only : h.OnlyAssigns) (touches : h.touch? ctx c = some x) :
    ctx.category.isAssignment = true
      ∧ x = (c.store.target ctx.constants ctx.instr.op1).touch := by
  cases h with
  | write draft next =>
    by_cases assigns : ctx.category.isAssignment = true
    · rw [touch?, if_pos assigns] at touches
      exact ⟨assigns, (Option.some.inj touches).symm⟩
    · rw [touch?, if_neg assigns] at touches
      cases touches
  | separate next => exact only.elim
  | setFields guarded fields next => exact only.elim
  | setFlag flag next => exact only.elim
  | mutate source change next => exact only.elim
  | _ => cases touches

/-- A run changes the slot of the first operand, or a cell that this is bound to when the
handler has answered: what is bound stays bound. -/
theorem touched (only : h.OnlyAssigns) (fits : c.store.frame.Fits f)
    (touches : h.Touches ctx c x) :
    ctx.category.isAssignment = true
      ∧ (x = .slot (ctx.instr.op1.slot ctx.constants)
        ∨ ∃ cell, (h.run ctx c).2.store.Binds (ctx.instr.op1.slot ctx.constants) cell
          ∧ x = .node (.cell cell)) := by
  obtain ⟨k, d, reaches, touches⟩ := touches
  obtain ⟨assigns, rfl⟩ := (only.reaches reaches).touch?_eq touches
  refine ⟨assigns, ?_⟩
  cases shows : d.store.target ctx.constants ctx.instr.op1 with
  | slot slot =>
    obtain ⟨rfl, -⟩ := Store.placeOf_eq_slot shows
    exact .inl rfl
  | cell cell =>
    have bound : d.Binds f (ctx.instr.op1.slot ctx.constants) cell :=
      ⟨(ctx.stable_fits f).reaches fits reaches, Store.placeOf_eq_cell.mp shows⟩
    rw [run_of_reaches reaches]
    exact .inr ⟨cell, (bound.run ctx k).binds, rfl⟩

/-- A step leaves a slot alone that it does not touch; it does not even define its variable. -/
theorem get?_advance (only : h.OnlyAssigns) (call : ctx.Of f pc) (acc : c.Accounted f outside)
    (advances : h.advance ctx c = some (k, d)) (untouched : h.touch? ctx c ≠ some (.slot slot)) :
    d.store.frame.get? slot = c.store.frame.get? slot := by
  by_cases first : slot = ctx.instr.op1.slot ctx.constants
  · cases h with
    | write draft next =>
      cases advances
      by_cases assigns : ctx.category.isAssignment = true
      · rw [touch?, if_pos assigns] at untouched
        -- What is written is not the slot, so the slot is bound, and it stays bound.
        cases shows : c.store.target ctx.constants ctx.instr.op1 with
        | slot other =>
          obtain ⟨rfl, -⟩ := Store.placeOf_eq_slot shows
          rw [shows, first] at untouched
          exact absurd rfl untouched
        | cell cell =>
          have bound : c.Binds f slot cell :=
            ⟨acc.fits, first ▸ Store.placeOf_eq_cell.mp shows⟩
          rw [(bound.write ctx draft).get?_eq, bound.binds.get?_eq]
      · have refused : (c.build ctx draft).2.target ctx
            = (.error (.notAssignable ctx.instr.opcode),
              (c.build ctx draft).2.refuse (.notAssignable ctx.instr.opcode)) := by
          rw [CallState.target, if_neg assigns]
        unfold CallState.write
        dsimp only
        rw [refused]
        rfl
    | setResult draft next =>
      cases advances
      unfold CallState.setResult
      dsimp only
      split
      · split <;> rfl
      · rfl
    | answer reply => cases advances
    | inspect next =>
      cases advances
      rfl
    | note line next =>
      cases advances
      rfl
    | _ => exact only.elim
  · exact (CallState.spares_advance call acc advances).others slot first

/-- While a handler runs a slot is as before that it does not touch. So it does not see the
result that it has set. -/
theorem get?_reaches (only : h.OnlyAssigns) (call : ctx.Of f pc) (acc : c.Accounted f outside)
    (reaches : Reaches ctx h c k d) (untouched : ¬h.Touches ctx c (.slot slot)) :
    d.store.frame.get? slot = c.store.frame.get? slot := by
  induction reaches with
  | start => rfl
  | step before advances ih =>
    exact ((only.reaches before).get?_advance call (before.accounted call acc) advances
      fun touched => untouched ⟨_, _, before, touched⟩).trans ih

end OnlyAssigns

/-- What a call with a handler that only assigns may have changed when it has ended with an
outcome and a store. The handler starts in one state and has answered in the other. -/
structure Confined (ctx : CallContext) (h : Handler) (outside : Node → Nat) (c d : CallState)
    (outcome : Except Fault Decision) (t : Store) : Prop where
  /-- The handler itself changes the slot of the first operand, or a cell that this is bound to,
  and it does only if the instruction assigns. -/
  touched : ∀ x, h.Touches ctx c x → ctx.category.isAssignment = true
    ∧ (x = .slot (ctx.instr.op1.slot ctx.constants)
      ∨ ∃ cell, d.store.Binds (ctx.instr.op1.slot ctx.constants) cell ∧ x = .node (.cell cell))
  /-- What is bound before the call is bound when the handler has answered. -/
  bound : ∀ slot cell, c.store.Binds slot cell → d.store.Binds slot cell
  /-- While the handler runs, what it does not write shows what it has shown; no result is seen
  before it is stored. -/
  running : ∀ k e, Reaches ctx h c k e → ∀ slot, ¬h.Touches ctx c (c.store.placeOf slot).touch →
    e.store.placeOf slot = c.store.placeOf slot
      ∧ e.store.peek (c.store.placeOf slot) = c.store.peek (c.store.placeOf slot)
  /-- Slots that no operand names are as before. -/
  others : ∀ slot, slot ∉ [.scratch, ctx.instr.op1.slot ctx.constants,
      ctx.instr.op2.slot ctx.constants, ctx.instr.result.slot ctx.constants] →
    t.frame.get? slot = c.store.frame.get? slot
  /-- Cells that neither the first operand nor the result is bound to are as before, if they
  are not destroyed, and so are composites. -/
  nodes : ∀ node body, c.store.heap.body? node = some body →
    (∀ cell, node = .cell cell → ¬d.store.Binds (ctx.instr.op1.slot ctx.constants) cell
      ∧ ¬d.store.Binds (ctx.instr.result.slot ctx.constants) cell) →
    h.Outlives ctx c t node → t.heap.body? node = some body
  /-- What has a handle in a slot that no operand names, or outside, is not destroyed. -/
  outlives : ∀ node, (0 < outside node ∨ ∃ slot, slot ∉ [.scratch,
      ctx.instr.op1.slot ctx.constants, ctx.instr.op2.slot ctx.constants,
      ctx.instr.result.slot ctx.constants] ∧ (c.store.frame.get slot).node? = some node) →
    h.Outlives ctx c t node
  /-- Slots that the handler does not write are as before, whatever operands name them, if the
  instruction is not handled. If it is, those are that it does not empty and in which it
  stores no result. -/
  kept : ∀ slot, slot ≠ .scratch → ¬h.Touches ctx c (.slot slot) →
    (outcome = .ok .handled → ¬ctx.instr.Vacates slot
      ∧ (h.results ctx c = [] ∨ slot ≠ ctx.instr.result.slot ctx.constants)) →
    t.frame.get? slot = c.store.frame.get? slot
  /-- In the same way slots show what they have shown, also through the cells that they are
  bound to. -/
  shown : ∀ slot, slot ≠ .scratch → ¬h.Touches ctx c (c.store.placeOf slot).touch →
    (outcome = .ok .handled → ¬ctx.instr.Vacates slot
      ∧ (h.results ctx c = []
        ∨ c.store.placeOf slot ≠ d.store.target ctx.constants ctx.instr.result)) →
    t.placeOf slot = c.store.placeOf slot
      ∧ t.peek (c.store.placeOf slot) = c.store.peek (c.store.placeOf slot)
  /-- A handled instruction empties the temporaries among its operands that are not the
  result. -/
  emptied : outcome = .ok .handled → ∀ slot, ctx.instr.Vacates slot → t.frame.get slot = .null
  /-- A handled instruction stores the result that was set last, through the cell that the
  result is bound to; if none was set it leaves what is there. The result stays bound. -/
  stored : outcome = .ok .handled → ctx.instr.result.isUnused = false →
    t.peek (d.store.target ctx.constants ctx.instr.result)
        = (h.results ctx c).getLast?.getD
          (d.store.peek (d.store.target ctx.constants ctx.instr.result))
      ∧ ∀ cell, d.store.Binds (ctx.instr.result.slot ctx.constants) cell →
        t.Binds (ctx.instr.result.slot ctx.constants) cell
  /-- An instruction that does not assign changes its first operand only where it empties it or
  stores its result in it. -/
  first : ctx.category.isAssignment = false →
    ctx.instr.op1.slot ctx.constants ≠ .scratch →
    (outcome = .ok .handled → ¬ctx.instr.Vacates (ctx.instr.op1.slot ctx.constants)
      ∧ (h.results ctx c = [] ∨ c.store.target ctx.constants ctx.instr.op1
        ≠ d.store.target ctx.constants ctx.instr.result)) →
    t.target ctx.constants ctx.instr.op1 = c.store.target ctx.constants ctx.instr.op1
      ∧ t.peek (c.store.target ctx.constants ctx.instr.op1)
        = c.store.peek (c.store.target ctx.constants ctx.instr.op1)

/-- A call of a handler that only assigns, from its start to its end. -/
structure Ended (f : Function) (pc : Nat) (outside : Node → Nat) (ctx : CallContext) (h : Handler)
    (c : CallState) (reply : Answer) (d : CallState) (outcome : Except Fault Decision)
    (t : Store) : Prop where
  call : ctx.Of f pc
  acc : c.Accounted f outside
  fresh : c.pending = none
  only : h.OnlyAssigns
  runs : h.run ctx c = (some reply, d)
  settles : Effect.settle ctx.constants ctx.instr (some reply, d) = (outcome, t)

namespace Ended

variable {reply : Answer} {outcome : Except Fault Decision} {t : Store} {node : Node} {b : Body}

theorem reaches (ended : Ended f pc outside ctx h c reply d outcome t) :
    Reaches ctx h c (.answer reply) d := reaches_answer ended.runs

/-- The state in which the handler has answered is accounted for. -/
theorem after (ended : Ended f pc outside ctx h c reply d outcome t) : d.Accounted f outside :=
  ended.reaches.accounted ended.call ended.acc

theorem settled (ended : Ended f pc outside ctx h c reply d outcome t) :
    t.Accounted f outside [] := by
  have settled : (Effect.settle f.constants ctx.instr (some reply, d)).2.Accounted f outside [] :=
    Effect.settle_accounted ended.call.checked ended.after
  rw [← ended.call.constants, ended.settles] at settled
  exact settled

/-- What is held back when the handler has answered is the result that was set last. -/
theorem pending_eq (ended : Ended f pc outside ctx h c reply d outcome t) :
    d.pending = (h.results ctx c).getLast? := by
  have held : (h.run ctx c).2.pending = _ := pending_run ended.only c
  rw [ended.runs, ended.fresh, Option.or_none] at held
  exact held

/-- A call that was not handled keeps the slots, and only takes nodes and handles away. -/
theorem unhandled (ended : Ended f pc outside ctx h c reply d outcome t)
    (not : outcome ≠ .ok .handled) :
    (∀ slot, slot ≠ .scratch → t.frame.get? slot = d.store.frame.get? slot)
      ∧ ∀ node, Heap.Stems node d.store.heap t.heap := by
  have kept := Effect.settle_unhandled (show
    (Effect.settle ctx.constants ctx.instr (some reply, d)).1 ≠ .ok .handled by
      rw [ended.settles]; exact not)
  rw [ended.settles] at kept
  exact kept

/-- A call only takes nodes and handles away when it ends, but for the place of the result. -/
theorem stems (ended : Ended f pc outside ctx h c reply d outcome t)
    (ne : (d.store.target ctx.constants ctx.instr.result).touch ≠ .node node) :
    Heap.Stems node d.store.heap t.heap := by
  have stems := @Effect.stems_settle _ ctx.instr node (some reply, d) ne
  rwa [ended.settles] at stems

/-- A call that was handled stores the result, empties temporaries, and then clears the
scratch slot. -/
theorem handled (ended : Ended f pc outside ctx h c reply d (.ok .handled) t) :
    t = ((Effect.storePending ctx.constants ctx.instr d.pending d.store).vacateRead
      ctx.instr).overwrite (.slot .scratch) .null := by
  have settles := ended.settles
  rcases Effect.settle_cases ctx.constants ctx.instr (some reply) d with
    ⟨-, -, eq⟩ | ⟨-, -, -, -, eq⟩ | ⟨fault, eq⟩
  · rw [eq] at settles
    exact (congrArg Prod.snd settles).symm
  · rw [eq] at settles
    cases settles
  · rw [eq] at settles
    cases settles

/-- Behind the storing of the result the slots stay that are not emptied. -/
theorem get?_handled (ended : Ended f pc outside ctx h c reply d (.ok .handled) t)
    (ne : slot ≠ .scratch) (stays : ¬ctx.instr.Vacates slot) :
    t.frame.get? slot
      = (Effect.storePending ctx.constants ctx.instr d.pending d.store).frame.get? slot := by
  rw [ended.handled, Effect.get?_cleared _ ne, Store.get?_vacateRead_ne _ stays]

/-- Behind the storing of the result nodes and handles are only taken away. -/
theorem stems_handled (ended : Ended f pc outside ctx h c reply d (.ok .handled) t)
    (node : Node) :
    Heap.Stems node (Effect.storePending ctx.constants ctx.instr d.pending d.store).heap
      t.heap := by
  rw [ended.handled]
  exact (Store.stems_vacateRead node _ ctx.instr).trans (Effect.stems_cleared node _)

/-- The handler itself changes the slot of the first operand or a cell that it is bound to. -/
theorem touched (ended : Ended f pc outside ctx h c reply d outcome t)
    (touches : h.Touches ctx c x) :
    ctx.category.isAssignment = true
      ∧ (x = .slot (ctx.instr.op1.slot ctx.constants)
        ∨ ∃ cell, d.store.Binds (ctx.instr.op1.slot ctx.constants) cell
          ∧ x = .node (.cell cell)) := by
  have touched := ended.only.touched ended.acc.fits touches
  rwa [ended.runs] at touched

theorem bound (ended : Ended f pc outside ctx h c reply d outcome t)
    (binds : c.store.Binds slot cell) : d.store.Binds slot cell :=
  (CallState.Binds.reaches ⟨ended.acc.fits, binds⟩ ended.reaches).binds

/-- Slots that the handler does not write, and in which nothing is stored, stay. -/
theorem kept (ended : Ended f pc outside ctx h c reply d outcome t) (ne : slot ≠ .scratch)
    (untouched : ¬h.Touches ctx c (.slot slot))
    (stays : outcome = .ok .handled → ¬ctx.instr.Vacates slot
      ∧ (h.results ctx c = [] ∨ slot ≠ ctx.instr.result.slot ctx.constants)) :
    t.frame.get? slot = c.store.frame.get? slot := by
  have ran := ended.only.get?_reaches ended.call ended.acc ended.reaches untouched
  refine Eq.trans ?_ ran
  by_cases eq : outcome = .ok .handled
  · subst eq
    obtain ⟨full, free⟩ := stays rfl
    rw [ended.get?_handled ne full]
    rcases free with unset | apart
    · rw [ended.pending_eq, unset]
      rfl
    · exact Effect.get?_storePending_ne d.pending d.store apart
  · exact (ended.unhandled eq).1 slot ne

/-- What slots show stays that the handler does not write and in which nothing is stored. -/
theorem shown (ended : Ended f pc outside ctx h c reply d outcome t) (ne : slot ≠ .scratch)
    (untouched : ¬h.Touches ctx c (c.store.placeOf slot).touch)
    (stays : outcome = .ok .handled → ¬ctx.instr.Vacates slot
      ∧ (h.results ctx c = []
        ∨ c.store.placeOf slot ≠ d.store.target ctx.constants ctx.instr.result)) :
    t.placeOf slot = c.store.placeOf slot
      ∧ t.peek (c.store.placeOf slot) = c.store.peek (c.store.placeOf slot) := by
  obtain ⟨place, ran⟩ := ended.reaches.peek_eq ended.call ended.acc untouched
  rw [← place] at stays
  have still : t.frame.get slot = d.store.frame.get slot
      ∧ ∀ cell, d.store.Binds slot cell → Heap.Stems (.cell cell) d.store.heap t.heap := by
    by_cases eq : outcome = .ok .handled
    · subst eq
      obtain ⟨full, free⟩ := stays rfl
      have slots := congrArg (·.getD .null) (ended.get?_handled ne full)
      rcases free with unset | apart
      · have none : d.pending = none := by rw [ended.pending_eq, unset]; rfl
        have nodes := ended.stems_handled
        rw [none] at slots nodes
        exact ⟨slots, fun cell _ => nodes (.cell cell)⟩
      · -- A slot that is bound is no place, and one that is not is its own.
        have other : d.store.target ctx.constants ctx.instr.result ≠ .slot slot := fun shows => by
          obtain ⟨same, -⟩ := Store.placeOf_eq_slot shows
          exact apart (congrArg d.store.placeOf same.symm)
        refine ⟨slots.trans (Effect.get_storePending_ne d.pending d.store other),
          fun cell binds => ?_⟩
        rw [Store.placeOf_eq_cell.mpr binds] at apart
        exact ended.stems fun same => apart (Place.eq_cell_of_touch same).symm
    · obtain ⟨slots, nodes⟩ := ended.unhandled eq
      exact ⟨congrArg (·.getD .null) (slots slot ne), fun cell _ => nodes (.cell cell)⟩
  have kept := ended.settled.peek_of_stems still.1 still.2
  rw [place, ran] at kept
  refine ⟨?_, kept⟩
  rw [← place, Store.placeOf, Store.placeOf, still.1]

/-- The temporaries that are emptied. -/
theorem emptied (ended : Ended f pc outside ctx h c reply d (.ok .handled) t)
    (vacates : ctx.instr.Vacates slot) : t.frame.get slot = .null := by
  obtain ⟨i, rfl, -⟩ := id vacates
  have cleared := Effect.get?_cleared ((Effect.storePending ctx.constants ctx.instr d.pending
    d.store).vacateRead ctx.instr) (show Slot.temp i ≠ .scratch from nofun)
  rw [ended.handled]
  exact (congrArg (·.getD .null) cleared).trans (Store.get_vacateRead _ vacates)

/-- The result that is stored. -/
theorem stored (ended : Ended f pc outside ctx h c reply d (.ok .handled) t)
    (used : ctx.instr.result.isUnused = false) :
    t.peek (d.store.target ctx.constants ctx.instr.result)
        = (h.results ctx c).getLast?.getD
          (d.store.peek (d.store.target ctx.constants ctx.instr.result))
      ∧ ∀ cell, d.store.Binds (ctx.instr.result.slot ctx.constants) cell →
        t.Binds (ctx.instr.result.slot ctx.constants) cell := by
  have checked := ended.call.checked
  have storable := (checked.operator ended.call.category).result
  have ne : ctx.instr.result.slot ctx.constants ≠ .scratch := by
    rw [ended.call.constants]
    exact checked.result.slot_ne_scratch (Operand.isWritable_of_isLiteral storable used)
  have full := ctx.instr.not_vacates_result ctx.constants
  have slots := congrArg (·.getD .null) (ended.get?_handled ne full)
  have nodes := ended.stems_handled
  have binds : ∀ {cell}, d.store.Binds (ctx.instr.result.slot ctx.constants) cell →
      (Effect.storePending ctx.constants ctx.instr d.pending d.store).Binds
        (ctx.instr.result.slot ctx.constants) cell :=
    fun binds => Effect.binds_storePending binds ctx.constants ctx.instr d.pending
  refine ⟨?_, fun cell bound => slots.trans (binds bound)⟩
  rw [← ended.pending_eq]
  cases set : d.pending with
  | none =>
    rw [set] at slots nodes
    exact ended.settled.peek_of_stems slots fun cell _ => nodes (.cell cell)
  | some v =>
    have acc : d.store.Accounted f outside [v] := by
      have after : d.store.Accounted f outside d.pending.toList := ended.after
      rwa [set] at after
    have whole := Effect.peek_storePending checked acc used
    rw [← ended.call.constants, ← set] at whole
    have same := ended.settled.peek_of_stems slots fun cell _ => nodes (.cell cell)
    cases shows : d.store.target ctx.constants ctx.instr.result with
    | slot slot =>
      rw [shows] at whole
      obtain ⟨rfl, -⟩ := Store.placeOf_eq_slot shows
      exact slots.trans whole
    | cell cell =>
      rw [shows] at whole
      rw [Store.placeOf_eq_cell.mpr (binds (Store.placeOf_eq_cell.mp shows))] at same
      exact same.trans whole

/-- Nodes stay that neither the first operand nor the result is bound to, if they are not
destroyed. -/
theorem nodes (ended : Ended f pc outside ctx h c reply d outcome t)
    (was : c.store.heap.body? node = some b)
    (apart : ∀ cell, node = .cell cell →
      ¬d.store.Binds (ctx.instr.op1.slot ctx.constants) cell
        ∧ ¬d.store.Binds (ctx.instr.result.slot ctx.constants) cell)
    (outlives : h.Outlives ctx c t node) : t.heap.body? node = some b := by
  have untouched : ¬h.Touches ctx c (.node node) := fun touches => by
    obtain ⟨-, eq | ⟨cell, binds, eq⟩⟩ := ended.touched touches
    · cases eq
    · exact (apart cell (Touch.node.inj eq)).1 binds
  have ran := ended.reaches.body?_eq ended.call ended.acc outlives.1 untouched was
  have stems : Heap.Stems node d.store.heap t.heap := ended.stems fun same => by
    cases node with
    | cell cell =>
      exact (apart cell rfl).2 (Store.placeOf_eq_cell.mp (Place.eq_cell_of_touch same))
    | composite id => exact Place.touch_ne_composite _ id same
  obtain ⟨body, there⟩ := Option.isSome_iff_exists.mp outlives.2
  rw [stems body there] at ran
  rw [there, ran]

/-- A call changes nothing but what a handler that only assigns may change. -/
theorem confined (ended : Ended f pc outside ctx h c reply d outcome t) :
    h.Confined ctx outside c d outcome t := by
  have others : ∀ slot, slot ∉ [.scratch, ctx.instr.op1.slot ctx.constants,
      ctx.instr.op2.slot ctx.constants, ctx.instr.result.slot ctx.constants] →
      t.frame.get? slot = c.store.frame.get? slot := by
    intro slot apart
    simp only [List.mem_cons, List.not_mem_nil, or_false, not_or] at apart
    obtain ⟨ne, op1, op2, result⟩ := apart
    refine ended.kept ne (fun touches => ?_) fun _ => ⟨?_, .inr result⟩
    · obtain ⟨-, eq | ⟨cell, -, eq⟩⟩ := ended.touched touches
      · exact op1 (Touch.slot.inj eq)
      · cases eq
    · rintro ⟨i, rfl, -, first | second⟩
      · rw [first] at op1
        exact op1 rfl
      · rw [second] at op2
        exact op2 rfl
  refine ⟨fun x => ended.touched, fun slot cell => ended.bound,
    fun k e reaches slot => reaches.peek_eq ended.call ended.acc, others,
    fun node body was => ended.nodes was, fun node => ?_, fun slot => ended.kept,
    fun slot => ended.shown, ?_, ?_, fun not ne => ended.shown ne fun touches => ?_⟩
  · rintro (counted | ⟨slot, apart, names⟩)
    · exact outlives_of_outside ended.call ended.acc ended.settled counted
    · have same := congrArg (·.getD .null) (others slot apart)
      refine outlives_of_get ended.call ended.acc ended.settled (fun eq => ?_) same names
      exact apart (eq ▸ List.mem_cons_of_mem _ List.mem_cons_self)
  · rintro rfl
    exact fun slot => ended.emptied
  · rintro rfl
    exact ended.stored
  · have assigns := (ended.touched touches).1
    rw [not] at assigns
    cases assigns

end Ended

variable {s t : Store} {instr : Instruction} {category : Category} {order : NegationOrder}

/-- A handler that only writes the first operand and sets the result changes nothing else,
whatever becomes of the instruction. -/
theorem assigning_is_confined (verified : f.verify = .ok ()) (found : f.code[pc]? = some instr)
    (has : instr.opcode.category? = some category) (fits : s.frame.Fits f)
    (owns : s.Owns [] outside)
    (constants : ∀ node : Node, node.uses f.constants.toList ≤ outside node)
    (only : h.OnlyAssigns) :
    let ctx : CallContext := ⟨instr, category, f.constants, order⟩
    let ending := Action.invoke h f.constants order instr s
    h.Confined ctx outside ⟨s, none, none⟩ (h.run ctx ⟨s, none, none⟩).2 ending.1 ending.2 := by
  intro ctx ending
  have checked := (Function.verified_of_verify verified).checked found
  have invoked : ending = Effect.settle f.constants instr (h.run ctx ⟨s, none, none⟩) :=
    Action.invoke_eq checked has fits h order
  obtain ⟨reply, answers⟩ : ∃ reply, (h.run ctx ⟨s, none, none⟩).1 = some reply :=
    answers_run only _
  have runs : h.run ctx ⟨s, none, none⟩ = (some reply, (h.run ctx ⟨s, none, none⟩).2) :=
    Prod.ext answers rfl
  rw [runs] at invoked
  exact Ended.confined ⟨⟨checked, has, rfl⟩, ⟨fits, owns, constants⟩, rfl, only, runs, invoked.symm⟩

/-- Sets what it has written as the result, and then writes something else. -/
def superseding : Handler :=
  .write (.scalar (.int 40)) fun _ => .setResult (.copy (.operand .first)) fun _ =>
    .write (.scalar (.int 41)) fun _ => .answer .handled

/-- Adds a temporary to a variable and keeps the sum in another one. -/
def tallying : Function where
  name := "tallying"
  code := #[⟨.compound .add, .var 0, .temp 0, .var 1, 0⟩, ⟨.ret, .var 1, .unused, .unused, 0⟩]
  constants := #[]
  temporaries := 1
  variableNames := #["a", "b", "c"]

/-- Two variables are bound to one cell; another one shares a point with a temporary. -/
def bystanders : Store where
  heap :=
    let point := (Heap.empty.create "Point" .empty).2.acquire (.composite ⟨0⟩)
    (point.createCell (.int 1)).2.acquire (.ref ⟨0⟩)
  frame := { Frame.ofSizes 0 0 with
    temps := #[.composite ⟨0⟩], vars := #[.ref ⟨0⟩, .ref ⟨0⟩, .composite ⟨0⟩] }
  notes := #[]

/-- The result is stored into the cell in the end, over what was written into it later, and the
temporary gives up its point, which the third variable keeps. -/
theorem assigning_is_confined_superseding :
    let ending := Action.invoke superseding tallying.constants .valueFirst tallying.code[0]
      bystanders
    ending.1 = .ok .handled
      ∧ ending.2.peek (.cell ⟨0⟩) = .int 40
      ∧ ending.2.frame.get (.temp 0) = .null
      ∧ ending.2.frame.get? (.var 2) = some (.composite ⟨0⟩)
      ∧ ending.2.heap.body? (.composite ⟨0⟩) = some (.composite "Point" .empty false) := by
  intro ending
  have nothing : Heap.empty.Accounts [] fun _ => 0 := fun node => by cases node <;> rfl
  have one : (Heap.empty.create "Point" .empty).2.Accounts [.composite ⟨0⟩] fun _ => 0 :=
    @Heap.Accounts.create _ [] _ .empty nothing "Point"
  have two := one.acquire (one.alive List.mem_cons_self)
  have three := @Heap.Accounts.createCell _ _ _ (.int 1) (two.congr fun node => by
    rw [Node.uses_cons, node.usedBy_of_node?_eq_none rfl, Nat.zero_add])
  have four := three.acquire (three.alive List.mem_cons_self)
  have owns : bystanders.Owns [] fun _ => 0 := fun node => by
    have slots : node.uses (bystanders.frame.values ++ [])
        = node.uses [.composite ⟨0⟩, .ref ⟨0⟩, .ref ⟨0⟩, .composite ⟨0⟩, .null] := rfl
    have eq : (bystanders.heap.handles? node).getD 0 = bystanders.heap.inner node
        + node.uses [.ref ⟨0⟩, .ref ⟨0⟩, .composite ⟨0⟩, .composite ⟨0⟩] + 0 := four node
    rw [slots]
    simp only [Node.uses_cons, Node.uses_nil, Node.usedBy_null] at eq ⊢
    omega
  have found : tallying.code[0]? = some tallying.code[0] := rfl
  have confined := @assigning_is_confined tallying 0 (fun _ => 0) superseding bystanders
    tallying.code[0] .binaryAssign .valueFirst rfl found rfl ⟨by decide, by decide⟩ owns
    (fun node => Nat.zero_le _) (fun _ _ _ => trivial)
  have handled : ending.1 = .ok .handled := rfl
  obtain ⟨stored, -⟩ := confined.stored handled rfl
  have emptied := confined.emptied handled (.temp 0) ⟨0, rfl, nofun, .inr rfl⟩
  have lasts := confined.outlives (.composite ⟨0⟩) (.inr ⟨.var 2, by decide, rfl⟩)
  exact ⟨handled, stored, emptied, confined.others (.var 2) (by decide),
    confined.nodes (.composite ⟨0⟩) _ rfl nofun lasts⟩

end Handler

end OverloadMachine
