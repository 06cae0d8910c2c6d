import OverloadMachine.Proofs.Descents
import OverloadMachine.Proofs.Safety
import OverloadMachine.Proofs.Transparency
import OverloadMachine.Proofs.Vacating

/-!
# What is left in the scratch slot

The scratch slot is empty between the instructions of a run, but a run may start in a frame in
which an earlier call has left something there. A reference that was left takes part in the
next instruction, since an unused result goes where it leads. Anything else does not: the
built-in operator comes to the same end whether it is given up before the operator or
behind it. What is given up may take composites and cells with it, but none that the
operator looks at.
-/

namespace OverloadMachine

namespace Store

variable {f : Function} {outside : Node → Nat} {held : List Value} {s : Store} {v : Value}
  {instr : Instruction} {o : Operand}

/-! ## Emptied slots -/

/-- Emptying the scratch slot again changes nothing. -/
theorem emptied_emptied (s : Store) :
    (s.emptied .scratch).emptied .scratch = s.emptied .scratch := by
  refine ext_parts ?_ (s.frame.put_put .scratch .null .null) rfl
  exact Heap.release_of_node?_eq_none _ rfl

/-- An assignment to an operand that can be written leaves the scratch slot alone. -/
theorem scratch_assign (s : Store) (within : o.Within f) (writable : o.isWritable = true) :
    (s.assign f.constants o v).frame.scratch = s.frame.scratch :=
  s.get_assign_ne (within.slot_ne_scratch writable).symm v

/-- Emptying temporaries leaves the scratch slot alone. -/
theorem scratch_vacateRead (s : Store) (instr : Instruction) :
    (s.vacateRead instr).frame.scratch = s.frame.scratch := by
  have one : ∀ (t : Store) (o : Operand), (t.vacate o).frame.scratch = t.frame.scratch :=
    fun t o => by cases o <;> rfl
  unfold vacateRead
  dsimp only
  split <;> split <;> simp only [one]

/-- Temporaries may be emptied before the scratch slot or behind it. -/
theorem vacate_emptied (s : Store) (fits : s.frame.Fits f) (within : o.Within f) :
    (s.emptied .scratch).vacate o = (s.vacate o).emptied .scratch := by
  cases o with
  | temp i =>
    have has : s.frame.Has (.temp i) := within.has_slot fits
    have ne : Place.slot .scratch ≠ .slot (.temp i) := nofun
    exact overwrite_comm ne ((s.frame.has_put _ _ _).mpr has) trivial
  | _ => rfl

theorem vacateRead_emptied (fits : s.frame.Fits f) (first : instr.op1.Within f)
    (second : instr.op2.Within f) :
    (s.emptied .scratch).vacateRead instr = (s.vacateRead instr).emptied .scratch := by
  have one : (if instr.op1 ≠ instr.result then (s.emptied .scratch).vacate instr.op1
      else s.emptied .scratch)
        = (if instr.op1 ≠ instr.result then s.vacate instr.op1 else s).emptied .scratch := by
    split
    · exact s.vacate_emptied fits first
    · rfl
  have still : (if instr.op1 ≠ instr.result then s.vacate instr.op1 else s).frame.Fits f := by
    split
    · exact (s.fits_vacate _ f).mpr fits
    · exact fits
  unfold vacateRead
  dsimp only
  rw [one]
  split
  · exact vacate_emptied _ still second
  · rfl

/-- A definition may be made before the scratch slot is emptied or behind it. -/
theorem defining_emptied (s : Store) (constants : Array Value) (o : Operand) :
    (s.emptied .scratch).defining constants o = (s.defining constants o).emptied .scratch :=
  defining_overwrite s (.slot .scratch) .null constants o

/-- What is stored for an unused result is gone when the scratch slot is emptied. -/
theorem emptied_assign_unused (constants : Array Value) (plain : s.frame.scratch.Plain)
    (scalar : v.node? = none) :
    (s.assign constants .unused v).emptied .scratch = s.emptied .scratch := by
  have same := Heap.release_of_node?_eq_none (s.heap.release s.frame.scratch) scalar
  have there : (s.frame.put .scratch v).get .scratch = v := rfl
  have place : s.target constants .unused = .slot .scratch := by
    rw [target, placeOf]
    split
    · rename_i cell bound
      exact absurd bound (plain cell)
    · rfl
  have defined : s.defining constants .unused = s := rfl
  have old : s.frame.get .scratch = s.frame.scratch := rfl
  rw [assign, place, defined]
  simp only [emptied, overwrite, put, peek, old, there, same, Frame.put_put]

/-- So it does not matter whether the scratch slot is emptied before a scalar result is
stored, if it is emptied behind it. -/
theorem Accounted.emptied_assign_emptied (acc : s.Accounted f outside held)
    (plain : s.frame.scratch.Plain) (within : o.Within f)
    (storable : o.isLiteral = false) (scalar : v.node? = none) :
    ((s.emptied .scratch).assign f.constants o v).emptied .scratch
      = (s.assign f.constants o v).emptied .scratch := by
  cases used : o.isUnused with
  | true =>
    obtain rfl : o = .unused := by cases o <;> first | rfl | cases used
    rw [emptied_assign_unused (s := s.emptied .scratch) _ nofun scalar,
      emptied_assign_unused _ plain scalar]
    exact emptied_emptied _
  | false =>
    have writable := Operand.isWritable_of_isLiteral storable used
    have has : s.frame.Has .scratch := trivial
    rw [acc.assign_emptied within has (within.slot_ne_scratch writable).symm v]
    exact emptied_emptied _

/-! ## Scalar results -/

/-- Put a value into the place of a result, if the result is used. -/
def deliver (s : Store) (constants : Array Value) (result : Operand) (v : Value) : Store :=
  if result.isUnused then s else s.assign constants result v

/-- A scalar is delivered without a handle of its own. -/
theorem yield_of_scalar (s : Store) (constants : Array Value) (result : Operand)
    (scalar : v.node? = none) : s.yield constants result v = s.deliver constants result v := by
  rw [yield, deliver, acquire_of_scalar s scalar]

/-- A result may be delivered before the scratch slot is emptied or afterwards. -/
theorem Accounted.deliver_emptied (acc : s.Accounted f outside held) (within : o.Within f)
    (storable : o.isLiteral = false) :
    (s.emptied .scratch).deliver f.constants o v
      = (s.deliver f.constants o v).emptied .scratch := by
  unfold Store.deliver
  cases unused : o.isUnused with
  | true => rfl
  | false =>
    have has : s.frame.Has .scratch := trivial
    have writable := Operand.isWritable_of_isLiteral storable unused
    exact acc.assign_emptied within has (within.slot_ne_scratch writable).symm v

/-! ## What operands show -/

/-- The heap lacks at most nodes that only the scratch slot held. -/
theorem remains_emptied (s : Store) : (s.emptied .scratch).heap.Remains s.heap :=
  Heap.remains_release _ _

theorem Accounted.held_emptied (within : o.Within f) :
    (s.emptied .scratch).held f.constants o = s.held f.constants o := by
  cases o with
  | dynamic i =>
    have ne := (within.slot_ne_scratch rfl).symm
    exact s.frame.get_put_ne .null ne
  | _ => rfl

/-- Operands show what they showed. -/
theorem Accounted.shown_emptied (acc : s.Accounted f outside held) (within : o.Within f) :
    (s.emptied .scratch).shown f.constants o = s.shown f.constants o := by
  have cleared : (s.emptied .scratch).Accounted f outside held := acc.emptied trivial
  have alive := cleared.alive_slot o
  rw [Accounted.held_emptied within] at alive
  rw [shown, shown, Accounted.held_emptied within]
  cases slot : s.held f.constants o with
  | ref cell =>
    rw [slot] at alive
    exact (s.remains_emptied.content alive).symm
  | _ => rfl

end Store

/-! ## Built-in operators -/

namespace Effect

variable {f : Function} {outside : Node → Nat} {s : Store} {instr : Instruction} {pc : Nat}
  {category : Category} {v : Value}

/-- The scratch slot is emptied behind an instruction that faults, if it has opened no cell
that was open. -/
theorem finishing_error {fault : Fault} (ne : fault ≠ .reentry) (s : Store) :
    finishing (.error fault, s) = (.error fault, s.emptied .scratch) := by
  cases fault <;> first | rfl | exact absurd rfl ne

/-- The end of an instruction that goes on to the next one. -/
theorem finishing_next (s : Store) :
    finishing (.ok .next, s) = (.ok .next, s.emptied .scratch) := rfl

/-- A result that is stored behind emptied temporaries does not show what the scratch slot
held. -/
theorem emptied_operate (checked : instr.Checked f pc)
    (storable : instr.result.isLiteral = false)
    (acc : s.Accounted f outside []) (plain : s.frame.scratch.Plain) (scalar : v.node? = none) :
    (((s.emptied .scratch).vacateRead instr).assign f.constants instr.result v).emptied .scratch
      = ((s.vacateRead instr).assign f.constants instr.result v).emptied .scratch := by
  have vacated := acc.vacateRead checked.op1 checked.op2
  have kept : (s.vacateRead instr).frame.scratch.Plain := by
    rw [s.scratch_vacateRead]
    exact plain
  rw [Store.vacateRead_emptied acc.fits checked.op1 checked.op2]
  exact vacated.emptied_assign_emptied kept checked.result storable scalar

theorem finishing_binary_emptied {g : Heap → Value → Value → Except Fault Value}
    (checked : instr.Checked f pc)
    (storable : instr.result.isLiteral = false)
    (acc : s.Accounted f outside []) (plain : s.frame.scratch.Plain)
    (same : ∀ {v w}, (s.emptied .scratch).heap.Alive v → (s.emptied .scratch).heap.Alive w →
      g (s.emptied .scratch).heap v w = g s.heap v w)
    (settles : ∀ h v w, Operator.Settles (g h v w))
    (scalar : ∀ {h v w u}, g h v w = .ok u → u.node? = none) :
    finishing (binary f.constants instr g (s.emptied .scratch))
      = finishing (binary f.constants instr g s) := by
  have cleared : (s.emptied .scratch).Accounted f outside [] := acc.emptied trivial
  have value := same (cleared.alive_shown instr.op1) (cleared.alive_shown instr.op2)
  rw [acc.shown_emptied checked.op1, acc.shown_emptied checked.op2] at value
  unfold binary
  rw [acc.shown_emptied checked.op1, acc.shown_emptied checked.op2, value]
  cases made : g s.heap (s.shown f.constants instr.op1) (s.shown f.constants instr.op2) with
  | error fault =>
    have ne := (settles _ _ _).ne_reentry made
    dsimp only
    rw [finishing_error ne, finishing_error ne, Store.emptied_emptied]
  | ok u =>
    dsimp only
    rw [finishing_next, finishing_next,
      emptied_operate checked storable acc plain (scalar made)]

/-- A compound assignment as an operator on what its operands show. -/
theorem compound_eq_deliver {op : ArithmeticOp} (checked : instr.Checked f pc)
    (is : instr.opcode = .compound op) (acc : s.Accounted f outside []) :
    compound f.constants instr op s
      = match Operator.arithmetic s.heap op (s.shown f.constants instr.op1)
          (s.shown f.constants instr.op2) with
        | .error fault => (.error fault, s.defining f.constants instr.op1)
        | .ok v => (.ok .next, ((s.assign f.constants instr.op1 v).vacateRead instr).deliver
            f.constants instr.result v) := by
  have has : instr.opcode.category? = some .binaryAssign := by rw [is]; rfl
  have assigned := (checked.operator has).assigned rfl
  have alive := acc.alive_shown instr.op2
  have first : (s.acquire (s.shown f.constants instr.op2)).peek
      ((s.acquire (s.shown f.constants instr.op2)).target f.constants instr.op1)
        = s.shown f.constants instr.op1 := by
    rw [Store.peek_acquire, ← Store.peek_target assigned]
    rfl
  unfold compound
  dsimp only
  rw [first, Heap.arithmetic_heap s.heap]
  cases made : Operator.arithmetic s.heap op (s.shown f.constants instr.op1)
      (s.shown f.constants instr.op2) with
  | error fault =>
    dsimp only
    rw [Store.release_defining_acquire alive]
  | ok v =>
    have loaded := (Operator.scalars_of_arithmetic made).2
    have scalar := Operator.node?_arithmetic made
    dsimp only
    rw [Store.acquire_of_scalar s loaded, Store.release_of_scalar _ loaded,
      Store.yield_of_scalar _ _ _ scalar]

/-- A step as an operator on what its operand shows. -/
theorem step_eq_deliver {time : StepTime} {direction : StepDirection}
    (assigned : instr.op1.isVariable = true) (s : Store) :
    step f.constants instr time direction s
      = match Operator.step time direction (s.shown f.constants instr.op1) with
        | .error fault => (.error fault, s.defining f.constants instr.op1)
        | .ok v =>
          (.ok .next, match time with
            | .pre => (s.assign f.constants instr.op1 v).deliver f.constants instr.result v
            | .post => (s.assign f.constants instr.op1 v).assign f.constants instr.result
                (s.shown f.constants instr.op1)) := by
  unfold step
  dsimp only
  rw [Store.peek_target assigned]
  cases made : Operator.step time direction (s.shown f.constants instr.op1) with
  | error fault => rfl
  | ok v =>
    cases time with
    | pre =>
      dsimp only
      rw [Store.yield_of_scalar _ _ _ (Operator.node?_step made)]
    | post =>
      have old := Operator.scalar_of_step made
      dsimp only
      rw [Store.assign_eq s, Store.peek_target assigned, Store.release_of_scalar _ old]

theorem finishing_compound_emptied {op : ArithmeticOp} (checked : instr.Checked f pc)
    (is : instr.opcode = .compound op)
    (storable : instr.result.isLiteral = false)
    (acc : s.Accounted f outside []) :
    finishing (compound f.constants instr op (s.emptied .scratch))
      = finishing (compound f.constants instr op s) := by
  have has : instr.opcode.category? = some .binaryAssign := by rw [is]; rfl
  have writable := Operand.isWritable_of_isVariable ((checked.operator has).assigned rfl)
  have cleared : (s.emptied .scratch).Accounted f outside [] := acc.emptied trivial
  rw [compound_eq_deliver checked is acc, compound_eq_deliver checked is cleared,
    acc.shown_emptied checked.op1, acc.shown_emptied checked.op2, Heap.arithmetic_heap s.heap]
  cases made : Operator.arithmetic s.heap op (s.shown f.constants instr.op1)
      (s.shown f.constants instr.op2) with
  | error fault =>
    have ne := (Operator.blames_arithmetic _ _ _ _).settles.ne_reentry made
    dsimp only
    rw [finishing_error ne, finishing_error ne, Store.defining_emptied, Store.emptied_emptied]
  | ok v =>
    have there : s.frame.Has .scratch := trivial
    have assigned := (acc.scalar (Operator.node?_arithmetic made)).assign checked.op1
    have vacated := assigned.vacateRead checked.op1 checked.op2
    dsimp only
    rw [finishing_next, finishing_next, acc.assign_emptied checked.op1 there
      (checked.op1.slot_ne_scratch writable).symm, Store.vacateRead_emptied assigned.fits
      checked.op1 checked.op2, vacated.deliver_emptied checked.result storable,
      Store.emptied_emptied]

theorem finishing_step_emptied {time : StepTime} {direction : StepDirection}
    (checked : instr.Checked f pc) (is : instr.opcode = .step time direction)
    (storable : instr.result.isLiteral = false)
    (acc : s.Accounted f outside []) (plain : s.frame.scratch.Plain) :
    finishing (step f.constants instr time direction (s.emptied .scratch))
      = finishing (step f.constants instr time direction s) := by
  have assigned : instr.op1.isVariable = true := by
    cases time with
    | pre =>
      have has : instr.opcode.category? = some .unaryAssignPre := by rw [is]; rfl
      exact (checked.operator has).assigned rfl
    | post =>
      have has : instr.opcode.category? = some .unaryAssignPost := by rw [is]; rfl
      exact (checked.operator has).assigned rfl
  have writable := Operand.isWritable_of_isVariable assigned
  rw [step_eq_deliver assigned, step_eq_deliver assigned, acc.shown_emptied checked.op1]
  cases made : Operator.step time direction (s.shown f.constants instr.op1) with
  | error fault =>
    have ne := (Operator.blames_step _ _ _).settles.ne_reentry made
    dsimp only
    rw [finishing_error ne, finishing_error ne, Store.defining_emptied, Store.emptied_emptied]
  | ok v =>
    have there : s.frame.Has .scratch := trivial
    have stored := (acc.scalar (Operator.node?_step made)).assign checked.op1
    have differ := (checked.op1.slot_ne_scratch writable).symm
    dsimp only
    rw [finishing_next, finishing_next, acc.assign_emptied checked.op1 there differ]
    cases time with
    | pre =>
      dsimp only
      rw [stored.deliver_emptied checked.result storable, Store.emptied_emptied]
    | post =>
      have kept : (s.assign f.constants instr.op1 v).frame.scratch.Plain := by
        rw [s.scratch_assign checked.op1 writable]
        exact plain
      dsimp only
      rw [stored.emptied_assign_emptied kept checked.result storable
        (Operator.scalar_of_step made)]

/-- A built-in operator comes to the same end if the scratch slot is emptied before. -/
theorem finishing_emptied (checked : instr.Checked f pc)
    (has : instr.opcode.category? = some category) (acc : s.Accounted f outside [])
    (plain : s.frame.scratch.Plain) :
    finishing (Effect.of f instr pc (s.emptied .scratch)) = finishing (Effect.of f instr pc s) := by
  have storable := (checked.operator has).result
  have cleared : (s.emptied .scratch).Accounted f outside [] := acc.emptied trivial
  have closed := Heap.Accounts.closed acc.owns
  have closed' := Heap.Accounts.closed cleared.owns
  have remains := s.remains_emptied
  unfold Effect.of
  cases is : instr.opcode with
  | arithmetic op =>
    exact finishing_binary_emptied checked storable acc plain
      (fun _ _ => Heap.arithmetic_heap _ _ _ _ _)
      (fun h v w => (Operator.blames_arithmetic h op v w).settles)
      (fun made => Operator.node?_arithmetic made)
  | boolXor =>
    exact finishing_binary_emptied checked storable acc plain
      (fun alive alive' => remains.boolXor_eq closed' closed alive alive')
      Operator.settles_boolXor (fun made => Operator.node?_boolXor made)
  | comparison op =>
    exact finishing_binary_emptied checked storable acc plain
      (fun alive alive' => congrArg Fault.ending
        (remains.comparison?_eq closed' closed alive alive' op))
      (fun h v w => Operator.settles_ending _)
      (fun made => Operator.node?_ending_comparison? made)
  | unary op =>
    exact finishing_binary_emptied checked storable acc plain
      (fun alive _ => remains.unary_eq closed' closed alive op)
      (fun h v _ => Operator.settles_unary h op v) (fun made => Operator.node?_unary made)
  | compound op => exact finishing_compound_emptied checked is storable acc
  | step time direction => exact finishing_step_emptied checked is storable acc plain
  | _ =>
    rw [is] at has
    cases has

end Effect

/-! ## A reference that is left

The condition that the scratch slot holds no reference is needed: a handler that is called
for an assignment to nothing may write a reference there and report a violation. -/

namespace Machine

/-- Adds the first variable to nothing. -/
def discarding : Instruction := ⟨.compound .add, .unused, .var 0, .unused, 0⟩

/-- Writes the second operand to the first one, and then answers. -/
def withholding (answer : Answer) : Handler :=
  .write (.copy (.operand .second)) fun _ => .answer answer

/-- A store in which a variable is bound to a cell that holds a reference to another one. -/
def nested : Store where
  heap := ((Heap.empty.createCell (.int 1)).2.createCell (.ref ⟨0⟩)).2
  frame := { Frame.ofSizes 0 0 with vars := #[.ref ⟨1⟩] }
  notes := #[]

/-- The store behind a call that has left the inner reference in the scratch slot. -/
def leftover : Store :=
  (Action.invoke (withholding (.violated (.unusedResult (.compound .add)))) #[] .valueFirst
    discarding nested).2

/-- Adds two constants and does not use the sum. -/
def discardedSum : Function where
  name := "sum"
  code := #[
    ⟨.arithmetic .add, .const 0, .const 0, .unused, 0⟩,
    ⟨.ret, .unused, .unused, .unused, 0⟩]
  constants := #[.int 5]
  temporaries := 0
  variableNames := #["a"]

/-- Every node has as many handles as are in the heap and in the frame, the scratch slot
among them. -/
theorem owns_leftover : leftover.Owns [] fun _ => 0 := by
  have nothing : Heap.empty.Accounts [.int 1] fun _ => 0 := fun node => by cases node <;> rfl
  have inner : (Heap.empty.createCell (.int 1)).2.Accounts [.ref ⟨0⟩] fun _ => 0 :=
    @Heap.Accounts.createCell _ [] _ _ nothing
  have outer : nested.heap.Accounts [.ref ⟨1⟩] fun _ => 0 :=
    @Heap.Accounts.createCell _ [] _ _ inner
  have alive : nested.heap.Alive (.ref ⟨0⟩) := (Heap.Accounts.closed outer).alive_content ⟨1⟩
  have left : leftover.heap = nested.heap.acquire (.ref ⟨0⟩) := rfl
  have frame : leftover.frame = { nested.frame with scratch := .ref ⟨0⟩ } := rfl
  rw [Store.Owns, left, frame]
  exact (outer.acquire alive).congr fun node => by
    simp [nested, Frame.values, Frame.ofSizes, OrderedMap.values, OrderedMap.empty, Nat.add_comm]

/-- No node is among the constants. -/
theorem uses_discardedSum (node : Node) : node.uses discardedSum.constants.toList ≤ 0 :=
  Nat.le_of_eq (by cases node <;> rfl)

end Machine

end OverloadMachine
