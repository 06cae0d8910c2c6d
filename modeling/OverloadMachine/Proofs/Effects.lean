import OverloadMachine.Proofs.Evaluation

/-!
# Effects of verified instructions

What each built-in instruction does when the function is verified and the frame
is large enough: a plain function from stores to a flow or a fault and a store,
without the checks that cannot fail. The effects say in which order operands are
read, values stored and handles given up, and every later property of
instructions is read off from them.
-/

namespace OverloadMachine

namespace Store

/-- The cell that a slot is bound to, with another handle of it; an unbound slot is
bound to a new cell with its value. -/
def bound (s : Store) (slot : Slot) : CellId × Store :=
  match s.frame.get slot with
  | .ref cell => (cell, s.acquire (.ref cell))
  | v =>
    let (cell, heap) := s.heap.createCell v
    (cell, { s with heap := heap.acquire (.ref cell), frame := s.frame.put slot (.ref cell) })

end Store

namespace Effect

/-- `A = B`, and `R = A` if the result is used. -/
def assign (constants : Array Value) (instr : Instruction) (s : Store) :
    Except Fault Flow × Store :=
  let v := s.shown constants instr.op2
  let t := ((s.acquire v).vacateRead instr).yield constants instr.result v
  (.ok .next, t.assign constants instr.op1 v)

/-- Bind two variables to one cell. -/
def assignRef (constants : Array Value) (instr : Instruction) (s : Store) :
    Except Fault Flow × Store :=
  let (cell, t) := (s.defining constants instr.op2).bound (instr.op2.slot constants)
  (.ok .next, (t.defining constants instr.op1).overwrite (.slot (instr.op1.slot constants))
    (.ref cell))

/-- `A = A op B`, and `R = A` if the result is used. -/
def compound (constants : Array Value) (instr : Instruction) (op : ArithmeticOp) (s : Store) :
    Except Fault Flow × Store :=
  let operand := s.shown constants instr.op2
  let t := s.acquire operand
  match Operator.arithmetic t.heap op (t.peek (t.target constants instr.op1)) operand with
  | .error fault => (.error fault, (t.defining constants instr.op1).release operand)
  | .ok v =>
    let t := (t.assign constants instr.op1 v).vacateRead instr
    (.ok .next, (t.yield constants instr.result v).release operand)

/-- Step `A`; the result is the value after, or the value before. -/
def step (constants : Array Value) (instr : Instruction) (time : StepTime)
    (direction : StepDirection) (s : Store) : Except Fault Flow × Store :=
  let place := s.target constants instr.op1
  match Operator.step time direction (s.peek place) with
  | .error fault => (.error fault, s.defining constants instr.op1)
  | .ok v =>
    match time with
    | .pre => (.ok .next, (s.assign constants instr.op1 v).yield constants instr.result v)
    | .post =>
      (.ok .next, ((s.defining constants instr.op1).put place v).assign constants instr.result
        (s.peek place))

/-- An operator that reads two operands. -/
def binary (constants : Array Value) (instr : Instruction)
    (f : Heap → Value → Value → Except Fault Value) (s : Store) : Except Fault Flow × Store :=
  match f s.heap (s.shown constants instr.op1) (s.shown constants instr.op2) with
  | .error fault => (.error fault, s)
  | .ok v => (.ok .next, (s.vacateRead instr).assign constants instr.result v)

/-- An operator that reads one operand. -/
def unary (constants : Array Value) (instr : Instruction) (op : UnaryOp) (s : Store) :
    Except Fault Flow × Store :=
  match Operator.unary s.heap op (s.shown constants instr.op1) with
  | .error fault => (.error fault, s)
  | .ok v => (.ok .next, (s.vacateRead instr).assign constants instr.result v)

/-- Go to the target if `A` is falsy. -/
def jumpIfFalse (constants : Array Value) (instr : Instruction) (s : Store) :
    Except Fault Flow × Store :=
  match Fault.ending (s.heap.truth? (s.shown constants instr.op1)) with
  | .error fault => (.error fault, s)
  | .ok truthy =>
    (.ok (if truthy then .next else .jump instr.target.toNat), s.vacate instr.op1)

/-- End the run with `A`. -/
def finish (constants : Array Value) (instr : Instruction) (s : Store) :
    Except Fault Flow × Store :=
  let v := s.shown constants instr.op1
  (.ok (.finish v), (s.acquire v).vacate instr.op1)

/-- `R` is a new composite of the class that `A` names. -/
def newComposite (constants : Array Value) (instr : Instruction) (s : Store) :
    Except Fault Flow × Store :=
  match s.held constants instr.op1 with
  | .str className =>
    let (id, heap) := s.heap.create className .empty
    (.ok .next, ({ s with heap := heap } : Store).assign constants instr.result (.composite id))
  | v => (.error (.type (.notClassName v.kind)), s)

/-- Set a field of the composite in a place, which is separated first. -/
def setFieldAt (place : Place) (key : String) (v : Value) (s : Store) :
    Except Fault Unit × Store :=
  if s.isSelfBound place then (.error .reentry, s.release v)
  else
    let t := (s.separate place).2
    match t.peek place with
    | .composite id =>
      let (result, heap) := t.heap.setField id key v
      (result.mapError .contract, { t with heap := heap })
    | other => (.error (.type (.fieldWrite key other.kind)), t.release v)

/-- Set field `B` of `A` to the operand of the data instruction behind. -/
def setField (constants : Array Value) (instr data : Instruction) (pc : Nat) (s : Store) :
    Except Fault Flow × Store :=
  match Builtin.fieldName (s.shown constants instr.op2) with
  | .error fault => (.error fault, s)
  | .ok key =>
    let v := s.shown constants data.op1
    let place := s.target constants instr.op1
    match setFieldAt place key v ((s.acquire v).defining constants instr.op1) with
    | (.error fault, t) => (.error fault, t)
    | (.ok _, t) => (.ok (.jump (pc + 2)), (t.vacate instr.op2).vacate data.op1)

/-- `R` is field `B` of `A`, null if there is no such field. -/
def getField (constants : Array Value) (instr : Instruction) (s : Store) :
    Except Fault Flow × Store :=
  match Builtin.fieldName (s.shown constants instr.op2) with
  | .error fault => (.error fault, s)
  | .ok key =>
    match s.shown constants instr.op1 with
    | .composite id =>
      let v := (s.heap.field? id key).getD .null
      let t := ((s.acquire v).vacate instr.op1).vacate instr.op2
      (.ok .next, t.assign constants instr.result v)
    | other => (.error (.type (.fieldRead key other.kind)), s)

/-- The effect of an instruction of a function. -/
def of (f : Function) (instr : Instruction) (pc : Nat) (s : Store) : Except Fault Flow × Store :=
  match instr.opcode with
  | .nop => (.ok .next, s)
  | .assign => assign f.constants instr s
  | .assignRef => assignRef f.constants instr s
  | .newComposite => newComposite f.constants instr s
  | .setField => setField f.constants instr (f.code[pc + 1]?.getD instr) pc s
  | .opData => (.error (.code (.strayData pc)), s)
  | .getField => getField f.constants instr s
  | .free => (.ok .next, s.vacate instr.op1)
  | .jmp => (.ok (.jump instr.target.toNat), s)
  | .jmpIfFalse => jumpIfFalse f.constants instr s
  | .ret => finish f.constants instr s
  | .arithmetic op => binary f.constants instr (fun h a b => Operator.arithmetic h op a b) s
  | .boolXor => binary f.constants instr Operator.boolXor s
  | .comparison op =>
    binary f.constants instr (fun h a b => Fault.ending (Operator.comparison? h op a b)) s
  | .compound op => compound f.constants instr op s
  | .unary op => unary f.constants instr op s
  | .step time direction => step f.constants instr time direction s

end Effect

/-! ## Instructions have their effects -/

namespace Store

variable {f : Function} {s : Store} {o : Operand}

/-- A definition changes the value in no place. -/
@[simp] theorem peek_defining (s : Store) (constants : Array Value) (o : Operand)
    (place : Place) : (s.defining constants o).peek place = s.peek place := by
  unfold defining
  split
  · cases place <;> simp [peek]
  · rfl

@[simp] theorem heap_defining (s : Store) (constants : Array Value) (o : Operand) :
    (s.defining constants o).heap = s.heap := by
  unfold defining
  split <;> rfl

@[simp] theorem placeOf_acquire (s : Store) (v : Value) (slot : Slot) :
    (s.acquire v).placeOf slot = s.placeOf slot := rfl

/-- Putting a value into the place of an operand and giving up the one before it. -/
theorem assign_eq (s : Store) (constants : Array Value) (o : Operand) (v : Value) :
    s.assign constants o v = ((s.defining constants o).put (s.target constants o) v).release
      (s.peek (s.target constants o)) := by
  rw [assign, overwrite, peek_defining]
  rfl

theorem acquire_of_scalar (s : Store) {v : Value} (scalar : v.node? = none) : s.acquire v = s := by
  rw [acquire, Heap.acquire_eq, scalar]

theorem release_of_scalar (s : Store) {v : Value} (scalar : v.node? = none) : s.release v = s := by
  rw [release, Heap.release_of_node?_eq_none _ scalar]

/-- What a slot shows is in the place that it shows. -/
theorem peek_placeOf (s : Store) (slot : Slot) :
    s.peek (s.placeOf slot) = (s.heap.lookThrough (s.frame.get slot)).1 := by
  unfold placeOf Heap.lookThrough
  cases holds : s.frame.get slot with
  | ref cell => rfl
  | _ => exact holds

/-- An operand that can be written holds what its slot holds. -/
theorem held_of_isWritable {constants : Array Value} {o : Operand} (writable : o.isWritable = true)
    (s : Store) : s.held constants o = s.frame.get (o.slot constants) := by
  cases o <;> first | rfl | cases writable

/-- What an operand shows is in the place that it shows. -/
theorem peek_target_of_isWritable {constants : Array Value} {o : Operand} (s : Store)
    (writable : o.isWritable = true) :
    s.peek (s.target constants o) = s.shown constants o := by
  rw [target, peek_placeOf, shown, held_of_isWritable writable]

/-- What a variable shows is in the place that it shows. -/
theorem peek_target {constants : Array Value} {o : Operand} (assigned : o.isVariable = true)
    (s : Store) : s.peek (s.target constants o) = s.shown constants o :=
  s.peek_target_of_isWritable (Operand.isWritable_of_isVariable assigned)

/-- A variable is not emptied. -/
theorem vacate_of_isVariable {o : Operand} (assigned : o.isVariable = true) (s : Store) :
    s.vacate o = s := by
  cases o <;> first | rfl | cases assigned

end Store

namespace Builtin

open OverloadMachine.Action

variable {f : Function} {instr : Instruction} {pc : Nat} {s : Store}

/-- Replacing the value in a place by what a function makes of it. -/
theorem update_eq {o : Operand} (within : o.Within f) (storable : o.isLiteral = false)
    (fits : s.frame.Fits f) (g : Heap → Value → Except Fault Value) :
    update f.constants o g s = match g s.heap (s.peek (s.target f.constants o)) with
      | .error fault => (.error fault, s.defining f.constants o)
      | .ok v => (.ok (s.peek (s.target f.constants o), v),
          (s.defining f.constants o).put (s.target f.constants o) v) := by
  rw [update, run_bind_ok (writablePlace_eq within storable fits), run_bind_ok (run_get _),
    Store.heap_defining, Store.peek_defining]
  cases g s.heap (s.peek (s.target f.constants o)) with
  | error fault => rw [run_bind_error (run_attempt_error fault _)]
  | ok v => rfl

/-- Giving up the value that was before an update makes the update an assignment. -/
theorem release_previous_eq (s : Store) (constants : Array Value) (o : Operand) (v : Value) :
    release (s.peek (s.target constants o))
        ((s.defining constants o).put (s.target constants o) v)
      = (.ok ⟨⟩, s.assign constants o v) := by
  rw [Store.assign_eq]
  rfl

/-- Storing another handle into a result. -/
theorem storeResult_eq {o : Operand} (within : o.Within f) (storable : o.isLiteral = false)
    (fits : s.frame.Fits f) (v : Value) :
    storeResult f.constants o v s = (.ok ⟨⟩, s.yield f.constants o v) := by
  rw [storeResult, Store.yield]
  by_cases unused : o.isUnused = true
  · rw [if_pos unused, if_pos unused]
    rfl
  · rw [if_neg unused, if_neg unused, run_bind_ok (run_acquire v s)]
    exact storeOperand_eq (s := s.acquire v) within storable fits v

theorem assign_eq (checked : instr.Checked f pc) (fits : s.frame.Fits f)
    (op : instr.opcode = .assign) :
    assign f.constants instr s = Effect.assign f.constants instr s := by
  obtain ⟨target, result⟩ := checked.assign op
  have first : ∀ v, (do releaseOperands instr; storeResult f.constants instr.result v : Action Unit)
      (s.acquire v)
        = (.ok ⟨⟩, ((s.acquire v).vacateRead instr).yield f.constants instr.result v) := by
    intro v
    rw [run_bind_ok (releaseOperands_eq (s := s.acquire v) checked.op1.temporary
      checked.op2.temporary fits)]
    exact storeResult_eq checked.result result (by simpa using fits) v
  rw [assign, run_bind_ok (load_eq checked.op2 fits), run_bind_ok (run_holding_ok (first _)),
    run_bind_ok (storeOperand_eq checked.op1 (Operand.isLiteral_of_isVariable target)
      (by simpa using fits) _)]
  rfl

/-- Binding a slot to a cell. -/
theorem bindSlot_eq (s : Store) (slot : Slot) :
    bindSlot slot s = (.ok (s.bound slot).1, (s.bound slot).2) := by
  rw [bindSlot, run_bind_ok (run_get s), Store.bound]
  cases s.frame.get slot <;> rfl

@[simp] theorem fits_bound (s : Store) (slot : Slot) (f : Function) :
    (s.bound slot).2.frame.Fits f ↔ s.frame.Fits f := by
  rw [Store.bound]
  split
  · rfl
  · exact s.frame.fits_put slot _ f

theorem assignRef_eq (checked : instr.Checked f pc) (fits : s.frame.Fits f)
    (op : instr.opcode = .assignRef) :
    assignRef f.constants instr s = Effect.assignRef f.constants instr s := by
  obtain ⟨target, source⟩ := checked.assignRef op
  have second := writableSlot_eq checked.op2 (Operand.isLiteral_of_isVariable source) fits
  have fits' : ((s.defining f.constants instr.op2).bound
      (instr.op2.slot f.constants)).2.frame.Fits f := by simpa using fits
  have first := writableSlot_eq checked.op1 (Operand.isLiteral_of_isVariable target) fits'
  rw [assignRef, run_bind_ok second, run_bind_ok (bindSlot_eq _ _),
    run_bind_ok (run_holding_ok first)]
  rfl

theorem compound_eq {op : ArithmeticOp} (checked : instr.Checked f pc) (fits : s.frame.Fits f)
    (is : instr.opcode = .compound op) :
    compound f.constants instr op s = Effect.compound f.constants instr op s := by
  have has : instr.opcode.category? = some .binaryAssign := by rw [is]; rfl
  have shape := checked.operator has
  have storable := Operand.isLiteral_of_isVariable (shape.assigned rfl)
  rw [compound, run_bind_ok (load_eq checked.op2 fits), Effect.compound]
  dsimp only
  generalize s.shown f.constants instr.op2 = operand
  have fits' : (s.acquire operand).frame.Fits f := fits
  have updated := update_eq checked.op1 storable fits'
    fun h current => Operator.arithmetic h op current operand
  generalize s.acquire operand = t at fits' updated ⊢
  cases made : Operator.arithmetic t.heap op (t.peek (t.target f.constants instr.op1))
      operand with
  | error fault =>
    rw [made] at updated
    rw [run_bind_error (run_holding_error (run_bind_error updated _))]
  | ok v =>
    rw [made] at updated
    have vacated := releaseOperands_eq (s := t.assign f.constants instr.op1 v)
      checked.op1.temporary checked.op2.temporary (by simpa using fits')
    have stored := storeResult_eq (s := (t.assign f.constants instr.op1 v).vacateRead instr)
      checked.result shape.result (by simpa using fits') v
    let after := ((t.assign f.constants instr.op1 v).vacateRead instr).yield f.constants
      instr.result v
    refine (run_bind_ok (run_holding_ok (a := ⟨⟩) (t := after) ?_) _).trans ?_
    · rw [run_bind_ok updated]
      dsimp only
      rw [run_bind_ok (release_previous_eq t f.constants instr.op1 v), run_bind_ok vacated]
      exact stored
    · rfl

theorem step_eq {time : StepTime} {direction : StepDirection} (checked : instr.Checked f pc)
    (fits : s.frame.Fits f) (is : instr.opcode = .step time direction) :
    step f.constants instr time direction s = Effect.step f.constants instr time direction s := by
  have shape : instr.result.isLiteral = false ∧ instr.op1.isVariable = true := by
    cases time with
    | pre =>
      have has : instr.opcode.category? = some .unaryAssignPre := by rw [is]; rfl
      exact ⟨(checked.operator has).result, (checked.operator has).assigned rfl⟩
    | post =>
      have has : instr.opcode.category? = some .unaryAssignPost := by rw [is]; rfl
      exact ⟨(checked.operator has).result, (checked.operator has).assigned rfl⟩
  have storable := Operand.isLiteral_of_isVariable shape.2
  have updated := update_eq checked.op1 storable fits
    fun _ current => Operator.step time direction current
  rw [step, Effect.step]
  dsimp only
  cases made : Operator.step time direction (s.peek (s.target f.constants instr.op1)) with
  | error fault =>
    rw [made] at updated
    rw [run_bind_error updated]
  | ok v =>
    rw [made] at updated
    rw [run_bind_ok updated]
    cases time with
    | pre =>
      have stored := storeResult_eq (s := s.assign f.constants instr.op1 v) checked.result
        shape.1 (by simpa using fits) v
      dsimp only
      rw [run_bind_ok (release_previous_eq s f.constants instr.op1 v), run_bind_ok stored]
      rfl
    | post =>
      have stored := storeOperand_eq
        (s := (s.defining f.constants instr.op1).put (s.target f.constants instr.op1) v)
        checked.result shape.1 (by simpa using fits) (s.peek (s.target f.constants instr.op1))
      dsimp only
      rw [run_bind_ok stored]
      rfl

theorem binary_eq (checked : instr.Checked f pc) (fits : s.frame.Fits f)
    (result : instr.result.isLiteral = false) (g : Heap → Value → Value → Except Fault Value) :
    binary f.constants instr g s = Effect.binary f.constants instr g s := by
  rw [binary, run_bind_ok (look_eq checked.op1 fits), run_bind_ok (look_eq checked.op2 fits),
    run_bind_ok (run_get s), Effect.binary]
  cases g s.heap (s.shown f.constants instr.op1) (s.shown f.constants instr.op2) with
  | error fault => rw [run_bind_error (run_attempt_error fault s)]
  | ok v =>
    rw [run_bind_ok (run_attempt_ok v s),
      run_bind_ok (releaseOperands_eq checked.op1.temporary checked.op2.temporary fits),
      run_bind_ok (storeOperand_eq checked.result result (by simpa using fits) v)]
    rfl

theorem unary_eq {op : UnaryOp} (checked : instr.Checked f pc) (fits : s.frame.Fits f)
    (result : instr.result.isLiteral = false) :
    unary f.constants instr op s = Effect.unary f.constants instr op s := by
  rw [unary, run_bind_ok (look_eq checked.op1 fits), run_bind_ok (run_get s), Effect.unary]
  cases Operator.unary s.heap op (s.shown f.constants instr.op1) with
  | error fault => rw [run_bind_error (run_attempt_error fault s)]
  | ok v =>
    rw [run_bind_ok (run_attempt_ok v s),
      run_bind_ok (releaseOperands_eq checked.op1.temporary checked.op2.temporary fits),
      run_bind_ok (storeOperand_eq checked.result result (by simpa using fits) v)]
    rfl

theorem jumpIfFalse_eq (checked : instr.Checked f pc) (fits : s.frame.Fits f) :
    jumpIfFalse f.constants instr s = Effect.jumpIfFalse f.constants instr s := by
  rw [jumpIfFalse, run_bind_ok (look_eq checked.op1 fits), run_bind_ok (run_get s),
    Effect.jumpIfFalse]
  cases Fault.ending (s.heap.truth? (s.shown f.constants instr.op1)) with
  | error fault => rw [run_bind_error (run_attempt_error fault s)]
  | ok truthy =>
    rw [run_bind_ok (run_attempt_ok truthy s),
      run_bind_ok (releaseIfTemporary_eq checked.op1.temporary fits)]
    rfl

theorem finish_eq (checked : instr.Checked f pc) (fits : s.frame.Fits f) :
    finish f.constants instr s = Effect.finish f.constants instr s := by
  rw [finish, run_bind_ok (load_eq checked.op1 fits),
    run_bind_ok
      (run_holding_ok (releaseIfTemporary_eq (s := s.acquire _) checked.op1.temporary fits))]
  rfl

theorem free_eq (checked : instr.Checked f pc) (fits : s.frame.Fits f)
    (op : instr.opcode = .free) : free instr s = (.ok .next, s.vacate instr.op1) := by
  obtain ⟨i, eq⟩ := checked.free op
  have within := checked.op1
  rw [eq] at within
  simp only [free, eq]
  rw [run_bind_ok (releaseTemporary_eq within fits)]
  rfl

theorem newComposite_eq (checked : instr.Checked f pc) (fits : s.frame.Fits f)
    (op : instr.opcode = .newComposite) :
    newComposite f.constants instr s = Effect.newComposite f.constants instr s := by
  obtain ⟨⟨i, name, first, found⟩, result⟩ := checked.newComposite op
  have text : s.held f.constants instr.op1 = .str name := by
    rw [first, Store.held, found, Option.getD_some]
  have stored := storeOperand_eq (s := { s with heap := (s.heap.create name .empty).2 })
    checked.result result fits (.composite (s.heap.create name .empty).1)
  rw [newComposite, run_bind_ok (run_get s), Store.resolve_eq checked.op1 fits,
    run_bind_ok (run_attempt_ok _ s), Effect.newComposite, text]
  dsimp only
  rw [run_bind_ok (run_set _ _), run_bind_ok stored]
  rfl

theorem separate_eq {place : Place} (closed : s.isSelfBound place = false) :
    separate place s = (.ok (s.separate place).1, (s.separate place).2) := by
  rw [separate, run_bind_ok (run_get s), closed]
  rfl

theorem setFieldAt_eq (place : Place) (key : String) (v : Value) (s : Store) :
    setFieldAt place key v s = Effect.setFieldAt place key v s := by
  rw [setFieldAt, Effect.setFieldAt]
  cases self : s.isSelfBound place with
  | true =>
    have fault : separate place s = (.error .reentry, s) := by
      rw [separate, run_bind_ok (run_get s), self]
      rfl
    rw [run_bind_error (run_holding_error fault), if_pos rfl]
  | false =>
    rw [run_bind_ok (run_holding_ok (separate_eq self)), run_bind_ok (run_get _)]
    simp only [Bool.false_eq_true, if_false]
    cases (s.separate place).2.peek place with
    | composite id =>
      dsimp only
      rw [run_bind_ok (run_set _ _)]
      cases ((s.separate place).2.heap.setField id key v).1 <;> rfl
    | _ => rfl

@[simp] theorem fits_setFieldAt (place : Place) (key : String) (v : Value) (s : Store)
    (f : Function) : (Effect.setFieldAt place key v s).2.frame.Fits f ↔ s.frame.Fits f := by
  rw [Effect.setFieldAt]
  split
  · rfl
  · dsimp only
    split <;> exact s.fits_separate place f

theorem setField_eq {data : Instruction} (verified : f.Verified)
    (found : f.code[pc]? = some instr) (fits : s.frame.Fits f)
    (op : instr.opcode = .setField) (behind : f.code[pc + 1]? = some data) :
    setField f instr pc s = Effect.setField f.constants instr data pc s := by
  have checked := verified.checked found
  have checked' := verified.checked behind
  obtain ⟨target, data', behind', is⟩ := checked.setField op
  rw [behind] at behind'
  cases behind'
  have storable := Operand.isLiteral_of_isVariable target
  simp only [setField, behind, is, if_true]
  rw [run_bind_ok (run_pure data s), run_bind_ok (look_eq checked.op2 fits), Effect.setField]
  cases Builtin.fieldName (s.shown f.constants instr.op2) with
  | error fault => rw [run_bind_error (run_attempt_error fault s)]
  | ok key =>
    have placed := writablePlace_eq (s := s.acquire (s.shown f.constants data.op1)) checked.op1
      storable fits
    rw [run_bind_ok (run_attempt_ok key s), run_bind_ok (load_eq checked'.op1 fits),
      run_bind_ok (run_holding_ok placed)]
    have set := setFieldAt_eq (s.target f.constants instr.op1) key (s.shown f.constants data.op1)
      ((s.acquire (s.shown f.constants data.op1)).defining f.constants instr.op1)
    have fits' := (fits_setFieldAt (s.target f.constants instr.op1) key
      (s.shown f.constants data.op1)
      ((s.acquire (s.shown f.constants data.op1)).defining f.constants instr.op1) f).mpr
      (by simpa using fits)
    dsimp only
    cases result : Effect.setFieldAt (s.target f.constants instr.op1) key
        (s.shown f.constants data.op1)
        ((s.acquire (s.shown f.constants data.op1)).defining f.constants instr.op1) with
    | mk r t =>
      rw [result] at set fits'
      cases r with
      | error fault => exact run_bind_error set _
      | ok _ =>
        refine (run_bind_ok set _).trans ?_
        rw [run_bind_ok (releaseIfTemporary_eq checked.op2.temporary fits'),
          run_bind_ok (releaseIfTemporary_eq checked'.op1.temporary (by simpa using fits'))]
        rfl

theorem getField_eq (checked : instr.Checked f pc) (fits : s.frame.Fits f)
    (op : instr.opcode = .getField) :
    getField f.constants instr s = Effect.getField f.constants instr s := by
  have result := checked.getField op
  rw [getField, run_bind_ok (look_eq checked.op2 fits), Effect.getField]
  cases Builtin.fieldName (s.shown f.constants instr.op2) with
  | error fault => rw [run_bind_error (run_attempt_error fault s)]
  | ok key =>
    rw [run_bind_ok (run_attempt_ok key s), run_bind_ok (look_eq checked.op1 fits)]
    cases s.shown f.constants instr.op1 with
    | composite id =>
      dsimp only
      rw [run_bind_ok (run_get s), run_bind_ok (run_acquire _ s)]
      generalize (s.heap.field? id key).getD .null = v
      have vacated : (do releaseIfTemporary instr.op1; releaseIfTemporary instr.op2 : Action Unit)
          (s.acquire v) = (.ok ⟨⟩, ((s.acquire v).vacate instr.op1).vacate instr.op2) := by
        rw [run_bind_ok (releaseIfTemporary_eq (s := s.acquire v) checked.op1.temporary fits)]
        exact releaseIfTemporary_eq checked.op2.temporary (by simpa using fits)
      rw [run_bind_ok (run_holding_ok vacated),
        run_bind_ok (storeOperand_eq checked.result result (by simpa using fits) v)]
      rfl
    | _ => rfl

/-- A verified instruction has its effect. -/
theorem execute_eq (verified : f.Verified) (found : f.code[pc]? = some instr)
    (fits : s.frame.Fits f) : execute f instr pc s = Effect.of f instr pc s := by
  have checked := verified.checked found
  unfold execute Effect.of
  cases is : instr.opcode with
  | nop => rfl
  | assign => exact assign_eq checked fits is
  | assignRef => exact assignRef_eq checked fits is
  | newComposite => exact newComposite_eq checked fits is
  | setField =>
    obtain ⟨-, data, behind, -⟩ := checked.setField is
    dsimp only
    rw [behind, Option.getD_some]
    exact setField_eq verified found fits is behind
  | opData => rfl
  | getField => exact getField_eq checked fits is
  | free => exact free_eq checked fits is
  | jmp => rfl
  | jmpIfFalse => exact jumpIfFalse_eq checked fits
  | ret => exact finish_eq checked fits
  | arithmetic op =>
    have has : instr.opcode.category? = some .binary := by rw [is]; rfl
    exact binary_eq checked fits (checked.operator has).result _
  | boolXor =>
    have has : instr.opcode.category? = some .binary := by rw [is]; rfl
    exact binary_eq checked fits (checked.operator has).result _
  | comparison op =>
    have has : instr.opcode.category? = some .binary := by rw [is]; rfl
    exact binary_eq checked fits (checked.operator has).result _
  | compound op => exact compound_eq checked fits is
  | unary op =>
    have has : instr.opcode.category? = some .unary := by rw [is]; rfl
    exact unary_eq checked fits (checked.operator has).result
  | step time direction => exact step_eq checked fits is

end Builtin

end OverloadMachine
