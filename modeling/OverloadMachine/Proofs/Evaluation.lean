import OverloadMachine.Machine.Builtin
import OverloadMachine.Proofs.Places
import OverloadMachine.Proofs.Verified

/-!
# Evaluation of verified instructions

On a frame that is large enough, the steps that a verified instruction is made of
cannot fault. Each of them is then a plain function on stores. This module states
that function for every step, so that what follows never looks at the checks
again.
-/

namespace OverloadMachine

/-! ## Running actions -/

namespace Action

variable {α β : Type}

@[simp] theorem run_pure (a : α) (s : Store) : (pure a : Action α) s = (.ok a, s) := rfl

@[simp] theorem run_throw (fault : Fault) (s : Store) :
    (throw fault : Action α) s = (.error fault, s) := rfl

@[simp] theorem run_get (s : Store) : (get : Action Store) s = (.ok s, s) := rfl

@[simp] theorem run_set (s t : Store) : (set t : Action PUnit) s = (.ok ⟨⟩, t) := rfl

@[simp] theorem run_modify (f : Store → Store) (s : Store) :
    (modify f : Action PUnit) s = (.ok ⟨⟩, f s) := rfl

@[simp] theorem run_attempt_ok (a : α) (s : Store) : attempt (.ok a) s = (.ok a, s) := rfl

@[simp] theorem run_attempt_error (fault : Fault) (s : Store) :
    (attempt (.error fault) : Action α) s = (.error fault, s) := rfl

@[simp] theorem run_codeFault (cause : CodeFault) (s : Store) :
    (codeFault cause : Action α) s = (.error (.code cause), s) := rfl

@[simp] theorem run_acquire (v : Value) (s : Store) :
    acquire v s = (.ok ⟨⟩, s.acquire v) := rfl

@[simp] theorem run_release (v : Value) (s : Store) :
    release v s = (.ok ⟨⟩, s.release v) := rfl

@[simp] theorem run_overwrite (place : Place) (v : Value) (s : Store) :
    overwrite place v s = (.ok ⟨⟩, s.overwrite place v) := rfl

/-- One action after another. -/
theorem run_bind (act : Action α) (next : α → Action β) (s : Store) :
    (act >>= next) s = match act s with
      | (.ok a, t) => next a t
      | (.error fault, t) => (.error fault, t) := by
  simp only [bind, ExceptT.bind, ExceptT.mk, ExceptT.bindCont, StateT.bind]
  cases act s with
  | mk r t => cases r <;> rfl

/-- What comes after a result. -/
theorem run_bind_ok {act : Action α} {s t : Store} {a : α} (h : act s = (.ok a, t))
    (next : α → Action β) : (act >>= next) s = next a t := by
  rw [run_bind, h]

/-- Nothing comes after a fault. -/
theorem run_bind_error {act : Action α} {s t : Store} {fault : Fault}
    (h : act s = (.error fault, t)) (next : α → Action β) :
    (act >>= next) s = (.error fault, t) := by
  rw [run_bind, h]

/-- What is held stays held unless there is a fault. -/
theorem run_holding_ok {v : Value} {act : Action α} {s t : Store} {a : α}
    (h : act s = (.ok a, t)) : holding v act s = (.ok a, t) := by
  simp only [holding, tryCatch, tryCatchThe, MonadExceptOf.tryCatch, ExceptT.tryCatch,
    ExceptT.mk, bind, StateT.bind, h]
  rfl

/-- What is held is given up on a fault. -/
theorem run_holding_error {v : Value} {act : Action α} {s t : Store} {fault : Fault}
    (h : act s = (.error fault, t)) :
    holding v act s = (.error fault, t.release v) := by
  simp only [holding, tryCatch, tryCatchThe, MonadExceptOf.tryCatch, ExceptT.tryCatch,
    ExceptT.mk, bind, StateT.bind, h]
  rfl

end Action

/-! ## What operands mean -/

/-- A frame has the slots that a function needs. -/
structure Frame.Fits (frame : Frame) (f : Function) : Prop where
  temps : f.temporaries ≤ frame.temps.size
  vars : f.variableNames.size ≤ frame.vars.size

/-- A frame that was prepared for a function fits it. -/
theorem Frame.fits_prepare (frame : Frame) (f : Function) :
    (frame.prepare f.temporaries f.variableNames.size).Fits f := by
  constructor
  · simp only [prepare, extend, Array.size_append, Array.size_replicate]
    omega
  · simp only [prepare, extend, Array.size_append, Array.size_replicate]
    omega

/-- Writing a slot keeps the size of the frame. -/
@[simp] theorem Frame.fits_put (frame : Frame) (slot : Slot) (v : Value) (f : Function) :
    (frame.put slot v).Fits f ↔ frame.Fits f := by
  constructor
  · rintro ⟨temps, vars⟩
    cases slot <;> simp only [put, Array.size_setIfInBounds] at temps vars <;> exact ⟨temps, vars⟩
  · rintro ⟨temps, vars⟩
    cases slot <;> constructor <;> simpa [put]

/-- A definition keeps the size of the frame. -/
@[simp] theorem Frame.fits_define (frame : Frame) (name : String) (f : Function) :
    (frame.define name).Fits f ↔ frame.Fits f := by
  rw [define]
  split
  · rfl
  · exact fits_put frame _ _ f

/-- Scalars are no handles of cells. -/
theorem Value.ne_ref_of_scalar {v : Value} (scalar : v.node? = none) (cell : CellId) :
    v ≠ .ref cell := by
  rintro rfl
  cases scalar

/-- A value is no handle of a cell. -/
def Value.Plain (v : Value) : Prop := ∀ cell, v ≠ .ref cell

/-- Scalars are no handles of cells. -/
theorem Value.plain_of_scalar {v : Value} (scalar : v.node? = none) : v.Plain :=
  ne_ref_of_scalar scalar

/-- Composites are no handles of cells. -/
theorem Value.plain_composite (id : CompositeId) : (Value.composite id).Plain := fun _ => nofun

/-- What is no handle of a cell shows itself. -/
theorem Heap.lookThrough_of_ne_ref (h : Heap) {v : Value} (plain : ∀ cell, v ≠ .ref cell) :
    (h.lookThrough v).1 = v := by
  cases v with
  | ref cell => exact absurd rfl (plain cell)
  | _ => rfl

namespace Operand

/-- Slot of an operand. What names no slot has the scratch slot. -/
def slot (constants : Array Value) : Operand → Slot
  | .unused | .const _ => .scratch
  | .temp i => .temp i
  | .var i => .var i
  | .dynamic i =>
    match constants[i]? with
    | some (.str name) => .symbol name
    | _ => .scratch

/-- The slot of an operand is in a frame that fits. -/
theorem Within.has_slot {f : Function} {frame : Frame} {o : Operand} (within : o.Within f)
    (fits : frame.Fits f) : frame.Has (o.slot f.constants) := by
  cases o with
  | temp i => exact Nat.lt_of_lt_of_le within fits.temps
  | var i => exact Nat.lt_of_lt_of_le within fits.vars
  | dynamic i =>
    obtain ⟨name, found⟩ := within
    simp only [slot, found]
    trivial
  | _ => trivial

/-- A temporary that is named is one of those that a function needs. -/
theorem Within.temporary {f : Function} {o : Operand} (within : o.Within f) :
    ∀ i, o = .temp i → i < f.temporaries := by
  rintro i rfl
  exact within

end Operand

namespace Store

variable {f : Function} {s : Store} {o : Operand}

/-- Value in the slot of an operand, or of a literal. -/
def held (s : Store) (constants : Array Value) : Operand → Value
  | .unused => .null
  | .const i => constants[i]?.getD .null
  | .temp i => s.frame.get (.temp i)
  | .var i => s.frame.get (.var i)
  | .dynamic i => s.frame.get ((Operand.dynamic i).slot constants)

/-- Value that an operand shows. -/
def shown (s : Store) (constants : Array Value) (o : Operand) : Value :=
  (s.heap.lookThrough (s.held constants o)).1

/-- Place that an operand shows. -/
def target (s : Store) (constants : Array Value) (o : Operand) : Place :=
  s.placeOf (o.slot constants)

/-- The store with the variable of an operand defined. -/
def defining (s : Store) (constants : Array Value) (o : Operand) : Store :=
  match o, o.slot constants with
  | .dynamic _, .symbol name => { s with frame := s.frame.define name }
  | _, _ => s

/-- Put a value into the place of an operand. -/
def assign (s : Store) (constants : Array Value) (o : Operand) (v : Value) : Store :=
  (s.defining constants o).overwrite (s.target constants o) v

/-- Put another handle of a value into the place of a result, if the result is used. -/
def yield (s : Store) (constants : Array Value) (result : Operand) (v : Value) : Store :=
  if result.isUnused then s else (s.acquire v).assign constants result v

/-- Empty an operand if it is a temporary. -/
def vacate (s : Store) : Operand → Store
  | .temp i => s.overwrite (.slot (.temp i)) .null
  | _ => s

/-- Empty the temporaries that an instruction has read, its result excepted. -/
def vacateRead (s : Store) (instr : Instruction) : Store :=
  let t := if instr.op1 ≠ instr.result then s.vacate instr.op1 else s
  if instr.op2 ≠ instr.result then t.vacate instr.op2 else t

@[simp] theorem fits_overwrite (s : Store) (place : Place) (v : Value) (f : Function) :
    (s.overwrite place v).frame.Fits f ↔ s.frame.Fits f := by
  rw [frame_overwrite]
  cases place with
  | slot slot => exact s.frame.fits_put slot v f
  | cell cell => rfl

@[simp] theorem fits_put (s : Store) (place : Place) (v : Value) (f : Function) :
    (s.put place v).frame.Fits f ↔ s.frame.Fits f := by
  cases place with
  | slot slot => exact s.frame.fits_put slot v f
  | cell cell => rfl

@[simp] theorem fits_defining (s : Store) (constants : Array Value) (o : Operand)
    (f : Function) : (s.defining constants o).frame.Fits f ↔ s.frame.Fits f := by
  unfold defining
  split
  · exact s.frame.fits_define _ f
  · rfl

@[simp] theorem fits_assign (s : Store) (constants : Array Value) (o : Operand) (v : Value)
    (f : Function) : (s.assign constants o v).frame.Fits f ↔ s.frame.Fits f := by
  rw [assign, fits_overwrite, fits_defining]

@[simp] theorem fits_yield (s : Store) (constants : Array Value) (o : Operand) (v : Value)
    (f : Function) : (s.yield constants o v).frame.Fits f ↔ s.frame.Fits f := by
  rw [yield]
  split
  · rfl
  · rw [fits_assign, frame_acquire]

@[simp] theorem fits_vacate (s : Store) (o : Operand) (f : Function) :
    (s.vacate o).frame.Fits f ↔ s.frame.Fits f := by
  cases o with
  | temp i => exact s.fits_overwrite _ _ f
  | _ => rfl

@[simp] theorem fits_vacateRead (s : Store) (instr : Instruction) (f : Function) :
    (s.vacateRead instr).frame.Fits f ↔ s.frame.Fits f := by
  unfold vacateRead
  dsimp only
  split <;> split <;> simp only [fits_vacate]

@[simp] theorem fits_separate (s : Store) (place : Place) (f : Function) :
    (s.separate place).2.frame.Fits f ↔ s.frame.Fits f := by
  cases place with
  | slot slot => exact s.frame.fits_put slot _ f
  | cell cell => rfl

/-- A definition changes no place. -/
@[simp] theorem placeOf_defining (s : Store) (constants : Array Value) (o : Operand)
    (slot : Slot) : (s.defining constants o).placeOf slot = s.placeOf slot := by
  unfold defining
  split
  · simp only [placeOf, Frame.get_define]
  · rfl

/-- An operand that is in order resolves. -/
theorem resolve_eq (within : o.Within f) (fits : s.frame.Fits f) :
    s.resolve f.constants o = .ok (s.held f.constants o) := by
  cases o with
  | unused => rfl
  | const i =>
    have lt : i < f.constants.size := within
    simp [resolve, held, lt]
  | temp i =>
    have lt : i < s.frame.temps.size := Nat.lt_of_lt_of_le within fits.temps
    simp [resolve, held, Frame.get, Frame.get?, lt]
  | var i =>
    have lt : i < s.frame.vars.size := Nat.lt_of_lt_of_le within fits.vars
    simp [resolve, held, Frame.get, Frame.get?, lt]
  | dynamic i =>
    obtain ⟨name, found⟩ := within
    simp only [resolve, held, Operand.slot, variableName, found]
    rfl

/-- An operand that is in order shows a value. -/
theorem view_eq (within : o.Within f) (fits : s.frame.Fits f) :
    s.view f.constants o = .ok (s.heap.lookThrough (s.held f.constants o)) := by
  rw [view, resolve_eq within fits]
  rfl

end Store

namespace Action

variable {f : Function} {s : Store} {o : Operand}

/-- Looking at an operand that is in order. -/
theorem look_eq (within : o.Within f) (fits : s.frame.Fits f) :
    look f.constants o s = (.ok (s.shown f.constants o), s) := by
  rw [look, run_bind_ok (run_get s), Store.view_eq within fits]
  rfl

/-- Loading an operand that is in order. -/
theorem load_eq (within : o.Within f) (fits : s.frame.Fits f) :
    load f.constants o s
      = (.ok (s.shown f.constants o), s.acquire (s.shown f.constants o)) := by
  rw [load, run_bind_ok (look_eq within fits)]
  rfl

/-- Slot of an operand that is in order and can be written. -/
theorem writableSlot_eq (within : o.Within f) (storable : o.isLiteral = false)
    (fits : s.frame.Fits f) :
    writableSlot f.constants o s
      = (.ok (o.slot f.constants), s.defining f.constants o) := by
  cases o with
  | unused => rfl
  | const i => cases storable
  | temp i =>
    have lt : i < s.frame.temps.size := Nat.lt_of_lt_of_le within fits.temps
    rw [writableSlot, temporarySlot, run_bind_ok (run_get s), if_pos lt]
    rfl
  | var i =>
    have lt : i < s.frame.vars.size := Nat.lt_of_lt_of_le within fits.vars
    rw [writableSlot, variableSlot, run_bind_ok (run_get s), if_pos lt]
    rfl
  | dynamic i =>
    obtain ⟨name, found⟩ := within
    simp only [writableSlot, Operand.slot, Store.defining, variableName, found]
    rfl

/-- Place of an operand that is in order and can be written. -/
theorem writablePlace_eq (within : o.Within f) (storable : o.isLiteral = false)
    (fits : s.frame.Fits f) :
    writablePlace f.constants o s
      = (.ok (s.target f.constants o), s.defining f.constants o) := by
  rw [writablePlace, run_bind_ok (writableSlot_eq within storable fits),
    run_bind_ok (run_get _), run_pure, Store.placeOf_defining]
  rfl

/-- An operand can be written, or else there is nothing done to the store. -/
theorem writablePlace_cases (constants : Array Value) (o : Operand) (s : Store) :
    (∃ cause, writablePlace constants o s = (.error (.code cause), s))
      ∨ writablePlace constants o s = (.ok (s.target constants o), s.defining constants o) := by
  have found {slot : Slot} {t : Store} (is : writableSlot constants o s = (.ok slot, t)) :
      writablePlace constants o s = (.ok (t.placeOf slot), t) := by
    rw [writablePlace, run_bind_ok is]
    rfl
  have lost {cause : CodeFault} (is : writableSlot constants o s = (.error (.code cause), s)) :
      writablePlace constants o s = (.error (.code cause), s) := by
    rw [writablePlace, run_bind_error is]
  cases o with
  | unused => exact .inr (found rfl)
  | const i => exact .inl ⟨_, lost rfl⟩
  | temp i =>
    have slot : writableSlot constants (.temp i) s = temporarySlot i s := rfl
    rw [temporarySlot, run_bind_ok (run_get s)] at slot
    split at slot
    · exact .inr (found slot)
    · exact .inl ⟨_, lost slot⟩
  | var i =>
    have slot : writableSlot constants (.var i) s = variableSlot i s := rfl
    rw [variableSlot, run_bind_ok (run_get s)] at slot
    split at slot
    · exact .inr (found slot)
    · exact .inl ⟨_, lost slot⟩
  | dynamic i =>
    have slot : writableSlot constants (.dynamic i) s
        = (attempt (variableName constants i) >>= fun name => do
            onFrame (·.define name)
            return .symbol name) s := rfl
    cases named : constants[i]? with
    | none => exact .inl ⟨_, lost (by rw [slot, variableName, named]; rfl)⟩
    | some v =>
      cases v with
      | str name =>
        refine .inr ?_
        rw [Store.target, ← Store.placeOf_defining s constants (.dynamic i)]
        have defined : s.defining constants (.dynamic i)
            = { s with frame := s.frame.define name } := by
          simp only [Store.defining, Operand.slot, named]
        have symbol : (Operand.dynamic i).slot constants = .symbol name := by
          simp only [Operand.slot, named]
        rw [defined, symbol]
        exact found (by rw [slot, variableName, named]; rfl)
      | _ => exact .inl ⟨_, lost (by rw [slot, variableName, named]; rfl)⟩

/-- Storing into an operand that is in order and can be written. -/
theorem storeOperand_eq (within : o.Within f) (storable : o.isLiteral = false)
    (fits : s.frame.Fits f) (v : Value) :
    storeOperand f.constants o v s = (.ok ⟨⟩, s.assign f.constants o v) := by
  rw [storeOperand, run_bind_ok (run_holding_ok (writablePlace_eq within storable fits))]
  rfl

/-- Emptying a temporary that is there. -/
theorem releaseTemporary_eq {i : Nat} (within : (Operand.temp i).Within f)
    (fits : s.frame.Fits f) :
    releaseTemporary i s = (.ok ⟨⟩, s.vacate (.temp i)) := by
  have lt : i < s.frame.temps.size := Nat.lt_of_lt_of_le within fits.temps
  have slot : temporarySlot i s = (.ok (.temp i), s) := by
    rw [temporarySlot, run_bind_ok (run_get s), if_pos lt]
    rfl
  rw [releaseTemporary, run_bind_ok slot]
  rfl

/-- Emptying an operand that names no temporary that is missing. -/
theorem releaseIfTemporary_eq (there : ∀ i, o = .temp i → i < f.temporaries)
    (fits : s.frame.Fits f) : releaseIfTemporary o s = (.ok ⟨⟩, s.vacate o) := by
  cases o with
  | temp i => exact releaseTemporary_eq (there i rfl) fits
  | _ => rfl

/-- Emptying the operands of an instruction that names no temporary that is missing. -/
theorem releaseOperands_eq {instr : Instruction}
    (first : ∀ i, instr.op1 = .temp i → i < f.temporaries)
    (second : ∀ i, instr.op2 = .temp i → i < f.temporaries) (fits : s.frame.Fits f) :
    releaseOperands instr s = (.ok ⟨⟩, s.vacateRead instr) := by
  have empty := releaseIfTemporary_eq first fits
  rw [releaseOperands, Store.vacateRead]
  by_cases one : instr.op1 ≠ instr.result
  · rw [if_pos one, if_pos one, run_bind_ok empty]
    by_cases two : instr.op2 ≠ instr.result
    · rw [if_pos two, if_pos two]
      exact releaseIfTemporary_eq second (by simpa using fits)
    · rw [if_neg two, if_neg two]
      rfl
  · rw [if_neg one, if_neg one]
    by_cases two : instr.op2 ≠ instr.result
    · rw [if_pos two, if_pos two]
      exact releaseIfTemporary_eq second fits
    · rw [if_neg two, if_neg two]
      rfl

end Action

end OverloadMachine
