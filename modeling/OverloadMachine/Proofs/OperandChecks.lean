import OverloadMachine.Proofs.Calls

/-!
# Operands that are checked before a call

An instruction that nobody has verified may name operands that are not there. They are
looked at before its handler runs, and what passes is as good as verified: the frame has
the slots of a function of its own size, and handlers keep that size. Only a second operand
that the category does not read is left out, although it is emptied with the others if it
names a temporary. Apart from that case, a fault of the code means that nothing has happened.
-/

namespace OverloadMachine

/-! ## Frames and their size -/

/-- A function that needs exactly the slots of a frame. -/
def Frame.sized (frame : Frame) (constants : Array Value) : Function where
  name := ""
  code := #[]
  constants := constants
  temporaries := frame.temps.size
  variableNames := Array.replicate frame.vars.size ""

theorem Frame.fits_sized (frame : Frame) (constants : Array Value) :
    frame.Fits (frame.sized constants) where
  temps := Nat.le_refl _
  vars := Nat.le_of_eq Array.size_replicate

namespace Store

variable {s : Store} {constants : Array Value} {instr : Instruction} {category : Category}

/-- An operand that resolves is in order for a function of the frame's size. -/
theorem within_of_resolve {o : Operand} {v : Value} (resolves : s.resolve constants o = .ok v) :
    o.Within (s.frame.sized constants) := by
  cases o with
  | unused => trivial
  | const i =>
    rw [resolve] at resolves
    split at resolves
    · rename_i found
      exact (Array.getElem?_eq_some_iff.mp found).1
    · cases resolves
  | temp i =>
    rw [resolve] at resolves
    split at resolves
    · rename_i found
      exact (Array.getElem?_eq_some_iff.mp found).1
    · cases resolves
  | var i =>
    rw [resolve] at resolves
    split at resolves
    · rename_i found
      have lt := (Array.getElem?_eq_some_iff.mp found).1
      rw [Operand.Within, Frame.sized, Array.size_replicate]
      exact lt
    · cases resolves
  | dynamic i =>
    rw [resolve, variableName] at resolves
    split at resolves
    · rename_i name found
      exact ⟨name, found⟩
    · cases resolves

/-- What an instruction is known to have once its operands have passed the check. -/
structure Operable (s : Store) (constants : Array Value) (instr : Instruction)
    (category : Category) : Prop where
  op1 : instr.op1.Within (s.frame.sized constants)
  op2 : category.hasSecondOperand = true → instr.op2.Within (s.frame.sized constants)
  result : instr.result.Within (s.frame.sized constants) ∧ instr.result.isLiteral = false

/-- What passes the check is in order. -/
theorem operable_of_passes (passes : s.checkOperands constants instr category = .ok ()) :
    s.Operable constants instr category := by
  unfold checkOperands at passes
  obtain ⟨v, first, passes⟩ := bind_eq_ok.mp passes
  dsimp only at passes
  have second : category.hasSecondOperand = true → ∃ w, s.resolve constants instr.op2 = .ok w := by
    intro reads
    rw [if_pos reads] at passes
    obtain ⟨w, second, -⟩ := bind_eq_ok.mp passes
    exact ⟨w, second⟩
  have third : (∃ w, s.resolve constants instr.result = .ok w)
      ∧ instr.result.isLiteral = false := by
    cases stores : instr.result with
    | const i =>
      rw [stores] at passes
      split at passes
      · obtain ⟨_, -, passes⟩ := bind_eq_ok.mp passes
        cases passes
      · cases passes
    | _ =>
      rw [stores] at passes
      split at passes
      · obtain ⟨_, -, passes⟩ := bind_eq_ok.mp passes
        obtain ⟨w, third, -⟩ := bind_eq_ok.mp passes
        exact ⟨⟨w, third⟩, rfl⟩
      · obtain ⟨w, third, -⟩ := bind_eq_ok.mp passes
        exact ⟨⟨w, third⟩, rfl⟩
  obtain ⟨⟨w, third⟩, storable⟩ := third
  exact ⟨within_of_resolve first, fun reads => (second reads).elim fun _ => within_of_resolve,
    within_of_resolve third, storable⟩

end Store

/-! ## Faults of operands -/

namespace Action

variable {s : Store} {constants : Array Value} {instr : Instruction} {category : Category}
  {order : NegationOrder}

/-- Once the operands have passed the check, the answer of the handler is taken without a look
at them, if a second operand that is emptied is there although the category does not read it. -/
theorem conclude_of_run (has : s.Operable constants instr category)
    (there : category.hasSecondOperand = false → instr.op2 ≠ instr.result →
      ∀ i, instr.op2 = .temp i → i < s.frame.temps.size)
    {handler : Handler} {reply : Answer} {c : CallState}
    (runs : handler.run ⟨instr, category, constants, order⟩ ⟨s, none, none⟩ = (some reply, c)) :
    conclude constants instr reply c.pending c.store
      = Effect.conclude constants instr reply c.pending c.store := by
  have second : ∀ i, instr.op2 = .temp i → i < s.frame.temps.size := by
    by_cases same : instr.op2 = instr.result
    · rw [same]
      exact has.result.1.temporary
    · cases reads : category.hasSecondOperand with
      | true => exact (has.op2 reads).temporary
      | false => exact there reads same
  have fits := (CallContext.stable_fits ⟨instr, category, constants, order⟩
    (s.frame.sized constants)).run (c := ⟨s, none, none⟩) (s.frame.fits_sized constants) handler
  rw [runs] at fits
  exact conclude_eq (f := s.frame.sized constants) has.op1.temporary second has.result.1
    has.result.2 fits reply c.pending

/-- A fault of the code is the one that the check has met: the handler does not run, whatever it
would do, and the store is as it was. The second operand of an instruction that does not read
it is not checked, so it may name no temporary that is missing, unless it names the result. -/
theorem code_fault_comes_before_the_handler (has : instr.opcode.category? = some category)
    (there : category.hasSecondOperand = false → instr.op2 ≠ instr.result →
      ∀ i, instr.op2 = .temp i → i < s.frame.temps.size)
    {handler : Handler} {cause : CodeFault}
    (fails : (invoke handler constants order instr s).1 = .error (.code cause)) :
    s.checkOperands constants instr category = .error (.code cause)
      ∧ ∀ other, invoke other constants order instr s = (.error (.code cause), s) := by
  cases check : s.checkOperands constants instr category with
  | error fault =>
    have early := fun other => invoke_of_fails has check other order
    rw [early handler] at fails
    cases fails
    exact ⟨rfl, early⟩
  | ok _ =>
    rw [invoke_of_passes has check] at fails
    split at fails
    · cases fails
    · rename_i reply c runs
      split at fails
      · cases fails
      · rw [conclude_of_run (Store.operable_of_passes check) there runs] at fails
        cases reply <;> cases fails

/-- Sets the result to nine. -/
def answeringNine : Handler := .setResult (.scalar (.int 9)) fun _ => .answer .handled

/-- A store with one temporary, and one variable that is ten. -/
def oneOfEach : Store where
  heap := .empty
  frame := { Frame.ofSizes 1 0 with vars := #[.int 10] }
  notes := #[]

/-- A first operand that is missing is reported before anything is done. -/
theorem missing_operand_comes_before_the_handler :
    let instr : Instruction := ⟨.arithmetic .add, .temp 9, .var 0, .temp 0, 0⟩
    oneOfEach.checkOperands #[] instr .binary = .error (.code (.temporaryOutOfBounds 9 1))
      ∧ ∀ other, invoke other #[] .valueFirst instr oneOfEach
        = (.error (.code (.temporaryOutOfBounds 9 1)), oneOfEach) :=
  code_fault_comes_before_the_handler (rfl : (Opcode.arithmetic .add).category? = some .binary)
    (fun unread => absurd unread (by decide))
    (rfl : (invoke answeringNine #[] .valueFirst _ oneOfEach).1 = _)

/-- A second operand that is missing and not read is reported after the result is stored. -/
theorem missing_unread_operand_comes_too_late :
    let instr : Instruction := ⟨.unary .bitNot, .var 0, .temp 9, .temp 0, 0⟩
    let call := invoke answeringNine #[] .valueFirst instr oneOfEach
    instr.opcode.category? = some .unary
      ∧ call.1 = .error (.code (.temporaryOutOfBounds 9 1))
      ∧ oneOfEach.frame.temps = #[.null] ∧ call.2.frame.temps = #[.int 9]
      ∧ (invoke (.answer .declined) #[] .valueFirst instr oneOfEach).1 = .ok .declined :=
  ⟨rfl, rfl, rfl, rfl, rfl⟩

end Action

end OverloadMachine
