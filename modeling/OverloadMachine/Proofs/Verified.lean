import OverloadMachine.Negation
import OverloadMachine.Program.Verify

/-!
# What verification promises

A function that passes verification names only what it has, gives every
instruction the operands that it needs, jumps only into its own code, and does
not run past its end. Here the checks are turned into the facts that execution
relies on.
-/

namespace OverloadMachine

/-- A computation after another has a result if both have one. -/
theorem bind_eq_ok {ε α β : Type} {first : Except ε α} {next : α → Except ε β} {b : β} :
    (first >>= next) = .ok b ↔ ∃ a, first = .ok a ∧ next a = .ok b := by
  cases first with
  | ok a => simp [bind, Except.bind]
  | error e => simp [bind, Except.bind]

/-- Two checks pass, one after the other. -/
theorem Function.both_checks {ε : Type} {first second : Except ε Unit} :
    (first >>= fun _ => second) = .ok () ↔ first = .ok () ∧ second = .ok () := by
  rw [bind_eq_ok]
  exact ⟨fun ⟨_, one, two⟩ => ⟨one, two⟩, fun ⟨one, two⟩ => ⟨(), one, two⟩⟩

namespace Operand

/-- An operand names something that a function has. -/
def Within (f : Function) : Operand → Prop
  | .unused => True
  | .const i => i < f.constants.size
  | .temp i => i < f.temporaries
  | .var i => i < f.variableNames.size
  | .dynamic i => ∃ name, f.constants[i]? = some (.str name)

/-- What is a variable or a temporary is no literal. -/
theorem isLiteral_of_isVariable {o : Operand} (h : o.isVariable = true) : o.isLiteral = false := by
  cases o <;> simp_all [isVariable, isLiteral]

/-- What is a variable can be written. -/
theorem isWritable_of_isVariable {o : Operand} (h : o.isVariable = true) : o.isWritable = true := by
  cases o <;> simp_all [isVariable, isWritable]

end Operand

namespace Function

/-- A text constant. -/
theorem isText_eq_true {f : Function} {i : Nat} :
    f.isText i = true ↔ ∃ name, f.constants[i]? = some (.str name) := by
  unfold isText
  split
  · rename_i name eq
    simp [eq]
  · rename_i other
    simp only [Bool.false_eq_true, false_iff, not_exists]
    exact other

/-- The check of a descriptor passes exactly if it names something that is there. -/
theorem checkReference_eq_ok {f : Function} {pc : Nat} {o : Operand} :
    f.checkReference pc o = .ok () ↔ o.Within f := by
  cases o with
  | unused => simp [checkReference, Operand.Within]
  | const i => by_cases lt : i < f.constants.size <;> simp [checkReference, Operand.Within, lt]
  | temp i => by_cases lt : i < f.temporaries <;> simp [checkReference, Operand.Within, lt]
  | var i => by_cases lt : i < f.variableNames.size <;> simp [checkReference, Operand.Within, lt]
  | dynamic i =>
    rw [Operand.Within, ← isText_eq_true, checkReference]
    by_cases lt : i < f.constants.size
    · by_cases text : f.isText i <;> simp [lt, text]
    · have none : f.isText i = false := by simp [isText, lt]
      simp [lt, none]

theorem checkGiven_eq_ok {op : Opcode} {pc : Nat} {place : OperandPlace} {o : Operand} :
    checkGiven op pc place o = .ok () ↔ o.isUnused = false := by
  cases h : o.isUnused <;> simp [checkGiven, h]

theorem checkVariable_eq_ok {op : Opcode} {pc : Nat} {place : OperandPlace} {o : Operand} :
    checkVariable op pc place o = .ok () ↔ o.isVariable = true := by
  rw [checkVariable, both_checks, checkGiven_eq_ok]
  cases o <;> simp [Operand.isUnused, Operand.isVariable]

theorem checkOptionalResult_eq_ok {op : Opcode} {pc : Nat} {o : Operand} :
    checkOptionalResult op pc o = .ok () ↔ o.isLiteral = false := by
  cases o <;>
    simp [checkOptionalResult, Operand.isUnused, Operand.isWritable, Operand.isLiteral]

theorem checkResult_eq_ok {op : Opcode} {pc : Nat} {o : Operand} :
    checkResult op pc o = .ok () ↔ o.isUnused = false ∧ o.isLiteral = false := by
  rw [checkResult, both_checks, checkGiven_eq_ok, checkOptionalResult_eq_ok]

theorem checkTemporary_eq_ok {op : Opcode} {pc : Nat} {place : OperandPlace} {o : Operand} :
    checkTemporary op pc place o = .ok () ↔ ∃ i, o = .temp i := by
  cases o <;> simp [checkTemporary]

theorem checkTarget_eq_ok {f : Function} {instr : Instruction} {pc : Nat} :
    f.checkTarget instr pc = .ok ()
      ↔ (instr.opcode.isJump = true → instr.target.toNat < f.code.size) := by
  cases jump : instr.opcode.isJump <;> simp [checkTarget, jump]

end Function

namespace Instruction

/-- What an operator may rely on: its operands are given, the one that it assigns
is a variable, and its result can be written. -/
structure OperatorShape (category : Category) (instr : Instruction) : Prop where
  given : instr.op1.isUnused = false
  second : category.hasSecondOperand = true → instr.op2.isUnused = false
  assigned : category.isAssignment = true → instr.op1.isVariable = true
  result : instr.result.isLiteral = false
  before : category = .unaryAssignPost → ∃ i, instr.result = .temp i

/-- What an instruction may rely on. -/
structure Checked (f : Function) (pc : Nat) (instr : Instruction) : Prop where
  op1 : instr.op1.Within f
  op2 : instr.op2.Within f
  result : instr.result.Within f
  shape : f.checkShape instr pc = .ok ()
  target : instr.opcode.isJump = true → instr.target.toNat < f.code.size

variable {f : Function} {pc : Nat} {instr : Instruction}

/-- The check of an instruction passes exactly if the instruction is in order. -/
theorem checkInstruction_eq_ok : f.checkInstruction instr pc = .ok () ↔ instr.Checked f pc := by
  simp only [Function.checkInstruction, Function.both_checks, Function.checkReference_eq_ok,
    Function.checkTarget_eq_ok]
  constructor
  · rintro ⟨op1, op2, result, shape, target⟩
    exact ⟨op1, op2, result, shape, target⟩
  · intro checked
    exact ⟨checked.op1, checked.op2, checked.result, checked.shape, checked.target⟩

namespace Checked

/-- The shape of an operator. -/
theorem operator (checked : instr.Checked f pc) {category : Category}
    (has : instr.opcode.category? = some category) : instr.OperatorShape category := by
  have shape := checked.shape
  simp only [Function.checkShape, has] at shape
  cases category with
  | binary =>
    simp [Function.checkOperator, Category.hasSecondOperand, Category.isAssignment,
      Function.both_checks, Function.checkGiven_eq_ok, Function.checkOptionalResult_eq_ok]
      at shape
    exact ⟨shape.1, fun _ => shape.2.1, nofun, shape.2.2, nofun⟩
  | binaryAssign =>
    simp [Function.checkOperator, Category.hasSecondOperand, Category.isAssignment,
      Function.both_checks, Function.checkGiven_eq_ok, Function.checkOptionalResult_eq_ok,
      Function.checkVariable_eq_ok] at shape
    exact ⟨shape.1, fun _ => shape.2.1, fun _ => shape.2.2.1, shape.2.2.2, nofun⟩
  | unary =>
    simp [Function.checkOperator, Category.hasSecondOperand, Category.isAssignment,
      Function.both_checks, Function.checkGiven_eq_ok, Function.checkOptionalResult_eq_ok]
      at shape
    exact ⟨shape.1, nofun, nofun, shape.2, nofun⟩
  | unaryAssignPre =>
    simp [Function.checkOperator, Category.hasSecondOperand, Category.isAssignment,
      Function.both_checks, Function.checkGiven_eq_ok, Function.checkOptionalResult_eq_ok,
      Function.checkVariable_eq_ok] at shape
    exact ⟨shape.1, nofun, fun _ => shape.2.1, shape.2.2, nofun⟩
  | unaryAssignPost =>
    simp [Function.checkOperator, Category.hasSecondOperand, Category.isAssignment,
      Function.both_checks, Function.checkGiven_eq_ok, Function.checkTemporary_eq_ok,
      Function.checkVariable_eq_ok] at shape
    obtain ⟨given, assigned, i, result⟩ := shape
    exact ⟨given, nofun, fun _ => assigned, by rw [result]; rfl, fun _ => ⟨i, result⟩⟩

/-- The shape of an assignment. -/
theorem assign (checked : instr.Checked f pc) (op : instr.opcode = .assign) :
    instr.op1.isVariable = true ∧ instr.result.isLiteral = false := by
  have shape := checked.shape
  simp only [Function.checkShape, op, Opcode.category?, Function.both_checks,
    Function.checkVariable_eq_ok, Function.checkOptionalResult_eq_ok] at shape
  exact ⟨shape.1, shape.2.2⟩

/-- The shape of an assignment by reference. -/
theorem assignRef (checked : instr.Checked f pc) (op : instr.opcode = .assignRef) :
    instr.op1.isVariable = true ∧ instr.op2.isVariable = true := by
  have shape := checked.shape
  simp only [Function.checkShape, op, Opcode.category?, Function.both_checks,
    Function.checkVariable_eq_ok] at shape
  exact shape

/-- The shape of a construction. -/
theorem newComposite (checked : instr.Checked f pc) (op : instr.opcode = .newComposite) :
    (∃ i name, instr.op1 = .const i ∧ f.constants[i]? = some (.str name))
      ∧ instr.result.isLiteral = false := by
  have shape := checked.shape
  simp only [Function.checkShape, op, Opcode.category?] at shape
  cases first : instr.op1 with
  | const i =>
    simp only [first] at shape
    by_cases text : f.isText i
    · obtain ⟨name, found⟩ := Function.isText_eq_true.mp text
      simp only [text, if_true, Function.both_checks, Function.checkResult_eq_ok] at shape
      exact ⟨⟨i, name, rfl, found⟩, shape.2.2⟩
    · simp [text, Function.both_checks] at shape
  | _ => simp [first, Function.both_checks] at shape

/-- The shape of a write of a field: the data stand behind it. -/
theorem setField (checked : instr.Checked f pc) (op : instr.opcode = .setField) :
    instr.op1.isVariable = true
      ∧ ∃ data, f.code[pc + 1]? = some data ∧ data.opcode = .opData := by
  have shape := checked.shape
  simp only [Function.checkShape, op, Opcode.category?, Function.both_checks,
    Function.checkVariable_eq_ok] at shape
  obtain ⟨target, -, behind⟩ := shape
  refine ⟨target, ?_⟩
  split at behind
  · rename_i data found
    by_cases is : data.opcode = .opData
    · exact ⟨data, found, is⟩
    · simp [is] at behind
  · cases behind

/-- The shape of a read of a field. -/
theorem getField (checked : instr.Checked f pc) (op : instr.opcode = .getField) :
    instr.result.isLiteral = false := by
  have shape := checked.shape
  simp only [Function.checkShape, op, Opcode.category?, Function.both_checks,
    Function.checkResult_eq_ok] at shape
  exact shape.2.2.2

/-- The shape of a release. -/
theorem free (checked : instr.Checked f pc) (op : instr.opcode = .free) :
    ∃ i, instr.op1 = .temp i := by
  have shape := checked.shape
  simp only [Function.checkShape, op, Opcode.category?] at shape
  exact Function.checkTemporary_eq_ok.mp shape

end Checked

end Instruction

namespace Function

/-- What execution may rely on. -/
structure Verified (f : Function) : Prop where
  checked : ∀ {pc : Nat} {instr : Instruction}, f.code[pc]? = some instr → instr.Checked f pc
  nonempty : 0 < f.code.size
  /-- Control cannot pass the last instruction. -/
  next : ∀ {pc : Nat} {instr : Instruction}, f.code[pc]? = some instr →
    instr.opcode.isTerminator = false → pc + 1 < f.code.size

/-- The instructions of a list pass the check exactly if each of them is in order. -/
theorem checkFrom_eq_ok {f : Function} {start : Nat} {code : List Instruction} :
    f.checkFrom start code = .ok ()
      ↔ ∀ (i : Nat) (instr : Instruction), code[i]? = some instr → instr.Checked f (start + i) := by
  induction code generalizing start with
  | nil => simp [checkFrom]
  | cons head rest ih =>
    rw [checkFrom, both_checks, Instruction.checkInstruction_eq_ok, ih]
    constructor
    · rintro ⟨first, others⟩ i instr found
      cases i with
      | zero =>
        cases found
        exact first
      | succ i =>
        have there := others i instr (by simpa using found)
        rwa [show start + (i + 1) = start + 1 + i by omega]
    · intro all
      refine ⟨all 0 head rfl, fun i instr found => ?_⟩
      have there := all (i + 1) instr (by simpa using found)
      rwa [show start + 1 + i = start + (i + 1) by omega]

/-- Verification passes exactly if every instruction is in order and the last one ends the
flow. -/
theorem verify_eq_ok {f : Function} :
    f.verify = .ok ()
      ↔ (∀ (pc : Nat) (instr : Instruction), f.code[pc]? = some instr → instr.Checked f pc)
        ∧ ∃ last, f.code.back? = some last ∧ last.opcode.isTerminator = true := by
  unfold verify
  cases f.code.back? with
  | none => simp
  | some last =>
    rw [both_checks, checkFrom_eq_ok]
    cases terminator : last.opcode.isTerminator <;> simp [terminator]

/-- Verification gives what execution relies on. -/
theorem verified_of_verify {f : Function} (h : f.verify = .ok ()) : f.Verified := by
  obtain ⟨checked, last, back, terminator⟩ := verify_eq_ok.mp h
  rw [Array.back?_eq_getElem?] at back
  obtain ⟨lt, -⟩ := Array.getElem?_eq_some_iff.mp back
  refine ⟨fun found => checked _ _ found, by omega, fun {pc instr} found goes => ?_⟩
  obtain ⟨inside, -⟩ := Array.getElem?_eq_some_iff.mp found
  -- The last instruction ends the flow, so this one is not the last.
  have ne : pc ≠ f.code.size - 1 := by
    intro eq
    rw [eq, back] at found
    cases found
    rw [terminator] at goes
    cases goes
  omega

end Function

end OverloadMachine
