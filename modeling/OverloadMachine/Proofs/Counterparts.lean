import OverloadMachine.Program.Writer
import OverloadMachine.Proofs.Verified

/-!
# Functions in either negation order

A function is written by a sequence of calls of its writer. Only the calls for unary
minus and plus ask for the negation order. So the functions that one sequence writes
in the two orders have the same constants, temporaries and variables, and the same
instructions but for products with one or minus one, whose operands stand on exchanged
sides. What the calls hand out is the same as well, and one function is in order exactly
if the other is.
-/

namespace OverloadMachine

/-! ## Sequences of calls -/

/-- Whether a value is one or minus one, as an integer or as a float. -/
def Value.isUnit : Value → Bool
  | .int i => i == 1 || i == -1
  | .float x => x == 1.0 || x == -1.0
  | _ => false

/-- Whether an operand is a literal one or minus one. -/
def Operand.isUnit (constants : Array Value) : Operand → Bool
  | .const i => (constants[i]?.map Value.isUnit).getD false
  | _ => false

/-- Whether an instruction is a product with a literal one or minus one. -/
def Instruction.multipliesByUnit (constants : Array Value) (instr : Instruction) : Bool :=
  instr.opcode == .arithmetic .mul
    && (instr.op1.isUnit constants || instr.op2.isUnit constants)

namespace Writer

/-- A call of a writer. -/
inductive Call where
  | constant (v : Value)
  | temporary
  | named (name : String)
  | dynamic (name : String)
  | position
  | push (instr : Instruction)
  | emit (opcode : Opcode) (op1 op2 result : Operand)
  /-- A unary minus or plus. -/
  | sign (sign : Sign) (value result : Operand)
  | setField (target key value : Operand)
  | ret (value : Operand)
  | jump (target : Nat)
  | jumpIfFalse (condition : Operand) (target : Nat)
  | patch (pos target : Nat)

/-- Instructions that a call appends as they are. A unary minus or plus is not among
them. -/
def Call.instructions : Call → List Instruction
  | .push instr => [instr]
  | .emit opcode op1 op2 result => [⟨opcode, op1, op2, result, 0⟩]
  | .setField target key value =>
    [⟨.setField, target, key, .unused, 0⟩, ⟨.opData, value, .unused, .unused, 0⟩]
  | .ret value => [⟨.ret, value, .unused, .unused, 0⟩]
  | .jump target => [⟨.jmp, .unused, .unused, .unused, UInt32.ofNat target⟩]
  | .jumpIfFalse condition target =>
    [⟨.jmpIfFalse, condition, .unused, .unused, UInt32.ofNat target⟩]
  | .constant _ | .temporary | .named _ | .dynamic _ | .position | .sign .. | .patch .. => []

/-- What a call hands out. -/
inductive Handed where
  | nothing
  | operand (o : Operand)
  | position (pos : Nat)

/-- Make a call, with unary minus and plus in a negation order. -/
def perform (order : NegationOrder) (w : Writer) : Call → Handed × Writer
  | .constant v => (w.constant v).map .operand id
  | .temporary => w.temporary.map .operand id
  | .named name => (w.named name).map .operand id
  | .dynamic name => (w.dynamic name).map .operand id
  | .position => (.position w.position, w)
  | .push instr => (w.push instr).map .position id
  | .emit opcode op1 op2 result => (w.emit opcode op1 op2 result).map .position id
  | .sign sign value result => (w.emitSign sign value result order).map .position id
  | .setField target key value => (w.emitSetField target key value).map .position id
  | .ret value => (w.emitReturn value).map .position id
  | .jump target => (w.emitJump target).map .position id
  | .jumpIfFalse condition target => (w.emitJumpIfFalse condition target).map .position id
  | .patch pos target => (.nothing, w.patch pos target)

/-- Make calls one after the other. -/
def performAll (order : NegationOrder) (w : Writer) : List Call → List Handed × Writer
  | [] => ([], w)
  | call :: rest =>
    let (handed, w) := w.perform order call
    let (others, w) := w.performAll order rest
    (handed :: others, w)

/-- The function that a sequence of calls writes. -/
def written (order : NegationOrder) (name : String) (calls : List Call) : Function :=
  ((start name).performAll order calls).2.finish

end Writer

/-! ## Products with units -/

namespace Sign

/-- Only a unit stands for a sign. -/
theorem ofFactor?_of_not_isUnit {v : Value} (other : v.isUnit = false) : ofFactor? v = none := by
  cases v with
  | int i | float x =>
    simp only [Value.isUnit, Bool.or_eq_false_iff] at other
    simp_all [ofFactor?]
  | _ => rfl

/-- The factor of a sign stands for it. -/
@[simp] theorem ofFactor?_factor (sign : Sign) : ofFactor? sign.factor = some sign := by
  cases sign <;> decide

end Sign

/-- An instruction that is no product with a unit stands for no sign, in either order. -/
theorem NegationOrder.sign?_of_plain {constants : Array Value} {instr : Instruction}
    (plain : instr.multipliesByUnit constants = false) (order : NegationOrder) :
    order.sign? constants instr = none := by
  have side (o : Operand) (other : o.isUnit constants = false) :
      (match o with
        | .const i => constants[i]? >>= Sign.ofFactor?
        | _ => none) = none := by
    cases o with
    | const i =>
      dsimp only
      cases found : constants[i]? with
      | none => rfl
      | some v =>
        simp only [Operand.isUnit, found, Option.map_some, Option.getD_some] at other
        exact Sign.ofFactor?_of_not_isUnit other
    | _ => rfl
  unfold sign?
  by_cases product : instr.opcode = .arithmetic .mul
  · simp only [Instruction.multipliesByUnit, product, beq_self_eq_true, Bool.true_and,
      Bool.or_eq_false_iff] at plain
    rw [if_pos product]
    cases order with
    | valueFirst => exact side instr.op2 plain.2
    | constantFirst => exact side instr.op1 plain.1
  · rw [if_neg product]

/-! ## Counterparts -/

/-- Two instructions are the same, which is no product with a unit among the literals, or
they are the products for one sign of one value in either order. -/
inductive Instruction.Counterpart (literals constants : Array Value) :
    Instruction → Instruction → Prop
  | same {instr : Instruction} (plain : instr.multipliesByUnit literals = false) :
    Counterpart literals constants instr instr
  | sign {sign : Sign} {value result : Operand} {index : Nat} {target : UInt32}
    (factor : constants[index]? = some sign.factor) :
    Counterpart literals constants ⟨.arithmetic .mul, value, .const index, result, target⟩
      ⟨.arithmetic .mul, .const index, value, result, target⟩

namespace Instruction.Counterpart

variable {literals constants : Array Value} {i j : Instruction}

/-- A new constant is no other one. -/
theorem grow (twins : Counterpart literals constants i j) (v : Value) :
    Counterpart literals (constants.push v) i j := by
  cases twins with
  | same plain => exact .same plain
  | @sign sign _ _ index _ factor =>
    have older : index < constants.size := (Array.getElem?_eq_some_iff.mp factor).1
    have kept : (constants.push v)[index]? = some sign.factor := by
      rw [Array.getElem?_push, if_neg (Nat.ne_of_lt older), factor]
    exact .sign kept

/-- Targets are changed alike. -/
theorem retarget (twins : Counterpart literals constants i j) (target : UInt32) :
    Counterpart literals constants { i with target := target } { j with target := target } := by
  cases twins with
  | same plain => exact .same plain
  | sign factor => exact .sign factor

theorem opcode_eq (twins : Counterpart literals constants i j) : j.opcode = i.opcode := by
  cases twins <;> rfl

end Instruction.Counterpart

/-- The shape of a product does not depend on the sides. -/
theorem Function.checkShape_mul (f : Function) (a b result : Operand) (target : UInt32)
    (pc : Nat) : f.checkShape ⟨.arithmetic .mul, a, b, result, target⟩ pc = .ok ()
      ↔ a.isUnused = false ∧ b.isUnused = false ∧ result.isLiteral = false := by
  simp [checkShape, checkOperator, Opcode.category?, Category.hasSecondOperand,
    Category.isAssignment, both_checks, checkGiven_eq_ok, checkOptionalResult_eq_ok]

/-- Two functions have the same tables, and the instruction of one at a position is the
counterpart of the other's. -/
structure Function.Counterparts (literals : Array Value) (f g : Function) : Prop where
  constants : g.constants = f.constants
  temporaries : g.temporaries = f.temporaries
  variableNames : g.variableNames = f.variableNames
  size : g.code.size = f.code.size
  code : ∀ {pc : Nat} {i j : Instruction}, f.code[pc]? = some i → g.code[pc]? = some j →
    i.Counterpart literals f.constants j

namespace Function.Counterparts

variable {literals : Array Value} {f g : Function}

/-- Where one function has an instruction, the other one has its counterpart. -/
theorem fetched (twins : Counterparts literals f g) {pc : Nat} {i : Instruction}
    (found : f.code[pc]? = some i) :
    ∃ j, g.code[pc]? = some j ∧ i.Counterpart literals f.constants j := by
  obtain ⟨inside, -⟩ := Array.getElem?_eq_some_iff.mp found
  have also : pc < g.code.size := by rwa [twins.size]
  have there := Array.getElem?_eq_getElem also
  exact ⟨_, there, twins.code found there⟩

/-- Where one function has no instruction, the other has none. -/
theorem fetched_none (twins : Counterparts literals f g) {pc : Nat} (none : f.code[pc]? = none) :
    g.code[pc]? = .none := by
  rw [Array.getElem?_eq_none_iff] at none ⊢
  rwa [twins.size]

/-! ### Writing -/

/-- Counterparts remain so with a new constant. -/
theorem newConstant (twins : Counterparts literals f g) (v : Value) :
    Counterparts literals { f with constants := f.constants.push v }
      { g with constants := g.constants.push v } where
  constants := by rw [twins.constants]
  temporaries := twins.temporaries
  variableNames := twins.variableNames
  size := twins.size
  code one other := (twins.code one other).grow v

/-- Counterparts remain so with a new temporary. -/
theorem newTemporary (twins : Counterparts literals f g) :
    Counterparts literals { f with temporaries := f.temporaries + 1 }
      { g with temporaries := g.temporaries + 1 } where
  constants := twins.constants
  temporaries := by rw [twins.temporaries]
  variableNames := twins.variableNames
  size := twins.size
  code := twins.code

/-- Counterparts remain so with a new variable. -/
theorem newVariable (twins : Counterparts literals f g) (name : String) :
    Counterparts literals { f with variableNames := f.variableNames.push name }
      { g with variableNames := g.variableNames.push name } where
  constants := twins.constants
  temporaries := twins.temporaries
  variableNames := by rw [twins.variableNames]
  size := twins.size
  code := twins.code

/-- Counterparts remain so with an instruction and its counterpart appended. -/
theorem push (twins : Counterparts literals f g) {i j : Instruction}
    (appended : i.Counterpart literals f.constants j) :
    Counterparts literals { f with code := f.code.push i } { g with code := g.code.push j } where
  constants := twins.constants
  temporaries := twins.temporaries
  variableNames := twins.variableNames
  size := by simp [twins.size]
  code {pc _ _} one other := by
    rw [Array.getElem?_push] at one other
    rw [twins.size] at other
    by_cases last : pc = f.code.size
    · rw [if_pos last, Option.some.injEq] at one other
      subst one other
      exact appended
    · rw [if_neg last] at one other
      exact twins.code one other

/-- Counterparts remain so with a target changed in both. -/
theorem patch (twins : Counterparts literals f g) (pos : Nat) (target : UInt32) :
    Counterparts literals
      { f with code := f.code.modify pos fun instr => { instr with target := target } }
      { g with code := g.code.modify pos fun instr => { instr with target := target } } where
  constants := twins.constants
  temporaries := twins.temporaries
  variableNames := twins.variableNames
  size := by simp [twins.size]
  code {pc i j} one other := by
    rw [Array.getElem?_modify] at one other
    by_cases here : pos = pc
    · rw [if_pos here, Option.map_eq_some_iff] at one other
      obtain ⟨i, one, rfl⟩ := one
      obtain ⟨j, other, rfl⟩ := other
      exact (twins.code one other).retarget target
    · rw [if_neg here] at one other
      exact twins.code one other

/-! ### Verification -/

/-- An operand names something in one function exactly if it does in the other. -/
theorem within_iff (twins : Counterparts literals f g) {o : Operand} :
    o.Within g ↔ o.Within f := by
  cases o <;>
    simp only [Operand.Within, twins.constants, twins.temporaries, twins.variableNames]

/-- The opcode at a position is the same in both functions. -/
theorem opcode_eq (twins : Counterparts literals f g) (pc : Nat) :
    g.code[pc]?.map (·.opcode) = f.code[pc]?.map (·.opcode) := by
  cases found : f.code[pc]? with
  | none => rw [twins.fetched_none found]
  | some i =>
    obtain ⟨j, there, pair⟩ := twins.fetched found
    rw [there, Option.map_some, Option.map_some, pair.opcode_eq]

/-- The shape of an instruction that both functions share is checked alike. -/
theorem checkShape_eq (twins : Counterparts literals f g) (instr : Instruction) (pc : Nat) :
    g.checkShape instr pc = f.checkShape instr pc := by
  have text (index : Nat) : g.isText index = f.isText index := by
    rw [isText, isText, twins.constants]
  have behind := twins.opcode_eq (pc + 1)
  simp only [checkShape, text]
  cases one : f.code[pc + 1]? <;> cases other : g.code[pc + 1]? <;> simp_all

/-- An instruction is in order exactly if its counterpart is. -/
theorem checked_iff (twins : Counterparts literals f g) {i j : Instruction} {pc : Nat}
    (pair : i.Counterpart literals f.constants j) : j.Checked g pc ↔ i.Checked f pc := by
  rw [← Instruction.checkInstruction_eq_ok, ← Instruction.checkInstruction_eq_ok]
  simp only [checkInstruction, both_checks, checkReference_eq_ok, checkTarget_eq_ok,
    twins.within_iff, twins.checkShape_eq, twins.size]
  cases pair with
  | same plain => rfl
  | sign factor =>
    simp only [checkShape_mul]
    constructor
    · rintro ⟨op1, op2, result, ⟨given, second, writable⟩, target⟩
      exact ⟨op2, op1, result, ⟨second, given, writable⟩, target⟩
    · rintro ⟨op1, op2, result, ⟨given, second, writable⟩, target⟩
      exact ⟨op2, op1, result, ⟨second, given, writable⟩, target⟩

/-- One function is in order exactly if the other is. -/
theorem verify_iff (twins : Counterparts literals f g) :
    g.verify = .ok () ↔ f.verify = .ok () := by
  have checked : (∀ (pc : Nat) (j : Instruction), g.code[pc]? = some j → j.Checked g pc)
      ↔ ∀ (pc : Nat) (i : Instruction), f.code[pc]? = some i → i.Checked f pc := by
    constructor
    · intro all pc i one
      obtain ⟨j, other, pair⟩ := twins.fetched one
      exact (twins.checked_iff pair).mp (all pc j other)
    · intro all pc j other
      obtain ⟨i, one⟩ : ∃ i, f.code[pc]? = some i := by
        obtain ⟨inside, -⟩ := Array.getElem?_eq_some_iff.mp other
        exact ⟨_, Array.getElem?_eq_getElem (by rwa [← twins.size])⟩
      exact (twins.checked_iff (twins.code one other)).mpr (all pc i one)
  have ends : (∃ last, g.code.back? = some last ∧ last.opcode.isTerminator = true)
      ↔ ∃ last, f.code.back? = some last ∧ last.opcode.isTerminator = true := by
    have last := twins.opcode_eq (f.code.size - 1)
    rw [Array.back?_eq_getElem?, Array.back?_eq_getElem?, twins.size]
    cases one : f.code[f.code.size - 1]? <;> cases other : g.code[f.code.size - 1]? <;> simp_all
  rw [verify_eq_ok, verify_eq_ok, checked, ends]

end Function.Counterparts

namespace Writer

variable {literals : Array Value}

/-- Two writers have written counterparts, one in each order. -/
abbrev Counterparts (literals : Array Value) (w u : Writer) : Prop :=
  w.function.Counterparts literals u.function

/-- The same instruction is appended at the same position. -/
theorem Counterparts.push {w u : Writer} (twins : Counterparts literals w u) {instr : Instruction}
    (plain : instr.multipliesByUnit literals = false) :
    (u.push instr).1 = (w.push instr).1 ∧ Counterparts literals (w.push instr).2 (u.push instr).2 :=
  ⟨twins.size, Function.Counterparts.push twins (.same plain)⟩

/-- The product for a sign is appended at the same position in either order. -/
theorem Counterparts.emitSign {w u : Writer} (twins : Counterparts literals w u) (sign : Sign)
    (value result : Operand) :
    (u.emitSign sign value result .constantFirst).1 = (w.emitSign sign value result .valueFirst).1
      ∧ Counterparts literals (w.emitSign sign value result .valueFirst).2
        (u.emitSign sign value result .constantFirst).2 := by
  have factor : (w.function.constants.push sign.factor)[w.function.constants.size]?
      = some sign.factor := Array.getElem?_push_size
  have product := (twins.newConstant sign.factor).push
    (@Instruction.Counterpart.sign literals _ sign value result _ 0 factor)
  have index : u.function.constants.size = w.function.constants.size := by rw [twins.constants]
  refine ⟨twins.size, ?_⟩
  simp only [Writer.emitSign, constant, NegationOrder.arrange, index]
  exact product

/-- A call hands out the same by both writers, and they go on with counterparts. -/
theorem Counterparts.perform {w u : Writer} (twins : Counterparts literals w u) {call : Call}
    (plain : ∀ instr ∈ call.instructions, instr.multipliesByUnit literals = false) :
    (u.perform .constantFirst call).1 = (w.perform .valueFirst call).1
      ∧ Counterparts literals (w.perform .valueFirst call).2
        (u.perform .constantFirst call).2 := by
  cases call with
  | constant v =>
    exact ⟨congrArg (fun cs : Array Value => Handed.operand (.const cs.size)) twins.constants,
      twins.newConstant v⟩
  | temporary =>
    exact ⟨congrArg (fun n => Handed.operand (.temp n)) twins.temporaries, twins.newTemporary⟩
  | named name =>
    have slot : u.function.slot? name = w.function.slot? name := by
      rw [Function.slot?, Function.slot?, twins.variableNames]
    simp only [Writer.perform, named, slot]
    cases w.function.slot? name with
    | some i => exact ⟨rfl, twins⟩
    | none =>
      exact ⟨congrArg (fun vs : Array String => Handed.operand (.var vs.size)) twins.variableNames,
        twins.newVariable name⟩
  | dynamic name =>
    exact ⟨congrArg (fun cs : Array Value => Handed.operand (.dynamic cs.size)) twins.constants,
      twins.newConstant (.str name)⟩
  | position => exact ⟨congrArg Handed.position twins.size, twins⟩
  | push instr | emit opcode op1 op2 result | ret value | jump target
  | jumpIfFalse condition target =>
    exact (twins.push (plain _ (List.mem_singleton_self _))).imp_left (congrArg Handed.position)
  | sign sign value result =>
    exact (twins.emitSign sign value result).imp_left (congrArg Handed.position)
  | setField target key value =>
    obtain ⟨same, twins⟩ := twins.push (plain _ List.mem_cons_self)
    obtain ⟨-, twins⟩ := twins.push (plain _ (List.mem_cons_of_mem _ List.mem_cons_self))
    exact ⟨congrArg Handed.position same, twins⟩
  | patch pos target => exact ⟨rfl, Function.Counterparts.patch twins pos (UInt32.ofNat target)⟩

/-- A sequence of calls hands out the same by both writers, and writes counterparts. -/
theorem Counterparts.performAll {w u : Writer} (twins : Counterparts literals w u)
    {calls : List Call}
    (plain : ∀ call ∈ calls, ∀ instr ∈ call.instructions,
      instr.multipliesByUnit literals = false) :
    (u.performAll .constantFirst calls).1 = (w.performAll .valueFirst calls).1
      ∧ Counterparts literals (w.performAll .valueFirst calls).2
        (u.performAll .constantFirst calls).2 := by
  induction calls generalizing w u with
  | nil => exact ⟨rfl, twins⟩
  | cons call rest ih =>
    obtain ⟨handed, twins⟩ := twins.perform (plain call List.mem_cons_self)
    obtain ⟨others, twins⟩ := ih twins fun c mem => plain c (List.mem_cons_of_mem call mem)
    simp only [Writer.performAll]
    exact ⟨by rw [handed, others], twins⟩

/-- The functions that a sequence of calls writes in the two orders are counterparts, and
the calls hand out the same, if no product with a unit is written but for a sign. -/
theorem counterparts_written (name : String) {calls : List Call}
    (plain : ∀ call ∈ calls, ∀ instr ∈ call.instructions,
      instr.multipliesByUnit literals = false) :
    ((start name).performAll .constantFirst calls).1 = ((start name).performAll .valueFirst calls).1
      ∧ (written .valueFirst name calls).Counterparts literals
        (written .constantFirst name calls) := by
  have begin : Counterparts literals (start name) (start name) :=
    ⟨rfl, rfl, rfl, rfl, fun {_ _ _} found => by simp [start] at found⟩
  exact begin.performAll plain

end Writer

end OverloadMachine
