import OverloadMachine.Proofs.Steps

/-!
# Safety of verified functions

Execution of a verified function stays inside the code, meets every operand in
its table and never writes a literal, whatever handlers do and however large the
frame was before it was prepared. One step keeps the position inside the code and
the frame large enough, so a whole run does, and the faults for which there is a
check in the machine but none in a verified run are met at no step. The one
fault of this kind that is left is a data instruction that is executed on its own.
-/

namespace OverloadMachine

/-- Faults at what verification checks. -/
def Fault.IsOfCode : Fault → Prop
  | .code _ | .type (.notClassName _) => True
  | _ => False

/-- Faults at values: of a kind that an operator does not take, or without a result. -/
def Fault.IsOfOperands : Fault → Prop
  | .operandKinds _ _ _ | .operandKind _ _ | .divisionByZero | .moduloByZero | .arithmetic _
  | .type (.notNumeric _ _) | .type (.notSteppable _) | .type (.notFieldName _) => True
  | _ => False

/-- Faults at values, those that have no end included. -/
def Fault.IsOfValues : Fault → Prop
  | .overflow => True
  | fault => fault.IsOfOperands

/-- Faults at operands are faults at values. -/
theorem Fault.IsOfOperands.ofValues {fault : Fault} (blamed : fault.IsOfOperands) :
    fault.IsOfValues := by
  unfold IsOfValues
  split
  · trivial
  · exact blamed

/-- What values are to blame for is not what verification checks. -/
theorem Fault.IsOfValues.not_isOfCode {fault : Fault} (ofValues : fault.IsOfValues) :
    ¬fault.IsOfCode := by
  intro ofCode
  unfold IsOfValues IsOfOperands at ofValues
  split at ofValues
  · exact ofCode
  · split at ofValues <;> first | exact ofCode | cases ofValues

namespace Operator

/-! ## Faults of operators -/

/-- A computation faults in one way only. -/
def Faults {α : Type} (allowed : Fault → Prop) (result : Except Fault α) : Prop :=
  ∀ fault, result = .error fault → allowed fault

section Combinators

variable {α β : Type} {allowed : Fault → Prop}

theorem faults_ok (a : α) : Faults allowed (.ok a) := by
  intro fault eq
  cases eq

theorem faults_error {fault : Fault} (may : allowed fault) :
    Faults allowed (.error fault : Except Fault α) := by
  intro other eq
  cases eq
  exact may

theorem faults_bind {first : Except Fault α} {next : α → Except Fault β}
    (one : Faults allowed first) (two : ∀ a, Faults allowed (next a)) :
    Faults allowed (first >>= next) := by
  cases first with
  | ok a => exact two a
  | error fault => exact faults_error (one fault rfl)

theorem faults_map {first : Except Fault α} (one : Faults allowed first) (g : α → β) :
    Faults allowed (first.map g) := by
  cases first with
  | ok a => exact faults_ok (g a)
  | error fault => exact faults_error (one fault rfl)

end Combinators

/-- A computation does not fault at what verification checks. -/
abbrev Sound {α : Type} (result : Except Fault α) : Prop :=
  Faults (fun fault => ¬fault.IsOfCode) result

/-- A computation faults at the values of its operands only. -/
abbrev Blames {α : Type} (result : Except Fault α) : Prop := Faults Fault.IsOfOperands result

/-- A computation faults at values only, or because they have no end. -/
abbrev Settles {α : Type} (result : Except Fault α) : Prop := Faults Fault.IsOfValues result

theorem Blames.settles {α : Type} {result : Except Fault α} (blames : Blames result) :
    Settles result := fun fault eq => (blames fault eq).ofValues

/-- What is asked of values opens no cell that is open. -/
theorem Settles.ne_reentry {α : Type} {result : Except Fault α} (settles : Settles result)
    {fault : Fault} (eq : result = .error fault) : fault ≠ .reentry := by
  rintro rfl
  exact settles _ eq

/-- What is asked of values may have no end. -/
theorem settles_ending {α : Type} (answer : Option α) : Settles (Fault.ending answer) := by
  cases answer with
  | some a => exact faults_ok a
  | none => exact faults_error trivial

/-- What has an answer does not fault. -/
theorem blames_ending {α : Type} {answer : Option α} (ends : answer.isSome) :
    Blames (Fault.ending answer) := by
  cases answer with
  | some a => exact faults_ok a
  | none => cases ends

theorem blames_toNumber (op : Opcode) (v : Value) : Blames (toNumber op v) := by
  cases v with
  | str s =>
    unfold toNumber
    dsimp only
    split
    · exact faults_ok _
    · exact faults_error trivial
  | ref cell => exact faults_error trivial
  | composite id => exact faults_error trivial
  | _ => exact faults_ok _

theorem blames_toInteger (op : Opcode) (v : Value) : Blames (toInteger op v) := by
  refine faults_bind (blames_toNumber op v) fun n => ?_
  cases n with
  | int i => exact faults_ok i
  | float x =>
    dsimp only
    split
    · exact faults_ok _
    · exact faults_error trivial

theorem blames_onNumbers {op : Opcode} {g : Number → Number → Except Fault Number}
    (blames : ∀ x y, Blames (g x y)) (a b : Value) : Blames (onNumbers op g a b) :=
  faults_bind (blames_toNumber op a) fun x =>
    faults_bind (blames_toNumber op b) fun y =>
      faults_bind (blames x y) fun z => faults_ok z.toValue

theorem blames_onIntegers {op : Opcode} {g : Int64 → Int64 → Except Fault Int64}
    (blames : ∀ x y, Blames (g x y)) (a b : Value) : Blames (onIntegers op g a b) :=
  faults_bind (blames_toInteger op a) fun x =>
    faults_bind (blames_toInteger op b) fun y =>
      faults_bind (blames x y) fun z => show Blames (.ok (Value.int z)) from faults_ok _

theorem blames_shift (g : Int64 → Nat → Int64) (x y : Int64) : Blames (shift g x y) := by
  unfold shift
  split
  · exact faults_error trivial
  · exact faults_ok _

theorem blames_arithmetic (h : Heap) (op : ArithmeticOp) (a b : Value) :
    Blames (arithmetic h op a b) := by
  unfold arithmetic
  dsimp only
  split
  · exact faults_error trivial
  · cases op with
    | concat => exact faults_ok _
    | div =>
      refine blames_onNumbers (fun x y => ?_) a b
      split
      · exact faults_error trivial
      · exact faults_ok _
    | mod =>
      refine blames_onIntegers (fun x y => ?_) a b
      split
      · exact faults_error trivial
      · exact faults_ok _
    | shl => exact blames_onIntegers (blames_shift shiftLeft) a b
    | shr => exact blames_onIntegers (blames_shift shiftRight) a b
    | add => exact blames_onNumbers (fun _ _ => faults_ok _) a b
    | sub => exact blames_onNumbers (fun _ _ => faults_ok _) a b
    | mul => exact blames_onNumbers (fun _ _ => faults_ok _) a b
    | pow => exact blames_onNumbers (fun _ _ => faults_ok _) a b
    | bitAnd => exact blames_onIntegers (fun _ _ => faults_ok _) a b
    | bitOr => exact blames_onIntegers (fun _ _ => faults_ok _) a b
    | bitXor => exact blames_onIntegers (fun _ _ => faults_ok _) a b

theorem settles_boolXor (h : Heap) (a b : Value) : Settles (boolXor h a b) :=
  faults_bind (settles_ending _) fun x => faults_bind (settles_ending _) fun y =>
    show Settles (.ok (Value.bool (x != y))) from faults_ok _

theorem blames_bitNot (h : Heap) (a : Value) : Blames (unary h .bitNot a) := by
  cases a with
  | int i => exact faults_ok _
  | float x =>
    unfold unary
    dsimp only
    split
    · exact faults_ok _
    · exact faults_error trivial
  | _ => exact faults_error trivial

theorem settles_unary (h : Heap) (op : UnaryOp) (a : Value) : Settles (unary h op a) := by
  cases op with
  | boolNot => exact faults_map (settles_ending _) _
  | bitNot => exact (blames_bitNot h a).settles

/-- An operand whose chain of cells ends is the only thing that a unary operator faults at. -/
theorem blames_unary {h : Heap} {a : Value} (ends : (h.truth? a).isSome) (op : UnaryOp) :
    Blames (unary h op a) := by
  cases op with
  | boolNot => exact faults_map (blames_ending ends) _
  | bitNot => exact blames_bitNot h a

theorem blames_step (time : StepTime) (direction : StepDirection) (a : Value) :
    Blames (step time direction a) := by
  cases a with
  | str s =>
    unfold step
    dsimp only
    split
    · exact faults_ok _
    · exact faults_error trivial
  | ref cell => exact faults_error trivial
  | composite id => exact faults_error trivial
  | _ => exact faults_ok _

theorem blames_fieldName (v : Value) : Blames (Builtin.fieldName v) := by
  cases v with
  | str s => exact faults_ok s
  | int i => exact faults_ok _
  | _ => exact faults_error trivial

end Operator

/-! ## Effects -/

/-- Control stays in the code. -/
def Flow.StaysIn (f : Function) (pc : Nat) : Flow → Prop
  | .next => pc + 1 < f.code.size
  | .jump target => target < f.code.size
  | .finish _ => True

namespace Effect

open Operator

variable {f : Function} {instr : Instruction} {pc : Nat}

theorem sound_setFieldAt (place : Place) (key : String) (v : Value) (s : Store) :
    Sound (setFieldAt place key v s).1 := by
  unfold setFieldAt
  split
  · exact faults_error not_false
  · dsimp only
    split
    · rename_i id _
      dsimp only
      cases ((s.separate place).2.heap.setField id key v).1 with
      | ok _ => exact faults_ok _
      | error violation => exact faults_error not_false
    · exact faults_error not_false

/-- An operator that reads two operands faults as the function on values does. -/
theorem faults_binary {allowed : Fault → Prop} (constants : Array Value) (instr : Instruction)
    {g : Heap → Value → Value → Except Fault Value} (faults : ∀ h a b, Faults allowed (g h a b))
    (s : Store) : Faults allowed (binary constants instr g s).1 := by
  unfold binary
  split
  · rename_i fault eq
    exact faults_error (faults _ _ _ fault eq)
  · exact faults_ok _

/-- What an operator faults at, its instruction faults at. The instructions that make a composite,
that set or read a field, and the data behind such an instruction have faults of their own. -/
theorem faults_of {allowed : Fault → Prop} {s : Store}
    (values : ∀ fault : Fault, fault.IsOfValues → allowed fault)
    (naming : instr.opcode = .newComposite → Faults allowed (newComposite f.constants instr s).1)
    (setting : instr.opcode = .setField → ∀ key,
      let v := s.shown f.constants (f.code[pc + 1]?.getD instr).op1
      Faults allowed (setFieldAt (s.target f.constants instr.op1) key v
        ((s.acquire v).defining f.constants instr.op1)).1)
    (reading : ∀ key kind, allowed (.type (.fieldRead key kind)))
    (data : instr.opcode = .opData → allowed (.code (.strayData pc))) :
    Faults allowed (Effect.of f instr pc s).1 := by
  have may {α : Type} {result : Except Fault α} (settles : Settles result) :
      Faults allowed result := fun fault eq => values fault (settles fault eq)
  unfold Effect.of
  cases is : instr.opcode with
  | newComposite => exact naming is
  | setField =>
    have sets := setting is
    dsimp only at sets ⊢
    unfold setField
    split
    · rename_i fault eq
      exact faults_error (may (blames_fieldName _).settles fault eq)
    · rename_i key _
      have sets := sets key
      dsimp only
      split
      · rename_i fault t eq
        rw [eq] at sets
        exact faults_error (sets fault rfl)
      · exact faults_ok _
  | opData => exact faults_error (data is)
  | getField =>
    dsimp only
    unfold getField
    split
    · rename_i fault eq
      exact faults_error (may (blames_fieldName _).settles fault eq)
    · split
      · exact faults_ok _
      · exact faults_error (reading _ _)
  | arithmetic op => exact faults_binary _ _ (fun h a b => may (blames_arithmetic h op a b).settles) s
  | boolXor => exact faults_binary _ _ (fun h a b => may (settles_boolXor h a b)) s
  | comparison op => exact faults_binary _ _ (fun _ _ _ => may (settles_ending _)) s
  | jmpIfFalse =>
    dsimp only
    unfold jumpIfFalse
    split
    · rename_i fault eq
      exact faults_error (may (settles_ending _) fault eq)
    · exact faults_ok _
  | compound op =>
    dsimp only
    unfold compound
    dsimp only
    split
    · rename_i fault eq
      exact faults_error (may (blames_arithmetic _ op _ _).settles fault eq)
    · exact faults_ok _
  | unary op =>
    have faults : ∀ (h : Heap) (a b : Value), Faults allowed (Operator.unary h op a) :=
      fun h a _ => may (settles_unary h op a)
    exact faults_binary _ _ faults s
  | step time direction =>
    dsimp only
    unfold step
    dsimp only
    split
    · rename_i fault eq
      exact faults_error (may (blames_step time direction _).settles fault eq)
    · split <;> exact faults_ok _
  | _ => exact faults_ok _

/-- An effect of a verified instruction does not fault at what verification checks,
unless it is a data instruction. -/
theorem sound_of (verified : f.Verified) (found : f.code[pc]? = some instr) (s : Store)
    (noData : instr.opcode ≠ .opData) : Sound (Effect.of f instr pc s).1 := by
  refine faults_of (fun _ => Fault.IsOfValues.not_isOfCode) (fun is => ?_)
    (fun _ key => sound_setFieldAt _ key _ _) (fun _ _ => not_false) (fun is => absurd is noData)
  obtain ⟨⟨i, name, first, text⟩, -⟩ := (verified.checked found).newComposite is
  have held : s.held f.constants instr.op1 = .str name := by
    rw [first, Store.held, text, Option.getD_some]
  unfold newComposite
  rw [held]
  exact faults_ok _

/-- An effect of a verified instruction leaves control in the code. -/
theorem staysIn_of (verified : f.Verified) (found : f.code[pc]? = some instr) (s : Store)
    {flow : Flow} (flows : (Effect.of f instr pc s).1 = .ok flow) : flow.StaysIn f pc := by
  have checked := verified.checked found
  rcases flow_of flows with ⟨rfl, on⟩ | ⟨rfl, jumps⟩ | ⟨rfl, is⟩ | ⟨⟨v, rfl⟩, -⟩
  · exact verified.next found on
  · exact checked.target jumps
  · -- The data instruction is no terminator, so it is not the last one.
    obtain ⟨-, data, behind, isData⟩ := checked.setField is
    exact verified.next behind (by rw [isData]; rfl)
  · trivial

end Effect

/-! ## Runs -/

/-- Operands that an instruction writes; temporaries that it empties are not counted. -/
def Instruction.written (instr : Instruction) : List Operand :=
  match instr.opcode with
  | .assign | .compound _ | .step _ _ => [instr.op1, instr.result]
  | .assignRef => [instr.op1, instr.op2]
  | .setField => [instr.op1]
  | .newComposite | .getField | .arithmetic _ | .boolXor | .comparison _ | .unary _ =>
    [instr.result]
  | .nop | .opData | .free | .jmp | .jmpIfFalse | .ret => []

/-- A store has what the operands of an instruction name, and what is written is
no literal. -/
structure Store.Serves (s : Store) (f : Function) (instr : Instruction) : Prop where
  reads : ∀ o ∈ [instr.op1, instr.op2, instr.result], ∃ v, s.resolve f.constants o = .ok v
  writes : ∀ o ∈ instr.written, ∃ slot, (Action.writableSlot f.constants o s).1 = .ok slot

/-- At the position of a run there is an instruction, its operands are there, now
and at every step of a handler that is called for it, and it has the shape that
it needs. -/
structure Machine.IsSafeAt (m : Machine) (f : Function) (p : Progress) (instr : Instruction) :
    Prop where
  found : f.code[p.pc]? = some instr
  serves : p.store.Serves f instr
  calls : ∀ {handler category h c}, m.table.lookup instr.opcode = some handler →
    instr.opcode.category? = some category →
    Handler.Reaches ⟨instr, category, f.constants, m.options.negationOrder⟩ handler
      ⟨p.store, none, none⟩ h c → c.store.Serves f instr
  className : instr.opcode = .newComposite →
    ∃ name, p.store.resolve f.constants instr.op1 = .ok (.str name)
  data : instr.opcode = .setField → ∃ data v, f.code[p.pc + 1]? = some data
    ∧ data.opcode = .opData ∧ p.store.resolve f.constants data.op1 = .ok v
  temporary : instr.opcode = .free → ∃ i, instr.op1 = .temp i

/-- What a verified instruction writes is no literal and is there. -/
theorem Instruction.Checked.written {f : Function} {pc : Nat} {instr : Instruction}
    (checked : instr.Checked f pc) {o : Operand} (mem : o ∈ instr.written) :
    o.Within f ∧ o.isLiteral = false := by
  have operator : ∀ {category}, instr.opcode.category? = some category →
      instr.result.Within f ∧ instr.result.isLiteral = false :=
    fun has => ⟨checked.result, (checked.operator has).result⟩
  have assigned : ∀ {category}, instr.opcode.category? = some category →
      category.isAssignment = true → instr.op1.Within f ∧ instr.op1.isLiteral = false :=
    fun has assigns => ⟨checked.op1,
      Operand.isLiteral_of_isVariable ((checked.operator has).assigned assigns)⟩
  have one : ∀ {p : Operand}, instr.written = [p] → p.Within f ∧ p.isLiteral = false →
      o.Within f ∧ o.isLiteral = false := by
    intro p eq first
    rw [eq, List.mem_singleton] at mem
    rw [mem]
    exact first
  have two : ∀ {p q : Operand}, instr.written = [p, q] → p.Within f ∧ p.isLiteral = false →
      q.Within f ∧ q.isLiteral = false → o.Within f ∧ o.isLiteral = false := by
    intro p q eq first second
    rw [eq, List.mem_cons, List.mem_singleton] at mem
    rcases mem with rfl | rfl
    · exact first
    · exact second
  cases is : instr.opcode with
  | assign =>
    obtain ⟨target, result⟩ := checked.assign is
    exact two (by rw [Instruction.written, is])
      ⟨checked.op1, Operand.isLiteral_of_isVariable target⟩ ⟨checked.result, result⟩
  | assignRef =>
    obtain ⟨target, source⟩ := checked.assignRef is
    exact two (by rw [Instruction.written, is])
      ⟨checked.op1, Operand.isLiteral_of_isVariable target⟩
      ⟨checked.op2, Operand.isLiteral_of_isVariable source⟩
  | setField =>
    exact one (by rw [Instruction.written, is])
      ⟨checked.op1, Operand.isLiteral_of_isVariable (checked.setField is).1⟩
  | newComposite =>
    exact one (by rw [Instruction.written, is]) ⟨checked.result, (checked.newComposite is).2⟩
  | getField =>
    exact one (by rw [Instruction.written, is]) ⟨checked.result, checked.getField is⟩
  | arithmetic op => exact one (by rw [Instruction.written, is]) (operator (by rw [is]; rfl))
  | boolXor => exact one (by rw [Instruction.written, is]) (operator (by rw [is]; rfl))
  | comparison op => exact one (by rw [Instruction.written, is]) (operator (by rw [is]; rfl))
  | unary op => exact one (by rw [Instruction.written, is]) (operator (by rw [is]; rfl))
  | compound op =>
    have has : instr.opcode.category? = some .binaryAssign := by rw [is]; rfl
    exact two (by rw [Instruction.written, is]) (assigned has rfl) (operator has)
  | step time direction =>
    obtain ⟨category, has, assigns⟩ : ∃ category, instr.opcode.category? = some category
        ∧ category.isAssignment = true := by
      rw [is]
      cases time
      · exact ⟨_, rfl, rfl⟩
      · exact ⟨_, rfl, rfl⟩
    exact two (by rw [Instruction.written, is]) (assigned has assigns) (operator has)
  | _ => simp [Instruction.written, is] at mem

/-- A frame that fits serves a verified instruction. -/
theorem Instruction.Checked.serves {f : Function} {pc : Nat} {instr : Instruction}
    (checked : instr.Checked f pc) {s : Store} (fits : s.frame.Fits f) : s.Serves f instr where
  reads o mem := by
    simp only [List.mem_cons, List.not_mem_nil, or_false] at mem
    rcases mem with rfl | rfl | rfl
    · exact ⟨_, Store.resolve_eq checked.op1 fits⟩
    · exact ⟨_, Store.resolve_eq checked.op2 fits⟩
    · exact ⟨_, Store.resolve_eq checked.result fits⟩
  writes o mem := by
    obtain ⟨within, storable⟩ := checked.written mem
    exact ⟨_, congrArg Prod.fst (Action.writableSlot_eq within storable fits)⟩

namespace Effect

open Operator

variable {f : Function} {instr : Instruction} {pc : Nat}

/-- The end of a handler's run does not fault at what verification checks. -/
theorem sound_settle (constants : Array Value) (instr : Instruction)
    (ending : Option Answer × CallState) : Sound (settle constants instr ending).1 := by
  obtain ⟨answer, c⟩ := ending
  unfold settle
  dsimp only
  split
  · exact faults_error not_false
  · exact faults_error not_false
  · unfold conclude
    split
    · exact faults_ok _
    · exact faults_ok _
    · exact faults_ok _
    · exact faults_error not_false

/-- A built-in instruction is reached where a handler declines or where there is none. -/
theorem dispatch_cases (m : Machine) (f : Function) (instr : Instruction) (pc : Nat) (s : Store) :
    (∃ t, dispatch m f instr pc s = finishing (Effect.of f instr pc t))
      ∨ instr.opcode.category?.isSome
        ∧ (∃ t, dispatch m f instr pc s = (.ok .next, t))
      ∨ ∃ fault t, dispatch m f instr pc s = (.error fault, t) ∧ ¬fault.IsOfCode := by
  unfold dispatch
  split
  · rename_i handler category _ has
    have sound := sound_settle f.constants instr (handler.run
      ⟨instr, category, f.constants, m.options.negationOrder⟩ ⟨s, none, none⟩)
    unfold calling
    generalize settle f.constants instr _ = ending at sound ⊢
    obtain ⟨result, t⟩ := ending
    cases result with
    | error fault => exact Or.inr (Or.inr ⟨fault, t, rfl, sound fault rfl⟩)
    | ok decision =>
      cases decision with
      | handled => exact Or.inr (Or.inl ⟨by rw [has]; rfl, t, rfl⟩)
      | declined => exact Or.inl ⟨t, rfl⟩
  · exact Or.inl ⟨s, rfl⟩

end Effect

namespace Machine

variable {m : Machine} {f : Function}

/-- A verified function is safe wherever the frame fits. -/
theorem isSafeAt (m : Machine) (verified : f.Verified) {p : Progress} {instr : Instruction}
    (found : f.code[p.pc]? = some instr) (fits : p.store.frame.Fits f) :
    m.IsSafeAt f p instr where
  found := found
  serves := (verified.checked found).serves fits
  calls := by
    intro handler category h c _ has reaches
    have checked := verified.checked found
    exact checked.serves ((CallContext.stable_fits _ f).reaches fits reaches)
  className is := by
    have checked := verified.checked found
    obtain ⟨⟨i, name, first, text⟩, -⟩ := checked.newComposite is
    refine ⟨name, ?_⟩
    rw [Store.resolve_eq checked.op1 fits, first, Store.held, text, Option.getD_some]
  data is := by
    obtain ⟨-, data, behind, isData⟩ := (verified.checked found).setField is
    exact ⟨data, _, behind, isData, Store.resolve_eq (verified.checked behind).op1 fits⟩
  temporary is := (verified.checked found).free is

/-- A fault is at nothing that verification checks, or it is that of a data
instruction that is executed on its own. -/
def Excuses (f : Function) (fault : Fault) : Prop :=
  fault.IsOfCode → ∃ pc data, fault = .code (.strayData pc) ∧ f.code[pc]? = some data
    ∧ data.opcode = .opData

/-- What an instruction does is excused and leaves control in the code. -/
theorem safe_dispatch (m : Machine) (verified : f.Verified) {pc : Nat} {instr : Instruction}
    (found : f.code[pc]? = some instr) (s : Store) :
    (∀ fault, (Effect.dispatch m f instr pc s).1 = .error fault → Excuses f fault)
      ∧ ∀ flow, (Effect.dispatch m f instr pc s).1 = .ok flow → flow.StaysIn f pc := by
  rcases Effect.dispatch_cases m f instr pc s with ⟨t, eq⟩ | ⟨operator, t, eq⟩ | ⟨fault, t, eq, may⟩
  · rw [eq, Effect.fst_finishing]
    refine ⟨fun fault faults ofCode => ?_,
      fun flow flows => Effect.staysIn_of verified found t flows⟩
    by_cases is : instr.opcode = .opData
    · unfold Effect.of at faults
      rw [is] at faults
      cases faults
      exact ⟨pc, instr, rfl, found, is⟩
    · exact absurd ofCode (Effect.sound_of verified found t is fault faults)
  · rw [eq]
    refine ⟨fun fault faults => (by cases faults), fun flow flows => ?_⟩
    cases flows
    have on : instr.opcode.isTerminator = false := by
      cases is : instr.opcode <;> simp_all [Opcode.category?, Opcode.isTerminator]
    exact verified.next found on
  · rw [eq]
    refine ⟨fun other faults ofCode => ?_, fun flow flows => by cases flows⟩
    cases faults
    exact absurd ofCode may

/-- One instruction keeps the position in the code and the frame large enough, and
its fault is excused. -/
theorem safe_step (m : Machine) (verified : f.Verified) {p : Progress}
    (inside : p.pc < f.code.size) (fits : p.store.frame.Fits f) :
    match m.step f p with
    | .running q => q.pc < f.code.size ∧ q.store.frame.Fits f
    | .ended outcome _ => ∀ fault, outcome = .failed fault → Excuses f fault := by
  have found : f.code[p.pc]? = some f.code[p.pc] := Array.getElem?_eq_getElem inside
  obtain ⟨statistics, -, eq⟩ := step_eq (m := m) verified found fits
  obtain ⟨excused, stays⟩ := safe_dispatch m verified found p.store
  have kept : (Effect.dispatch m f f.code[p.pc] p.pc p.store).2.frame.Fits f :=
    Effect.fits_dispatch m fits
  rw [eq]
  generalize Effect.dispatch m f f.code[p.pc] p.pc p.store = ending at excused stays kept ⊢
  obtain ⟨result, s⟩ := ending
  cases result with
  | error fault =>
    intro other eq
    have same : fault = other := by
      unfold outcomeOf at eq
      split at eq
      · split at eq <;> cases eq
        rfl
      · cases eq
      · cases eq
      · cases eq
        rfl
    exact same ▸ excused fault rfl
  | ok flow =>
    have inside := stays flow rfl
    cases flow with
    | next => exact ⟨inside, kept⟩
    | jump target => exact ⟨inside, kept⟩
    | finish v =>
      intro fault ends
      cases ends

/-- A run keeps the position in the code and the frame large enough, and its fault
is excused. -/
theorem safe_runFor (m : Machine) (verified : f.Verified) (n : Nat) {p : Progress}
    (inside : p.pc < f.code.size) (fits : p.store.frame.Fits f) :
    match m.runFor f n p with
    | .running q => q.pc < f.code.size ∧ q.store.frame.Fits f
    | .ended outcome _ => ∀ fault, outcome = .failed fault → Excuses f fault := by
  induction n generalizing p with
  | zero => exact ⟨inside, fits⟩
  | succ n ih =>
    have one := safe_step m verified inside fits
    rw [runFor]
    cases eq : m.step f p with
    | running q =>
      rw [eq] at one
      exact ih one.1 one.2
    | ended outcome q =>
      rw [eq] at one
      exact one

/-- Execution of a verified function is safe, in every frame, with every handler and
under all settings. After any number of instructions the position is in the code,
and the operands there name what is there, also at every step of a handler. A
run does not end at a fault of the code, except for a data instruction that is
executed on its own, and not at a class that is no text. -/
theorem verified_run_is_safe {f : Function} (verified : f.verify = .ok ()) (m : Machine)
    (s : Store) :
    (∀ n p, m.runFor f n (m.start f s) = .running p →
        p.pc < f.code.size ∧ ∃ instr, m.IsSafeAt f p instr)
      ∧ (∀ cause, (m.executeIn f s).1 = .failed (.code cause) →
        ∃ pc data, cause = .strayData pc ∧ f.code[pc]? = some data ∧ data.opcode = .opData)
      ∧ ∀ kind, (m.executeIn f s).1 ≠ .failed (.type (.notClassName kind)) := by
  have order := Function.verified_of_verify verified
  have fits : (m.start f s).store.frame.Fits f := s.frame.fits_prepare f
  have excused : ∀ fault, (m.executeIn f s).1 = .failed fault → Excuses f fault := by
    have whole := safe_runFor m order (budget m.options.maxInstructions)
      (p := m.start f s) order.nonempty fits
    rw [executeIn_eq m verified]
    split
    · rename_i outcome p eq
      rw [eq] at whole
      exact whole
    · rename_i p eq
      rw [eq] at whole
      intro fault ends
      have found : f.code[p.pc]? = some f.code[p.pc] := Array.getElem?_eq_getElem whole.1
      unfold cutShort exhausted at ends
      rw [found] at ends
      dsimp only at ends
      split at ends <;> cases ends
      intro ofCode
      cases ofCode
  refine ⟨fun n p eq => ?_, fun cause ends => ?_, fun kind ends => ?_⟩
  · have there := safe_runFor m order n (p := m.start f s) order.nonempty fits
    rw [eq] at there
    exact ⟨there.1, _, m.isSafeAt order (Array.getElem?_eq_getElem there.1) there.2⟩
  · obtain ⟨pc, data, eq, found, is⟩ := excused _ ends trivial
    cases eq
    exact ⟨pc, data, rfl, found, is⟩
  · obtain ⟨pc, data, eq, -⟩ := excused _ ends trivial
    cases eq

/-- Counts a variable down and stores it in a field, through a dynamic variable. -/
def countdown : Function where
  name := "countdown"
  code := #[
    ⟨.assign, .var 0, .const 0, .unused, 0⟩,
    ⟨.jmpIfFalse, .var 0, .unused, .unused, 4⟩,
    ⟨.step .pre .down, .var 0, .unused, .unused, 0⟩,
    ⟨.jmp, .unused, .unused, .unused, 1⟩,
    ⟨.newComposite, .const 1, .unused, .temp 0, 0⟩,
    ⟨.assign, .dynamic 2, .temp 0, .unused, 0⟩,
    ⟨.setField, .dynamic 2, .const 3, .unused, 0⟩,
    ⟨.opData, .var 0, .unused, .unused, 0⟩,
    ⟨.getField, .dynamic 2, .const 3, .temp 0, 0⟩,
    ⟨.ret, .temp 0, .unused, .unused, 0⟩]
  constants := #[.int 3, .str "Counter", .str "c", .str "left"]
  temporaries := 1
  variableNames := #["n"]

/-- A run of the countdown with a handler that writes through its call is safe. -/
theorem countdown_run_is_safe :
    let m := Machine.ofTable .standard (DispatchTable.empty.set (.step .pre .down) rfl
      (some (.write (.copy (.operand .first)) fun _ => .answer .handled)))
    countdown.verify = .ok ()
      ∧ (∀ n p, m.runFor countdown n (m.start countdown default) = .running p →
        p.pc < countdown.code.size ∧ ∃ instr, m.IsSafeAt countdown p instr) :=
  ⟨rfl, (verified_run_is_safe rfl _ default).1⟩

end Machine

end OverloadMachine
