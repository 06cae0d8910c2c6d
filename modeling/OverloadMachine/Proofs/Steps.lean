import OverloadMachine.Machine
import OverloadMachine.Proofs.Calls

/-!
# Steps of the machine

One instruction of a verified function, by its handler or as built in: the effect
of the handler's run and of its answer, or the effect of the built-in instruction,
with the scratch slot emptied behind it. The frame stays large enough for the
function, so this holds at every step of a run.
-/

namespace OverloadMachine

namespace Effect

/-- An operator that reads two operands keeps the size of the frame. -/
theorem fits_binary {f : Function} (constants : Array Value) (instr : Instruction)
    (g : Heap → Value → Value → Except Fault Value) {s : Store} (fits : s.frame.Fits f) :
    (binary constants instr g s).2.frame.Fits f := by
  unfold binary
  split
  · exact fits
  · simpa using fits

/-- An effect keeps the size of the frame. -/
theorem fits_of (f : Function) (instr : Instruction) (pc : Nat) {s : Store}
    (fits : s.frame.Fits f) : (Effect.of f instr pc s).2.frame.Fits f := by
  unfold Effect.of
  cases instr.opcode with
  | assign => simpa [assign] using fits
  | assignRef => simpa [assignRef] using fits
  | newComposite =>
    dsimp only [newComposite]
    split
    · simpa using fits
    · exact fits
  | setField =>
    dsimp only [setField]
    split
    · exact fits
    · rename_i key _
      have set : ∀ v, (setFieldAt (s.target f.constants instr.op1) key v
          ((s.acquire v).defining f.constants instr.op1)).2.frame.Fits f := fun v => by
        simpa using fits
      specialize set (s.shown f.constants (f.code[pc + 1]?.getD instr).op1)
      generalize setFieldAt _ key _ _ = ending at set ⊢
      obtain ⟨result, t⟩ := ending
      cases result with
      | error fault => exact set
      | ok _ => simpa using set
  | getField =>
    dsimp only [getField]
    split
    · exact fits
    · split
      · simpa using fits
      · exact fits
  | free => simpa using fits
  | jmpIfFalse =>
    dsimp only [jumpIfFalse]
    split
    · exact fits
    · simpa using fits
  | ret => simpa [finish] using fits
  | arithmetic op => exact fits_binary f.constants instr _ fits
  | boolXor => exact fits_binary f.constants instr _ fits
  | comparison op => exact fits_binary f.constants instr _ fits
  | compound op =>
    dsimp only [compound]
    split
    · simpa using fits
    · simpa using fits
  | unary op => exact fits_binary f.constants instr (fun h a _ => Operator.unary h op a) fits
  | step time direction =>
    dsimp only [step]
    split
    · simpa using fits
    · split
      · simpa using fits
      · simpa using fits
  | _ => exact fits

/-- Control goes to the next instruction, to the target of a jump, behind the data of a
field, or out of the function. -/
theorem flow_of {f : Function} {instr : Instruction} {pc : Nat} {s : Store} {flow : Flow}
    (flows : (Effect.of f instr pc s).1 = .ok flow) :
    flow = .next ∧ instr.opcode.isTerminator = false
      ∨ flow = .jump instr.target.toNat ∧ instr.opcode.isJump = true
      ∨ flow = .jump (pc + 2) ∧ instr.opcode = .setField
      ∨ (∃ v, flow = .finish v) ∧ instr.opcode = .ret := by
  have binary : ∀ {g}, (binary f.constants instr g s).1 = .ok flow → flow = .next := by
    intro g flows
    unfold Effect.binary at flows
    split at flows <;> cases flows
    rfl
  unfold Effect.of at flows
  generalize instr.opcode = opcode at flows ⊢
  cases opcode with
  | jmp =>
    cases flows
    exact Or.inr (Or.inl ⟨rfl, rfl⟩)
  | jmpIfFalse =>
    dsimp only [jumpIfFalse] at flows
    split at flows
    · cases flows
    · split at flows <;> cases flows
      · exact Or.inl ⟨rfl, rfl⟩
      · exact Or.inr (Or.inl ⟨rfl, rfl⟩)
  | ret =>
    cases flows
    exact Or.inr (Or.inr (Or.inr ⟨⟨_, rfl⟩, rfl⟩))
  | setField =>
    dsimp only [setField] at flows
    split at flows
    · cases flows
    · split at flows <;> cases flows
      exact Or.inr (Or.inr (Or.inl ⟨rfl, rfl⟩))
  | opData => cases flows
  | newComposite =>
    dsimp only [newComposite] at flows
    split at flows <;> cases flows
    exact Or.inl ⟨rfl, rfl⟩
  | getField =>
    dsimp only [getField] at flows
    split at flows
    · cases flows
    · split at flows <;> cases flows
      exact Or.inl ⟨rfl, rfl⟩
  | arithmetic op => exact Or.inl ⟨binary flows, rfl⟩
  | boolXor => exact Or.inl ⟨binary flows, rfl⟩
  | comparison op => exact Or.inl ⟨binary flows, rfl⟩
  | compound op =>
    dsimp only [compound] at flows
    split at flows <;> cases flows
    exact Or.inl ⟨rfl, rfl⟩
  | unary op =>
    dsimp only [unary] at flows
    split at flows <;> cases flows
    exact Or.inl ⟨rfl, rfl⟩
  | step time direction =>
    dsimp only [step] at flows
    split at flows
    · cases flows
    · split at flows <;> cases flows <;> exact Or.inl ⟨rfl, rfl⟩
  | _ =>
    cases flows
    exact Or.inl ⟨rfl, rfl⟩

/-- The end of a built-in instruction: the scratch slot is emptied unless the
process goes down. -/
def finishing : Except Fault Flow × Store → Except Fault Flow × Store
  | (.error .reentry, s) => (.error .reentry, s)
  | (result, s) => (result, s.overwrite (.slot .scratch) .null)

/-- What becomes of an instruction whose handler has been called. -/
def deciding (f : Function) (instr : Instruction) (pc : Nat) :
    Except Fault Decision × Store → Except Fault Flow × Store
  | (.error fault, s) => (.error fault, s)
  | (.ok .handled, s) => (.ok .next, s)
  | (.ok .declined, s) => finishing (Effect.of f instr pc s)

/-- What an instruction does that has a handler. -/
def calling (order : NegationOrder) (f : Function) (instr : Instruction) (pc : Nat)
    (category : Category) (handler : Handler) (s : Store) : Except Fault Flow × Store :=
  deciding f instr pc (settle f.constants instr
    (handler.run ⟨instr, category, f.constants, order⟩ ⟨s, none, none⟩))

/-- What an instruction does, by its handler or as built in. -/
def dispatch (m : Machine) (f : Function) (instr : Instruction) (pc : Nat) (s : Store) :
    Except Fault Flow × Store :=
  match m.table.lookup instr.opcode, instr.opcode.category? with
  | some handler, some category =>
    calling m.options.negationOrder f instr pc category handler s
  | _, _ => finishing (Effect.of f instr pc s)

/-- The end of an instruction keeps its result. -/
@[simp] theorem fst_finishing (ending : Except Fault Flow × Store) :
    (finishing ending).1 = ending.1 := by
  unfold finishing
  split <;> rfl

@[simp] theorem fits_finishing (ending : Except Fault Flow × Store) (f : Function) :
    (finishing ending).2.frame.Fits f ↔ ending.2.frame.Fits f := by
  unfold finishing
  split
  · rfl
  · exact Store.fits_overwrite _ _ _ f

@[simp] theorem fits_conclude (constants : Array Value) (instr : Instruction) (answer : Answer)
    (pending : Option Value) (s : Store) (f : Function) :
    (conclude constants instr answer pending s).2.frame.Fits f ↔ s.frame.Fits f := by
  unfold conclude
  split <;> simp

/-- The end of a handler's run keeps the size of the frame. -/
@[simp] theorem fits_settle (constants : Array Value) (instr : Instruction)
    (ending : Option Answer × CallState) (f : Function) :
    (settle constants instr ending).2.frame.Fits f ↔ ending.2.store.frame.Fits f := by
  obtain ⟨answer, c⟩ := ending
  unfold settle
  dsimp only
  split
  · exact Action.fits_dropPending _ _ f
  · exact Action.fits_dropPending _ _ f
  · exact fits_conclude _ _ _ _ _ f

/-- Whatever is decided keeps the size of the frame. -/
theorem fits_deciding (f : Function) (instr : Instruction) (pc : Nat)
    {ending : Except Fault Decision × Store} (fits : ending.2.frame.Fits f) :
    (deciding f instr pc ending).2.frame.Fits f := by
  unfold deciding
  split
  · exact fits
  · exact fits
  · exact (fits_finishing _ f).mpr (fits_of f instr pc fits)

/-- An instruction keeps the size of the frame. -/
theorem fits_dispatch (m : Machine) {f : Function} {instr : Instruction} {pc : Nat} {s : Store}
    (fits : s.frame.Fits f) : (dispatch m f instr pc s).2.frame.Fits f := by
  unfold dispatch
  split
  · rename_i handler category _ has
    have kept := (CallContext.stable_fits
      ⟨instr, category, f.constants, m.options.negationOrder⟩ f).run (c := ⟨s, none, none⟩) fits
        handler
    exact fits_deciding f instr pc ((fits_settle _ _ _ f).mpr kept)
  · exact (fits_finishing _ f).mpr (fits_of f instr pc fits)

end Effect

/-- A call of a handler keeps the size of the frame. -/
theorem Action.fits_invoke {f : Function} {instr : Instruction} {pc : Nat} {s : Store}
    {category : Category} (checked : instr.Checked f pc)
    (has : instr.opcode.category? = some category) (fits : s.frame.Fits f) (handler : Handler)
    (order : NegationOrder) :
    (invoke handler f.constants order instr s).2.frame.Fits f := by
  have kept := (CallContext.stable_fits ⟨instr, category, f.constants, order⟩ f).run
    (c := ⟨s, none, none⟩) fits handler
  rw [invoke_eq checked has fits]
  exact (Effect.fits_settle _ _ _ f).mpr kept

/-- A run with one more instruction counted. -/
def Progress.counted (p : Progress) : Progress :=
  { p with statistics := { p.statistics with instructions := p.statistics.instructions + 1 } }

namespace Machine

variable {m : Machine} {f : Function} {instr : Instruction} {p : Progress}

/-- A built-in instruction has its effect. -/
theorem builtin_eq (verified : f.Verified) {pc : Nat} (found : f.code[pc]? = some instr)
    {s : Store} (fits : s.frame.Fits f) :
    builtin f instr pc s = Effect.finishing (Effect.of f instr pc s) := by
  rw [builtin, Builtin.execute_eq verified found fits]
  rfl

/-- An instruction of a verified function has its effect, and only handlers are
counted beside it. -/
theorem dispatch_eq (verified : f.Verified) (found : f.code[p.pc]? = some instr)
    (fits : p.store.frame.Fits f) :
    (m.dispatch f instr p).1 = (Effect.dispatch m f instr p.pc p.store).1
      ∧ (m.dispatch f instr p).2.1 = (Effect.dispatch m f instr p.pc p.store).2
      ∧ (m.dispatch f instr p).2.2.instructions = p.statistics.instructions := by
  unfold dispatch Effect.dispatch
  cases look : m.table.lookup instr.opcode with
  | none =>
    dsimp only
    rw [builtin_eq verified found fits]
    exact ⟨rfl, rfl, rfl⟩
  | some handler =>
    have operator := m.table.operators instr.opcode (by rw [look]; rfl)
    obtain ⟨category, has⟩ := Option.isSome_iff_exists.mp operator
    have checked := verified.checked found
    have kept := Action.fits_invoke checked has fits handler m.options.negationOrder
    rw [has]
    dsimp only
    rw [Action.invoke_eq checked has fits] at kept ⊢
    rw [Effect.calling]
    generalize Effect.settle f.constants instr _ = ending at kept ⊢
    obtain ⟨result, s⟩ := ending
    cases result with
    | error fault => exact ⟨rfl, rfl, rfl⟩
    | ok decision =>
      cases decision with
      | handled => exact ⟨rfl, rfl, rfl⟩
      | declined =>
        dsimp only
        rw [builtin_eq verified found kept]
        exact ⟨rfl, rfl, rfl⟩

/-- How a run goes on after an instruction. -/
def proceed (options : Options) (pc : Nat) (statistics : Statistics) :
    Except Fault Flow × Store → Step
  | (.ok .next, s) => .running ⟨s, statistics, pc + 1⟩
  | (.ok (.jump target), s) => .running ⟨s, statistics, target⟩
  | (.ok (.finish v), s) => .ended (.returned v) ⟨s, statistics, pc⟩
  | (.error fault, s) => .ended (outcomeOf options fault) ⟨s, statistics, pc⟩

/-- A step that fetches an instruction counts it and goes on as its effect says. -/
theorem step_eq_proceed (found : f.code[p.pc]? = some instr) :
    m.step f p = proceed m.options p.pc (m.dispatch f instr p.counted).2.2
      ((m.dispatch f instr p.counted).1, (m.dispatch f instr p.counted).2.1) := by
  simp only [step, found]
  split <;> rename_i is <;> rw [Progress.counted, is] <;> rfl

/-- One instruction of a verified function. -/
theorem step_eq (verified : f.Verified) (found : f.code[p.pc]? = some instr)
    (fits : p.store.frame.Fits f) :
    ∃ statistics : Statistics, statistics.instructions = p.statistics.instructions + 1
      ∧ m.step f p
        = proceed m.options p.pc statistics (Effect.dispatch m f instr p.pc p.store) := by
  obtain ⟨result, store, count⟩ := dispatch_eq (m := m) (p := p.counted) verified found fits
  refine ⟨(m.dispatch f instr p.counted).2.2, count, ?_⟩
  rw [step_eq_proceed found, result, store, Progress.counted]

/-- A run that has ended stays ended. -/
theorem runFor_of_ended {n k : Nat} {outcome : Outcome} {q : Progress}
    (ended : m.runFor f n p = .ended outcome q) (le : n ≤ k) :
    m.runFor f k p = .ended outcome q := by
  induction n generalizing k p with
  | zero => cases ended
  | succ n ih =>
    obtain ⟨k, rfl⟩ : ∃ j, k = j + 1 := ⟨k - 1, by omega⟩
    rw [runFor] at ended ⊢
    cases eq : m.step f p with
    | running r =>
      rw [eq] at ended
      exact ih ended (Nat.le_of_succ_le_succ le)
    | ended other r =>
      rw [eq] at ended
      exact ended

/-- Start of a run in a frame, which is grown to the function's needs. -/
def start (m : Machine) (f : Function) (s : Store) : Progress :=
  ⟨{ s with frame := s.frame.prepare f.temporaries f.variableNames.size }, m.statistics, 0⟩

/-- Execution of a function that verification does not stop is its run in the prepared
frame. -/
theorem executeIn_of_passes (s : Store)
    (passes : (if m.options.verify then f.verify else .ok ()) = .ok ()) :
    m.executeIn f s = ((m.run f (m.start f s).store).1,
      { m with statistics := (m.run f (m.start f s).store).2.statistics },
      (m.run f (m.start f s).store).2.store) := by
  rw [executeIn, passes]
  rfl

/-- Execution of a function in order is its run from the start. -/
theorem executeIn_eq (m : Machine) {f : Function} (verified : f.verify = .ok ()) (s : Store) :
    m.executeIn f s
      = match m.runFor f (budget m.options.maxInstructions) (m.start f s) with
        | .ended outcome p => (outcome, { m with statistics := p.statistics }, p.store)
        | .running p => (cutShort f m.options.maxInstructions p,
            { m with statistics := p.statistics }, p.store) := by
  have passes : (if m.options.verify then f.verify else .ok ()) = .ok () := by
    split
    · exact verified
    · rfl
  rw [executeIn_of_passes s passes]
  unfold run start
  dsimp only
  generalize m.runFor f _ _ = ending
  cases ending <;> rfl

end Machine

end OverloadMachine
