import OverloadMachine.Proofs.InterceptedCalls

/-!
# Release of operands

An operator that has come to its end has emptied the temporaries among its operands, its result
excepted, and left the other ones alone. That holds for every operator that a handler has
handled, and for those that are built in but for the steps: a built-in step empties nothing, so
a temporary that stands as its second operand, which it does not read, keeps what it holds.
-/

namespace OverloadMachine

/-- The instruction is an increment or a decrement. -/
def Instruction.Steps (instr : Instruction) : Prop :=
  ∃ time direction, instr.opcode = .step time direction

/-- A step that is in order assigns a variable. -/
theorem Instruction.Checked.op1_of_step {f : Function} {pc : Nat} {instr : Instruction}
    (checked : instr.Checked f pc) (steps : instr.Steps) : instr.op1.isVariable = true := by
  obtain ⟨time, direction, is⟩ := steps
  cases time with
  | pre =>
    have has : instr.opcode.category? = some .unaryAssignPre := by rw [is]; rfl
    exact (checked.operator has).assigned rfl
  | post =>
    have has : instr.opcode.category? = some .unaryAssignPost := by rw [is]; rfl
    exact (checked.operator has).assigned rfl

/-- A variable is no temporary. -/
theorem Operand.ne_temp_of_isVariable {o result : Operand} (assigned : o.isVariable = true) :
    ∀ i, result ≠ .temp i → o ≠ .temp i := by
  rintro i - rfl
  cases assigned

namespace Store

variable {s t u : Store} {instr : Instruction} {f : Function} {pc : Nat}
  {constants : Array Value}

/-- The temporaries are the same in two stores, that of the result excepted. -/
def SameTemporaries (s : Store) (instr : Instruction) (t : Store) : Prop :=
  ∀ i, instr.result ≠ .temp i → t.frame.get? (.temp i) = s.frame.get? (.temp i)

/-- The temporaries that an instruction names as its operands are empty in the second store,
and the other ones are the same, that of the result excepted. -/
def EmptiesOperands (s : Store) (instr : Instruction) (t : Store) : Prop :=
  ∀ i, instr.result ≠ .temp i → t.frame.get? (.temp i)
    = if instr.op1 = .temp i ∨ instr.op2 = .temp i then some .null else s.frame.get? (.temp i)

namespace SameTemporaries

theorem refl (instr : Instruction) (s : Store) : s.SameTemporaries instr s := fun _ _ => rfl

theorem trans (first : s.SameTemporaries instr t) (second : t.SameTemporaries instr u) :
    s.SameTemporaries instr u := fun i other => (second i other).trans (first i other)

theorem of_frame (same : t.frame = s.frame) : s.SameTemporaries instr t :=
  fun i _ => congrArg (·.get? (.temp i)) same

/-- A store to the result, or to what is no temporary, keeps the other temporaries. -/
theorem assign {o : Operand} (names : ∀ i, instr.result ≠ .temp i → o ≠ .temp i) (s : Store)
    (v : Value) : s.SameTemporaries instr (s.assign constants o v) := by
  intro i other
  have elsewhere := Operand.temp_ne_slot (Ne.symm (names i other)) constants
  exact (get?_overwrite_ne _ (s.target_ne_slot elsewhere) v).trans (s.get?_defining_ne elsewhere)

theorem yield (s : Store) (v : Value) :
    s.SameTemporaries instr (s.yield constants instr.result v) := by
  unfold Store.yield
  split
  · exact refl instr s
  · exact .assign (fun _ => id) (s.acquire v) v

theorem cleared (s : Store) : s.SameTemporaries instr (s.overwrite (.slot .scratch) .null) :=
  fun _ _ => Effect.get?_cleared s nofun

end SameTemporaries

theorem EmptiesOperands.after (empties : t.EmptiesOperands instr u)
    (same : s.SameTemporaries instr t) : s.EmptiesOperands instr u :=
  fun i other => by rw [empties i other, same i other]

theorem EmptiesOperands.before (empties : s.EmptiesOperands instr t)
    (same : t.SameTemporaries instr u) : s.EmptiesOperands instr u :=
  fun i other => (same i other).trans (empties i other)

/-- The operands that an instruction has read are emptied. -/
theorem emptiesOperands_vacateRead (checked : instr.Checked f pc) (fits : s.frame.Fits f) :
    s.EmptiesOperands instr (s.vacateRead instr) := by
  intro i other
  split
  · rename_i read
    have within : i < f.temporaries := by
      rcases read with first | second
      · exact checked.op1.temporary i first
      · exact checked.op2.temporary i second
    have there : i < (s.vacateRead instr).frame.temps.size :=
      Nat.lt_of_lt_of_le within ((s.fits_vacateRead instr f).mpr fits).temps
    have empty := s.get_vacateRead ⟨i, rfl, Ne.symm other, read⟩
    simpa [Frame.get, Frame.get?, there] using empty
  · rename_i unread
    refine s.get?_vacateRead_ne ?_
    rintro ⟨j, same, -, read⟩
    cases same
    exact unread read

end Store

namespace Effect

variable {f : Function} {instr : Instruction} {pc : Nat} {s t : Store} {flow : Flow}
  {constants : Array Value}

theorem emptiesOperands_binary (checked : instr.Checked f pc) (fits : s.frame.Fits f)
    {g : Heap → Value → Value → Except Fault Value}
    (ends : binary constants instr g s = (.ok flow, t)) : s.EmptiesOperands instr t := by
  unfold binary at ends
  split at ends
  · cases ends
  · cases ends
    exact (Store.emptiesOperands_vacateRead checked fits).before (.assign (fun _ => id) _ _)

theorem emptiesOperands_unary (checked : instr.Checked f pc) (fits : s.frame.Fits f)
    {op : UnaryOp} (ends : unary constants instr op s = (.ok flow, t)) :
    s.EmptiesOperands instr t := by
  unfold unary at ends
  split at ends
  · cases ends
  · cases ends
    exact (Store.emptiesOperands_vacateRead checked fits).before (.assign (fun _ => id) _ _)

theorem emptiesOperands_compound (checked : instr.Checked f pc)
    (assigned : instr.op1.isVariable = true) (fits : s.frame.Fits f) {op : ArithmeticOp}
    (ends : compound constants instr op s = (.ok flow, t)) : s.EmptiesOperands instr t := by
  unfold compound at ends
  dsimp only at ends
  split at ends
  · cases ends
  · rename_i v _
    cases ends
    have updated : s.SameTemporaries instr
        ((s.acquire (s.shown constants instr.op2)).assign constants instr.op1 v) :=
      .assign (Operand.ne_temp_of_isVariable assigned) (s.acquire _) v
    have emptied := Store.emptiesOperands_vacateRead checked
      ((Store.fits_assign (s.acquire (s.shown constants instr.op2)) constants instr.op1 v f).mpr
        fits)
    exact (emptied.after updated).before (.trans (.yield _ v) (.of_frame rfl))

/-- An operator that is no step has emptied its operands when it has come to its end. -/
theorem emptiesOperands_of (checked : instr.Checked f pc) {category : Category}
    (has : instr.opcode.category? = some category)
    (other : ¬instr.Steps) (fits : s.frame.Fits f)
    (ends : Effect.of f instr pc s = (.ok flow, t)) : s.EmptiesOperands instr t := by
  have shape := checked.operator has
  unfold Effect.of at ends
  cases is : instr.opcode with
  | arithmetic op =>
    rw [is] at ends
    exact emptiesOperands_binary checked fits ends
  | boolXor =>
    rw [is] at ends
    exact emptiesOperands_binary checked fits ends
  | comparison op =>
    rw [is] at ends
    exact emptiesOperands_binary checked fits ends
  | compound op =>
    rw [is] at ends has
    cases has
    exact emptiesOperands_compound checked (shape.assigned rfl) fits ends
  | unary op =>
    rw [is] at ends
    exact emptiesOperands_unary checked fits ends
  | step time direction => exact (other ⟨time, direction, is⟩).elim
  | _ =>
    rw [is] at has
    cases has

/-- A step keeps the temporaries, that of its result excepted. -/
theorem sameTemporaries_of (checked : instr.Checked f pc) (steps : instr.Steps)
    (ends : Effect.of f instr pc s = (.ok flow, t)) : s.SameTemporaries instr t := by
  have names : ∀ i, instr.result ≠ .temp i → instr.op1 ≠ .temp i :=
    Operand.ne_temp_of_isVariable (checked.op1_of_step steps)
  obtain ⟨time, direction, is⟩ := steps
  unfold Effect.of at ends
  rw [is] at ends
  dsimp only [step] at ends
  split at ends
  · cases ends
  · rename_i v _
    cases time with
    | pre =>
      cases ends
      exact .trans (.assign names s v) (.yield _ v)
    | post =>
      cases ends
      have assigned : s.SameTemporaries instr (s.assign f.constants instr.op1 v) :=
        .assign names s v
      have updated : s.SameTemporaries instr
          ((s.defining f.constants instr.op1).put (s.target f.constants instr.op1) v) := assigned
      exact updated.trans (.assign (fun _ => id) _ _)

/-- A built-in operator that has come to its end has emptied its operands, unless it is a step,
which leaves them alone. -/
theorem temporaries_finishing (checked : instr.Checked f pc) {category : Category}
    (has : instr.opcode.category? = some category) (fits : s.frame.Fits f)
    (ends : (finishing (Effect.of f instr pc s)).1 = .ok flow) :
    (¬instr.Steps →
        s.EmptiesOperands instr (finishing (Effect.of f instr pc s)).2)
      ∧ (instr.Steps →
        s.SameTemporaries instr (finishing (Effect.of f instr pc s)).2) := by
  rw [fst_finishing] at ends
  cases run : Effect.of f instr pc s with
  | mk result t =>
    rw [run] at ends
    cases ends
    refine ⟨fun other => ?_, ?_⟩
    · exact (emptiesOperands_of checked has other fits run).before (.cleared t)
    · intro steps
      exact (sameTemporaries_of checked steps run).trans (.cleared t)

end Effect

namespace Action

variable {f : Function} {instr : Instruction} {pc : Nat} {s t : Store} {category : Category}
  {handler : Handler} {order : NegationOrder}

/-- A handler leaves the temporaries alone, and its call empties the operands if the handler has
handled the instruction. -/
theorem temporaries_invoke (checked : instr.Checked f pc)
    (has : instr.opcode.category? = some category) (fits : s.frame.Fits f)
    {decision : Decision}
    (ends : invoke handler f.constants order instr s = (.ok decision, t)) :
    (decision = .handled → s.EmptiesOperands instr t)
      ∧ (decision = .declined → s.SameTemporaries instr t) := by
  let ctx : CallContext := ⟨instr, category, f.constants, order⟩
  have runs : s.SameTemporaries instr (handler.run ctx ⟨s, none, none⟩).2.store := by
    intro i other
    refine Handler.get?_run ctx handler ⟨s, none, none⟩ fun assigns => ?_
    have apart := Operand.ne_temp_of_isVariable ((checked.operator has).assigned assigns) i other
    exact Operand.temp_ne_slot apart.symm f.constants
  have sizes := (ctx.stable_fits f).run (c := ⟨s, none, none⟩) fits handler
  rw [invoke_eq checked has fits] at ends
  generalize handler.run ctx ⟨s, none, none⟩ = ending at runs sizes ends
  obtain ⟨answer, d⟩ := ending
  rcases Effect.settle_cases f.constants instr answer d with
    ⟨-, -, eq⟩ | ⟨reply, -, -, -, eq⟩ | ⟨fault, eq⟩
  · rw [eq] at ends
    cases ends
    have stored : d.store.SameTemporaries instr
        (Effect.storePending f.constants instr d.pending d.store) :=
      fun i other => Effect.get?_storePending_ne d.pending d.store
        (Operand.temp_ne_slot other.symm f.constants)
    have emptied := Store.emptiesOperands_vacateRead checked
      ((fits_storePending f.constants instr d.pending d.store f).mpr sizes)
    exact ⟨fun _ => (emptied.after (runs.trans stored)).before (.cleared _), nofun⟩
  · rw [eq] at ends
    cases ends
    refine ⟨nofun, fun _ => runs.trans (.trans (.of_frame ?_) (.cleared _))⟩
    exact Effect.frame_dropPending d.pending d.store
  · rw [eq] at ends
    cases ends

end Action

namespace Machine

variable {m : Machine} {f : Function} {instr : Instruction} {p : Progress} {flow : Flow}
  {category : Category}

/-- The instruction has a handler, and that handles it. -/
def Handles (m : Machine) (f : Function) (instr : Instruction) (s : Store) : Prop :=
  ∃ handler, m.table.lookup instr.opcode = some handler
    ∧ (Action.invoke handler f.constants m.options.negationOrder instr s).1 = .ok .handled

/-- A handler that handles the instruction empties its operands. Otherwise they are emptied if
the instruction is no step, and left alone if it is one. -/
theorem temporaries_dispatch (verified : f.Verified) (found : f.code[p.pc]? = some instr)
    (has : instr.opcode.category? = some category) (fits : p.store.frame.Fits f)
    (ends : (m.dispatch f instr p).1 = .ok flow) :
    (m.Handles f instr p.store ∨ ¬instr.Steps →
        p.store.EmptiesOperands instr (m.dispatch f instr p).2.1)
      ∧ (¬m.Handles f instr p.store → instr.Steps →
        p.store.SameTemporaries instr (m.dispatch f instr p).2.1) := by
  have checked := verified.checked found
  unfold dispatch at ends ⊢
  cases look : m.table.lookup instr.opcode with
  | none =>
    have unhandled : ¬m.Handles f instr p.store := by
      rintro ⟨handler, there, -⟩
      rw [look] at there
      cases there
    rw [look] at ends
    dsimp only at ends ⊢
    rw [builtin_eq verified found fits] at ends ⊢
    obtain ⟨emptied, kept⟩ := Effect.temporaries_finishing checked has fits ends
    exact ⟨fun which => emptied (which.resolve_left unhandled), fun _ => kept⟩
  | some handler =>
    rw [look] at ends
    dsimp only at ends ⊢
    have sizes := Action.fits_invoke checked has fits handler m.options.negationOrder
    have handles : m.Handles f instr p.store ↔ (Action.invoke handler f.constants
        m.options.negationOrder instr p.store).1 = .ok .handled := by
      rw [Handles, look]
      simp only [Option.some.injEq, exists_eq_left']
    cases call : Action.invoke handler f.constants m.options.negationOrder instr p.store with
    | mk result t =>
      rw [call] at ends sizes handles
      cases result with
      | error fault => cases ends
      | ok decision =>
        obtain ⟨handled, declined⟩ := Action.temporaries_invoke checked has fits call
        cases decision with
        | handled =>
          exact ⟨fun _ => handled rfl, fun not => absurd (handles.mpr rfl) not⟩
        | declined =>
          have unhandled : ¬m.Handles f instr p.store := fun does => nomatch handles.mp does
          dsimp only at ends ⊢
          rw [builtin_eq verified found sizes] at ends ⊢
          obtain ⟨emptied, kept⟩ := Effect.temporaries_finishing checked has sizes ends
          exact ⟨fun which => (emptied (which.resolve_left unhandled)).after (declined rfl),
            fun _ is => (declined rfl).trans (kept is)⟩

/-- When an operator has come to its end, the temporaries that it does not name are as before.
Those that it names as operands are empty, that of its result excepted, exactly if a handler
has handled it, or it is no step, or the one that a step may name was empty already: a
built-in step leaves them all alone. -/
theorem operands_are_released_iff (verified : f.Verified) (found : f.code[p.pc]? = some instr)
    (has : instr.opcode.category? = some category) (fits : p.store.frame.Fits f)
    (ends : (m.dispatch f instr p).1 = .ok flow) :
    (p.store.EmptiesOperands instr (m.dispatch f instr p).2.1
        ↔ m.Handles f instr p.store ∨ ¬instr.Steps
          ∨ ∀ i, instr.op2 = .temp i → instr.result ≠ .temp i →
            p.store.frame.get (.temp i) = .null)
      ∧ (¬m.Handles f instr p.store → instr.Steps →
        p.store.SameTemporaries instr (m.dispatch f instr p).2.1) := by
  have checked := verified.checked found
  obtain ⟨emptied, kept⟩ := temporaries_dispatch verified found has fits ends
  generalize (m.dispatch f instr p).2.1 = t at emptied kept
  refine ⟨?_, kept⟩
  by_cases released : m.Handles f instr p.store ∨ ¬instr.Steps
  · exact iff_of_true (emptied released) (or_assoc.mp (.inl released))
  · obtain ⟨unhandled, is⟩ := not_or.mp released
    have is := Classical.not_not.mp is
    have same := kept unhandled is
    constructor
    · refine fun empties => .inr (.inr fun i second other => ?_)
      have empty := empties i other
      rw [same i other, if_pos (.inr second)] at empty
      rw [Frame.get, empty, Option.getD_some]
    · intro which
      have null := (or_assoc.mpr which).resolve_left released
      have assigned := checked.op1_of_step is
      intro i other
      rw [same i other]
      split
      · rename_i names
        have second := names.resolve_left (Operand.ne_temp_of_isVariable assigned i other)
        have there : i < p.store.frame.temps.size :=
          Nat.lt_of_lt_of_le (checked.op2.temporary i second) fits.temps
        simpa [Frame.get, Frame.get?, there] using null i second other
      · rfl

/-- Increments a variable; a temporary stands as the second operand. -/
def burdened : Instruction := ⟨.step .pre .up, .var 0, .temp 0, .unused, 0⟩

/-- Increments its variable, and returns it. -/
def incrementing : Function where
  name := "incrementing"
  code := #[burdened, ⟨.ret, .var 0, .unused, .unused, 0⟩]
  constants := #[]
  temporaries := 1
  variableNames := #["a"]

/-- A machine on which increments have a handler, which does nothing and has handled them. -/
def idling : Machine :=
  .ofTable .standard (DispatchTable.empty.set (.step .pre .up) rfl (some (.answer .handled)))

/-- A store in which the temporary is five and the variable is one. -/
def fiveAndOne : Store where
  heap := .empty
  frame := { Frame.ofSizes 0 0 with temps := #[.int 5], vars := #[.int 1] }
  notes := #[]

/-- If the increment is handled, the temporary is empty behind it. -/
theorem operands_are_released_iff_incrementing :
    (idling.dispatch incrementing burdened ⟨fiveAndOne, .zero, 0⟩).1 = .ok .next
      ∧ fiveAndOne.EmptiesOperands burdened
        (idling.dispatch incrementing burdened ⟨fiveAndOne, .zero, 0⟩).2.1 :=
  have verified : incrementing.verify = .ok () := rfl
  have ends : (idling.dispatch incrementing burdened ⟨fiveAndOne, .zero, 0⟩).1 = .ok .next := rfl
  have released := operands_are_released_iff (m := idling) (p := ⟨fiveAndOne, .zero, 0⟩)
    (Function.verified_of_verify verified) rfl rfl ⟨by decide, by decide⟩ ends
  ⟨ends, released.1.mpr (.inl ⟨_, rfl, rfl⟩)⟩

/-- If it is built in, the temporary keeps what it holds. -/
theorem builtin_step_keeps_its_second_operand :
    let p : Progress := ⟨fiveAndOne, .zero, 0⟩
    let builtin := (Machine.ofTable .standard .empty).dispatch incrementing burdened p
    let handled := idling.dispatch incrementing burdened p
    incrementing.verify = .ok ()
      ∧ builtin.1 = .ok .next ∧ builtin.2.1.frame.temps = #[.int 5]
      ∧ handled.1 = .ok .next ∧ handled.2.1.frame.temps = #[.null]
      ∧ ¬fiveAndOne.EmptiesOperands burdened builtin.2.1 := by
  refine ⟨rfl, rfl, rfl, rfl, rfl, fun empties => ?_⟩
  have empty := empties 0 nofun
  cases empty

end Machine

end OverloadMachine
