import OverloadMachine.Proofs.Declining

/-!
# Handlers that do what is built in

A handler may compute the value of its operator itself, write it through its call
and set it as the result. It then comes to the same store as the built-in
instruction, though the result is stored before the temporaries are emptied and
not behind them. The values that operators make are scalars, so nothing but the
order of writes differs. A table of such handlers is transparent, if steps have no
second operand: a call empties a temporary there, and a step does not.
-/

namespace OverloadMachine

namespace Operator

/-! ## Operators as functions of two values -/

/-- What the operator of an opcode makes of two values; null if it is no operator. -/
def apply (h : Heap) (a b : Value) : Opcode → Except Fault Value
  | .arithmetic op | .compound op => arithmetic h op a b
  | .boolXor => boolXor h a b
  | .comparison op => Fault.ending (comparison? h op a b)
  | .unary op => unary h op a
  | .step time direction => step time direction a
  | _ => .ok .null

/-- Operators make scalars. -/
theorem node?_apply {h : Heap} {a b v : Value} {op : Opcode} (made : apply h a b op = .ok v) :
    v.node? = none := by
  cases op with
  | arithmetic op => exact node?_arithmetic made
  | compound op => exact node?_arithmetic made
  | unary op => exact node?_unary made
  | step time direction => exact node?_step made
  | boolXor => exact node?_boolXor made
  | comparison op => exact node?_ending_comparison? made
  | _ =>
    cases made
    rfl

/-- An operator that reads one operand does not look at a second one. -/
theorem apply_second {op : Opcode} {category : Category} (has : op.category? = some category)
    (one : category.hasSecondOperand = false) (h : Heap) (a b c : Value) :
    apply h a b op = apply h a c op := by
  cases op with
  | unary op => rfl
  | step time direction => rfl
  | _ => cases has <;> cases one

end Operator

/-- Which of its two values a stepped variable gives the result: the one before, if
the step comes afterwards, else the new one. -/
def Opcode.outcome (op : Opcode) (old new : Value) : Value :=
  match op with
  | .step .post _ => old
  | _ => new

/-- A handler that does what is built in: it applies the operator to what the operands
show, declines if that is a fault, and else writes the value if the instruction
assigns, and sets the result if it is given one. -/
def Handler.native : Handler :=
  .inspect fun view =>
    let first := view.op1.value
    let second := (view.op2.map (·.value)).getD .null
    match Operator.apply view.heap first second view.instr.opcode with
    | .error _ => .answer .declined
    | .ok v =>
      let finish : Handler :=
        if view.hasResult then
          .setResult (.scalar (view.instr.opcode.outcome first v))
            (orViolated fun _ => .answer .handled)
        else .answer .handled
      if view.category.isAssignment then .write (.scalar v) (orViolated fun _ => finish)
      else finish

/-! ## The built-in path -/

namespace Store

/-- The store after an operator that has made a value: the operand is assigned, if
the instruction assigns, and the result is delivered. -/
def operated (s : Store) (constants : Array Value) (instr : Instruction) (category : Category)
    (v : Value) : Store :=
  (if category.isAssignment then s.assign constants instr.op1 v else s).deliver constants
    instr.result (instr.opcode.outcome (s.shown constants instr.op1) v)

end Store

namespace Effect

variable {f : Function} {instr : Instruction} {pc : Nat} {outside : Node → Nat} {s : Store}
  {category : Category} {v : Value}

/-- A result may be delivered before the temporaries are emptied. -/
theorem vacateRead_deliver (checked : instr.Checked f pc) {held : List Value}
    (acc : s.Accounted f outside held) :
    (s.vacateRead instr).deliver f.constants instr.result v
      = (s.deliver f.constants instr.result v).vacateRead instr := by
  unfold Store.deliver
  split
  · rfl
  · exact acc.vacateRead_assign checked.op1 checked.op2 checked.result

/-- A result that is stored behind the emptied temporaries, into the scratch slot if it
is unused. -/
theorem emptied_vacateRead_assign (checked : instr.Checked f pc) (acc : s.Accounted f outside [])
    (plain : s.frame.scratch.Plain) (scalar : v.node? = none) :
    ((s.vacateRead instr).assign f.constants instr.result v).emptied .scratch
      = ((s.deliver f.constants instr.result v).vacateRead instr).emptied .scratch := by
  unfold Store.deliver
  cases unused : instr.result.isUnused with
  | true =>
    have eq : instr.result = .unused := by
      cases result : instr.result <;> simp [result, Operand.isUnused] at unused ⊢
    have kept : (s.vacateRead instr).frame.scratch.Plain := by
      rw [s.scratch_vacateRead]
      exact plain
    rw [if_pos rfl, eq]
    exact Store.emptied_assign_unused _ kept scalar
  | false =>
    have same := acc.vacateRead_assign (v := v) checked.op1 checked.op2 checked.result
    rw [if_neg Bool.false_ne_true, same]

/-- A compound assignment that makes a value stores it, whatever is emptied first. -/
theorem finishing_of_compound {op : ArithmeticOp} (checked : instr.Checked f pc)
    (is : instr.opcode = .compound op) (acc : s.Accounted f outside [])
    (made : Operator.arithmetic s.heap op (s.shown f.constants instr.op1)
      (s.shown f.constants instr.op2) = .ok v) :
    finishing (Effect.compound f.constants instr op s) = (.ok .next,
      ((s.operated f.constants instr .binaryAssign v).vacateRead instr).emptied .scratch) := by
  have stored := (acc.scalar (Operator.node?_arithmetic made)).assign checked.op1
  have outcome : instr.opcode.outcome (s.shown f.constants instr.op1) v = v := by rw [is]; rfl
  rw [compound_eq_deliver checked is acc, made]
  dsimp only
  rw [finishing_next, vacateRead_deliver checked stored, Store.operated, outcome]
  rfl

/-- A step without a second operand stores the value that it makes, and empties nothing. -/
theorem finishing_of_step {time : StepTime} {direction : StepDirection}
    (checked : instr.Checked f pc) (is : instr.opcode = .step time direction)
    (has : instr.opcode.category? = some category) (single : instr.op2 = .unused)
    (made : Operator.step time direction (s.shown f.constants instr.op1) = .ok v) :
    finishing (Effect.step f.constants instr time direction s) = (.ok .next,
      ((s.operated f.constants instr category v).vacateRead instr).emptied .scratch) := by
  have shape := checked.operator has
  have assigned : instr.op1.isVariable = true := shape.assigned (by
    rw [is] at has
    cases time <;> cases has <;> rfl)
  have nothing : ∀ t : Store, t.vacateRead instr = t := by
    intro t
    unfold Store.vacateRead
    rw [single, Store.vacate_of_isVariable assigned]
    split <;> split <;> rfl
  rw [step_eq_deliver assigned, made]
  dsimp only
  rw [finishing_next, nothing, Store.operated]
  rw [is] at has ⊢
  cases time with
  | pre =>
    cases has
    rfl
  | post =>
    cases has
    obtain ⟨i, result⟩ := shape.before rfl
    rw [result]
    rfl

/-- A built-in operator that makes a value stores it, whatever is emptied first. -/
theorem finishing_of_operator (checked : instr.Checked f pc)
    (has : instr.opcode.category? = some category) (acc : s.Accounted f outside [])
    (scratch : s.frame.scratch.Plain)
    (single : ∀ time direction, instr.opcode = .step time direction → instr.op2 = .unused)
    (made : Operator.apply s.heap (s.shown f.constants instr.op1) (s.shown f.constants instr.op2)
      instr.opcode = .ok v) :
    finishing (Effect.of f instr pc s) = (.ok .next,
      ((s.operated f.constants instr category v).vacateRead instr).emptied .scratch) := by
  have scalar := Operator.node?_apply made
  have binary : ∀ {g : Heap → Value → Value → Except Fault Value},
      g s.heap (s.shown f.constants instr.op1) (s.shown f.constants instr.op2) = .ok v →
      Effect.of f instr pc s = Effect.binary f.constants instr g s →
      category.isAssignment = false →
      instr.opcode.outcome (s.shown f.constants instr.op1) v = v →
      finishing (Effect.of f instr pc s) = (.ok .next,
        ((s.operated f.constants instr category v).vacateRead instr).emptied .scratch) := by
    intro g made is plain same
    rw [is, Effect.binary, made]
    dsimp only
    rw [finishing_next, emptied_vacateRead_assign checked acc scratch scalar, Store.operated,
      plain, same]
    rfl
  cases is : instr.opcode with
  | arithmetic op =>
    rw [is] at has made
    cases has
    exact binary made (by rw [Effect.of, is]) rfl (by rw [is]; rfl)
  | boolXor =>
    rw [is] at has made
    cases has
    exact binary made (by rw [Effect.of, is]) rfl (by rw [is]; rfl)
  | comparison op =>
    rw [is] at has made
    cases has
    exact binary (g := fun h a b => Fault.ending (Operator.comparison? h op a b)) made
      (by rw [Effect.of, is]) rfl (by rw [is]; rfl)
  | unary op =>
    rw [is] at has made
    cases has
    exact binary (g := fun h a _ => Operator.unary h op a) made (by rw [Effect.of, is]; rfl) rfl
      (by rw [is]; rfl)
  | compound op =>
    have eq : Effect.of f instr pc s = Effect.compound f.constants instr op s := by
      rw [Effect.of, is]
    rw [is] at has made
    cases has
    rw [eq]
    exact finishing_of_compound checked is acc made
  | step time direction =>
    have eq : Effect.of f instr pc s = Effect.step f.constants instr time direction s := by
      rw [Effect.of, is]
    rw [is] at made
    rw [eq]
    exact finishing_of_step checked is has (single time direction is) made
  | _ =>
    rw [is] at has
    cases has

/-! ## The handled path -/

/-- What the call shows a handler at its start. -/
theorem apply_view (checked : instr.Checked f pc) (has : instr.opcode.category? = some category)
    (fits : s.frame.Fits f) (order : NegationOrder) :
    let view := CallContext.view ⟨instr, category, f.constants, order⟩ s
    view.op1.value = s.shown f.constants instr.op1
      ∧ Operator.apply view.heap view.op1.value ((view.op2.map (·.value)).getD .null) instr.opcode
        = Operator.apply s.heap (s.shown f.constants instr.op1) (s.shown f.constants instr.op2)
          instr.opcode := by
  have call : CallContext.Of f pc ⟨instr, category, f.constants, order⟩ := ⟨checked, has, rfl⟩
  have first := call.see_eq checked.op1 fits
  have second := call.see_eq checked.op2 fits
  refine ⟨first, ?_⟩
  dsimp only [CallContext.view]
  rw [first]
  cases two : category.hasSecondOperand with
  | true =>
    have given := (checked.operator has).second two
    rw [given]
    exact congrArg (fun b => Operator.apply s.heap _ b instr.opcode) second
  | false => exact Operator.apply_second has two _ _ _ _

end Effect

/-- A scalar that is made is itself. -/
theorem Draft.build_scalar (view : CallView) (h : Heap) {v : Value} (scalar : v.node? = none) :
    (Draft.scalar v).build view h = (v, h) := by
  unfold build
  cases v <;> first | rfl | cases scalar

namespace CallContext.Of

variable {f : Function} {pc : Nat} {ctx : CallContext} {c : CallState} {v : Value}

/-- Writing a scalar assigns it to the first operand. -/
theorem write_scalar (call : ctx.Of f pc) (assigns : ctx.category.isAssignment = true)
    (fits : c.store.frame.Fits f) (scalar : v.node? = none) :
    c.write ctx (.scalar v)
      = (.ok (), { c with store := c.store.assign f.constants ctx.instr.op1 v }) := by
  have built : c.build ctx (.scalar v) = (v, c) := by
    rw [CallState.build, Draft.build_scalar _ _ scalar]
  have place := call.target_eq assigns fits
  unfold CallState.write
  rw [built]
  dsimp only
  rw [place]
  rfl

/-- Setting a scalar as the first result holds it back. -/
theorem setResult_scalar (given : ctx.hasResult = true) (first : c.pending = none)
    (scalar : v.node? = none) :
    c.setResult ctx (.scalar v) = (.ok (), { c with pending := some v }) := by
  have built : c.build ctx (.scalar v) = (v, c) := by
    rw [CallState.build, Draft.build_scalar _ _ scalar]
  unfold CallState.setResult
  rw [built]
  dsimp only
  rw [if_pos given, first]

end CallContext.Of

namespace Effect

variable {f : Function} {instr : Instruction} {pc : Nat} {outside : Node → Nat} {s : Store}
  {category : Category} {v : Value}

/-- The native handler of an operator that makes a value handles its call, with the
store and the result of the operator. -/
theorem run_native (checked : instr.Checked f pc) (has : instr.opcode.category? = some category)
    (fits : s.frame.Fits f) (order : NegationOrder)
    (old : (instr.opcode.outcome (s.shown f.constants instr.op1) v).node? = none)
    (made : Operator.apply s.heap (s.shown f.constants instr.op1) (s.shown f.constants instr.op2)
      instr.opcode = .ok v) :
    Handler.native.run ⟨instr, category, f.constants, order⟩ ⟨s, none, none⟩
      = (some .handled, ⟨if category.isAssignment then s.assign f.constants instr.op1 v else s,
        if category.alwaysYields || !instr.result.isUnused then
          some (instr.opcode.outcome (s.shown f.constants instr.op1) v)
        else none, none⟩) := by
  have call : CallContext.Of f pc ⟨instr, category, f.constants, order⟩ := ⟨checked, has, rfl⟩
  have scalar := Operator.node?_apply made
  obtain ⟨first, same⟩ := apply_view checked has fits order
  let ctx : CallContext := ⟨instr, category, f.constants, order⟩
  have finish : ∀ t : Store,
      (if (ctx.view s).hasResult then
          Handler.setResult (.scalar (instr.opcode.outcome (s.shown f.constants instr.op1) v))
            (Handler.orViolated fun _ => .answer .handled)
        else .answer .handled).run ctx ⟨t, none, none⟩
      = (some .handled, ⟨t, if category.alwaysYields || !instr.result.isUnused then
          some (instr.opcode.outcome (s.shown f.constants instr.op1) v) else none, none⟩) := by
    intro t
    by_cases given : ctx.hasResult = true
    · have seen : (ctx.view s).hasResult = true := given
      have yields : (category.alwaysYields || !instr.result.isUnused) = true := given
      rw [if_pos seen, if_pos yields, Handler.run,
        CallContext.Of.setResult_scalar given rfl old]
      rfl
    · have seen : ¬(ctx.view s).hasResult = true := given
      have yields : ¬(category.alwaysYields || !instr.result.isUnused) = true := given
      rw [if_neg seen, if_neg yields]
      rfl
  have opcode : (ctx.view s).instr.opcode = instr.opcode := rfl
  rw [Handler.native, Handler.run]
  dsimp only
  rw [opcode, same, made, first]
  dsimp only
  by_cases assigns : category.isAssignment = true
  · have seen : (ctx.view s).category.isAssignment = true := assigns
    have written := call.write_scalar (c := ⟨s, none, none⟩) assigns fits scalar
    rw [if_pos seen, if_pos assigns, Handler.run, written]
    exact finish _
  · have seen : ¬(ctx.view s).category.isAssignment = true := assigns
    rw [if_neg seen, if_neg assigns]
    exact finish _

/-- The native handler of an operator that faults declines, and has changed nothing. -/
theorem run_native_of_fault (checked : instr.Checked f pc)
    (has : instr.opcode.category? = some category) (fits : s.frame.Fits f)
    (order : NegationOrder) {fault : Fault}
    (made : Operator.apply s.heap (s.shown f.constants instr.op1) (s.shown f.constants instr.op2)
      instr.opcode = .error fault) :
    Handler.native.run ⟨instr, category, f.constants, order⟩ ⟨s, none, none⟩
      = (some .declined, ⟨s, none, none⟩) := by
  obtain ⟨-, same⟩ := apply_view checked has fits order
  have opcode : (CallContext.view ⟨instr, category, f.constants, order⟩ s).instr.opcode
      = instr.opcode := rfl
  rw [Handler.native, Handler.run]
  dsimp only
  rw [opcode, same, made]
  rfl

/-- What a held back result comes to is that it is delivered. -/
theorem storePending_scalar (constants : Array Value) (instr : Instruction) (category : Category)
    (t : Store) (scalar : v.node? = none) :
    storePending constants instr (if category.alwaysYields || !instr.result.isUnused then some v
      else none) t = t.deliver constants instr.result v := by
  unfold Store.deliver
  cases unused : instr.result.isUnused with
  | true =>
    rw [if_pos rfl]
    split
    · rw [storePending, unused, if_pos rfl, Store.release_of_scalar t scalar]
    · rfl
  | false =>
    rw [Bool.not_false, Bool.or_true, if_pos rfl, if_neg Bool.false_ne_true, storePending,
      unused, if_neg Bool.false_ne_true]

end Effect

namespace Machine

variable {m : Machine} {f : Function} {outside : Node → Nat} {s : Store}

/-- Native handlers are transparent for a verified function whose steps have no second
operand. -/
theorem transparent_of_native (verified : f.Verified)
    (native : ∀ {op handler}, m.table.lookup op = some handler → handler = .native)
    (single : ∀ (pc : Nat) (instr : Instruction) time direction, f.code[pc]? = some instr →
      instr.opcode = .step time direction → instr.op2 = .unused) :
    m.Transparent f outside := by
  intro pc instr handler category s found look has acc scratch
  have checked := verified.checked found
  have call : CallContext.Of f pc ⟨instr, category, f.constants, m.options.negationOrder⟩ :=
    ⟨checked, has, rfl⟩
  obtain rfl := native look
  cases made : Operator.apply s.heap (s.shown f.constants instr.op1)
      (s.shown f.constants instr.op2) instr.opcode with
  | error fault =>
    have declined := Effect.run_native_of_fault checked has acc.fits m.options.negationOrder made
    rw [Effect.calling, declined]
    exact Effect.agrees_of_quiet checked has acc scratch trivial ⟨.refl s, rfl⟩
  | ok v =>
    have built := Effect.finishing_of_operator checked has acc scratch
      (fun time direction is => single pc instr time direction found is) made
    have old : (instr.opcode.outcome (s.shown f.constants instr.op1) v).node? = none := by
      have scalar := Operator.node?_apply made
      cases is : instr.opcode with
      | step time direction =>
        rw [is] at made
        cases time with
        | pre => exact scalar
        | post => exact Operator.scalar_of_step made
      | _ => exact scalar
    rw [built, Effect.calling, Effect.run_native checked has acc.fits _ old made]
    have stored := Effect.storePending_scalar f.constants instr category
      (if category.isAssignment then s.assign f.constants instr.op1 v else s) old
    unfold Effect.settle
    dsimp only
    rw [Effect.conclude]
    rw [stored]
    exact ⟨rfl, .refl _⟩

/-- With native handlers for any operators a verified function whose steps have no
second operand ends as without handlers, with the same outcome, heap and frame. -/
theorem sameEnding_of_native (verified : f.verify = .ok ()) (rest : s.AtRest f outside)
    (native : ∀ {op handler}, m.table.lookup op = some handler → handler = .native)
    (single : ∀ (pc : Nat) (instr : Instruction) time direction, f.code[pc]? = some instr →
      instr.opcode = .step time direction → instr.op2 = .unused) :
    SameEnding (m.executeIn f s) (m.plain.executeIn f s) :=
  have transparent : m.Transparent f outside :=
    transparent_of_native (Function.verified_of_verify verified) native single
  sameEnding_of_transparent verified rest transparent

/-- Steps a variable, adds what it was to another one, and adds both. -/
def accumulation : Function where
  name := "accumulation"
  code := #[
    ⟨.step .post .up, .var 0, .unused, .temp 0, 0⟩,
    ⟨.compound .add, .var 1, .temp 0, .temp 1, 0⟩,
    ⟨.arithmetic .add, .temp 1, .var 0, .temp 1, 0⟩,
    ⟨.ret, .temp 1, .unused, .unused, 0⟩]
  constants := #[]
  temporaries := 2
  variableNames := #["a", "b"]

/-- A store in which two variables are bound to one cell. -/
def aliasing : Store where
  heap := (Heap.empty.createCell (.int 5)).2.acquire (.ref ⟨0⟩)
  frame := { Frame.ofSizes 2 0 with vars := #[.ref ⟨0⟩, .ref ⟨0⟩] }
  notes := #[]

theorem atRest_aliasing : aliasing.AtRest accumulation fun _ => 0 where
  owns := by
    have nothing : Heap.empty.Accounts [.int 5] fun _ => 0 := fun node => by cases node <;> rfl
    have one : (Heap.empty.createCell (.int 5)).2.Accounts [.ref ⟨0⟩] fun _ => 0 :=
      @Heap.Accounts.createCell _ [] _ _ nothing
    exact (one.acquire (one.alive List.mem_cons_self)).congr fun node => by
      simp [aliasing, Frame.values, Frame.ofSizes, OrderedMap.values, OrderedMap.empty]
  constants node := Nat.le_refl 0
  scratch := nofun

/-- Native handlers for three operators on variables that are bound to one cell. -/
theorem sameEnding_accumulation :
    let table := ((DispatchTable.empty.set (.step .post .up) rfl (some .native)).set
      (.compound .add) rfl (some .native)).set (.arithmetic .add) rfl (some Handler.native)
    let m := Machine.ofTable .standard table
    SameEnding (m.executeIn accumulation aliasing) (m.plain.executeIn accumulation aliasing) := by
  refine sameEnding_of_native rfl atRest_aliasing (fun {op handler} look => ?_) ?_
  · change (if op = .arithmetic .add then some Handler.native
      else if op = .compound .add then some .native
      else if op = .step .post .up then some .native else none) = some handler at look
    split at look
    · exact (Option.some.inj look).symm
    · split at look
      · exact (Option.some.inj look).symm
      · split at look
        · exact (Option.some.inj look).symm
        · cases look
  · intro pc instr time direction found is
    rcases pc with _ | _ | _ | _ | pc
    · cases found
      rfl
    · cases found
      cases is
    · cases found
      cases is
    · cases found
      cases is
    · cases found

/-- With a reference in the scratch slot a native handler is noticed: without it a sum that is
not used is written through the reference, and with it nowhere. -/
theorem native_sum_spares_leftover :
    let m := Machine.ofTable .standard
      (DispatchTable.empty.set (.arithmetic .add) rfl (some Handler.native))
    discardedSum.verify = .ok () ∧ leftover.Owns [] (fun _ => 0)
      ∧ (∀ node : Node, node.uses discardedSum.constants.toList ≤ 0)
      ∧ (∀ instr ∈ discardedSum.code, ∀ time direction, instr.opcode ≠ .step time direction)
      ∧ (m.executeIn discardedSum leftover).2.2.heap.content ⟨0⟩ = .int 1
      ∧ (m.plain.executeIn discardedSum leftover).2.2.heap.content ⟨0⟩ = .int 10 := by
  refine ⟨rfl, owns_leftover, uses_discardedSum, fun instr mem time direction => ?_, rfl, rfl⟩
  simp only [discardedSum, List.mem_toArray, List.mem_cons, List.not_mem_nil, or_false] at mem
  rcases mem with rfl | rfl <;> nofun

end Machine

end OverloadMachine
