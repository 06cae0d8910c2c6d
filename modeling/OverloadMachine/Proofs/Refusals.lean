import OverloadMachine.Handler.Script
import OverloadMachine.Proofs.OperandChecks

/-!
# Refused calls

A handler that sets a result that nobody asked for, or looks for the first operand of an
instruction that does not assign, is refused, and the refusal stays with the call whatever the
handler makes of it. The call ends in the first refusal that stayed, whatever is answered:
nothing is stored, and no operand is emptied. One refusal does not stay, that of a constant
that an instruction without verification names as what it assigns.
-/

namespace OverloadMachine

open Script (refusedBy?)

/-- A refusal stays with the call, unless it is that of an operand that the instruction may
write but that cannot be written. -/
def CallContext.records (ctx : CallContext) (violation : Violation) : Bool :=
  !ctx.category.isAssignment || violation != .notAssignable ctx.instr.opcode

namespace Handler

/-- The refusals that a handler meets as it works, in order: those of a result, and those of the
first operand, which is looked for by every step that changes it. Changes that only the guard
refuses are none. -/
def refusals (ctx : CallContext) : Handler → CallState → List Violation
  | .answer _, _ => []
  | .inspect next, c => (next (ctx.view c.store)).refusals ctx c
  | .note line next, c => next.refusals ctx (c.addNote line)
  | .setResult draft next, c =>
    (refusedBy? (c.setResult ctx draft).1).toList
      ++ (next (c.setResult ctx draft).1).refusals ctx (c.setResult ctx draft).2
  | .write draft next, c =>
    (refusedBy? (c.write ctx draft).1).toList
      ++ (next (c.write ctx draft).1).refusals ctx (c.write ctx draft).2
  | .separate next, c =>
    match c.separate ctx with
    | (some result, d) => (refusedBy? result).toList ++ (next result).refusals ctx d
    | (none, _) => []
  | .setFields guarded fields next, c =>
    (refusedBy? (CallState.target ctx { c with store := { c.store with
        heap := (Draft.buildEach (ctx.view c.store) c.store.heap fields).2 } }).1).toList
      ++ (next (c.setFields ctx guarded fields).1).refusals ctx (c.setFields ctx guarded fields).2
  | .setFlag flag next, c =>
    (refusedBy? (c.setFlag ctx flag).1).toList
      ++ (next (c.setFlag ctx flag).1).refusals ctx (c.setFlag ctx flag).2
  | .mutate source change next, c =>
    (next (c.mutate ctx source change).1).refusals ctx (c.mutate ctx source change).2

end Handler

/-! ## What a refusal leaves -/

/-- The operand that an instruction assigns can be written in frames that fit a function. -/
structure CallContext.Opens (f : Function) (ctx : CallContext) : Prop where
  constants : ctx.constants = f.constants
  op1 : ctx.instr.op1.Within f
  storable : ctx.category.isAssignment = true → ctx.instr.op1.isLiteral = false

/-- A step of a handler has looked for the first operand, with what it has made before, and it
is refused if that is. -/
def CallState.Seeks (ctx : CallContext) (c : CallState) (refused : Option Violation)
    (d : CallState) : Prop :=
  ∃ e : CallState, e.store.frame = c.store.frame ∧ e.violation = c.violation
    ∧ refused = refusedBy? (e.target ctx).1 ∧ d.violation = (e.target ctx).2.violation

namespace CallState

variable {ctx : CallContext} {f : Function} {c d : CallState} {refused : Option Violation}

/-- A refusal stays unless there is one already. -/
theorem violation_refuse (c : CallState) (violation : Violation) :
    (c.refuse violation).violation = c.violation.or (some violation) := by
  rw [refuse]
  cases c.violation <;> rfl

/-- Looking for the place to write is no violation if the instruction assigns. -/
theorem violation_target (assigns : ctx.category.isAssignment = true) :
    (c.target ctx).2.violation = c.violation := by
  unfold CallState.target
  dsimp only
  rw [if_pos assigns]
  split <;> rfl

/-- If the instruction does not assign, looking for the place to write is a violation. -/
theorem target_of_not_assigns (c : CallState) (not : ¬ctx.category.isAssignment = true) :
    c.target ctx = (.error (.notAssignable ctx.instr.opcode),
      c.refuse (.notAssignable ctx.instr.opcode)) := by
  rw [target, if_neg not]

theorem violation_target_eq (ctx : CallContext) (c : CallState) :
    (c.target ctx).2.violation
      = c.violation.or ((refusedBy? (c.target ctx).1).filter ctx.records) := by
  unfold target
  dsimp only
  split
  · rename_i assigns
    split
    · exact Option.or_none.symm
    · have lost : ctx.records (.notAssignable ctx.instr.opcode) = false := by
        rw [CallContext.records, assigns, bne_self_eq_false]
        rfl
      rw [refusedBy?, Option.filter_some, lost]
      exact Option.or_none.symm
  · rename_i not
    have kept : ctx.records (.notAssignable ctx.instr.opcode) = true := by
      rw [CallContext.records, (Bool.not_eq_true _).mp not]
      rfl
    rw [refusedBy?, Option.filter_some, if_pos kept]
    exact violation_refuse c _

/-- An operand that can be written is refused only if the instruction does not assign. -/
theorem records_of_target (opens : ctx.Opens f) (fits : c.store.frame.Fits f) :
    ∀ violation ∈ refusedBy? (c.target ctx).1, ctx.records violation = true := by
  cases assigns : ctx.category.isAssignment with
  | true =>
    rw [target, if_pos assigns, opens.constants,
      Action.writablePlace_eq opens.op1 (opens.storable assigns) fits]
    intro violation refused
    cases refused
  | false =>
    intro violation _
    rw [CallContext.records, assigns]
    rfl

namespace Seeks

/-- The refusal stays unless there is one already, or it is one that does not stay. -/
theorem violation_eq (seeks : Seeks ctx c refused d) :
    d.violation = c.violation.or (refused.filter ctx.records) := by
  obtain ⟨e, -, before, rfl, after⟩ := seeks
  rw [after, violation_target_eq, before]

theorem records (seeks : Seeks ctx c refused d) (opens : ctx.Opens f)
    (fits : c.store.frame.Fits f) : ∀ violation ∈ refused, ctx.records violation = true := by
  obtain ⟨e, frame, -, rfl, -⟩ := seeks
  exact records_of_target opens (frame ▸ fits)

/-- If the instruction assigns, it is no violation. -/
theorem violation_of_assigns (seeks : Seeks ctx c refused d)
    (assigns : ctx.category.isAssignment = true) : d.violation = c.violation := by
  obtain ⟨e, -, before, -, after⟩ := seeks
  rw [after, violation_target assigns, before]

/-- If the instruction does not assign, it is one. -/
theorem violation_of_not_assigns (seeks : Seeks ctx c refused d)
    (not : ¬ctx.category.isAssignment = true) : d.violation ≠ none := by
  obtain ⟨e, -, -, -, after⟩ := seeks
  rw [after, target_of_not_assigns e not]
  exact Option.some_ne_none _

theorem violation_cases (seeks : Seeks ctx c refused d) :
    d.violation = c.violation ∨ d.violation ≠ none := by
  by_cases assigns : ctx.category.isAssignment = true
  · exact .inl (seeks.violation_of_assigns assigns)
  · exact .inr (seeks.violation_of_not_assigns assigns)

end Seeks

theorem seeks_write (ctx : CallContext) (c : CallState) (draft : Draft) :
    Seeks ctx c (refusedBy? (c.write ctx draft).1) (c.write ctx draft).2 := by
  refine ⟨(c.build ctx draft).2, rfl, rfl, ?_⟩
  unfold write
  dsimp only
  generalize target ctx _ = found
  obtain ⟨violation | place, d⟩ := found <;> exact ⟨rfl, rfl⟩

theorem seeks_separate (ctx : CallContext) (c : CallState) :
    Seeks ctx c ((c.separate ctx).1.bind refusedBy?) (c.separate ctx).2 := by
  refine ⟨c, rfl, rfl, ?_⟩
  unfold separate
  generalize target ctx c = found
  obtain ⟨violation | place, d⟩ := found
  · exact ⟨rfl, rfl⟩
  · dsimp only
    split <;> exact ⟨rfl, rfl⟩

theorem seeks_setFlag (ctx : CallContext) (c : CallState) (flag : Bool) :
    Seeks ctx c (refusedBy? (c.setFlag ctx flag).1) (c.setFlag ctx flag).2 := by
  refine ⟨c, rfl, rfl, ?_⟩
  unfold setFlag
  generalize target ctx c = found
  obtain ⟨violation | place, d⟩ := found
  · exact ⟨rfl, rfl⟩
  · dsimp only
    split <;> exact ⟨rfl, rfl⟩

/-- Giving up values meets no violation. -/
theorem violation_foldl_release (entries : List (String × Value)) (c : CallState) :
    (entries.foldl (fun c e => c.release e.2) c).violation = c.violation := by
  induction entries generalizing c with
  | nil => rfl
  | cons e rest ih => exact ih (c.release e.2)

/-- What the guard makes of fields is no refusal of the call. -/
theorem seeks_setFields (ctx : CallContext) (c : CallState) (guarded : Bool)
    (fields : List (String × Draft)) :
    Seeks ctx c (refusedBy? (target ctx { c with store := { c.store with
        heap := (Draft.buildEach (ctx.view c.store) c.store.heap fields).2 } }).1)
      (c.setFields ctx guarded fields).2 := by
  refine ⟨{ c with store := { c.store with
    heap := (Draft.buildEach (ctx.view c.store) c.store.heap fields).2 } }, rfl, rfl, rfl, ?_⟩
  unfold setFields
  dsimp only
  generalize Draft.buildEach (ctx.view c.store) c.store.heap fields = built
  obtain ⟨entries, heap⟩ := built
  dsimp only
  generalize target ctx _ = found
  obtain ⟨violation | place, d⟩ := found
  · exact violation_foldl_release entries d
  · dsimp only
    split
    · split <;> rfl
    · exact violation_foldl_release entries d

/-- A result that nobody asked for is refused, and that stays. -/
theorem violation_setResult_eq (ctx : CallContext) (c : CallState) (draft : Draft) :
    (c.setResult ctx draft).2.violation
        = c.violation.or ((refusedBy? (c.setResult ctx draft).1).filter ctx.records)
      ∧ ∀ violation ∈ refusedBy? (c.setResult ctx draft).1, ctx.records violation = true := by
  unfold setResult
  dsimp only
  split
  · refine ⟨Eq.trans ?_ Option.or_none.symm, nofun⟩
    split <;> rfl
  · have kept : ctx.records (.unusedResult ctx.instr.opcode) = true := Bool.or_true _
    rw [refusedBy?, Option.filter_some, if_pos kept]
    refine ⟨violation_refuse (c.build ctx draft).2 _, ?_⟩
    rintro _ ⟨⟩
    exact kept

end CallState

/-! ## Refusals along a run -/

namespace Handler

variable {ctx : CallContext} {f : Function} {c d : CallState}

/-- One refusal before others: the first that stays is looked for in their order. -/
theorem find?_refused (records : Violation → Bool) (met refused : Option Violation)
    (later : List Violation) :
    (met.or (refused.filter records)).or (later.find? records)
      = met.or ((refused.toList ++ later).find? records) := by
  rw [List.find?_append, Option.or_assoc]
  cases refused with
  | none => rfl
  | some violation => rw [Option.toList_some, List.find?_singleton, Option.filter_some]

/-- The violation that a call has met in the end is the first refusal that stayed. -/
theorem violation_run_eq (ctx : CallContext) (h : Handler) (c : CallState) :
    (h.run ctx c).2.violation = c.violation.or ((h.refusals ctx c).find? ctx.records) := by
  induction h generalizing c with
  | answer reply => exact Option.or_none.symm
  | inspect next ih => exact ih _ c
  | note line next ih => exact ih (c.addNote line)
  | setResult draft next ih =>
    rw [run, refusals, ← find?_refused, ← (CallState.violation_setResult_eq ctx c draft).1]
    exact ih _ _
  | write draft next ih =>
    rw [run, refusals, ← find?_refused, ← (CallState.seeks_write ctx c draft).violation_eq]
    exact ih _ _
  | separate next ih =>
    have met := (CallState.seeks_separate ctx c).violation_eq
    rw [run, refusals]
    generalize CallState.separate ctx c = found at met ⊢
    obtain ⟨_ | result, d⟩ := found
    · exact met
    · dsimp only
      rw [← find?_refused]
      exact (ih result d).trans (congrArg (Option.or · _) met)
  | setFields guarded fields next ih =>
    rw [run, refusals, ← find?_refused,
      ← (CallState.seeks_setFields ctx c guarded fields).violation_eq]
    exact ih _ _
  | setFlag flag next ih =>
    rw [run, refusals, ← find?_refused, ← (CallState.seeks_setFlag ctx c flag).violation_eq]
    exact ih _ _
  | mutate source change next ih => exact ih _ (c.mutate ctx source change).2

/-- Where the operand to write can be opened, every refusal stays. -/
theorem records_of_mem_refusals (opens : ctx.Opens f) (h : Handler)
    (fits : c.store.frame.Fits f) :
    ∀ violation ∈ h.refusals ctx c, ctx.records violation = true := by
  have sizes := ctx.stable_fits f
  have both {refused : Option Violation} {later : List Violation}
      (first : ∀ violation ∈ refused, ctx.records violation = true)
      (rest : ∀ violation ∈ later, ctx.records violation = true) :
      ∀ violation ∈ refused.toList ++ later, ctx.records violation = true := by
    intro violation mem
    rcases List.mem_append.mp mem with mem | mem
    · exact first violation (Option.mem_toList.mp mem)
    · exact rest violation mem
  induction h generalizing c with
  | answer reply => nofun
  | inspect next ih => exact ih _ fits
  | note line next ih => exact ih (c := c.addNote line) fits
  | setResult draft next ih =>
    exact both (CallState.violation_setResult_eq ctx c draft).2
      (ih _ ((CallState.frame_setResult ctx c draft).symm ▸ fits))
  | write draft next ih =>
    exact both ((CallState.seeks_write ctx c draft).records opens fits)
      (ih _ (sizes.write fits draft))
  | separate next ih =>
    have first := (CallState.seeks_separate ctx c).records opens fits
    have kept := sizes.separate fits
    rw [refusals]
    generalize CallState.separate ctx c = found at first kept ⊢
    obtain ⟨_ | result, d⟩ := found
    · nofun
    · exact both first (ih result kept)
  | setFields guarded fields next ih =>
    exact both ((CallState.seeks_setFields ctx c guarded fields).records opens fits)
      (ih _ (sizes.setFields fits guarded fields))
  | setFlag flag next ih =>
    exact both ((CallState.seeks_setFlag ctx c flag).records opens fits)
      (ih _ (sizes.setFlag fits flag))
  | mutate source change next ih => exact ih _ (c := (c.mutate ctx source change).2) fits

/-! ## The end of a refused call -/

variable {instr : Instruction} {category : Category} {constants : Array Value}
  {order : NegationOrder} {s : Store} {h : Handler} {reply : Answer} {left : CallState}
  {violation : Violation}

/-- The slots that a handler does not write are as before its call. -/
theorem get?_run {slot : Slot} (ctx : CallContext) (h : Handler) (c : CallState)
    (other : ctx.category.isAssignment = true → slot ≠ ctx.instr.op1.slot ctx.constants) :
    (h.run ctx c).2.store.frame.get? slot = c.store.frame.get? slot := by
  have stable : ctx.Stable (·.get? slot = c.store.frame.get? slot) :=
    fun assigns frame v _ same => (frame.get?_put_ne v (other assigns).symm).trans same
  exact stable.run rfl h

/-- The first refusal stays, unless it is that of a literal that the instruction assigns. -/
theorem records_of_head? (has : s.Operable constants instr category)
    (storable : category.isAssignment = true → instr.op1.isLiteral = true →
      violation ≠ .notAssignable instr.opcode)
    (refused : (h.refusals ⟨instr, category, constants, order⟩ ⟨s, none, none⟩).head?
      = some violation) :
    CallContext.records ⟨instr, category, constants, order⟩ violation = true := by
  by_cases literal : category.isAssignment = true ∧ instr.op1.isLiteral = true
  · have other := storable literal.1 literal.2
    rw [CallContext.records, bne_iff_ne.mpr other]
    exact Bool.or_true _
  · have opens : CallContext.Opens (s.frame.sized constants)
        ⟨instr, category, constants, order⟩ :=
      ⟨rfl, has.op1, fun assigns => Bool.eq_false_iff.mpr fun is => literal ⟨assigns, is⟩⟩
    exact records_of_mem_refusals opens h (c := ⟨s, none, none⟩) (s.frame.fits_sized constants)
      violation (List.mem_of_mem_head? refused)

/-- A call that was refused ends in its first refusal, whatever the handler answers, unless that
is the refusal of a literal that the instruction assigns. The store is what the handler left,
less the result that was held back: nothing is stored, and of the slots only that of an operand
that the instruction assigns may have been written, by the handler. -/
theorem refused_call_is_fatal (has : instr.opcode.category? = some category)
    (passes : s.checkOperands constants instr category = .ok ())
    (storable : category.isAssignment = true → instr.op1.isLiteral = true →
      violation ≠ .notAssignable instr.opcode)
    (answers : h.run ⟨instr, category, constants, order⟩ ⟨s, none, none⟩ = (some reply, left))
    (refused : (h.refusals ⟨instr, category, constants, order⟩ ⟨s, none, none⟩).head?
      = some violation) :
    Action.invoke h constants order instr s
        = (.error (.contract violation), Effect.dropPending left.pending left.store)
      ∧ ∀ slot, (category.isAssignment = true → slot ≠ instr.op1.slot constants) →
        (Action.invoke h constants order instr s).2.frame.get? slot = s.frame.get? slot := by
  let ctx : CallContext := ⟨instr, category, constants, order⟩
  have stays := records_of_head? (Store.operable_of_passes passes) storable refused
  have met := violation_run_eq ctx h ⟨s, none, none⟩
  have others (slot : Slot) := @get?_run slot ctx h ⟨s, none, none⟩
  rw [answers] at met others
  obtain ⟨later, all⟩ := List.head?_eq_some_iff.mp refused
  have first : left.violation = some violation := by
    refine met.trans ?_
    rw [all, List.find?_cons_of_pos stays]
    rfl
  have ends : Action.invoke h constants order instr s
      = (.error (.contract violation), Effect.dropPending left.pending left.store) := by
    rw [Action.invoke_of_passes has passes, answers]
    dsimp only
    rw [first]
  refine ⟨ends, fun slot other => ?_⟩
  rw [ends]
  exact (congrArg (·.get? slot) (Effect.frame_dropPending _ _)).trans (others slot other)

/-- Sets the result, writes the first operand and sets the result again, and has handled the
instruction whatever came of it. -/
def heedless : Handler :=
  .setResult (.scalar (.int 7)) fun _ => .write (.scalar (.int 70)) fun _ =>
    .setResult (.scalar (.int 9)) fun _ => .answer .handled

/-- A store with two temporaries, the first of which is five. -/
def fiveAndNothing : Store where
  heap := .empty
  frame := { Frame.ofSizes 0 0 with temps := #[.int 5, .null] }
  notes := #[]

/-- The first operand of an addition is not written, and nothing is stored or emptied. -/
theorem refused_call_is_fatal_heedless :
    let instr : Instruction := ⟨.arithmetic .add, .temp 0, .temp 0, .temp 1, 0⟩
    let call := Action.invoke heedless #[] .valueFirst instr fiveAndNothing
    call.1 = .error (.contract (.notAssignable (.arithmetic .add)))
      ∧ ∀ slot, call.2.frame.get? slot = fiveAndNothing.frame.get? slot := by
  intro instr call
  obtain ⟨ends, slots⟩ := refused_call_is_fatal
    (rfl : instr.opcode.category? = some .binary)
    (rfl : fiveAndNothing.checkOperands #[] instr .binary = .ok ()) nofun
    (rfl : heedless.run ⟨instr, .binary, #[], .valueFirst⟩ ⟨fiveAndNothing, none, none⟩
      = (some .handled, _)) rfl
  exact ⟨congrArg Prod.fst ends, fun slot => slots slot nofun⟩

/-- If a literal is assigned, the write is refused all the same, and the call goes on as if it
were not: the result is stored, and the operand is emptied. -/
theorem refused_write_of_literal_is_forgotten :
    let instr : Instruction := ⟨.compound .add, .const 0, .temp 0, .temp 1, 0⟩
    let call := Action.invoke heedless #[.int 4] .valueFirst instr fiveAndNothing
    instr.opcode.category? = some .binaryAssign
      ∧ fiveAndNothing.checkOperands #[.int 4] instr .binaryAssign = .ok ()
      ∧ heedless.refusals ⟨instr, .binaryAssign, #[.int 4], .valueFirst⟩
          ⟨fiveAndNothing, none, none⟩ = [.notAssignable (.compound .add)]
      ∧ call.1 = .ok .handled
      ∧ fiveAndNothing.frame.temps = #[.int 5, .null] ∧ call.2.frame.temps = #[.null, .int 9] :=
  ⟨rfl, rfl, rfl, rfl, rfl, rfl⟩

end Handler

end OverloadMachine
