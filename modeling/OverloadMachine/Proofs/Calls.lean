import OverloadMachine.Handler.Call
import OverloadMachine.Proofs.Effects

/-!
# Calls of handlers

A handler works through its call one step at a time. The steps are given here as
a relation between what is left of the handler and the state of the call, and the
run of a handler is the end of a chain of them. For a verified instruction the
checks around a call pass, so a call is what the handler does, followed by what
its answer does.
-/

namespace OverloadMachine

/-! ## Steps of a handler -/

namespace Handler

/-- One step of a handler: what is left of it and what has become of the call.
There is none after the answer, nor when a cell is opened that is open. -/
def advance (ctx : CallContext) : Handler → CallState → Option (Handler × CallState)
  | .answer _, _ => none
  | .inspect next, c => some (next (ctx.view c.store), c)
  | .note line next, c => some (next, c.addNote line)
  | .setResult value next, c => some (next (c.setResult ctx value).1, (c.setResult ctx value).2)
  | .write value next, c => some (next (c.write ctx value).1, (c.write ctx value).2)
  | .separate next, c =>
    match c.separate ctx with
    | (some result, c) => some (next result, c)
    | (none, _) => none
  | .setFields guarded fields next, c =>
    some (next (c.setFields ctx guarded fields).1, (c.setFields ctx guarded fields).2)
  | .setFlag flag next, c => some (next (c.setFlag ctx flag).1, (c.setFlag ctx flag).2)
  | .mutate source change next, c =>
    some (next (c.mutate ctx source change).1, (c.mutate ctx source change).2)

/-- What a handler and a call come to after some steps. -/
inductive Reaches (ctx : CallContext) (h : Handler) (c : CallState) : Handler → CallState → Prop
  | start : Reaches ctx h c h c
  | step {k l : Handler} {d e : CallState} (before : Reaches ctx h c k d)
      (advances : k.advance ctx d = some (l, e)) : Reaches ctx h c l e

/-- A step of a handler is the first step of its run. -/
theorem run_of_advance {ctx : CallContext} {h k : Handler} {c d : CallState}
    (advances : h.advance ctx c = some (k, d)) : h.run ctx c = k.run ctx d := by
  cases h with
  | answer reply => cases advances
  | separate next =>
    rw [advance] at advances
    split at advances
    · rename_i eq
      cases advances
      rw [run, eq]
    · cases advances
  | _ =>
    cases advances
    rfl

/-- The steps that a handler has taken are part of its run. -/
theorem run_of_reaches {ctx : CallContext} {h k : Handler} {c d : CallState}
    (reaches : Reaches ctx h c k d) : h.run ctx c = k.run ctx d := by
  induction reaches with
  | start => rfl
  | step _ advances ih => exact ih.trans (run_of_advance advances)

/-- What every step of a handler keeps, and a failed separation too, its run keeps. -/
theorem run_keeps {ctx : CallContext} (invariant : CallState → Prop)
    (step : ∀ {h k : Handler} {c d : CallState}, h.advance ctx c = some (k, d) →
      invariant c → invariant d)
    (stop : ∀ {c : CallState}, invariant c → invariant (c.separate ctx).2)
    (h : Handler) {c : CallState} (start : invariant c) : invariant (h.run ctx c).2 := by
  induction h generalizing c with
  | answer reply => exact start
  | inspect next ih => exact ih _ start
  | note line next ih => exact ih (step (h := .note line next) rfl start)
  | setResult value next ih => exact ih _ (step (h := .setResult value next) rfl start)
  | write value next ih => exact ih _ (step (h := .write value next) rfl start)
  | separate next ih =>
    have kept := stop start
    rw [run]
    split
    · rename_i result d eq
      rw [eq] at kept
      exact ih result kept
    · rename_i d eq
      rw [eq] at kept
      exact kept
  | setFields guarded fields next ih =>
    exact ih _ (step (h := .setFields guarded fields next) rfl start)
  | setFlag flag next ih => exact ih _ (step (h := .setFlag flag next) rfl start)
  | mutate source change next ih =>
    exact ih _ (step (h := .mutate source change next) rfl start)

end Handler

/-! ## The frame under a handler -/

/-- A property of frames that a handler keeps: it writes only the slot of the first operand,
only if the instruction assigns, and only if the slot is bound to no cell. -/
def CallContext.Stable (ctx : CallContext) (kept : Frame → Prop) : Prop :=
  ctx.category.isAssignment = true → ∀ (frame : Frame) (v : Value),
    (∀ cell, frame.get (ctx.instr.op1.slot ctx.constants) ≠ .ref cell) → kept frame →
      kept (frame.put (ctx.instr.op1.slot ctx.constants) v)

namespace CallState

/-- The first operand can be written, or else the store is as it was. -/
theorem target_opens (ctx : CallContext) (c : CallState) :
    (∃ violation d, c.target ctx = (.error violation, d) ∧ d.store = c.store)
      ∨ ctx.category.isAssignment = true
        ∧ c.target ctx = (.ok (c.store.target ctx.constants ctx.instr.op1),
          { c with store := c.store.defining ctx.constants ctx.instr.op1 }) := by
  unfold target
  dsimp only
  split
  · rename_i assigns
    rcases Action.writablePlace_cases ctx.constants ctx.instr.op1 c.store with ⟨cause, eq⟩ | eq
    · exact .inl ⟨_, _, by rw [eq], rfl⟩
    · exact .inr ⟨assigns, by rw [eq]⟩
  · exact .inl ⟨_, _, rfl, rfl⟩

/-- A result is held back, so it changes no slot. -/
theorem frame_setResult (ctx : CallContext) (c : CallState) (draft : Draft) :
    (c.setResult ctx draft).2.store.frame = c.store.frame := by
  unfold setResult
  dsimp only
  split
  · split <;> rfl
  · rfl

/-- Giving up values keeps the frame. -/
theorem frame_foldl_release (entries : List (String × Value)) (c : CallState) :
    (entries.foldl (fun c e => c.release e.2) c).store.frame = c.store.frame := by
  induction entries generalizing c with
  | nil => rfl
  | cons e rest ih => exact ih (c.release e.2)

end CallState

namespace CallContext.Stable

variable {ctx : CallContext} {kept : Frame → Prop} {s : Store} {c : CallState}

theorem defining (stable : ctx.Stable kept) (assigns : ctx.category.isAssignment = true)
    (start : kept s.frame) : kept (s.defining ctx.constants ctx.instr.op1).frame := by
  unfold Store.defining
  split
  · rename_i name _ is
    change kept (s.frame.define name)
    unfold Frame.define
    split
    · exact start
    · rename_i absent
      have undefined : s.frame.symbols.get? name = none := by
        simpa [OrderedMap.contains] using absent
      have null : s.frame.get (.symbol name) = .null := by
        rw [Frame.get, Frame.get?, undefined, Option.getD_none]
      rw [← is] at null ⊢
      refine stable assigns s.frame .null (fun cell is => ?_) start
      rw [null] at is
      cases is
  · exact start

/-- The place that the first operand shows is a cell, or its slot if that is bound to none. -/
theorem put (stable : ctx.Stable kept) (assigns : ctx.category.isAssignment = true)
    (start : kept s.frame) (v : Value) :
    kept (s.put (s.target ctx.constants ctx.instr.op1) v).frame := by
  unfold Store.target Store.placeOf
  split
  · exact start
  · rename_i unbound
    exact stable assigns s.frame v unbound start

variable (stable : ctx.Stable kept) (start : kept c.store.frame)

include stable start

/-- So does a write once the operand is defined. -/
theorem put_defining (assigns : ctx.category.isAssignment = true) {t : Store}
    (defined : t.frame = (c.store.defining ctx.constants ctx.instr.op1).frame) (v : Value) :
    kept (t.put (c.store.target ctx.constants ctx.instr.op1) v).frame := by
  have after := stable.defining assigns start
  rw [← defined] at after
  have same : t.target ctx.constants ctx.instr.op1
      = c.store.target ctx.constants ctx.instr.op1 := by
    rw [Store.target, Store.placeOf, defined]
    exact c.store.placeOf_defining ctx.constants ctx.instr.op1 _
  rw [← same]
  exact stable.put assigns after v

theorem write (draft : Draft) : kept (c.write ctx draft).2.store.frame := by
  unfold CallState.write
  dsimp only
  rcases CallState.target_opens ctx (c.build ctx draft).2 with
    ⟨violation, d, eq, same⟩ | ⟨assigns, eq⟩
  · rw [eq]
    exact (congrArg (kept ·.frame) same).mpr start
  · rw [eq]
    exact put_defining (c := (c.build ctx draft).2)
      (t := (c.build ctx draft).2.store.defining ctx.constants ctx.instr.op1) stable start
      assigns rfl _

theorem separate : kept (c.separate ctx).2.store.frame := by
  unfold CallState.separate
  rcases CallState.target_opens ctx c with ⟨violation, d, eq, same⟩ | ⟨assigns, eq⟩
  · rw [eq]
    exact (congrArg (kept ·.frame) same).mpr start
  · rw [eq]
    dsimp only
    split
    · exact stable.defining assigns start
    · exact put_defining
        (t := { c.store.defining ctx.constants ctx.instr.op1 with
          heap := ((c.store.defining ctx.constants ctx.instr.op1).heap.separate _).2.2 })
        stable start assigns rfl _

theorem setFields (guarded : Bool) (fields : List (String × Draft)) :
    kept (c.setFields ctx guarded fields).2.store.frame := by
  unfold CallState.setFields
  dsimp only
  generalize Draft.buildEach (ctx.view c.store) c.store.heap fields = built
  obtain ⟨entries, heap⟩ := built
  dsimp only
  rcases CallState.target_opens ctx { c with store := { c.store with heap := heap } } with
    ⟨violation, d, eq, same⟩ | ⟨assigns, eq⟩
  · rw [eq]
    dsimp only
    rw [CallState.frame_foldl_release, same]
    exact start
  · rw [eq]
    have defined := stable.defining (s := { c.store with heap := heap }) assigns start
    dsimp only
    split
    · split <;> exact defined
    · rw [CallState.frame_foldl_release]
      exact defined

theorem setFlag (flag : Bool) : kept (c.setFlag ctx flag).2.store.frame := by
  unfold CallState.setFlag
  rcases CallState.target_opens ctx c with ⟨violation, d, eq, same⟩ | ⟨assigns, eq⟩
  · rw [eq]
    exact (congrArg (kept ·.frame) same).mpr start
  · rw [eq]
    dsimp only
    split <;> exact stable.defining assigns start

/-- A step of a handler keeps what is stable. -/
theorem advance {h k : Handler} {d : CallState} (advances : h.advance ctx c = some (k, d)) :
    kept d.store.frame := by
  cases h with
  | answer reply => cases advances
  | inspect next =>
    cases advances
    exact start
  | note line next =>
    cases advances
    exact start
  | setResult value next =>
    cases advances
    rw [CallState.frame_setResult]
    exact start
  | write value next =>
    cases advances
    exact stable.write start value
  | separate next =>
    have after := stable.separate start
    rw [Handler.advance] at advances
    split at advances
    · rename_i result e eq
      cases advances
      rw [eq] at after
      exact after
    · cases advances
  | setFields guarded fields next =>
    cases advances
    exact stable.setFields start guarded fields
  | setFlag flag next =>
    cases advances
    exact stable.setFlag start flag
  | mutate source change next =>
    cases advances
    exact start

/-- The steps of a handler keep what is stable. -/
theorem reaches {h k : Handler} {d : CallState} (reaches : Handler.Reaches ctx h c k d) :
    kept d.store.frame := by
  induction reaches with
  | start => exact start
  | step _ advances ih => exact stable.advance ih advances

/-- The run of a handler keeps what is stable. -/
theorem run (h : Handler) : kept (h.run ctx c).2.store.frame :=
  Handler.run_keeps (fun c => kept c.store.frame)
    (fun advances start => stable.advance start advances) (fun start => stable.separate start)
    h start

end CallContext.Stable

/-- The size of the frame is stable. -/
theorem CallContext.stable_fits (ctx : CallContext) (f : Function) :
    ctx.Stable (·.Fits f) := fun _ frame v _ fits => (frame.fits_put _ v f).mpr fits

/-! ## Steps for verified instructions -/

/-- A call is made for an instruction of a function that is in order. -/
structure CallContext.Of (f : Function) (pc : Nat) (ctx : CallContext) : Prop where
  checked : ctx.instr.Checked f pc
  category : ctx.instr.opcode.category? = some ctx.category
  constants : ctx.constants = f.constants

namespace CallContext.Of

variable {f : Function} {pc : Nat} {ctx : CallContext} {c : CallState}

/-- What the handler sees of an operand is what the operand shows. -/
theorem see_eq (call : ctx.Of f pc) {o : Operand} (within : o.Within f) {s : Store}
    (fits : s.frame.Fits f) : (ctx.see s o).value = s.shown f.constants o := by
  rw [see, call.constants, Store.view_eq within fits]
  rfl

/-- The place that a handler writes, if the instruction assigns. -/
theorem target_eq (call : ctx.Of f pc) (assigns : ctx.category.isAssignment = true)
    (fits : c.store.frame.Fits f) :
    c.target ctx = (.ok (c.store.target f.constants ctx.instr.op1),
      { c with store := c.store.defining f.constants ctx.instr.op1 }) := by
  have shape := call.checked.operator call.category
  have storable := Operand.isLiteral_of_isVariable (shape.assigned assigns)
  rw [CallState.target, if_pos assigns, call.constants,
    Action.writablePlace_eq call.checked.op1 storable fits]

end CallContext.Of

/-! ## Calls for verified instructions -/

namespace Effect

/-- Give up the result that was held back. -/
def dropPending (pending : Option Value) (s : Store) : Store :=
  match pending with
  | some v => s.release v
  | none => s

@[simp] theorem frame_dropPending (pending : Option Value) (s : Store) :
    (dropPending pending s).frame = s.frame := by
  cases pending <;> rfl

/-- Store the result that was held back. -/
def storePending (constants : Array Value) (instr : Instruction) (pending : Option Value)
    (s : Store) : Store :=
  match pending with
  | some v =>
    if instr.result.isUnused then s.release v else s.assign constants instr.result v
  | none => s

/-- What the answer of a handler does. -/
def conclude (constants : Array Value) (instr : Instruction) (answer : Answer)
    (pending : Option Value) (s : Store) : Except Fault Decision × Store :=
  match answer with
  | .handled =>
    (.ok .handled, ((storePending constants instr pending s).vacateRead instr).overwrite
      (.slot .scratch) .null)
  | .declined | .unsupported _ =>
    (.ok .declined, (dropPending pending s).overwrite (.slot .scratch) .null)
  | .violated violation => (.error (.contract violation), dropPending pending s)

/-- What the end of a handler's run does. -/
def settle (constants : Array Value) (instr : Instruction) :
    Option Answer × CallState → Except Fault Decision × Store
  | (answer, c) =>
    match answer, c.violation with
    | none, _ => (.error .reentry, dropPending c.pending c.store)
    | some _, some violation =>
      (.error (.contract violation), dropPending c.pending c.store)
    | some answer, none => conclude constants instr answer c.pending c.store

end Effect

namespace Action

variable {f : Function} {instr : Instruction} {pc : Nat} {s : Store}

theorem dropPending_eq (pending : Option Value) (s : Store) :
    dropPending pending s = (.ok ⟨⟩, Effect.dropPending pending s) := by
  cases pending <;> rfl

@[simp] theorem fits_dropPending (pending : Option Value) (s : Store) (f : Function) :
    (Effect.dropPending pending s).frame.Fits f ↔ s.frame.Fits f := by
  cases pending <;> rfl

@[simp] theorem fits_storePending (constants : Array Value) (instr : Instruction)
    (pending : Option Value) (s : Store) (f : Function) :
    (Effect.storePending constants instr pending s).frame.Fits f ↔ s.frame.Fits f := by
  unfold Effect.storePending
  split
  · split
    · rfl
    · exact s.fits_assign _ _ _ f
  · rfl

/-- The answer of a handler for an instruction whose result can be stored and whose
temporaries are there. -/
theorem conclude_eq (first : ∀ i, instr.op1 = .temp i → i < f.temporaries)
    (second : ∀ i, instr.op2 = .temp i → i < f.temporaries) (third : instr.result.Within f)
    (result : instr.result.isLiteral = false) (fits : s.frame.Fits f) (answer : Answer)
    (pending : Option Value) :
    conclude f.constants instr answer pending s
      = Effect.conclude f.constants instr answer pending s := by
  cases answer with
  | handled =>
    have vacated := releaseOperands_eq (s := Effect.storePending f.constants instr pending s)
      first second (by simpa using fits)
    unfold conclude
    cases pending with
    | none =>
      refine (run_bind_ok vacated _).trans ?_
      rfl
    | some v =>
      dsimp only
      by_cases unused : instr.result.isUnused = true
      · have stored : Effect.storePending f.constants instr (some v) s = s.release v := by
          simp only [Effect.storePending, unused, if_true]
        rw [stored] at vacated
        rw [if_pos unused, run_bind_ok (run_release v s), run_bind_ok vacated, ← stored]
        rfl
      · have stored : Effect.storePending f.constants instr (some v) s
            = s.assign f.constants instr.result v := by
          simp only [Effect.storePending, unused, Bool.false_eq_true, if_false]
        rw [stored] at vacated
        rw [if_neg unused, run_bind_ok (storeOperand_eq third result fits v),
          run_bind_ok vacated, ← stored]
        rfl
  | declined =>
    rw [conclude, run_bind_ok (dropPending_eq pending s)]
    rfl
  | unsupported reason =>
    rw [conclude, run_bind_ok (dropPending_eq pending s)]
    rfl
  | violated violation =>
    rw [conclude, run_bind_ok (dropPending_eq pending s)]
    rfl

/-- The operands of an instruction that is in order pass the check before a call. -/
theorem checkOperands_eq (checked : instr.Checked f pc) (result : instr.result.isLiteral = false)
    (fits : s.frame.Fits f) (category : Category) :
    s.checkOperands f.constants instr category = .ok () := by
  have third := Store.resolve_eq checked.result fits
  rw [Store.checkOperands, Store.resolve_eq checked.op1 fits, Store.resolve_eq checked.op2 fits]
  cases eq : instr.result with
  | const i => rw [eq] at result; cases result
  | _ =>
    rw [eq] at third
    cases category.hasSecondOperand <;> simp [bind, Except.bind, pure, Except.pure, third]

/-- Once the operands have passed the check, a call is the handler's run and its end. -/
theorem invoke_of_passes {constants : Array Value} {category : Category}
    (has : instr.opcode.category? = some category)
    (passes : s.checkOperands constants instr category = .ok ()) (handler : Handler)
    (order : NegationOrder) :
    invoke handler constants order instr s
      = match handler.run ⟨instr, category, constants, order⟩ ⟨s, none, none⟩ with
        | (none, c) => (.error .reentry, Effect.dropPending c.pending c.store)
        | (some answer, c) =>
          match c.violation with
          | some violation => (.error (.contract violation), Effect.dropPending c.pending c.store)
          | none => conclude constants instr answer c.pending c.store := by
  simp only [invoke, has]
  rw [run_bind_ok (run_get s), passes, run_bind_ok (run_attempt_ok _ s), run_bind_ok (run_get s)]
  generalize handler.run ⟨instr, category, constants, order⟩ ⟨s, none, none⟩ = ending
  obtain ⟨answer, c⟩ := ending
  rw [run_bind_ok (run_set s c.store)]
  cases answer with
  | none =>
    dsimp only
    rw [run_bind_ok (dropPending_eq c.pending c.store)]
    rfl
  | some reply =>
    cases met : c.violation with
    | none =>
      dsimp only
      rw [met]
    | some violation =>
      dsimp only
      rw [met, run_bind_ok (dropPending_eq c.pending c.store)]
      rfl

/-- If the operands do not pass the check, the handler does not run. -/
theorem invoke_of_fails {constants : Array Value} {category : Category} {fault : Fault}
    (has : instr.opcode.category? = some category)
    (fails : s.checkOperands constants instr category = .error fault) (handler : Handler)
    (order : NegationOrder) : invoke handler constants order instr s = (.error fault, s) := by
  simp only [invoke, has]
  rw [run_bind_ok (run_get s), fails, run_bind_error (run_attempt_error fault s)]

/-- A call for an instruction that is in order is the handler's run and its end. -/
theorem invoke_eq (checked : instr.Checked f pc) {category : Category}
    (has : instr.opcode.category? = some category) (fits : s.frame.Fits f)
    (handler : Handler) (order : NegationOrder) :
    invoke handler f.constants order instr s
      = Effect.settle f.constants instr
        (handler.run ⟨instr, category, f.constants, order⟩ ⟨s, none, none⟩) := by
  have result := (checked.operator has).result
  have kept := (CallContext.stable_fits ⟨instr, category, f.constants, order⟩ f).run
    (c := ⟨s, none, none⟩) fits handler
  rw [invoke_of_passes has (checkOperands_eq checked result fits category)]
  generalize handler.run ⟨instr, category, f.constants, order⟩ ⟨s, none, none⟩ = ending at kept ⊢
  obtain ⟨answer, c⟩ := ending
  unfold Effect.settle
  cases answer with
  | none => rfl
  | some reply =>
    cases met : c.violation with
    | none =>
      dsimp only
      rw [met]
      exact conclude_eq checked.op1.temporary checked.op2.temporary checked.result result kept
        reply c.pending
    | some violation =>
      dsimp only
      rw [met]

end Action

end OverloadMachine
