import OverloadMachine.Proofs.OpenCells

/-!
# The scratch slot

What an instruction discards goes to the scratch slot, which is emptied behind it. A call of a
handler is the one place where that can be missed: an instruction that assigns but names
nothing to assign, which verification refuses, shows its handler the scratch slot as the first
operand, and if the call then ends in a fault, what the handler has written stays. Everything
else that runs between two instructions leaves the slot alone or empties it.
-/

namespace OverloadMachine

/-- The instruction assigns, but names nothing to assign. -/
def Instruction.AssignsNothing (instr : Instruction) : Prop :=
  instr.op1 = .unused
    ∧ ∃ category, instr.opcode.category? = some category ∧ category.isAssignment = true

/-- An instruction that is in order does not assign to nothing. -/
theorem Instruction.Checked.not_assignsNothing {f : Function} {pc : Nat} {instr : Instruction}
    (checked : instr.Checked f pc) : ¬instr.AssignsNothing := by
  rintro ⟨nothing, category, has, assigns⟩
  have assigned := (checked.operator has).assigned assigns
  rw [nothing] at assigned
  cases assigned

/-! ## Actions that leave the slot alone -/

namespace Store

@[simp] theorem scratch_defining (s : Store) (constants : Array Value) (o : Operand) :
    (s.defining constants o).frame.scratch = s.frame.scratch := by
  unfold defining
  split
  · change (s.frame.define _).scratch = _
    unfold Frame.define
    split <;> rfl
  · rfl

/-- Writing another place leaves the slot alone. -/
theorem scratch_overwrite (s : Store) {place : Place} (other : place ≠ .slot .scratch)
    (v : Value) : (s.overwrite place v).frame.scratch = s.frame.scratch :=
  Option.some.inj (s.get?_overwrite_ne other v)

end Store

namespace Action

variable {α β : Type} {constants : Array Value} {o : Operand}

/-- The action leaves the scratch slot alone, whatever comes of it. -/
def Spares (act : Action α) : Prop := ∀ s, (act s).2.frame.scratch = s.frame.scratch

theorem Spares.bind {act : Action α} {next : α → Action β} (first : act.Spares)
    (second : ∀ a, (next a).Spares) : (act >>= next).Spares := by
  intro s
  have before := first s
  rw [run_bind]
  generalize act s = ending at before ⊢
  obtain ⟨_ | a, t⟩ := ending
  · exact before
  · exact (second a t).trans before

/-- The action empties the scratch slot, or faults and leaves it alone. -/
def Clears (act : Action α) : Prop := ∀ s,
  (∃ a, (act s).1 = .ok a) ∧ (act s).2.frame.scratch = .null
    ∨ (∃ fault, (act s).1 = .error fault) ∧ (act s).2.frame.scratch = s.frame.scratch

theorem Spares.clears {act : Action α} {next : α → Action β} (first : act.Spares)
    (second : ∀ a, (next a).Clears) : (act >>= next).Clears := by
  intro s
  have before := first s
  rw [run_bind]
  generalize act s = ending at before ⊢
  obtain ⟨fault | a, t⟩ := ending
  · exact .inr ⟨⟨fault, rfl⟩, before⟩
  · rcases second a t with clear | ⟨fails, same⟩
    · exact .inl clear
    · exact .inr ⟨fails, same.trans before⟩

theorem clears_clearScratch (a : α) : (do clearScratch; return a : Action α).Clears :=
  fun _ => .inl ⟨⟨a, rfl⟩, rfl⟩

theorem spares_dropPending (pending : Option Value) : (dropPending pending).Spares := by
  intro s
  cases pending <;> rfl

/-- An operand that is not nothing opens another place than the scratch slot. -/
theorem writablePlace_ne_scratch (used : o ≠ .unused) {s t : Store} {place : Place}
    (opens : writablePlace constants o s = (.ok place, t)) :
    place ≠ .slot .scratch ∧ t.frame.scratch = s.frame.scratch := by
  have other : o.slot constants ≠ .scratch := by
    cases o with
    | unused => exact absurd rfl used
    | const i => cases opens
    | dynamic i =>
      intro nothing
      have fails : variableName constants i = .error (.code (.nameNotText i)) := by
        unfold variableName
        split
        · rename_i name found
          rw [Operand.slot, found] at nothing
          cases nothing
        · rfl
      have lost : writableSlot constants (.dynamic i) s = (.error (.code (.nameNotText i)), s) := by
        rw [writableSlot, fails]
        rfl
      rw [writablePlace, run_bind_error lost] at opens
      cases opens
    | _ =>
      intro same
      cases same
  rcases writablePlace_cases constants o s with ⟨cause, eq⟩ | eq
  · rw [eq] at opens
    cases opens
  · rw [eq] at opens
    cases opens
    exact ⟨s.target_ne_slot other.symm, s.scratch_defining constants o⟩

theorem spares_storeOperand (used : o ≠ .unused) (v : Value) :
    (storeOperand constants o v).Spares := by
  intro s
  rw [storeOperand]
  rcases writablePlace_cases constants o s with ⟨cause, eq⟩ | eq
  · rw [run_bind_error (run_holding_error eq)]
    rfl
  · obtain ⟨other, same⟩ := writablePlace_ne_scratch used eq
    rw [run_bind_ok (run_holding_ok eq), run_overwrite]
    exact (Store.scratch_overwrite _ other v).trans same

theorem spares_releaseIfTemporary (o : Operand) : (releaseIfTemporary o).Spares := by
  intro s
  cases o with
  | temp i =>
    rw [releaseIfTemporary, releaseTemporary, temporarySlot, run_bind,
      run_bind_ok (run_get s)]
    by_cases lt : i < s.frame.temps.size
    · rw [if_pos lt]
      rfl
    · rw [if_neg lt]
      rfl
  | _ => rfl

theorem spares_releaseOperands (instr : Instruction) : (releaseOperands instr).Spares := by
  have second : (if instr.op2 ≠ instr.result then releaseIfTemporary instr.op2
      else pure ()).Spares := by
    split
    · exact spares_releaseIfTemporary _
    · exact fun _ => rfl
  rw [releaseOperands]
  by_cases one : instr.op1 ≠ instr.result
  · rw [if_pos one]
    exact (spares_releaseIfTemporary _).bind fun _ => second
  · rw [if_neg one]
    exact second

end Action

/-! ## Calls -/

namespace CallState

variable {ctx : CallContext} {c : CallState}
  (spares : ctx.instr.op1 = .unused → ctx.category.isAssignment = false)

include spares

/-- Unless the instruction assigns to nothing, its handler is refused or given another place
than the scratch slot. -/
theorem target_spares (c : CallState) :
    (c.target ctx).2.store.frame.scratch = c.store.frame.scratch
      ∧ ∀ place, (c.target ctx).1 = .ok place → place ≠ .slot .scratch := by
  unfold target
  dsimp only
  split
  · rename_i assigns
    have used : ctx.instr.op1 ≠ .unused := fun nothing => by
      rw [spares nothing] at assigns
      cases assigns
    rcases Action.writablePlace_cases ctx.constants ctx.instr.op1 c.store with ⟨cause, eq⟩ | eq
    · rw [eq]
      exact ⟨rfl, nofun⟩
    · obtain ⟨other, same⟩ := Action.writablePlace_ne_scratch used eq
      rw [eq]
      refine ⟨same, fun place is => ?_⟩
      cases is
      exact other
  · exact ⟨rfl, nofun⟩

theorem scratch_write (c : CallState) (draft : Draft) :
    (c.write ctx draft).2.store.frame.scratch = c.store.frame.scratch := by
  obtain ⟨same, other⟩ := target_spares spares (c.build ctx draft).2
  unfold write
  dsimp only
  generalize target ctx _ = found at same other ⊢
  obtain ⟨violation | place, d⟩ := found
  · exact same
  · exact (Store.scratch_overwrite _ (other place rfl) _).trans same

theorem scratch_separate (c : CallState) :
    (c.separate ctx).2.store.frame.scratch = c.store.frame.scratch := by
  obtain ⟨same, other⟩ := target_spares spares c
  unfold separate
  generalize c.target ctx = found at same other ⊢
  obtain ⟨violation | place, d⟩ := found
  · exact same
  · dsimp only
    split
    · exact same
    · exact (Option.some.inj (d.store.get?_separate_ne (other place rfl))).trans same

theorem scratch_setFields (c : CallState) (guarded : Bool) (fields : List (String × Draft)) :
    (c.setFields ctx guarded fields).2.store.frame.scratch = c.store.frame.scratch := by
  unfold setFields
  dsimp only
  generalize Draft.buildEach (ctx.view c.store) c.store.heap fields = built
  obtain ⟨entries, heap⟩ := built
  dsimp only
  obtain ⟨same, -⟩ := target_spares spares { c with store := { c.store with heap := heap } }
  generalize target ctx _ = found at same ⊢
  obtain ⟨violation | place, d⟩ := found
  · exact (congrArg _ (frame_foldl_release entries d)).trans same
  · dsimp only
    split
    · split <;> exact same
    · exact (congrArg _ (frame_foldl_release entries d)).trans same

theorem scratch_setFlag (c : CallState) (flag : Bool) :
    (c.setFlag ctx flag).2.store.frame.scratch = c.store.frame.scratch := by
  obtain ⟨same, -⟩ := target_spares spares c
  unfold setFlag
  generalize c.target ctx = found at same ⊢
  obtain ⟨violation | place, d⟩ := found
  · exact same
  · dsimp only
    split <;> exact same

/-- A step of a handler leaves the slot alone. -/
theorem scratch_advance {h k : Handler} {d : CallState} (advances : h.advance ctx c = some (k, d)) :
    d.store.frame.scratch = c.store.frame.scratch := by
  cases h with
  | answer reply => cases advances
  | inspect next =>
    cases advances
    rfl
  | note line next =>
    cases advances
    rfl
  | setResult draft next =>
    cases advances
    rw [frame_setResult]
  | write draft next =>
    cases advances
    exact scratch_write spares c draft
  | separate next =>
    have same := scratch_separate spares c
    rw [Handler.advance] at advances
    generalize c.separate ctx = found at same advances
    obtain ⟨_ | result, e⟩ := found
    · cases advances
    · cases advances
      exact same
  | setFields guarded fields next =>
    cases advances
    exact scratch_setFields spares c guarded fields
  | setFlag flag next =>
    cases advances
    exact scratch_setFlag spares c flag
  | mutate source change next =>
    cases advances
    rfl

/-- So does its whole run. -/
theorem scratch_run (h : Handler) (c : CallState) :
    (h.run ctx c).2.store.frame.scratch = c.store.frame.scratch :=
  Handler.run_keeps (fun d => d.store.frame.scratch = c.store.frame.scratch)
    (fun advances same => (scratch_advance spares advances).trans same)
    (fun same => (scratch_separate spares _).trans same) h rfl

end CallState

namespace Action

variable {constants : Array Value} {instr : Instruction} {s : Store}

/-- The answer of a handler that is taken empties the slot. -/
theorem clears_conclude (constants : Array Value) (instr : Instruction) (answer : Answer)
    (pending : Option Value) : (conclude constants instr answer pending).Clears := by
  cases answer with
  | handled =>
    have last : (do
        releaseOperands instr
        clearScratch
        return .handled : Action Decision).Clears :=
      (spares_releaseOperands instr).clears fun _ => clears_clearScratch _
    cases pending with
    | none => exact last
    | some v =>
      unfold conclude
      dsimp only
      split
      · exact Spares.clears (fun _ => rfl) fun _ => last
      · rename_i used
        refine Spares.clears (spares_storeOperand (fun nothing => used ?_) v) fun _ => last
        rw [nothing]
        rfl
  | declined => exact (spares_dropPending pending).clears fun _ => clears_clearScratch _
  | unsupported reason => exact (spares_dropPending pending).clears fun _ => clears_clearScratch _
  | violated violation =>
    exact (spares_dropPending pending).clears fun _ _ => .inr ⟨⟨_, rfl⟩, rfl⟩

/-- A call that comes to a decision has emptied the slot. One that faults has left it alone,
unless the instruction assigns to nothing. -/
theorem scratch_invoke (handler : Handler) (constants : Array Value) (order : NegationOrder)
    (instr : Instruction) (s : Store) :
    let call := invoke handler constants order instr s
    (∃ decision, call.1 = .ok decision) ∧ call.2.frame.scratch = .null
      ∨ (∃ fault, call.1 = .error fault)
        ∧ (¬instr.AssignsNothing → call.2.frame.scratch = s.frame.scratch) := by
  dsimp only
  cases has : instr.opcode.category? with
  | none =>
    simp only [invoke, has]
    exact .inr ⟨⟨_, rfl⟩, fun _ => rfl⟩
  | some category =>
    cases check : s.checkOperands constants instr category with
    | error fault =>
      rw [invoke_of_fails has check]
      exact .inr ⟨⟨fault, rfl⟩, fun _ => rfl⟩
    | ok _ =>
      have kept : ¬instr.AssignsNothing →
          (handler.run ⟨instr, category, constants, order⟩ ⟨s, none, none⟩).2.store.frame.scratch
            = s.frame.scratch := fun not =>
        CallState.scratch_run (fun nothing => Bool.eq_false_iff.mpr fun assigns =>
          not ⟨nothing, category, has, assigns⟩) handler _
      rw [invoke_of_passes has check]
      generalize handler.run _ _ = ending at kept ⊢
      obtain ⟨_ | reply, c⟩ := ending
      · exact .inr ⟨⟨_, rfl⟩, fun not => by rw [Effect.frame_dropPending, kept not]⟩
      · dsimp only
        split
        · exact .inr ⟨⟨_, rfl⟩, fun not => by rw [Effect.frame_dropPending, kept not]⟩
        · rcases clears_conclude constants instr reply c.pending c.store with clear | ⟨fails, same⟩
          · exact .inl clear
          · exact .inr ⟨fails, fun not => same.trans (kept not)⟩

/-- Writes one to the first operand, and then reports a violation. -/
def spoiling : Handler :=
  .write (.scalar (.int 1)) fun _ => .answer (.violated (.sharedMutation 2))

/-- If an instruction assigns to nothing and its operands pass the check, the slot holds what
the handler has written. -/
theorem scratch_spoiling {category : Category} (nothing : instr.op1 = .unused)
    (has : instr.opcode.category? = some category) (assigns : category.isAssignment = true)
    (passes : s.checkOperands constants instr category = .ok ())
    (clear : s.frame.scratch = .null) (order : NegationOrder) :
    (invoke spoiling constants order instr s).2.frame.scratch = .int 1 := by
  let ctx : CallContext := ⟨instr, category, constants, order⟩
  have shows : s.placeOf .scratch = .slot .scratch := by
    rw [Store.placeOf]
    simp only [Frame.get, Frame.get?, clear, Option.getD_some]
  have opens : CallState.target ctx ⟨s, none, none⟩
      = (.ok (.slot .scratch), ⟨s, none, none⟩) := by
    rw [CallState.target, if_pos assigns]
    dsimp only [ctx]
    rw [nothing, writablePlace, writableSlot, run_bind_ok (run_pure _ _),
      run_bind_ok (run_get _), run_pure, shows]
  have built : CallState.build ctx ⟨s, none, none⟩ (.scalar (.int 1))
      = (.int 1, ⟨s, none, none⟩) := by
    simp only [CallState.build, Draft.build]
    rfl
  rw [invoke_of_passes has passes, spoiling, Handler.run, CallState.write, built]
  dsimp only
  rw [opens]
  rfl

/-- Whatever the handler does, the slot is empty after the call, exactly if the instruction does
not assign to nothing or its operands do not pass the check. -/
theorem scratch_invoke_iff {category : Category} (has : instr.opcode.category? = some category)
    (clear : s.frame.scratch = .null) (order : NegationOrder) :
    (∀ handler, (invoke handler constants order instr s).2.frame.scratch = .null)
      ↔ ¬(instr.AssignsNothing ∧ s.checkOperands constants instr category = .ok ()) := by
  constructor
  · rintro empty ⟨⟨nothing, other, has', assigns⟩, passes⟩
    rw [has] at has'
    cases has'
    have left := scratch_spoiling nothing has assigns passes clear order
    rw [empty spoiling] at left
    cases left
  · intro not handler
    cases check : s.checkOperands constants instr category with
    | error fault =>
      rw [invoke_of_fails has check]
      exact clear
    | ok _ =>
      rcases scratch_invoke handler constants order instr s with ⟨-, empty⟩ | ⟨-, same⟩
      · exact empty
      · exact (same fun nothing => not ⟨nothing, check⟩).trans clear

end Action

/-! ## Built-in instructions -/

namespace Action

open Operator

variable {α β : Type}

/-- If the action opens a cell that is open, it has left the scratch slot alone till then. -/
def Withdraws (act : Action α) : Prop :=
  ∀ s, (act s).1 = .error .reentry → (act s).2.frame.scratch = s.frame.scratch

theorem OpensOnce.withdraws {act : Action α} (once : act.OpensOnce) : act.Withdraws :=
  fun s fails => absurd rfl (once s _ fails)

/-- What leaves the slot alone may come before. -/
theorem Withdraws.after {act : Action α} {next : α → Action β} (once : act.OpensOnce)
    (spares : act.Spares) (second : ∀ a, (next a).Withdraws) : (act >>= next).Withdraws := by
  intro s fails
  have one := once s
  have same := spares s
  rw [run_bind] at fails ⊢
  generalize act s = ending at one same fails ⊢
  obtain ⟨fault | a, t⟩ := ending
  · exact same
  · exact (second a t fails).trans same

/-- What opens no cell twice may come behind. -/
theorem Withdraws.bind {act : Action α} {next : α → Action β} (first : act.Withdraws)
    (second : ∀ a, (next a).OpensOnce) : (act >>= next).Withdraws := by
  intro s fails
  have one := first s
  rw [run_bind] at fails ⊢
  generalize act s = ending at one fails ⊢
  obtain ⟨fault | a, t⟩ := ending
  · cases fails
    exact one rfl
  · exact absurd rfl (second a t _ fails)

theorem withdraws_setFieldAt (place : Place) (key : String) (v : Value) :
    (Builtin.setFieldAt place key v).Withdraws := by
  intro s fails
  rw [Builtin.setFieldAt_eq, Effect.setFieldAt] at fails ⊢
  split at fails
  · rename_i self
    rw [if_pos self]
    rfl
  · dsimp only at fails
    split at fails
    · rename_i id _
      cases set : ((s.separate place).2.heap.setField id key v).1 <;> rw [set] at fails <;>
        cases fails
    · cases fails

theorem withdraws_setField (f : Function) (instr : Instruction) (pc : Nat) :
    (Builtin.setField f instr pc).Withdraws := by
  have seen (o : Operand) : (look f.constants o).Spares :=
    Spares.bind (fun _ => rfl) fun s => Spares.bind
      (fun _ => by cases s.view f.constants o <;> rfl) fun _ _ => rfl
  have opened (v : Value) : (holding v (writablePlace f.constants instr.op1)).Spares := by
    intro s
    rcases writablePlace_cases f.constants instr.op1 s with ⟨cause, eq⟩ | eq
    · rw [run_holding_error eq]
      rfl
    · rw [run_holding_ok eq]
      exact s.scratch_defining f.constants instr.op1
  unfold Builtin.setField
  split
  · split
    · refine .after (.pure _) (fun _ => rfl) fun data => .after .look (seen _) fun v =>
        .after (.of_settles (blames_fieldName v).settles) (fun _ => ?_) fun key =>
          .after .load ((seen _).bind fun _ _ => rfl) fun v =>
            .after (.holding .writablePlace) (opened v) fun place =>
              (withdraws_setFieldAt place key v).bind fun _ =>
                .bind .releaseIfTemporary fun _ => .bind .releaseIfTemporary fun _ => .pure _
      cases Builtin.fieldName v <;> rfl
    · exact fun _ _ => rfl
  · exact fun _ _ => rfl

end Action

/-! ## Steps and runs -/

namespace Machine

variable {m : Machine} {f : Function} {p : Progress}

/-- No handler is called for an instruction of the function that assigns to nothing. -/
def ShieldsScratch (m : Machine) (f : Function) : Prop :=
  ∀ (pc : Nat) (instr : Instruction), f.code[pc]? = some instr →
    (m.table.lookup instr.opcode).isSome → ¬instr.AssignsNothing

theorem shieldsScratch_of_verify (verified : f.verify = .ok ()) : m.ShieldsScratch f :=
  fun _ _ found _ => ((Function.verified_of_verify verified).checked found).not_assignsNothing

/-- A built-in instruction that starts with an empty slot leaves it empty. -/
theorem scratch_builtin (f : Function) (instr : Instruction) (pc : Nat) {s : Store}
    (clear : s.frame.scratch = .null) : (builtin f instr pc s).2.frame.scratch = .null := by
  unfold builtin
  split
  · rename_i t ends
    have withdrawn : (Builtin.execute f instr pc).Withdraws := by
      by_cases is : instr.opcode = .setField
      · unfold Builtin.execute
        rw [is]
        exact Action.withdraws_setField f instr pc
      · exact (Action.OpensOnce.execute is).withdraws
    have same := withdrawn s
    rw [ends] at same
    exact (same rfl).trans clear
  · rfl

/-- So does an instruction with a handler, unless it assigns to nothing and the call faults. -/
theorem scratch_dispatch (m : Machine) (f : Function) (instr : Instruction) {p : Progress}
    (clear : p.store.frame.scratch = .null)
    (settles : ∀ handler fault, m.table.lookup instr.opcode = some handler →
      instr.AssignsNothing → (Action.invoke handler f.constants m.options.negationOrder instr
        p.store).1 ≠ .error fault) :
    (m.dispatch f instr p).2.1.frame.scratch = .null := by
  unfold dispatch
  cases look : m.table.lookup instr.opcode with
  | none => exact scratch_builtin f instr p.pc clear
  | some handler =>
    dsimp only
    have call := Action.scratch_invoke handler f.constants m.options.negationOrder instr p.store
    have faults := fun fault => settles handler fault look
    generalize Action.invoke handler f.constants _ instr p.store = ending at call faults ⊢
    obtain ⟨fault | decision, t⟩ := ending
    · rcases call with ⟨⟨_, is⟩, -⟩ | ⟨-, same⟩
      · cases is
      · exact (same fun nothing => faults fault nothing rfl).trans clear
    · rcases call with ⟨-, empty⟩ | ⟨⟨_, is⟩, -⟩
      · cases decision with
        | handled => exact empty
        | declined => exact scratch_builtin f instr p.pc empty
      · cases is

/-- One step leaves the slot empty, unless it calls a handler for an instruction that assigns to
nothing and the call faults. -/
theorem scratch_step (m : Machine) (f : Function) {p : Progress}
    (clear : p.store.frame.scratch = .null)
    (settles : ∀ instr handler fault, f.code[p.pc]? = some instr →
      m.table.lookup instr.opcode = some handler → instr.AssignsNothing →
        (Action.invoke handler f.constants m.options.negationOrder instr p.store).1
          ≠ .error fault) :
    (m.step f p).Obeys fun _ t => t.frame.scratch = .null := by
  cases found : f.code[p.pc]? with
  | none =>
    rw [Machine.step, found]
    exact clear
  | some instr =>
    have kept := scratch_dispatch m f instr (p := p.counted) clear
      fun handler fault => settles instr handler fault found
    rw [step_eq_proceed found]
    generalize (m.dispatch f instr p.counted).2.1 = t at kept ⊢
    generalize (m.dispatch f instr p.counted).2.2 = statistics
    cases (m.dispatch f instr p.counted).1 with
    | error fault => exact kept
    | ok flow => cases flow <;> exact kept

/-- A run leaves the slot empty if no instruction that assigns to nothing has a handler. -/
theorem scratch_runFor (shields : m.ShieldsScratch f) (n : Nat) {p : Progress}
    (clear : p.store.frame.scratch = .null) :
    (m.runFor f n p).Obeys fun _ t => t.frame.scratch = .null := by
  induction n generalizing p with
  | zero => exact clear
  | succ n ih =>
    have one := scratch_step m f clear fun instr handler _ found look nothing =>
      shields p.pc instr found (by rw [look]; rfl) nothing |>.elim
    rw [runFor]
    cases eq : m.step f p with
    | running q =>
      rw [eq] at one
      exact ih one
    | ended outcome q =>
      rw [eq] at one
      exact one

/-- So does an execution, and with verification on every execution does. -/
theorem scratch_executeIn {s : Store} (clear : s.frame.scratch = .null)
    (shields : m.options.verify = true ∨ m.ShieldsScratch f) :
    (m.executeIn f s).2.2.frame.scratch = .null := by
  cases checks : (if m.options.verify then f.verify else .ok ()) with
  | error defect =>
    rw [executeIn, checks]
    exact clear
  | ok _ =>
    have shielded : m.ShieldsScratch f := by
      rcases shields with on | shields
      · rw [if_pos on] at checks
        exact shieldsScratch_of_verify checks
      · exact shields
    have kept := scratch_runFor shielded (budget m.options.maxInstructions) (p := m.start f s)
      clear
    rw [executeIn_of_passes s checks]
    change (m.run f (m.start f s).store).2.store.frame.scratch = .null
    rw [run]
    change (m.runFor f _ ⟨(m.start f s).store, m.statistics, 0⟩).Obeys _ at kept
    generalize m.runFor f _ _ = ending at kept ⊢
    cases ending with
    | running q => exact kept
    | ended outcome q => exact kept

/-- Starting from an empty scratch slot, every call that comes to a decision leaves it empty, and
every call for an instruction that does not assign to nothing, whatever comes of it. If the
instruction assigns to nothing and its operands pass the check, there is a handler that leaves
something. So a step, whatever its instruction and its outcome, leaves the slot empty unless such
a call faults in it, and so does an execution in which no such call is made, as is every one with
verification on. -/
theorem scratch_outlives_faulting_calls_only {s : Store} (clear : s.frame.scratch = .null) :
    (∀ constants order instr handler,
      let call := Action.invoke handler constants order instr s
      (∃ decision, call.1 = .ok decision) ∨ ¬instr.AssignsNothing →
        call.2.frame.scratch = .null)
    ∧ (∀ constants order instr category, instr.opcode.category? = some category →
      ((∀ handler, (Action.invoke handler constants order instr s).2.frame.scratch = .null)
        ↔ ¬(instr.AssignsNothing ∧ s.checkOperands constants instr category = .ok ())))
    ∧ (∀ (m : Machine) (f : Function) (p : Progress), p.store = s →
      (∀ instr handler fault, f.code[p.pc]? = some instr →
        m.table.lookup instr.opcode = some handler → instr.AssignsNothing →
          (Action.invoke handler f.constants m.options.negationOrder instr s).1 ≠ .error fault) →
        (m.step f p).Obeys fun _ t => t.frame.scratch = .null)
    ∧ ∀ (m : Machine) (f : Function), m.options.verify = true ∨ m.ShieldsScratch f →
      (m.executeIn f s).2.2.frame.scratch = .null := by
  refine ⟨fun constants order instr handler => ?_,
    fun _ order _ _ has => Action.scratch_invoke_iff has clear order, ?_,
    fun m f => scratch_executeIn clear⟩
  · rcases Action.scratch_invoke handler constants order instr s with
      ⟨-, empty⟩ | ⟨⟨fault, fails⟩, same⟩
    · exact fun _ => empty
    · rintro call (⟨decision, ends⟩ | not)
      · rw [fails] at ends
        cases ends
      · exact (same not).trans clear
  · rintro m f p rfl settles
    exact scratch_step m f clear settles

/-- A store in which a variable holds a composite. -/
def lent : Store where
  heap := (Heap.empty.create "P" .empty).2
  frame := { Frame.ofSizes 0 0 with vars := #[.composite ⟨0⟩] }
  notes := #[]

/-- A handler that handles the instruction may write the slot, which is emptied behind it. -/
theorem scratch_outlives_faulting_calls_only_lent :
    lent.frame.scratch = .null
      ∧ (Action.invoke (withholding .handled) #[] .valueFirst discarding lent).1 = .ok .handled
      ∧ (Action.invoke (withholding .handled) #[] .valueFirst discarding lent).2.frame.scratch
        = .null
      ∧ ∀ f, ((Machine.ofTable .standard .empty).executeIn f lent).2.2.frame.scratch = .null :=
  have clear := scratch_outlives_faulting_calls_only (s := lent) rfl
  ⟨rfl, rfl, clear.1 #[] .valueFirst discarding (withholding .handled) (.inl ⟨.handled, rfl⟩),
    fun f => clear.2.2.2 _ f (.inl rfl)⟩

/-- If the handler reports a violation instead, the slot keeps its handle: the composite, which
might be changed in place before the call, counts as shared after it. -/
theorem faulting_call_keeps_a_handle :
    let call := Action.invoke (withholding (.violated (.unusedResult (.compound .add)))) #[]
      .valueFirst discarding lent
    lent.frame.scratch = .null
      ∧ call.1 = .error (.contract (.unusedResult (.compound .add)))
      ∧ call.2.frame.scratch = .composite ⟨0⟩
      ∧ lent.heap.checkMutation ⟨0⟩ = .ok ()
      ∧ call.2.heap.checkMutation ⟨0⟩ = .error (.sharedMutation 2) :=
  ⟨rfl, rfl, rfl, rfl, rfl⟩

end Machine

end OverloadMachine
