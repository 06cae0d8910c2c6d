import OverloadMachine.Proofs.CallEndings

/-!
# Cells that are open

A cell that holds a reference to itself is open while its content is separated, and is then
opened again, which takes the process down. Of the built-in instructions only the setting of a
field separates what it writes to: no other opens a cell that is open.
-/

namespace OverloadMachine

namespace Action

open Operator

variable {α β : Type}

/-- The action does not open a cell that is open. -/
def OpensOnce (act : Action α) : Prop := ∀ s, Faults (· ≠ .reentry) (act s).1

namespace OpensOnce

theorem pure (a : α) : (pure a : Action α).OpensOnce := fun _ => faults_ok a

theorem get : (get : Action Store).OpensOnce := fun s => faults_ok s

theorem modify (g : Store → Store) : (modify g : Action PUnit).OpensOnce :=
  fun _ => faults_ok PUnit.unit

theorem set (t : Store) : (set t : Action PUnit).OpensOnce := fun _ => faults_ok PUnit.unit

theorem codeFault (cause : CodeFault) : (codeFault cause : Action α).OpensOnce :=
  fun _ => faults_error nofun

theorem bind {act : Action α} {next : α → Action β} (first : act.OpensOnce)
    (second : ∀ a, (next a).OpensOnce) : (act >>= next).OpensOnce := by
  intro s
  have one := first s
  rw [run_bind]
  generalize act s = ending at one ⊢
  obtain ⟨fault | a, t⟩ := ending
  · exact faults_error (one fault rfl)
  · exact second a t

theorem ite {c : Prop} [Decidable c] {one other : Action α} (first : one.OpensOnce)
    (second : other.OpensOnce) : (if c then one else other).OpensOnce := by
  split
  · exact first
  · exact second

theorem holding {v : Value} {act : Action α} (once : act.OpensOnce) :
    (holding v act).OpensOnce := by
  intro s
  cases runs : act s with
  | mk result t =>
    have one := once s
    rw [runs] at one
    cases result with
    | ok a =>
      rw [run_holding_ok runs]
      exact one
    | error fault =>
      rw [run_holding_error runs]
      exact faults_error (one fault rfl)

theorem attempt {result : Except Fault α} (faults : Faults (· ≠ .reentry) result) :
    (attempt result).OpensOnce := by
  intro s
  cases result with
  | ok a => exact faults_ok a
  | error fault => exact faults_error (faults fault rfl)

/-- What values are to blame for is not the opening of a cell. -/
theorem of_settles {result : Except Fault α} (settles : Settles result) :
    (Action.attempt result).OpensOnce :=
  attempt fun _ eq => settles.ne_reentry eq

variable {constants : Array Value} {o : Operand} {instr : Instruction} {v : Value}

theorem faults_variableName (i : Nat) : Faults (· ≠ .reentry) (variableName constants i) := by
  unfold variableName
  split
  · exact faults_ok _
  · exact faults_error nofun

theorem faults_resolve (s : Store) : Faults (· ≠ .reentry) (s.resolve constants o) := by
  cases o with
  | unused => exact faults_ok _
  | dynamic i => exact faults_bind (faults_variableName i) fun _ => faults_ok _
  | _ =>
    unfold Store.resolve
    dsimp only
    split
    · exact faults_ok _
    · exact faults_error nofun

theorem look : (look constants o).OpensOnce := by
  refine bind get fun s => bind (attempt ?_) fun _ => pure _
  have resolves : Faults (· ≠ .reentry) (s.resolve constants o) := faults_resolve s
  unfold Store.view
  cases found : s.resolve constants o with
  | ok v => exact faults_ok _
  | error fault => exact faults_error (resolves fault found)

theorem load : (load constants o).OpensOnce :=
  bind look fun _ => bind (modify _) fun _ => pure _

theorem writableSlot : (writableSlot constants o).OpensOnce := by
  cases o with
  | unused => exact pure _
  | const i => exact codeFault _
  | dynamic i =>
    exact bind (attempt (faults_variableName i)) fun _ => bind (modify _) fun _ => pure _
  | temp i => exact bind get fun _ => ite (pure _) (codeFault _)
  | var i => exact bind get fun _ => ite (pure _) (codeFault _)

theorem writablePlace : (writablePlace constants o).OpensOnce :=
  bind writableSlot fun _ => bind get fun _ => pure _

theorem storeOperand : (storeOperand constants o v).OpensOnce :=
  bind (holding writablePlace) fun _ => modify _

theorem releaseTemporary (i : Nat) : (releaseTemporary i).OpensOnce :=
  bind (bind get fun _ => ite (pure _) (codeFault _)) fun _ => modify _

theorem releaseIfTemporary : (releaseIfTemporary o).OpensOnce := by
  cases o with
  | temp i => exact releaseTemporary i
  | _ => exact pure _

theorem releaseOperands : (releaseOperands instr).OpensOnce := by
  have second : (if instr.op2 ≠ instr.result then Action.releaseIfTemporary instr.op2
      else Pure.pure ()).OpensOnce := ite releaseIfTemporary (pure _)
  exact ite (bind releaseIfTemporary fun _ => second) second

theorem storeResult : (Builtin.storeResult constants o v).OpensOnce :=
  ite (pure _) (bind (modify _) fun _ => storeOperand)

theorem update {g : Heap → Value → Except Fault Value} (settles : ∀ h v, Settles (g h v)) :
    (Builtin.update constants o g).OpensOnce :=
  bind writablePlace fun _ => bind get fun _ => bind (of_settles (settles _ _)) fun _ =>
    bind (set _) fun _ => pure _

theorem binary {g : Heap → Value → Value → Except Fault Value}
    (settles : ∀ h a b, Settles (g h a b)) : (Builtin.binary constants instr g).OpensOnce :=
  bind look fun _ => bind look fun _ => bind get fun _ =>
    bind (of_settles (settles _ _ _)) fun _ =>
      bind releaseOperands fun _ => bind storeOperand fun _ => pure _

theorem bindSlot (slot : Slot) : (Builtin.bindSlot slot).OpensOnce := by
  refine bind get fun s => ?_
  split
  · exact bind (modify _) fun _ => pure _
  · exact bind (set _) fun _ => pure _

theorem step (time : StepTime) (direction : StepDirection) :
    (Builtin.step constants instr time direction).OpensOnce := by
  refine bind (update fun _ _ => (blames_step time direction _).settles) fun (previous, next) => ?_
  cases time with
  | pre => exact bind (modify _) fun _ => bind storeResult fun _ => pure _
  | post => exact bind storeOperand fun _ => pure _

theorem free : (Builtin.free instr).OpensOnce := by
  unfold Builtin.free
  split
  · exact bind (releaseTemporary _) fun _ => pure _
  · exact bind (codeFault _) fun _ => pure _

theorem newComposite : (Builtin.newComposite constants instr).OpensOnce := by
  refine bind get fun s => bind (attempt (faults_resolve s)) fun v => ?_
  split
  · exact bind (set _) fun _ => bind storeOperand fun _ => pure _
  · exact fun _ => faults_error nofun

theorem getField : (Builtin.getField constants instr).OpensOnce := by
  refine bind look fun v => bind (of_settles (blames_fieldName v).settles) fun key =>
    bind look fun w => ?_
  split
  · exact bind get fun _ => bind (modify _) fun _ =>
      bind (holding (bind releaseIfTemporary fun _ => releaseIfTemporary)) fun _ =>
        bind storeOperand fun _ => pure _
  · exact fun _ => faults_error fun same => by cases same

/-- Only the write of a field can open a cell twice. -/
theorem execute {f : Function} {pc : Nat} (other : instr.opcode ≠ .setField) :
    (Builtin.execute f instr pc).OpensOnce := by
  unfold Builtin.execute
  split
  · exact pure _
  · exact bind load fun _ => bind (holding (bind releaseOperands fun _ => storeResult)) fun _ =>
      bind storeOperand fun _ => pure _
  · exact bind writableSlot fun _ => bind (bindSlot _) fun _ => bind (holding writableSlot) fun _ =>
      bind (modify _) fun _ => pure _
  · exact newComposite
  · rename_i is
    exact absurd is other
  · exact codeFault _
  · exact getField
  · exact free
  · exact pure _
  · exact bind look fun _ => bind get fun _ => bind (of_settles (settles_ending _)) fun _ =>
      bind releaseIfTemporary fun _ => pure _
  · exact bind load fun _ => bind (holding releaseIfTemporary) fun _ => pure _
  · exact binary fun h a b => (blames_arithmetic h _ a b).settles
  · exact binary settles_boolXor
  · exact binary fun _ _ _ => settles_ending _
  · exact bind load fun _ =>
      bind (holding (bind (update fun h a => (blames_arithmetic h _ a _).settles) fun _ =>
        bind (modify _) fun _ => bind releaseOperands fun _ => storeResult)) fun _ =>
      bind (modify _) fun _ => pure _
  · exact bind look fun _ => bind get fun _ => bind (of_settles (settles_unary _ _ _)) fun _ =>
      bind releaseOperands fun _ => bind storeOperand fun _ => pure _
  · exact step _ _

end OpensOnce

end Action

end OverloadMachine
