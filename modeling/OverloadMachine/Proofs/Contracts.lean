import OverloadMachine.Proofs.CallAccounting
import OverloadMachine.Proofs.Refusals
import OverloadMachine.Proofs.Safety
import OverloadMachine.Proofs.Separation

/-!
# Contracts of handlers

A call has three contracts: a result is set only if one is asked for, an operand is
written only if the instruction assigns, and fields are set under guard only where
the composite has one handle or carries its flag. A handler that meets them at
every step leaves no violation behind. The machine itself sets fields right after
a separation, which leaves the place with a composite that passes the guard. So a
run ends in a violation only if a handler has caused one.
-/

namespace OverloadMachine

/-! ## The guard after a separation -/

/-- The composite under a name is there and may be changed in place: it has one handle or
carries its flag. -/
def Heap.MayChange (h : Heap) (id : CompositeId) : Prop :=
  ∃ c, h.composite? id = some c ∧ c.isMutable = true

namespace Heap

variable {h : Heap} {id : CompositeId}

/-- What may be changed passes the guard. -/
theorem MayChange.checkMutation (may : h.MayChange id) : h.checkMutation id = .ok () := by
  obtain ⟨c, found, can⟩ := may
  rw [Heap.checkMutation, found]
  exact if_pos can

/-- Separation gives its holder a composite that may be changed. -/
theorem mayChange_separateComposite (alive : h.Alive (.composite id)) :
    (h.separateComposite id).2.2.MayChange (h.separateComposite id).1 := by
  obtain ⟨c, found, pos⟩ := alive.composite?
  cases can : c.isMutable with
  | true =>
    rw [separateComposite_of_mutable found can]
    exact ⟨c, found, can⟩
  | false =>
    have made : (h.duplicate c).2.composite? (h.duplicate c).1
        = some ⟨c.className, c.fields, false, 1⟩ := by
      simp [duplicate, create]
    have live : (h.acquireAll c.fields.values).handles? (.composite id)
        = some (c.count + (Node.composite id).uses c.fields.values) := by
      rw [handles?_acquireAll, handles?_of_composite? found, Option.map_some]
    have ne : Node.composite id ≠ .composite (h.duplicate c).1 := Ne.symm (ne_next_of_live live)
    rw [separateComposite_of_shared found can pos]
    refine ⟨⟨c.className, c.fields, false, 1⟩, ?_, rfl⟩
    dsimp only
    rw [composite?_recount, if_neg ne, made]

/-- Separation leaves every cell in the heap. -/
theorem isSome_cell?_separate {v : Value} (alive : h.Alive v) (closed : h.Closed)
    {cell : CellId} (live : (h.cell? cell).isSome) : ((h.separate v).2.2.cell? cell).isSome := by
  cases v with
  | composite id => exact (cell?_separateComposite alive live).1
  | ref inner =>
    cases inside : h.content inner with
    | composite id =>
      have within := closed.alive_content inner
      rw [inside] at within
      have kept := (cell?_separateComposite within live).1
      rw [separate_ref inside]
      dsimp only
      rw [cell?_putContent]
      split
      · rw [Option.isSome_map]
        exact kept
      · exact kept
    | _ =>
      rw [Heap.separate, inside]
      exact live
  | _ => exact live

end Heap

namespace Store

variable {f : Function} {outside : Node → Nat} {held : List Value} {s : Store} {place : Place}
  {slot : Slot}

/-- After a separation the place holds what its holder gets. -/
theorem Owns.peek_separate (owns : s.Owns held outside) (has : s.HasPlace place)
    (alive : s.heap.Alive (s.peek place)) :
    (s.separate place).2.peek place = (s.heap.separate (s.peek place)).1 := by
  have there :
      ({ s with heap := (s.heap.separate (s.peek place)).2.2 } : Store).HasPlace place := by
    cases place with
    | slot p => exact has
    | cell cell => exact Heap.isSome_cell?_separate alive (Heap.Accounts.closed owns) has
  have peek := peek_put there (s.heap.separate (s.peek place)).1 place
  rw [if_pos rfl] at peek
  exact peek

/-- What is in a place is alive. -/
theorem Owns.alive_place (owns : s.Owns held outside) (place : Place) :
    s.heap.Alive (s.peek place) := by
  cases place with
  | slot p => exact owns.alive_get p
  | cell cell => exact owns.alive_content cell

/-- A composite that a place holds after a separation may be changed. -/
theorem Owns.mayChange_separate (owns : s.Owns held outside) (has : s.HasPlace place)
    {id : CompositeId} (there : (s.separate place).2.peek place = .composite id) :
    (s.separate place).2.heap.MayChange id := by
  have alive := owns.alive_place place
  rw [owns.peek_separate has alive] at there
  have composites := Mirrors.composite?_separate s place
  cases held : s.peek place with
  | composite j =>
    rw [held] at alive there composites
    cases there
    obtain ⟨c, found, can⟩ := Heap.mayChange_separateComposite alive
    exact ⟨c, (composites _).trans found, can⟩
  | ref cell =>
    rw [held, Heap.separate] at there
    split at there <;> cases there
  | _ =>
    rw [held] at there
    cases there

/-- A place that holds a composite holds one after a separation. -/
theorem Owns.composite_separate (owns : s.Owns held outside) (has : s.HasPlace place)
    {id : CompositeId} (there : s.peek place = .composite id) :
    ∃ j, (s.separate place).2.peek place = .composite j := by
  rw [owns.peek_separate has (owns.alive_place place), there]
  exact ⟨_, rfl⟩

/-- Separation leaves a slot with its place. -/
theorem placeOf_separate (has : s.frame.Has slot) :
    (s.separate (s.placeOf slot)).2.placeOf slot = s.placeOf slot := by
  cases shows : s.placeOf slot with
  | cell cell => exact shows
  | slot p =>
    obtain ⟨rfl, unbound⟩ := placeOf_eq_slot shows
    refine placeOf_of_ne_ref fun cell eq => ?_
    have now : (s.separate (.slot slot)).2.frame.get slot
        = (s.heap.separate (s.frame.get slot)).1 := Frame.get_put_self has _
    rw [now] at eq
    cases value : s.frame.get slot with
    | ref inner => exact unbound inner value
    | _ =>
      rw [value] at eq
      cases eq

end Store

/-! ## Handlers that meet the contracts -/

/-- Fields that are set under guard find their composite, and it may be changed. -/
def CallState.Passes (ctx : CallContext) (c : CallState) (fields : List (String × Draft)) : Prop :=
  let heap := (Draft.buildEach (ctx.view c.store) c.store.heap fields).2
  let found := CallState.target ctx { c with store := { c.store with heap := heap } }
  ∃ place id, found.1 = .ok place ∧ found.2.store.peek place = .composite id
    ∧ found.2.store.heap.MayChange id

/-- A handler meets the contracts of its call: it sets a result only if one is asked for,
writes only if the instruction assigns, sets fields only under guard and where the
guard lets it, changes nothing else that it is shown, and answers with no violation. -/
def Handler.Meets (ctx : CallContext) : Handler → CallState → Prop
  | .answer reply, _ => ∀ violation, reply ≠ .violated violation
  | .inspect next, c => (next (ctx.view c.store)).Meets ctx c
  | .note line next, c => next.Meets ctx (c.addNote line)
  | .setResult value next, c =>
    ctx.hasResult = true ∧ (next (c.setResult ctx value).1).Meets ctx (c.setResult ctx value).2
  | .write value next, c =>
    ctx.category.isAssignment = true
      ∧ (next (c.write ctx value).1).Meets ctx (c.write ctx value).2
  | .separate next, c =>
    ctx.category.isAssignment = true
      ∧ ∀ result d, c.separate ctx = (some result, d) → (next result).Meets ctx d
  | .setFields guarded fields next, c =>
    ctx.category.isAssignment = true ∧ guarded = true ∧ c.Passes ctx fields
      ∧ (next (c.setFields ctx guarded fields).1).Meets ctx (c.setFields ctx guarded fields).2
  | .setFlag flag next, c =>
    ctx.category.isAssignment = true
      ∧ (next (c.setFlag ctx flag).1).Meets ctx (c.setFlag ctx flag).2
  | .mutate _ _ _, _ => False

namespace CallState

variable {ctx : CallContext} {c : CallState}

/-- A result that is asked for can be set. -/
theorem setResult_of_hasResult (given : ctx.hasResult = true) (draft : Draft) :
    (c.setResult ctx draft).1 = .ok () ∧ (c.setResult ctx draft).2.violation = c.violation := by
  unfold CallState.setResult
  dsimp only
  rw [if_pos given]
  refine ⟨rfl, ?_⟩
  dsimp only
  split <;> rfl

/-- Fields that are made without touching the heap pass the guard if the place to write
holds a composite that may be changed. -/
theorem passes_of_target {fields : List (String × Draft)} {place : Place} {id : CompositeId}
    (made : (Draft.buildEach (ctx.view c.store) c.store.heap fields).2 = c.store.heap)
    (targeted : (c.target ctx).1 = .ok place)
    (there : (c.target ctx).2.store.peek place = .composite id)
    (may : (c.target ctx).2.store.heap.MayChange id) : c.Passes ctx fields := by
  unfold Passes
  rw [made]
  exact ⟨place, id, targeted, there, may⟩

/-- Fields that pass the guard are set, and that is no violation. -/
theorem setFields_of_passes (assigns : ctx.category.isAssignment = true)
    {fields : List (String × Draft)} (passes : c.Passes ctx fields) :
    (c.setFields ctx true fields).1 = .ok ()
      ∧ (c.setFields ctx true fields).2.violation = c.violation := by
  obtain ⟨place, id, targeted, there, may⟩ := passes
  have kept := violation_target (c := { c with store := { c.store with
    heap := (Draft.buildEach (ctx.view c.store) c.store.heap fields).2 } }) assigns
  have guard := may.checkMutation
  unfold CallState.setFields
  dsimp only at targeted there guard kept ⊢
  generalize CallState.target ctx _ = found at targeted there guard kept ⊢
  obtain ⟨result, d⟩ := found
  dsimp only at targeted there guard kept
  subst targeted
  dsimp only
  rw [there]
  dsimp only
  rw [if_pos rfl, Heap.setFields, guard]
  exact ⟨rfl, kept⟩

end CallState

namespace Handler

variable {ctx : CallContext} {h k : Handler} {c d : CallState}

/-- What is left of a handler meets the contracts too. -/
theorem Meets.advance (meets : h.Meets ctx c) (advances : h.advance ctx c = some (k, d)) :
    k.Meets ctx d := by
  cases h with
  | answer reply => cases advances
  | inspect next =>
    cases advances
    exact meets
  | note line next =>
    cases advances
    exact meets
  | setResult value next =>
    cases advances
    exact meets.2
  | write value next =>
    cases advances
    exact meets.2
  | separate next =>
    rw [Handler.advance] at advances
    split at advances
    · rename_i result e eq
      cases advances
      exact meets.2 _ _ eq
    · cases advances
  | setFields guarded fields next =>
    cases advances
    exact meets.2.2.2
  | setFlag flag next =>
    cases advances
    exact meets.2
  | mutate source change next => exact meets.elim

/-- At every step that a handler comes to it meets the contracts. -/
theorem Meets.reaches (meets : h.Meets ctx c) (reaches : Reaches ctx h c k d) : k.Meets ctx d := by
  induction reaches with
  | start => exact meets
  | step _ advances ih => exact ih.advance advances

/-- A handler that meets the contracts leaves no violation behind. -/
theorem Meets.run (meets : h.Meets ctx c) (none : c.violation = none) :
    (h.run ctx c).2.violation = .none
      ∧ ∀ violation, (h.run ctx c).1 ≠ some (.violated violation) := by
  induction h generalizing c with
  | answer reply => exact ⟨none, fun violation eq => meets violation (Option.some.inj eq)⟩
  | inspect next ih => exact ih _ meets none
  | note line next ih => exact ih meets none
  | setResult value next ih =>
    exact ih _ meets.2 ((CallState.setResult_of_hasResult meets.1 value).2.trans none)
  | write value next ih =>
    have kept := (CallState.seeks_write ctx c value).violation_of_assigns meets.1
    exact ih _ meets.2 (kept.trans none)
  | separate next ih =>
    have kept := ((CallState.seeks_separate ctx c).violation_of_assigns meets.1).trans none
    rw [Handler.run]
    split
    · rename_i result d eq
      rw [eq] at kept
      exact ih result (meets.2 result d eq) kept
    · rename_i d eq
      rw [eq] at kept
      exact ⟨kept, fun violation eq => by cases eq⟩
  | setFields guarded fields next ih =>
    obtain ⟨assigns, rfl, passes, later⟩ := meets
    exact ih _ later ((CallState.setFields_of_passes assigns passes).2.trans none)
  | setFlag flag next ih =>
    have kept := (CallState.seeks_setFlag ctx c flag).violation_of_assigns meets.1
    exact ih _ meets.2 (kept.trans none)
  | mutate source change next => exact meets.elim

end Handler

/-! ## Instructions that leave no violation behind -/

/-- Faults at a contract. -/
def Fault.IsOfContract : Fault → Prop
  | .contract _ => True
  | _ => False

/-- What values are to blame for breaks no contract. -/
theorem Fault.IsOfValues.not_isOfContract {fault : Fault} (ofValues : fault.IsOfValues) :
    ¬fault.IsOfContract := by
  intro ofContract
  cases fault with
  | contract violation => exact ofValues
  | _ => exact ofContract

namespace Operator

/-- A computation does not fault at a contract. -/
abbrev Honors {α : Type} (result : Except Fault α) : Prop :=
  Faults (fun fault => ¬fault.IsOfContract) result

end Operator

namespace Effect

open Operator

variable {f : Function} {instr : Instruction} {pc : Nat} {outside : Node → Nat}
  {held : List Value} {s : Store}

/-- A field is set in a place only after a separation, so the guard lets it. -/
theorem honors_setFieldAt {place : Place} {v : Value} (key : String)
    (acc : s.Accounted f outside held) (has : s.HasPlace place) :
    Honors (setFieldAt place key v s).1 := by
  unfold setFieldAt
  split
  · exact faults_error not_false
  · dsimp only
    split
    · rename_i id there
      have guard := (acc.owns.mayChange_separate has there).checkMutation
      rw [Heap.setField, Heap.setFields, guard]
      exact faults_ok _
    · exact faults_error not_false

/-- A built-in instruction breaks no contract. -/
theorem honors_of (verified : f.Verified) (found : f.code[pc]? = some instr)
    (acc : s.Accounted f outside []) : Honors (Effect.of f instr pc s).1 := by
  refine faults_of (fun _ => Fault.IsOfValues.not_isOfContract) (fun _ => ?_) (fun _ key => ?_)
    (fun _ _ => not_false) (fun _ => not_false)
  · unfold newComposite
    split
    · exact faults_ok _
    · exact faults_error not_false
  · have checked := verified.checked found
    have loaded := acc.acquire (acc.alive_shown (f.code[pc + 1]?.getD instr).op1)
    have has := loaded.hasPlace_defining checked.op1 instr.op1
    have honors := honors_setFieldAt (v := s.shown f.constants (f.code[pc + 1]?.getD instr).op1)
      key (loaded.defining instr.op1) has
    rwa [Store.target, Store.placeOf_acquire, ← Store.target] at honors

/-- The end of the run of a handler that meets the contracts breaks none. -/
theorem honors_settle (constants : Array Value) (instr : Instruction)
    {ending : Option Answer × CallState} (none : ending.2.violation = none)
    (answers : ∀ violation, ending.1 ≠ some (.violated violation)) :
    Honors (settle constants instr ending).1 := by
  obtain ⟨answer, c⟩ := ending
  dsimp only at none answers
  unfold settle
  dsimp only
  rw [none]
  cases answer with
  | none => exact faults_error not_false
  | some reply =>
    cases reply with
    | violated violation => exact absurd rfl (answers violation)
    | _ => exact faults_ok _

end Effect

/-- Every handler of a machine meets the contracts wherever an instruction of the function
may call it. -/
def Machine.MeetsContracts (m : Machine) (f : Function) (outside : Node → Nat) : Prop :=
  ∀ ⦃pc : Nat⦄ ⦃instr handler category⦄ ⦃s : Store⦄, f.code[pc]? = some instr →
    m.table.lookup instr.opcode = some handler → instr.opcode.category? = some category →
    s.Accounted f outside [] →
    handler.Meets ⟨instr, category, f.constants, m.options.negationOrder⟩ ⟨s, none, none⟩

/-- What the guards of field writes find at the position of a run: a composite that SET_FIELD
finds in its place after the separation, with the value to be stored in hand, may be
changed, and a handler that comes to set fields sets them under guard, and the guard
lets it. -/
structure Machine.GuardsAt (m : Machine) (f : Function) (p : Progress) (instr : Instruction) :
    Prop where
  found : f.code[p.pc]? = some instr
  setField : instr.opcode = .setField → ∃ data v loaded place t,
    f.code[p.pc + 1]? = some data
      ∧ Action.load f.constants data.op1 p.store = (.ok v, loaded)
      ∧ Action.writablePlace f.constants instr.op1 loaded = (.ok place, t)
      ∧ ∀ id, (t.separate place).2.peek place = .composite id →
        (t.separate place).2.heap.MayChange id
  calls : ∀ {handler category guarded fields next c}, m.table.lookup instr.opcode = some handler →
    instr.opcode.category? = some category →
    Handler.Reaches ⟨instr, category, f.constants, m.options.negationOrder⟩ handler
      ⟨p.store, none, none⟩ (.setFields guarded fields next) c →
    guarded = true
      ∧ c.Passes ⟨instr, category, f.constants, m.options.negationOrder⟩ fields

namespace Machine

open Operator

variable {m : Machine} {f : Function} {outside : Node → Nat} {s : Store}

/-- An instruction breaks no contract if the handlers break none. -/
theorem honors_dispatch (verified : f.Verified) (meets : m.MeetsContracts f outside) {pc : Nat}
    {instr : Instruction} (found : f.code[pc]? = some instr) (acc : s.Accounted f outside []) :
    Honors (Effect.dispatch m f instr pc s).1 := by
  unfold Effect.dispatch
  split
  · rename_i handler category look has
    have checked := verified.checked found
    have call : CallContext.Of f pc ⟨instr, category, f.constants, m.options.negationOrder⟩ :=
      ⟨checked, has, rfl⟩
    have start : CallState.Accounted ⟨s, none, none⟩ f outside := acc
    have settled := Effect.settle_accounted checked (start.run call handler)
    obtain ⟨none, answers⟩ := (meets found look has acc).run rfl
    have honors := Effect.honors_settle f.constants instr none answers
    unfold Effect.calling
    generalize Effect.settle f.constants instr _ = ending at settled honors ⊢
    obtain ⟨result, t⟩ := ending
    cases result with
    | error fault => exact faults_error (honors fault rfl)
    | ok decision =>
      cases decision with
      | handled => exact faults_ok _
      | declined =>
        rw [Effect.deciding, Effect.fst_finishing]
        exact Effect.honors_of verified found settled
  · rw [Effect.fst_finishing]
    exact Effect.honors_of verified found acc

/-- The guards of field writes are passed at every position of a run. -/
theorem guardsAt (verified : f.Verified) (meets : m.MeetsContracts f outside) {p : Progress}
    {instr : Instruction} (found : f.code[p.pc]? = some instr)
    (acc : p.store.Accounted f outside []) : m.GuardsAt f p instr where
  found := found
  setField is := by
    have checked := verified.checked found
    obtain ⟨target, data, behind, -⟩ := checked.setField is
    have loaded := acc.acquire (acc.alive_shown data.op1)
    have has := loaded.hasPlace_defining checked.op1 instr.op1
    have owns := (loaded.defining instr.op1).owns
    exact ⟨data, _, _, _, _, behind, Action.load_eq (verified.checked behind).op1 acc.fits,
      Action.writablePlace_eq checked.op1 (Operand.isLiteral_of_isVariable target) loaded.fits,
      fun id there => owns.mayChange_separate has there⟩
  calls look has reaches := by
    obtain ⟨-, guarded, passes, -⟩ := (meets found look has acc).reaches reaches
    exact ⟨guarded, passes⟩

/-- No fault but one of a contract is reported as a violation. -/
theorem outcomeOf_ne_contract (options : Options) {fault : Fault} (clean : ¬fault.IsOfContract)
    (violation : Violation) : outcomeOf options fault ≠ .failed (.contract violation)
      ∧ outcomeOf options fault ≠ .aborted (.contract violation) := by
  cases fault with
  | contract => exact absurd trivial clean
  | _ => simp [outcomeOf]

/-- A step ends a run in no violation. -/
theorem step_honors (verified : f.Verified) (meets : m.MeetsContracts f outside)
    {p q : Progress} {outcome : Outcome} (acc : p.store.Accounted f outside [])
    (ended : m.step f p = .ended outcome q) (violation : Violation) :
    outcome ≠ .failed (.contract violation) ∧ outcome ≠ .aborted (.contract violation) := by
  cases found : f.code[p.pc]? with
  | none =>
    rw [step, found] at ended
    cases ended
    simp
  | some instr =>
    obtain ⟨statistics, -, eq⟩ := step_eq (m := m) verified found acc.fits
    have honors := honors_dispatch verified meets found acc
    rw [eq] at ended
    generalize Effect.dispatch m f instr p.pc p.store = ending at honors ended
    obtain ⟨result, t⟩ := ending
    cases result with
    | error fault =>
      have clean := honors fault rfl
      cases ended
      exact outcomeOf_ne_contract m.options clean violation
    | ok flow =>
      cases flow <;> cases ended
      simp

/-- Handlers that meet the contracts let no run end in a violation, and the guards of
field writes are passed after any number of instructions. -/
theorem no_violation_of_meetsContracts (verified : f.verify = .ok ()) (owns : s.Owns [] outside)
    (constants : ∀ node : Node, node.uses f.constants.toList ≤ outside node)
    (meets : m.MeetsContracts f outside) :
    (∀ violation, (m.executeIn f s).1 ≠ .failed (.contract violation)
        ∧ (m.executeIn f s).1 ≠ .aborted (.contract violation))
      ∧ ∀ n p, m.runFor f n (m.start f s) = .running p → ∃ instr, m.GuardsAt f p instr := by
  have order := Function.verified_of_verify verified
  have accounted : ∀ n p, m.runFor f n (m.start f s) = .running p →
      p.store.Accounted f outside [] := by
    intro n p running
    have kept := (m.keeps_accounts order outside).runFor order (fun acc => acc.fits) n
      (m.accounted_start owns constants)
    rw [running] at kept
    exact kept
  refine ⟨fun violation => ?_, fun n p running => ?_⟩
  · rw [executeIn_eq m verified]
    split
    · rename_i outcome q ended
      obtain ⟨k, r, runs, last⟩ := ended_at ended
      exact step_honors order meets (accounted k r runs) last violation
    · unfold cutShort exhausted
      split
      · exact ⟨nofun, nofun⟩
      · split <;> exact ⟨nofun, nofun⟩
  · have there := safe_runFor m order n (p := m.start f s) order.nonempty (s.frame.fits_prepare f)
    rw [running] at there
    exact ⟨_, guardsAt order meets (Array.getElem?_eq_getElem there.1) (accounted n p running)⟩

end Machine

end OverloadMachine
