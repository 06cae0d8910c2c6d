import OverloadMachine.Proofs.Safety
import OverloadMachine.Proofs.Separation
import OverloadMachine.Proofs.Transparency

/-!
# Sharing is copying

Without handlers and without identity, the machine that shares composites and copies
them when they are written cannot be told from the machine that copies always. Each
instruction takes a store that mirrors a tree store to one that mirrors what the
copying instruction makes of it, and faults where that does, so the two machines
run in step. Floats that are no numbers are kept out of fields, since a composite
with one in it is equal to itself and different from its copy.
-/

namespace OverloadMachine

/-- What values are to blame for ends a run without taking the process down. -/
theorem Fault.IsOfOperands.fails {fault : Fault} (blamed : fault.IsOfOperands)
    (options : Options) : Machine.outcomeOf options fault = .failed fault := by
  unfold Fault.IsOfOperands at blamed
  split at blamed <;> first | rfl | cases blamed

namespace Slot

/-- The scratch slot is not that of a variable. -/
theorem ne_scratch {slot : Slot} (isVar : slot.isVariable = true) : slot ≠ .scratch := by
  intro eq
  rw [eq] at isVar
  cases isVar

end Slot

namespace Effect

open Operator

variable {f : Function} {outside : Node → Nat} {literals : Array Tree} {instr : Instruction}
  {pc : Nat} {s : Store} {T : TreeStore}

/-! ## Instructions -/

/-- An instruction ends as the one that copies does: control goes to the same place, the
value that ends the run unfolds into the tree that does, faults are the same and end
the run as failed, and the store mirrors the tree store. -/
inductive Mirrors (f : Function) (outside : Node → Nat) (literals : Array Tree) :
    Except Fault Flow × Store → Except Fault Copying.Flow × TreeStore → Prop
  | next {s : Store} {T : TreeStore} (mirrors : s.Mirrors f outside literals [] T) :
    Mirrors f outside literals (.ok .next, s) (.ok .next, T)
  | jump {pc : Nat} {s : Store} {T : TreeStore} (mirrors : s.Mirrors f outside literals [] T) :
    Mirrors f outside literals (.ok (.jump pc), s) (.ok (.jump pc), T)
  | finish {v : Value} {t : Tree} {s : Store} {T : TreeStore}
    (mirrors : s.Mirrors f outside literals [(v, t)] T) :
    Mirrors f outside literals (.ok (.finish v), s) (.ok (.finish t), T)
  | fault {fault : Fault} {s : Store} {T : TreeStore}
    (fails : ∀ options, Machine.outcomeOf options fault = .failed fault)
    (mirrors : s.Mirrors f outside literals [] T) :
    Mirrors f outside literals (.error fault, s) (.error fault, T)

theorem mirrors_assign (checked : instr.Checked f pc)
    (mirrors : s.Mirrors f outside literals [] T) :
    Mirrors f outside literals (assign f.constants instr s)
      (.ok .next, Copying.assign f.constants literals instr T) := by
  have loaded := mirrors.acquire (mirrors.read checked.op2) (mirrors.accounted.alive_shown _)
  have vacated := loaded.vacateRead checked.op1 checked.op2
  have holds := vacated.held _ List.mem_cons_self
  have alive := vacated.accounted.alive_held List.mem_cons_self
  exact .next ((vacated.yield checked.result holds alive).assign checked.op1)

theorem mirrors_assignRef (checked : instr.Checked f pc) (is : instr.opcode = .assignRef)
    (mirrors : s.Mirrors f outside literals [] T) :
    Mirrors f outside literals (assignRef f.constants instr s)
      (.ok .next, T.bind (instr.op1.slot f.constants) (instr.op2.slot f.constants)) := by
  obtain ⟨target, source⟩ := checked.assignRef is
  have defined := mirrors.defining instr.op2
  obtain ⟨shows, bound⟩ := defined.bound (checked.op2.has_slot defined.accounted.fits)
    (checked.op2.isVariable_slot source)
  have again := bound.defining instr.op1
  rw [← Store.placeOf_defining _ f.constants instr.op1] at shows
  exact .next (again.rebind mirrors.accounted.constants shows
    (checked.op1.has_slot again.accounted.fits) (checked.op1.isVariable_slot target))

theorem mirrors_compound {op : ArithmeticOp} (checked : instr.Checked f pc)
    (is : instr.opcode = .compound op) (mirrors : s.Mirrors f outside literals [] T) :
    Mirrors f outside literals (compound f.constants instr op s)
      (Copying.compound f.constants literals instr T op) := by
  have has : instr.opcode.category? = some .binaryAssign := by rw [is]; rfl
  have assigned := (checked.operator has).assigned rfl
  have loaded := mirrors.acquire (mirrors.read checked.op2) (mirrors.accounted.alive_shown _)
  have right := loaded.held _ List.mem_cons_self
  have left := loaded.read checked.op1
  have same := left.arithmetic right op
  rw [← Store.peek_target assigned] at same
  unfold compound Copying.compound
  dsimp only at same ⊢
  rw [same]
  cases made : Operator.arithmetic .empty op (T.read f.constants literals instr.op1).surface
      (T.read f.constants literals instr.op2).surface with
  | error fault =>
    exact .fault (blames_arithmetic _ op _ _ fault made).fails (loaded.defining instr.op1).release
  | ok v =>
    have scalar := node?_arithmetic made
    have stored := (loaded.scalar scalar).assign checked.op1
    have vacated := stored.vacateRead checked.op1 checked.op2
    exact .next (vacated.yield checked.result (Heap.holds_ofValue _ scalar)
      (Heap.alive_of_node?_eq_none _ scalar)).release

theorem mirrors_step {time : StepTime} {direction : StepDirection} (checked : instr.Checked f pc)
    (is : instr.opcode = .step time direction) (mirrors : s.Mirrors f outside literals [] T) :
    Mirrors f outside literals (step f.constants instr time direction s)
      (Copying.step f.constants literals instr T time direction) := by
  have assigned : instr.op1.isVariable = true := by
    cases time with
    | pre =>
      have has : instr.opcode.category? = some .unaryAssignPre := by rw [is]; rfl
      exact (checked.operator has).assigned rfl
    | post =>
      have has : instr.opcode.category? = some .unaryAssignPost := by rw [is]; rfl
      exact (checked.operator has).assigned rfl
  have holds := mirrors.read checked.op1
  rw [← Store.peek_target assigned] at holds
  have same := holds.step time direction
  unfold step Copying.step
  dsimp only
  rw [same]
  cases made : Operator.step time direction (T.read f.constants literals instr.op1).surface with
  | error fault =>
    exact .fault (blames_step time direction _ fault made).fails (mirrors.defining instr.op1)
  | ok v =>
    have scalar := node?_step made
    cases time with
    | pre =>
      have stored := (mirrors.scalar scalar).assign checked.op1
      exact .next (stored.yield checked.result (Heap.holds_ofValue _ scalar)
        (Heap.alive_of_node?_eq_none _ scalar))
    | post =>
      -- The value before is a scalar, so no handle is given up where it was.
      have before := scalar_of_step (same.trans made)
      have stored := (mirrors.scalar scalar).assign checked.op1
      rw [Store.assign_eq, Store.release_of_scalar _ before] at stored
      have result := (stored.scalar before).assign_result checked.result
      rw [← holds.eq_ofValue before] at result
      exact .next result

/-- An operator whose operands are emptied before its result is stored. -/
theorem mirrors_operate {made : Except Fault Value} {ending : Except Fault Flow × Store}
    (ends : ending = match made with
      | .error fault => (.error fault, s)
      | .ok v => (.ok .next, (s.vacateRead instr).assign f.constants instr.result v))
    (checked : instr.Checked f pc) (mirrors : s.Mirrors f outside literals [] T)
    (blames : Blames made) (scalar : ∀ {v}, made = .ok v → v.node? = none) :
    Mirrors f outside literals ending (Copying.operate f.constants instr T made) := by
  unfold Copying.operate Copying.making
  rw [ends]
  cases made with
  | error fault => exact .fault (blames fault rfl).fails mirrors
  | ok v =>
    have vacated := mirrors.vacateRead checked.op1 checked.op2
    exact .next ((vacated.scalar (scalar rfl)).assign_result checked.result)

theorem mirrors_newComposite (checked : instr.Checked f pc) (is : instr.opcode = .newComposite)
    (mirrors : s.Mirrors f outside literals [] T) :
    Mirrors f outside literals (newComposite f.constants instr s)
      (Copying.newComposite f.constants literals instr T) := by
  obtain ⟨⟨i, name, first, text⟩, -⟩ := checked.newComposite is
  have held : s.held f.constants instr.op1 = .str name := by
    rw [first, Store.held, text, Option.getD_some]
  have shown : s.shown f.constants instr.op1 = .str name := by rw [Store.shown, held]; rfl
  have holds := mirrors.read checked.op1
  rw [shown] at holds
  have surface : (T.read f.constants literals instr.op1).surface = .str name := by
    rw [holds.eq_ofValue rfl]
    rfl
  unfold newComposite Copying.newComposite
  rw [held, surface]
  exact .next ((mirrors.create name).assign_result checked.result)

theorem mirrors_setField {data : Instruction} (checked : instr.Checked f pc)
    (is : instr.opcode = .setField) (operand : data.op1.Within f)
    (mirrors : s.Mirrors f outside literals [] T) :
    Mirrors f outside literals (setField f.constants instr data pc s)
      (Copying.setField f.constants literals instr T data pc) := by
  have target := (checked.setField is).1
  have ne := Slot.ne_scratch (checked.op1.isVariable_slot target)
  have name := (mirrors.read checked.op2).fieldName
  have loaded := (mirrors.acquire (mirrors.read operand)
    (mirrors.accounted.alive_shown data.op1)).defining instr.op1
  have has := checked.op1.has_slot loaded.accounted.fits
  have place : ((s.acquire (s.shown f.constants data.op1)).defining f.constants
      instr.op1).placeOf (instr.op1.slot f.constants) = s.target f.constants instr.op1 := by
    rw [Store.placeOf_defining, Store.placeOf_acquire]
    rfl
  have read : T.read f.constants literals instr.op1 = T.value (instr.op1.slot f.constants) := by
    cases op1 : instr.op1 <;> first | rfl | (rw [op1] at target; cases target)
  unfold setField Copying.setField
  rw [name]
  cases named : Builtin.fieldName (T.read f.constants literals instr.op2).surface with
  | error fault => exact .fault (blames_fieldName _ fault named).fails mirrors
  | ok key =>
    dsimp only
    cases tree : T.read f.constants literals instr.op1 with
    | leaf w scalar =>
      rw [read] at tree
      obtain ⟨s', ends, after⟩ := loaded.setFieldAt_leaf key has ne tree
      rw [place] at ends
      rw [ends]
      exact .fault (fun _ => rfl) after
    | node className fields =>
      rw [read] at tree
      obtain ⟨s', ends, after⟩ := loaded.setFieldAt_node key has ne tree
      rw [place] at ends
      rw [ends]
      exact .jump ((after.vacate checked.op2).vacate operand)

theorem mirrors_getField (checked : instr.Checked f pc)
    (mirrors : s.Mirrors f outside literals [] T) :
    Mirrors f outside literals (getField f.constants instr s)
      (Copying.getField f.constants literals instr T) := by
  have name := (mirrors.read checked.op2).fieldName
  have holds := mirrors.read checked.op1
  unfold getField Copying.getField
  rw [name]
  cases named : Builtin.fieldName (T.read f.constants literals instr.op2).surface with
  | error fault => exact .fault (blames_fieldName _ fault named).fails mirrors
  | ok key =>
    dsimp only
    generalize T.read f.constants literals instr.op1 = t at holds ⊢
    cases t with
    | leaf w scalar =>
      have shown : s.shown f.constants instr.op1 = w := holds
      rw [shown]
      cases w <;> first | exact .fault (fun _ => rfl) mirrors | cases scalar
    | node className fields =>
      obtain ⟨id, c, shown, found, rfl, each⟩ := holds
      rw [shown]
      have field : s.heap.field? id key = OrderedMap.lookup key c.fields.entries := by
        rw [Heap.field?, found]
        rfl
      have holds := each.lookup key
      have alive := (Heap.Accounts.closed mirrors.accounted.owns).alive_field id key
      rw [← field] at holds
      have vacated := ((mirrors.acquire holds alive).vacate checked.op1).vacate checked.op2
      exact .next (vacated.assign_result checked.result)

/-- An operator that reads two operands. -/
theorem mirrors_binary {g : Heap → Value → Value → Except Fault Value}
    {made : Except Fault Value} (checked : instr.Checked f pc)
    (mirrors : s.Mirrors f outside literals [] T)
    (same : g s.heap (s.shown f.constants instr.op1) (s.shown f.constants instr.op2) = made)
    (blames : Blames made) (scalar : ∀ {v}, made = .ok v → v.node? = none) :
    Mirrors f outside literals (binary f.constants instr g s)
      (Copying.operate f.constants instr T made) := by
  unfold binary
  rw [same]
  exact mirrors_operate rfl checked mirrors blames scalar

/-- Every instruction of a verified function ends as the one that copies does, if it does
not ask for identity and no field holds a float that is no number. -/
theorem mirrors_of (verified : f.Verified) (found : f.code[pc]? = some instr)
    (loose : instr.opcode ≠ .comparison .identical ∧ instr.opcode ≠ .comparison .notIdentical)
    (numbers : s.heap.NaNFree) (mirrors : s.Mirrors f outside literals [] T) :
    Mirrors f outside literals (Effect.of f instr pc s) (Copying.of f literals instr pc T) := by
  have checked := verified.checked found
  have left := mirrors.read checked.op1
  have right := mirrors.read checked.op2
  unfold Effect.of Copying.of
  cases is : instr.opcode with
  | nop => exact .next mirrors
  | assign => exact mirrors_assign checked mirrors
  | assignRef => exact mirrors_assignRef checked is mirrors
  | newComposite => exact mirrors_newComposite checked is mirrors
  | setField =>
    obtain ⟨-, data, behind, -⟩ := checked.setField is
    dsimp only
    rw [behind, Option.getD_some]
    exact mirrors_setField checked is (verified.checked behind).op1 mirrors
  | opData => exact .fault (fun _ => rfl) mirrors
  | getField => exact mirrors_getField checked mirrors
  | free => exact .next (mirrors.vacate checked.op1)
  | jmp => exact .jump mirrors
  | jmpIfFalse =>
    have vacated := mirrors.vacate checked.op1
    dsimp only [jumpIfFalse]
    rw [left.truth?]
    cases (T.read f.constants literals instr.op1).isTruthy with
    | true => exact .next vacated
    | false => exact .jump vacated
  | ret =>
    have loaded := mirrors.acquire left (mirrors.accounted.alive_shown instr.op1)
    exact .finish (loaded.vacate checked.op1)
  | arithmetic op =>
    exact mirrors_binary checked mirrors (left.arithmetic right op) (blames_arithmetic _ op _ _)
      node?_arithmetic
  | boolXor =>
    refine mirrors_binary checked mirrors (left.boolXor right) (faults_ok _) fun made => ?_
    cases made
    rfl
  | comparison op =>
    have strict : op ≠ .identical := fun eq => loose.1 (by rw [is, eq])
    have strict' : op ≠ .notIdentical := fun eq => loose.2 (by rw [is, eq])
    have loosely := comparison_eq_ofOrder s.heap strict strict' (s.shown f.constants instr.op1)
      (s.shown f.constants instr.op2) ((T.read f.constants literals instr.op1).surface.identical
        (T.read f.constants literals instr.op2).surface)
    rw [left.compare_eq numbers right] at loosely
    have scalar := node?_comparison s.heap op (s.shown f.constants instr.op1)
      (s.shown f.constants instr.op2)
    have ends := comparison?_of_compare? op (left.compare?_eq numbers right)
    rw [loosely] at ends
    refine mirrors_binary checked mirrors (congrArg Fault.ending ends) (faults_ok _) fun made => ?_
    cases made
    rw [← loosely]
    exact scalar
  | compound op => exact mirrors_compound checked is mirrors
  | unary op =>
    dsimp only [unary]
    rw [left.unary op]
    have ends : (Heap.empty.truth? (T.read f.constants literals instr.op1).surface).isSome := by
      rw [Heap.truth?_surface]
      rfl
    exact mirrors_operate rfl checked mirrors (blames_unary ends op) node?_unary
  | step time direction => exact mirrors_step checked is mirrors

/-- Emptying the scratch slot behind an instruction is not seen. -/
theorem Mirrors.finishing {ending : Except Fault Flow × Store}
    {copying : Except Fault Copying.Flow × TreeStore}
    (mirrors : Mirrors f outside literals ending copying) :
    Mirrors f outside literals (Effect.finishing ending) copying := by
  cases mirrors with
  | next mirrors => exact .next mirrors.clear
  | jump mirrors => exact .jump mirrors.clear
  | finish mirrors => exact .finish mirrors.clear
  | @fault fault s T fails mirrors =>
    have survives : fault ≠ .reentry := by
      intro eq
      have fails := fails .standard
      rw [eq] at fails
      cases fails
    unfold Effect.finishing
    split
    · rename_i eq
      cases eq
      exact absurd rfl survives
    · rename_i eq
      cases eq
      exact .fault fails mirrors.clear

end Effect

/-! ## Stores of trees -/

namespace Store

/-- The trees that the slots show, linked where they show one place. -/
def trees (s : Store) : TreeStore where
  value slot := s.heap.tree (s.peek (s.placeOf slot))
  linked slot other := s.placeOf slot == s.placeOf other

/-- Everything in a store is a tree: the handles are accounted for, nothing is bound to a
cell but variables, no composite may be changed while it is shared, and composites
contain no cycle. -/
structure IsForest (f : Function) (outside : Node → Nat) (s : Store) : Prop where
  owns : s.Owns [] outside
  constants : ∀ node : Node, node.uses f.constants.toList ≤ outside node
  literals : ∀ (i : Nat) cell, f.constants[i]?.getD .null ≠ .ref cell
  cells : ∀ cell inner, s.heap.content cell ≠ .ref inner
  fields : s.heap.PlainFields
  bare : ∀ slot cell, slot.isVariable = false → s.frame.get slot ≠ .ref cell
  unflagged : s.heap.Unflagged
  acyclic : s.heap.Acyclic

variable {f : Function} {outside : Node → Nat} {s : Store}

/-- A run starts with the trees of its store. -/
theorem IsForest.mirrors_start (forest : s.IsForest f outside) (m : Machine) :
    (m.start f s).store.Mirrors f outside (f.constants.map s.heap.tree) [] s.trees := by
  have acc := m.accounted_start forest.owns forest.constants
  have closed : s.heap.Closed := Heap.Accounts.closed acc.owns
  have gets : ∀ slot, (m.start f s).store.frame.get slot = s.frame.get slot :=
    fun slot => s.frame.get_prepare _ _ slot
  have places : ∀ slot, (m.start f s).store.placeOf slot = s.placeOf slot :=
    fun slot => placeOf_congr (gets slot)
  have peeks : ∀ place, (m.start f s).store.peek place = s.peek place := by
    intro place
    cases place with
    | slot slot => exact gets slot
    | cell cell => rfl
  have unfolds : ∀ {v}, s.heap.Alive v → (∀ cell, v ≠ .ref cell) →
      s.heap.Holds (s.heap.tree v) v :=
    fun alive value => Heap.holds_tree forest.acyclic closed forest.fields alive value
  refine ⟨acc, forest.unflagged, fun slot _ => ?_, nofun, fun i => ?_, fun slot isVar => ?_,
    fun slot other => ?_⟩
  · have alive := acc.alive_peek slot
    rw [places, peeks] at alive ⊢
    refine unfolds alive fun cell eq => ?_
    cases shows : s.placeOf slot with
    | slot p =>
      rw [shows] at eq
      obtain ⟨rfl, unbound⟩ := placeOf_eq_slot shows
      exact unbound cell eq
    | cell outer =>
      rw [shows] at eq
      exact forest.cells outer cell eq
  · have same : (f.constants.map s.heap.tree)[i]?.getD .null
        = s.heap.tree (f.constants[i]?.getD .null) := by
      rw [Array.getElem?_map]
      cases f.constants[i]? with
      | none => exact s.heap.holds_null.tree_eq.symm
      | some v => rfl
    rw [same]
    exact unfolds (acc.alive_const i) (forest.literals i)
  · rw [places]
    exact placeOf_of_ne_ref fun cell => forest.bare slot cell isVar
  · rw [places, places]
    exact beq_iff_eq

end Store

/-! ## Runs -/

/-- What a store shows unfolds into the trees of a tree store. -/
def Store.Shows (s : Store) (T : TreeStore) : Prop :=
  ∀ slot, slot ≠ .scratch → s.heap.Holds (T.value slot) (s.peek (s.placeOf slot))

/-- A run ends as the one that copies, with a value that unfolds into the tree that it
ends with, or with the same fault. -/
def Outcome.Shows (h : Heap) : Outcome → Copying.Outcome → Prop
  | .returned v, .returned t => h.Holds t v
  | .failed fault, .failed other => fault = other
  | .unended, .unended => True
  | _, _ => False

/-- A run has come as far as the one that copies, and shows its trees. -/
def Step.Shows : Step → Copying.Step → Prop
  | .running p, .running q => p.pc = q.pc ∧ p.store.Shows q.store
  | .ended outcome p, .ended other q =>
    outcome.Shows p.store.heap other ∧ p.pc = q.pc ∧ p.store.Shows q.store
  | _, _ => False

namespace Machine

variable {m : Machine} {f : Function} {outside : Node → Nat} {literals : Array Tree}

/-- A run mirrors one that copies. -/
inductive Mirrors (f : Function) (outside : Node → Nat) (literals : Array Tree) :
    Step → Copying.Step → Prop
  | running {p : Progress} {q : Copying.Progress} (pc : p.pc = q.pc)
    (mirrors : p.store.Mirrors f outside literals [] q.store) :
    Mirrors f outside literals (.running p) (.running q)
  | returned {v : Value} {t : Tree} {p : Progress} {q : Copying.Progress} (pc : p.pc = q.pc)
    (mirrors : p.store.Mirrors f outside literals [(v, t)] q.store) :
    Mirrors f outside literals (.ended (.returned v) p) (.ended (.returned t) q)
  | failed {fault : Fault} {p : Progress} {q : Copying.Progress} (pc : p.pc = q.pc)
    (mirrors : p.store.Mirrors f outside literals [] q.store) :
    Mirrors f outside literals (.ended (.failed fault) p) (.ended (.failed fault) q)

theorem Mirrors.shows {step : Step} {copying : Copying.Step}
    (mirrors : Mirrors f outside literals step copying) : step.Shows copying := by
  cases mirrors with
  | running pc mirrors => exact ⟨pc, mirrors.shown⟩
  | returned pc mirrors => exact ⟨mirrors.held _ List.mem_cons_self, pc, mirrors.shown⟩
  | failed pc mirrors => exact ⟨rfl, pc, mirrors.shown⟩

/-- One instruction without handlers mirrors one that copies. -/
theorem mirrors_step (verified : f.Verified)
    (loose : ∀ instr ∈ f.code, instr.opcode ≠ .comparison .identical
      ∧ instr.opcode ≠ .comparison .notIdentical)
    {p : Progress} {q : Copying.Progress} (numbers : p.store.heap.NaNFree) (pc : p.pc = q.pc)
    (mirrors : p.store.Mirrors f outside literals [] q.store) :
    Mirrors f outside literals (m.plain.step f p) (Copying.next f literals q) := by
  unfold Copying.next
  rw [← pc]
  cases found : f.code[p.pc]? with
  | none =>
    rw [step, found]
    exact .failed pc mirrors
  | some instr =>
    have same := Effect.mirrors_of verified found (loose instr (Array.mem_of_getElem? found))
      numbers mirrors
    obtain ⟨statistics, -, eq⟩ := step_eq (m := m.plain) verified found mirrors.accounted.fits
    have builtIn : Effect.dispatch m.plain f instr p.pc p.store
        = Effect.finishing (Effect.of f instr p.pc p.store) := rfl
    have finished := same.finishing
    rw [eq, builtIn]
    dsimp only
    generalize Effect.finishing (Effect.of f instr p.pc p.store) = ending at finished ⊢
    generalize Copying.of f literals instr p.pc q.store = copying at finished ⊢
    cases finished with
    | next mirrors => exact .running rfl mirrors
    | jump mirrors => exact .running rfl mirrors
    | finish mirrors => exact .returned rfl mirrors
    | fault fails mirrors =>
      dsimp only [proceed]
      rw [fails]
      exact .failed rfl mirrors

/-- A run without handlers mirrors the run that copies, as long as no field holds a float
that is no number. -/
theorem mirrors_runFor (verified : f.Verified)
    (loose : ∀ instr ∈ f.code, instr.opcode ≠ .comparison .identical
      ∧ instr.opcode ≠ .comparison .notIdentical)
    {n : Nat} {p : Progress} {q : Copying.Progress}
    (numbers : ∀ k r, k < n → m.plain.runFor f k p = .running r → r.store.heap.NaNFree)
    (pc : p.pc = q.pc) (mirrors : p.store.Mirrors f outside literals [] q.store) :
    Mirrors f outside literals (m.plain.runFor f n p) (Copying.runFor f literals n q) := by
  induction n generalizing p q with
  | zero => exact .running pc mirrors
  | succ n ih =>
    have one := mirrors_step (m := m) verified loose (numbers 0 p (Nat.succ_pos n) rfl) pc mirrors
    unfold runFor Copying.runFor
    have later : ∀ k r, m.plain.step f p = .running r →
        m.plain.runFor f (k + 1) p = m.plain.runFor f k r := by
      intro k r eq
      rw [runFor, eq]
    generalize m.plain.step f p = step at one later ⊢
    generalize Copying.next f literals q = copying at one ⊢
    cases one with
    | @running p' q' pc mirrors =>
      refine ih (fun k r lt eq => ?_) pc mirrors
      exact numbers (k + 1) r (Nat.succ_lt_succ lt) ((later k p' rfl).trans eq)
    | returned pc mirrors => exact .returned pc mirrors
    | failed pc mirrors => exact .failed pc mirrors

/-- Sharing cannot be told from copying. A verified function that does not ask for identity
is run without handlers in a store of trees, and no field holds a float that is no
number before any instruction. Then after every instruction each temporary and each
variable shows what unfolds into the tree that the copying machine has there, the next
instruction is the same, and execution ends with the same outcome, within the same
bound on instructions. -/
theorem sharing_is_copying {s : Store} (verified : f.verify = .ok ()) (m : Machine)
    (forest : s.IsForest f outside)
    (loose : ∀ instr ∈ f.code, instr.opcode ≠ .comparison .identical
      ∧ instr.opcode ≠ .comparison .notIdentical)
    (numbers : ∀ n p, m.plain.runFor f n (m.plain.start f s) = .running p →
      p.store.heap.NaNFree) :
    (∀ n, (m.plain.runFor f n (m.plain.start f s)).Shows
        (Copying.runFor f (f.constants.map s.heap.tree) n ⟨s.trees, 0⟩))
      ∧ (m.plain.executeIn f s).1.Shows (m.plain.executeIn f s).2.2.heap
        (Copying.run f (f.constants.map s.heap.tree) m.options.maxInstructions s.trees).1
      ∧ (m.plain.executeIn f s).2.2.Shows
        (Copying.run f (f.constants.map s.heap.tree) m.options.maxInstructions s.trees).2 := by
  have order := Function.verified_of_verify verified
  have runs : ∀ n, Mirrors f outside (f.constants.map s.heap.tree)
      (m.plain.runFor f n (m.plain.start f s))
      (Copying.runFor f (f.constants.map s.heap.tree) n ⟨s.trees, 0⟩) :=
    fun n => mirrors_runFor order loose (fun k r _ eq => numbers k r eq) rfl
      (forest.mirrors_start m.plain)
  have settings : m.plain.options = m.options := rfl
  have whole := (runs (budget m.options.maxInstructions)).shows
  refine ⟨fun n => (runs n).shows, ?_⟩
  rw [executeIn_eq m.plain verified, settings, Copying.run]
  generalize m.plain.runFor f (budget m.options.maxInstructions) (m.plain.start f s) = sharing
    at whole ⊢
  generalize Copying.runFor f (f.constants.map s.heap.tree) (budget m.options.maxInstructions)
    ⟨s.trees, 0⟩ = copying at whole ⊢
  cases sharing with
  | running p =>
    cases copying with
    | running q =>
      obtain ⟨pc, shows⟩ := whole
      refine ⟨?_, shows⟩
      dsimp only
      unfold cutShort Copying.cutShort exhausted
      rw [pc]
      cases f.code[q.pc]? with
      | none => exact rfl
      | some instr =>
        dsimp only
        split <;> trivial
    | ended other q => exact whole.elim
  | ended outcome p =>
    cases copying with
    | running q => exact whole.elim
    | ended other q => exact ⟨whole.1, whole.2.2⟩

/-- Stores a list in itself, through a second variable that is bound to the first one. -/
def nesting : Function where
  name := "nesting"
  code := #[
    ⟨.assignRef, .var 1, .var 0, .unused, 0⟩,
    ⟨.setField, .var 1, .const 0, .unused, 0⟩,
    ⟨.opData, .var 1, .unused, .unused, 0⟩,
    ⟨.getField, .var 0, .const 0, .temp 0, 0⟩,
    ⟨.ret, .temp 0, .unused, .unused, 0⟩]
  constants := #[.str "next"]
  temporaries := 1
  variableNames := #["a", "b", "c"]

/-- A store in which a variable that is bound to a cell shares its list with another one. -/
def lists : Store where
  heap := (((Heap.empty.create "List" .empty).2.acquire (.composite ⟨0⟩)).createCell
    (.composite ⟨0⟩)).2
  frame := { Frame.ofSizes 1 0 with vars := #[.ref ⟨0⟩, .null, .composite ⟨0⟩] }
  notes := #[]

theorem forest_lists : lists.IsForest nesting fun _ => 0 := by
  have only : ∀ {id c}, lists.heap.composite? id = some c → c = ⟨"List", .empty, false, 2⟩ := by
    intro id c found
    have mem : (id.index, c) ∈ [(0, (⟨"List", .empty, false, 2⟩ : Composite))] :=
      OrderedMap.mem_of_lookup found
    exact congrArg Prod.snd (List.mem_singleton.mp mem)
  have noField : ∀ {id c} {v : Value}, lists.heap.composite? id = some c →
      v ∉ c.fields.values := by
    intro id c v found mem
    rw [only found] at mem
    cases mem
  refine ⟨?_, fun node => ?_, fun i cell eq => ?_, fun cell inner eq => ?_, ?_, ?_, ?_, ?_⟩
  · have nothing : Heap.empty.Accounts [] fun _ => 0 := fun node => by cases node <;> rfl
    have one : (Heap.empty.create "List" .empty).2.Accounts [.composite ⟨0⟩] fun _ => 0 :=
      @Heap.Accounts.create _ [] _ .empty nothing "List"
    have two := one.acquire (one.alive List.mem_cons_self)
    refine two.createCell.congr fun node => ?_
    simp [lists, Frame.values, Frame.ofSizes, OrderedMap.values, OrderedMap.empty]
    rfl
  · cases node <;> exact Nat.le_refl 0
  · rcases i with _ | i
    · cases eq
    · cases eq
  · unfold Heap.content at eq
    split at eq
    · rename_i c found
      have mem : (cell.index, c) ∈ [(0, (⟨.composite ⟨0⟩, 1⟩ : Cell))] :=
        OrderedMap.mem_of_lookup found
      have inside : c = ⟨.composite ⟨0⟩, 1⟩ := congrArg Prod.snd (List.mem_singleton.mp mem)
      rw [inside] at eq
      cases eq
    · cases eq
  · intro id c found v mem
    exact absurd mem (noField found)
  · intro slot cell isVar eq
    cases slot with
    | scratch => cases eq
    | temp i => rcases i with _ | i <;> cases eq
    | _ => cases isVar
  · intro id c found
    rw [only found]
  · intro id cyclic
    cases cyclic with
    | single contains =>
      obtain ⟨c, found, mem⟩ := contains
      exact noField found mem
    | tail _ contains =>
      obtain ⟨c, found, mem⟩ := contains
      exact noField found mem

/-- A list that is stored in itself through a variable is a list in a list. -/
theorem sharing_is_copying_nesting :
    let m := Machine.ofTable .standard .empty
    nesting.verify = .ok () ∧ ∀ n, (m.plain.runFor nesting n (m.plain.start nesting lists)).Shows
      (Copying.runFor nesting (nesting.constants.map lists.heap.tree) n ⟨lists.trees, 0⟩) := by
  refine ⟨rfl, (sharing_is_copying rfl _ forest_lists (by decide) fun n p eq => ?_).1⟩
  rcases n with _ | _ | _ | _ | n
  · cases eq
    decide
  · cases eq
    decide
  · cases eq
    decide
  · cases eq
    decide
  · have ended : ∃ outcome q, (ofTable .standard .empty).plain.runFor nesting 4
        ((ofTable .standard .empty).plain.start nesting lists) = .ended outcome q := ⟨_, _, rfl⟩
    obtain ⟨outcome, q, ended⟩ := ended
    rw [runFor_of_ended ended (Nat.le_add_left 4 n)] at eq
    cases eq

end Machine

end OverloadMachine
