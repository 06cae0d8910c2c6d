import OverloadMachine.Proofs.CallAccounting
import OverloadMachine.Proofs.Counting
import OverloadMachine.Proofs.Mirrors

/-!
# Bindings

A variable that is bound to a cell stays bound to it. What is stored is stored into a
place that a slot shows, and a slot that is bound shows the inside of its cell. Only
temporaries and the scratch slot are emptied without a look at what they show, and only
an assignment by reference writes over the slot of a variable, that of its first operand.
So two variables that were bound together show one value, and what is written through
either is seen through the other, until one of them is bound anew.
-/

namespace OverloadMachine

/-- A slot is bound to a cell. -/
def Store.Binds (s : Store) (slot : Slot) (cell : CellId) : Prop := s.frame.get slot = .ref cell

/-- An instruction binds the variable of a slot, whatever it was bound to before. -/
def Instruction.Rebinds (constants : Array Value) (instr : Instruction) (slot : Slot) : Prop :=
  instr.opcode = .assignRef ∧ instr.op1.slot constants = slot

instance (constants : Array Value) (instr : Instruction) (slot : Slot) :
    Decidable (instr.Rebinds constants slot) := inferInstanceAs (Decidable (_ ∧ _))

/-- Store where a run stands or has ended. -/
def Step.store : Step → Store
  | .running p | .ended _ p => p.store

namespace Store.Binds

variable {s : Store} {slot : Slot} {cell : CellId} {place : Place}

/-! ## What the operations of the store keep -/

/-- No slot shows a slot that is bound. -/
theorem placeOf_ne (binds : s.Binds slot cell) (other : Slot) : s.placeOf other ≠ .slot slot := by
  intro shows
  obtain ⟨rfl, unbound⟩ := placeOf_eq_slot shows
  exact unbound cell binds

theorem acquire (binds : s.Binds slot cell) (v : Value) : (s.acquire v).Binds slot cell := binds

theorem put (binds : s.Binds slot cell) (ne : place ≠ .slot slot) (v : Value) :
    (s.put place v).Binds slot cell := by
  cases place with
  | slot other => exact (s.frame.get_put_ne v fun eq => ne (congrArg Place.slot eq)).trans binds
  | cell other => exact binds

theorem overwrite (binds : s.Binds slot cell) (ne : place ≠ .slot slot) (v : Value) :
    (s.overwrite place v).Binds slot cell := binds.put ne v

theorem separate (binds : s.Binds slot cell) (ne : place ≠ .slot slot) :
    (s.separate place).2.Binds slot cell :=
  put (s := { s with heap := (s.heap.separate (s.peek place)).2.2 }) binds ne _

theorem defining (binds : s.Binds slot cell) (constants : Array Value) (o : Operand) :
    (s.defining constants o).Binds slot cell := by
  unfold Store.defining
  split
  · exact (s.frame.get_define _ slot).trans binds
  · exact binds

theorem assign (binds : s.Binds slot cell) (constants : Array Value) (o : Operand) (v : Value) :
    (s.assign constants o v).Binds slot cell :=
  (binds.defining constants o).overwrite (binds.placeOf_ne _) v

theorem yield (binds : s.Binds slot cell) (constants : Array Value) (o : Operand) (v : Value) :
    (s.yield constants o v).Binds slot cell := by
  unfold Store.yield
  split
  · exact binds
  · exact (binds.acquire v).assign constants o v

/-- Binding a slot keeps the slots that are bound, itself among them. -/
theorem bound (binds : s.Binds slot cell) (other : Slot) :
    (s.bound other).2.Binds slot cell := by
  unfold Store.bound
  split
  · exact binds
  · rename_i unbound
    refine (s.frame.get_put_ne _ ?_).trans binds
    rintro rfl
    exact unbound cell binds

variable (isVar : slot.isVariable = true)

include isVar

/-- The slot of a variable is not the scratch slot, and not that of a temporary. -/
theorem ne_of_isVariable {other : Slot} (not : other.isVariable = false) :
    Place.slot other ≠ .slot slot := by
  rintro ⟨⟩
  rw [isVar] at not
  cases not

theorem vacate (binds : s.Binds slot cell) (o : Operand) : (s.vacate o).Binds slot cell := by
  cases o with
  | temp i => exact binds.overwrite (ne_of_isVariable isVar rfl) .null
  | _ => exact binds

theorem vacateRead (binds : s.Binds slot cell) (instr : Instruction) :
    (s.vacateRead instr).Binds slot cell := by
  have one : (if instr.op1 ≠ instr.result then s.vacate instr.op1 else s).Binds slot cell := by
    split
    · exact vacate isVar binds _
    · exact binds
  unfold Store.vacateRead
  dsimp only
  split
  · exact vacate isVar one _
  · exact one

/-- Emptying the scratch slot. -/
theorem clear (binds : s.Binds slot cell) : (s.overwrite (.slot .scratch) .null).Binds slot cell :=
  binds.overwrite (ne_of_isVariable isVar rfl) .null

end Store.Binds

/-! ## Instructions -/

namespace Effect

variable {f : Function} {instr : Instruction} {pc : Nat} {s : Store} {slot : Slot} {cell : CellId}
  {place : Place}

theorem binds_setFieldAt (binds : s.Binds slot cell) (ne : place ≠ .slot slot) (key : String)
    (v : Value) : (setFieldAt place key v s).2.Binds slot cell := by
  unfold setFieldAt
  split
  · exact binds
  · dsimp only
    split
    · exact binds.separate ne
    · exact binds.separate ne

variable (isVar : slot.isVariable = true)

include isVar

theorem binds_binary (binds : s.Binds slot cell) (constants : Array Value) (instr : Instruction)
    (g : Heap → Value → Value → Except Fault Value) :
    (binary constants instr g s).2.Binds slot cell := by
  unfold binary
  split
  · exact binds
  · exact (binds.vacateRead isVar instr).assign _ _ _

theorem binds_setField (binds : s.Binds slot cell) (constants : Array Value)
    (instr data : Instruction) (pc : Nat) :
    (setField constants instr data pc s).2.Binds slot cell := by
  unfold setField
  split
  · exact binds
  · rename_i key _
    have loaded := binds.acquire (s.shown constants data.op1)
    have set := binds_setFieldAt (loaded.defining constants instr.op1)
      (binds.placeOf_ne (instr.op1.slot constants)) key (s.shown constants data.op1)
    dsimp only [Store.target] at set ⊢
    split <;> rename_i eq <;> rw [eq] at set
    · exact set
    · exact (set.vacate isVar _).vacate isVar _

theorem binds_getField (binds : s.Binds slot cell) (constants : Array Value)
    (instr : Instruction) : (getField constants instr s).2.Binds slot cell := by
  unfold getField
  split
  · exact binds
  · split
    · exact (((binds.acquire _).vacate isVar _).vacate isVar _).assign _ _ _
    · exact binds

theorem binds_compound (binds : s.Binds slot cell) (constants : Array Value)
    (instr : Instruction) (op : ArithmeticOp) :
    (compound constants instr op s).2.Binds slot cell := by
  unfold compound
  dsimp only
  split
  · exact (binds.acquire _).defining _ _
  · exact (((binds.acquire _).assign _ _ _).vacateRead isVar instr).yield _ _ _

omit isVar in
theorem binds_step (binds : s.Binds slot cell) (constants : Array Value) (instr : Instruction)
    (time : StepTime) (direction : StepDirection) :
    (step constants instr time direction s).2.Binds slot cell := by
  unfold step
  dsimp only
  split
  · exact binds.defining _ _
  · split
    · exact (binds.assign _ _ _).yield _ _ _
    · exact ((binds.defining _ _).put (binds.placeOf_ne _) _).assign _ _ _

/-- A built-in instruction keeps the variables bound that it does not bind anew. -/
theorem binds_of (keeps : ¬instr.Rebinds f.constants slot) (binds : s.Binds slot cell) :
    (Effect.of f instr pc s).2.Binds slot cell := by
  unfold Effect.of
  cases is : instr.opcode with
  | assign => exact (((binds.acquire _).vacateRead isVar instr).yield _ _ _).assign _ _ _
  | assignRef =>
    have ne : Place.slot (instr.op1.slot f.constants) ≠ .slot slot := fun eq =>
      keeps ⟨is, Place.slot.inj eq⟩
    exact (((binds.defining _ _).bound _).defining _ _).overwrite ne _
  | newComposite =>
    dsimp only
    unfold newComposite
    split
    · rename_i className _
      have created : ({ s with heap := (s.heap.create className .empty).2 } : Store).Binds
          slot cell := binds
      exact created.assign _ _ _
    · exact binds
  | setField => exact binds_setField isVar binds _ _ _ _
  | getField => exact binds_getField isVar binds _ _
  | free => exact binds.vacate isVar _
  | jmpIfFalse =>
    dsimp only
    unfold jumpIfFalse
    split
    · exact binds
    · exact binds.vacate isVar _
  | ret => exact (binds.acquire _).vacate isVar _
  | arithmetic op => exact binds_binary isVar binds _ _ _
  | boolXor => exact binds_binary isVar binds _ _ _
  | comparison op => exact binds_binary isVar binds _ _ _
  | compound op => exact binds_compound isVar binds _ _ _
  | unary op => exact binds_binary isVar binds _ _ fun h a _ => Operator.unary h op a
  | step time direction => exact binds_step binds _ _ _ _
  | _ => exact binds

theorem binds_finishing {ending : Except Fault Flow × Store} (binds : ending.2.Binds slot cell) :
    (finishing ending).2.Binds slot cell := by
  unfold finishing
  split
  · exact binds
  · exact binds.clear isVar

end Effect

/-! ## Calls of handlers -/

namespace CallState

variable {f : Function} {pc : Nat} {ctx : CallContext} {c : CallState} {slot : Slot}
  {cell : CellId}

/-- The frame is large enough and a slot of it is bound. -/
structure Binds (c : CallState) (f : Function) (slot : Slot) (cell : CellId) : Prop where
  fits : c.store.frame.Fits f
  binds : c.store.Binds slot cell

namespace Binds

/-- A slot that is bound is not written by a handler, so it stays bound. -/
theorem stable (ctx : CallContext) (slot : Slot) (cell : CellId) :
    ctx.Stable (·.get slot = .ref cell) := by
  intro _ frame v unbound binds
  refine (frame.get_put_ne v ?_).trans binds
  intro eq
  exact unbound cell (eq ▸ binds)

theorem write (bound : c.Binds f slot cell) (ctx : CallContext) (draft : Draft) :
    (c.write ctx draft).2.store.Binds slot cell :=
  (stable ctx slot cell).write bound.binds draft

/-- A step of a handler keeps what is bound. -/
theorem advance (bound : c.Binds f slot cell) {h k : Handler} {d : CallState}
    (advances : h.advance ctx c = some (k, d)) : d.Binds f slot cell where
  fits := (ctx.stable_fits f).advance bound.fits advances
  binds := (stable ctx slot cell).advance bound.binds advances

/-- The run of a handler keeps what is bound. -/
theorem run (bound : c.Binds f slot cell) (ctx : CallContext) (h : Handler) :
    (h.run ctx c).2.Binds f slot cell where
  fits := (ctx.stable_fits f).run bound.fits h
  binds := (stable ctx slot cell).run bound.binds h

end Binds

end CallState

namespace Effect

variable {m : Machine} {f : Function} {instr : Instruction} {pc : Nat} {s : Store} {slot : Slot}
  {cell : CellId}

theorem binds_dropPending (binds : s.Binds slot cell) (pending : Option Value) :
    (dropPending pending s).Binds slot cell := by
  cases pending with
  | none => exact binds
  | some v => exact binds

theorem binds_storePending (binds : s.Binds slot cell) (constants : Array Value)
    (instr : Instruction) (pending : Option Value) :
    (storePending constants instr pending s).Binds slot cell := by
  unfold storePending
  split
  · split
    · exact binds
    · exact binds.assign _ _ _
  · exact binds

variable (isVar : slot.isVariable = true)

include isVar

/-- The end of a handler's run keeps what is bound. -/
theorem binds_settle (constants : Array Value) (instr : Instruction)
    {ending : Option Answer × CallState} (binds : ending.2.store.Binds slot cell) :
    (settle constants instr ending).2.Binds slot cell := by
  obtain ⟨answer, c⟩ := ending
  unfold settle
  dsimp only
  split
  · exact binds_dropPending binds _
  · exact binds_dropPending binds _
  · rename_i reply _
    cases reply with
    | handled =>
      exact ((binds_storePending binds _ _ _).vacateRead isVar instr).clear isVar
    | declined => exact (binds_dropPending binds _).clear isVar
    | unsupported reason => exact (binds_dropPending binds _).clear isVar
    | violated violation => exact binds_dropPending binds _

/-- An instruction keeps the variables bound that it does not bind anew, by its handler, by
the built-in instruction if that declines, or without one. -/
theorem binds_dispatch (fits : s.frame.Fits f) (keeps : ¬instr.Rebinds f.constants slot)
    (binds : s.Binds slot cell) :
    (dispatch m f instr pc s).2.Binds slot cell := by
  unfold dispatch
  split
  · rename_i handler category _ has
    have start : CallState.Binds ⟨s, none, none⟩ f slot cell := ⟨fits, binds⟩
    have settled := binds_settle isVar f.constants instr
      (start.run ⟨instr, category, f.constants, m.options.negationOrder⟩ handler).binds
    unfold calling
    generalize settle f.constants instr _ = ending at settled ⊢
    obtain ⟨fault | decision, t⟩ := ending
    · exact settled
    · cases decision with
      | handled => exact settled
      | declined => exact binds_finishing isVar (binds_of isVar keeps settled)
  · exact binds_finishing isVar (binds_of isVar keeps binds)

end Effect

/-! ## Operands that are bound together -/

namespace Store

variable {f : Function} {outside : Node → Nat} {held : List Value} {s : Store} {o q : Operand}
  {cell : CellId} {v : Value}

/-- A variable that is bound shows the content of its cell. -/
theorem view_of_binds (fits : s.frame.Fits f) (within : o.Within f) (isVar : o.isVariable = true)
    (binds : s.Binds (o.slot f.constants) cell) :
    s.view f.constants o = .ok (s.heap.content cell, true) := by
  have holds : s.held f.constants o = .ref cell := by
    cases o with
    | var i => exact binds
    | dynamic i => exact binds
    | _ => cases isVar
  rw [view_eq within fits, holds]
  rfl

/-- What is stored through a variable that is bound becomes the content of its cell. -/
theorem content_assign (acc : s.Accounted f outside (v :: held)) (within : o.Within f)
    (binds : s.Binds (o.slot f.constants) cell) :
    (s.assign f.constants o v).heap.content cell = v := by
  have shows : s.target f.constants o = .cell cell := placeOf_eq_cell.mpr binds
  have has := acc.hasPlace_defining within o
  have alive : (s.assign f.constants o v).heap.Alive (.ref cell) :=
    (acc.assign within).alive_cell (placeOf_eq_cell.mpr (binds.assign f.constants o v))
  rw [assign_eq] at alive ⊢
  rw [shows] at has alive ⊢
  have kept := peek_release (s.peek (.cell cell)) (.cell cell) fun other same => by
    cases same
    exact alive
  exact kept.trans ((peek_put has v (.cell cell)).trans (if_pos rfl))

/-- Two operands show the same, and what is stored through the first one is seen through
the second one. -/
structure Shares (s : Store) (f : Function) (o q : Operand) : Prop where
  bound : ∃ cell, s.Binds (o.slot f.constants) cell ∧ s.Binds (q.slot f.constants) cell
  views : s.view f.constants o = s.view f.constants q
  seen : ∀ v, s.heap.Alive v → ∃ t, Action.storeOperand f.constants o v (s.acquire v) = (.ok ⟨⟩, t)
    ∧ t.view f.constants q = .ok (v, true)

/-- Variables that are bound to one cell observe what is written through them. -/
theorem Accounted.shares (acc : s.Accounted f outside held)
    (first : o.Within f ∧ o.isVariable = true) (second : q.Within f ∧ q.isVariable = true)
    (one : s.Binds (o.slot f.constants) cell) (two : s.Binds (q.slot f.constants) cell) :
    s.Shares f o q where
  bound := ⟨cell, one, two⟩
  views := by
    rw [view_of_binds acc.fits first.1 first.2 one, view_of_binds acc.fits second.1 second.2 two]
  seen := by
    intro v alive
    have loaded := acc.acquire alive
    have fits := (loaded.assign first.1).fits
    refine ⟨_, Action.storeOperand_eq first.1 (Operand.isLiteral_of_isVariable first.2)
      loaded.fits v, ?_⟩
    rw [view_of_binds fits second.1 second.2 ((two.acquire v).assign f.constants o v),
      content_assign loaded first.1 one]

end Store

/-- An assignment by reference binds both of its variables to one cell. -/
theorem Effect.binds_assignRef {f : Function} {instr : Instruction} {s : Store}
    (fits : s.frame.Fits f) (first : instr.op1.Within f) (second : instr.op2.Within f) :
    ∃ cell, (assignRef f.constants instr s).2.Binds (instr.op1.slot f.constants) cell
      ∧ (assignRef f.constants instr s).2.Binds (instr.op2.slot f.constants) cell := by
  have source : ((s.defining f.constants instr.op2).bound (instr.op2.slot f.constants)).2.Binds
      (instr.op2.slot f.constants)
      ((s.defining f.constants instr.op2).bound (instr.op2.slot f.constants)).1 := by
    have has := second.has_slot ((s.fits_defining f.constants instr.op2 f).mpr fits)
    have shows := Store.placeOf_bound has (instr.op2.slot f.constants)
    rw [if_pos rfl] at shows
    exact Store.placeOf_eq_cell.mp shows
  have fits' : (((s.defining f.constants instr.op2).bound
      (instr.op2.slot f.constants)).2.defining f.constants instr.op1).frame.Fits f := by
    simpa using fits
  have target := Frame.get_put_self (first.has_slot fits')
    (.ref ((s.defining f.constants instr.op2).bound (instr.op2.slot f.constants)).1)
  refine ⟨_, target, ?_⟩
  by_cases same : instr.op1.slot f.constants = instr.op2.slot f.constants
  · exact (congrArg (Frame.get _) same.symm).trans target
  · exact (source.defining f.constants instr.op1).overwrite
      (fun eq => same (Place.slot.inj eq)) _

/-! ## Runs -/

namespace Machine

variable {m : Machine} {f : Function} {outside : Node → Nat} {s : Store} {p q : Progress}
  {instr : Instruction} {slot : Slot} {cell : CellId}

/-- One instruction keeps a variable bound unless it binds it anew. -/
theorem binds_step (verified : f.Verified) (fits : p.store.frame.Fits f)
    (isVar : slot.isVariable = true)
    (keeps : ∀ instr, f.code[p.pc]? = some instr → ¬instr.Rebinds f.constants slot)
    (binds : p.store.Binds slot cell) : (m.step f p).store.Binds slot cell := by
  cases found : f.code[p.pc]? with
  | none =>
    rw [step, found]
    exact binds
  | some instr =>
    have kept : (Effect.dispatch m f instr p.pc p.store).2.Binds slot cell :=
      Effect.binds_dispatch isVar fits (keeps instr found) binds
    obtain ⟨statistics, -, eq⟩ := step_eq (m := m) verified found fits
    rw [eq]
    generalize Effect.dispatch m f instr p.pc p.store = ending at kept ⊢
    obtain ⟨fault | flow, t⟩ := ending
    · exact kept
    · cases flow <;> exact kept

/-- Behind the first instruction that a run fetches are those that it fetches from there. -/
theorem tail_fetched_of_running (steps : m.step f p = .running q) (n : Nat) :
    (m.fetched f (n + 1) p).tail = m.fetched f n q := by
  rw [fetched]
  cases found : f.code[p.pc]? with
  | none =>
    rw [step, found] at steps
    cases steps
  | some instr =>
    dsimp only
    rw [steps]
    rfl

/-- A run keeps a variable bound until an instruction binds it anew. -/
theorem binds_runFor (verified : f.Verified) (isVar : slot.isVariable = true) (n : Nat)
    (fits : p.store.frame.Fits f)
    (keeps : ∀ instr ∈ m.fetched f n p, ¬instr.Rebinds f.constants slot)
    (binds : p.store.Binds slot cell) : (m.runFor f n p).store.Binds slot cell := by
  induction n generalizing p with
  | zero => exact binds
  | succ n ih =>
    have fitting := (m.keeps_fits verified).step verified fits fits
    have one : (m.step f p).store.Binds slot cell := by
      refine binds_step verified fits isVar (fun instr found => keeps instr ?_) binds
      rw [fetched, found]
      exact List.mem_cons_self
    rw [runFor]
    cases steps : m.step f p with
    | ended outcome q =>
      rw [steps] at one
      exact one
    | running q =>
      rw [steps] at one fitting
      refine ih fitting (fun later mem => keeps later (List.mem_of_mem_tail ?_)) one
      rw [tail_fetched_of_running steps]
      exact mem

/-- What one instruction has bound stays bound until a later one binds it anew. -/
theorem binds_runFor_of_step (verified : f.Verified) (isVar : slot.isVariable = true) (n : Nat)
    (fits : p.store.frame.Fits f)
    (keeps : ∀ later ∈ (m.fetched f (n + 1) p).tail, ¬later.Rebinds f.constants slot)
    (binds : (m.step f p).store.Binds slot cell) :
    (m.runFor f (n + 1) p).store.Binds slot cell := by
  have fitting := (m.keeps_fits verified).step verified fits fits
  rw [runFor]
  cases steps : m.step f p with
  | ended outcome q =>
    rw [steps] at binds
    exact binds
  | running q =>
    rw [steps] at binds fitting
    rw [tail_fetched_of_running steps] at keeps
    exact binds_runFor verified isVar n fitting keeps binds

/-- After an assignment by reference its variables are bound to one cell: the opcode has no
handler. -/
theorem binds_step_of_assignRef (verified : f.Verified) (fits : p.store.frame.Fits f)
    (found : f.code[p.pc]? = some instr) (is : instr.opcode = .assignRef) :
    ∃ cell, (m.step f p).store.Binds (instr.op1.slot f.constants) cell
      ∧ (m.step f p).store.Binds (instr.op2.slot f.constants) cell := by
  have checked := verified.checked found
  obtain ⟨first, second⟩ := checked.assignRef is
  obtain ⟨cell, one, two⟩ := Effect.binds_assignRef fits checked.op1 checked.op2
  have effect : Effect.dispatch m f instr p.pc p.store
      = Effect.finishing (Effect.assignRef f.constants instr p.store) := by
    have none : instr.opcode.category? = none := by rw [is]; rfl
    unfold Effect.dispatch Effect.of
    rw [none, is]
    split
    · rename_i has
      cases has
    · rfl
  obtain ⟨statistics, -, eq⟩ := step_eq (m := m) verified found fits
  rw [eq, effect]
  exact ⟨cell, Effect.binds_finishing (checked.op1.isVariable_slot first) one,
    Effect.binds_finishing (checked.op2.isVariable_slot second) two⟩

/-- What a run comes to is accounted for, with what it gives to its caller. -/
theorem accounted_runFor (verified : f.Verified) (acc : p.store.Accounted f outside []) (n : Nat) :
    ∃ held, (m.runFor f n p).store.Accounted f outside held := by
  have kept := (m.keeps_accounts verified outside).runFor verified (fun acc => acc.fits) n acc
  cases eq : m.runFor f n p with
  | running q =>
    rw [eq] at kept
    exact ⟨_, kept⟩
  | ended outcome q =>
    rw [eq] at kept
    exact ⟨_, kept⟩

/-- A variable that is bound to a cell is bound to it after every instruction but an
assignment by reference to it, whether the instruction is built in, handled or declined
and whether or not it faults, and so it is after any run without such an instruction.
After an assignment by reference its two variables observe what is written through
either, for as long as none of them is bound anew. -/
theorem bindings_are_stable (verified : f.verify = .ok ()) {k : Nat}
    (reached : m.runFor f k (m.start f s) = .running p) :
    (∀ slot cell, slot.isVariable = true → p.store.Binds slot cell →
        ((∀ instr, f.code[p.pc]? = some instr → ¬instr.Rebinds f.constants slot) →
          (m.step f p).store.Binds slot cell)
        ∧ ∀ n, (∀ instr ∈ m.fetched f n p, ¬instr.Rebinds f.constants slot) →
          (m.runFor f n p).store.Binds slot cell)
    ∧ ∀ instr outside, f.code[p.pc]? = some instr → instr.opcode = .assignRef →
        s.Owns [] outside → (∀ node : Node, node.uses f.constants.toList ≤ outside node) →
        ∀ n, (∀ later ∈ (m.fetched f (n + 1) p).tail,
            ¬later.Rebinds f.constants (instr.op1.slot f.constants)
            ∧ ¬later.Rebinds f.constants (instr.op2.slot f.constants)) →
          (m.runFor f (n + 1) p).store.Shares f instr.op1 instr.op2
          ∧ (m.runFor f (n + 1) p).store.Shares f instr.op2 instr.op1 := by
  have order := Function.verified_of_verify verified
  have fits : p.store.frame.Fits f := by
    have kept := (m.keeps_fits order).runFor order id k (p := m.start f s) (s.frame.fits_prepare f)
    rw [reached] at kept
    exact kept
  refine ⟨fun slot cell isVar binds => ⟨fun keeps => binds_step order fits isVar keeps binds,
    fun n keeps => binds_runFor order isVar n fits keeps binds⟩, ?_⟩
  intro instr outside found is owns constants n keeps
  have checked := order.checked found
  obtain ⟨first, second⟩ := checked.assignRef is
  obtain ⟨cell, one, two⟩ := binds_step_of_assignRef (m := m) order fits found is
  have acc : p.store.Accounted f outside [] := by
    have kept := (m.keeps_accounts order outside).runFor order (fun acc => acc.fits) k
      (m.accounted_start owns constants)
    rw [reached] at kept
    exact kept
  obtain ⟨held, later⟩ := accounted_runFor (m := m) order acc (n + 1)
  have one := binds_runFor_of_step order (checked.op1.isVariable_slot first) n fits
    (fun instr mem => (keeps instr mem).1) one
  have two := binds_runFor_of_step order (checked.op2.isVariable_slot second) n fits
    (fun instr mem => (keeps instr mem).2) two
  constructor
  · exact later.shares ⟨checked.op1, first⟩ ⟨checked.op2, second⟩ one two
  · exact later.shares ⟨checked.op2, second⟩ ⟨checked.op1, first⟩ two one

/-- A handler that writes a number to its first operand. -/
def raising : Handler := .write (.scalar (.int 40)) fun _ => .answer .handled

/-- Binds two variables together, writes through either, and binds the second one anew. -/
def pairing : Function where
  name := "pairing"
  code := #[
    ⟨.assignRef, .var 0, .var 1, .unused, 0⟩,
    ⟨.assign, .var 1, .const 0, .unused, 0⟩,
    ⟨.compound .add, .var 0, .const 0, .unused, 0⟩,
    ⟨.assignRef, .var 1, .dynamic 1, .unused, 0⟩,
    ⟨.ret, .var 1, .unused, .unused, 0⟩]
  constants := #[.int 7, .str "c"]
  temporaries := 0
  variableNames := #["a", "b"]

/-- The first variable stays bound to the end, and both are bound together until the second
one is bound anew. -/
theorem bindings_are_stable_pairing :
    let m := Machine.ofTable .standard (DispatchTable.empty.set (.compound .add) rfl (some raising))
    let start := m.start pairing ⟨.empty, .ofSizes 0 0, #[]⟩
    (∃ p, m.runFor pairing 1 start = .running p ∧ p.store.Binds (.var 0) ⟨0⟩
        ∧ (m.step pairing p).store.Binds (.var 0) ⟨0⟩
        ∧ (m.runFor pairing 4 p).store.Binds (.var 0) ⟨0⟩)
      ∧ (m.runFor pairing 3 start).store.Shares pairing (.var 0) (.var 1)
      ∧ (m.runFor pairing 3 start).store.Shares pairing (.var 1) (.var 0) := by
  intro m start
  constructor
  · have bound : ∀ p, m.runFor pairing 1 start = .running p → _ := fun p reached =>
      (bindings_are_stable rfl reached).1 (.var 0) ⟨0⟩ rfl
    refine ⟨_, rfl, rfl, (bound _ rfl rfl).1 ?_, (bound _ rfl rfl).2 4 (by decide)⟩
    rintro instr ⟨⟩
    decide
  · have owns : (⟨.empty, .ofSizes 0 0, #[]⟩ : Store).Owns [] fun _ => 0 := fun node => by
      cases node <;> rfl
    have scalars : ∀ node : Node, node.uses pairing.constants.toList ≤ 0 := fun node => by
      cases node <;> exact Nat.le_refl 0
    exact (bindings_are_stable (k := 0) rfl rfl).2 pairing.code[0] _ rfl rfl owns scalars 2
      (by decide)

end Machine

end OverloadMachine
