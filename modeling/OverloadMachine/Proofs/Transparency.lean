import OverloadMachine.Proofs.Runs

/-!
# Transparent tables

Instructions look at the heap and at the frame, not at the notes of handlers. So if
every instruction that has a handler ends like the built-in one, with the same
heap and frame, then the two machines stay in step: they run the same
instructions with the same effects and end with the same outcome. It is enough
that the handlers are transparent where the store is accounted for and the
scratch slot holds no reference, because every instruction leaves it empty; and they may
rely on whatever else the built-in instructions keep true of the heap.
-/

namespace OverloadMachine

namespace Store

/-! ## Notes are not read -/

/-- Two stores have the same heap and the same frame. -/
structure Agrees (s t : Store) : Prop where
  heap : s.heap = t.heap
  frame : s.frame = t.frame

/-- The store with other notes. -/
def noting (s : Store) (notes : Array Note) : Store := { s with notes := notes }

/-- Stores agree if they are equal up to their notes. -/
theorem Agrees.eq_noting {s t : Store} (agrees : s.Agrees t) : t = s.noting t.notes := by
  obtain ⟨heap, frame, notes⟩ := s
  obtain ⟨heap', frame', notes'⟩ := t
  obtain ⟨same, same'⟩ := agrees
  dsimp only at same same'
  subst same same'
  rfl

theorem agrees_noting (s : Store) (notes : Array Note) : s.Agrees (s.noting notes) := ⟨rfl, rfl⟩

theorem Agrees.refl (s : Store) : s.Agrees s := ⟨rfl, rfl⟩

theorem Agrees.trans {s t u : Store} (first : s.Agrees t) (second : t.Agrees u) : s.Agrees u :=
  ⟨first.heap.trans second.heap, first.frame.trans second.frame⟩

theorem Agrees.symm {s t : Store} (agrees : s.Agrees t) : t.Agrees s :=
  ⟨agrees.heap.symm, agrees.frame.symm⟩

/-- Accounts do not speak about notes. -/
theorem Accounted.congr {f : Function} {outside : Node → Nat} {held : List Value} {s t : Store}
    (acc : s.Accounted f outside held) (agrees : s.Agrees t) : t.Accounted f outside held := by
  obtain ⟨fits, owns, constants⟩ := acc
  rw [agrees.frame] at fits
  rw [Owns, agrees.heap, agrees.frame] at owns
  exact ⟨fits, owns, constants⟩

variable (s : Store) (notes : Array Note) (constants : Array Value) (o : Operand) (v : Value)

@[simp] theorem heap_noting : (s.noting notes).heap = s.heap := rfl

@[simp] theorem frame_noting : (s.noting notes).frame = s.frame := rfl

@[simp] theorem acquire_noting : (s.noting notes).acquire v = (s.acquire v).noting notes := rfl

@[simp] theorem release_noting : (s.noting notes).release v = (s.release v).noting notes := rfl

@[simp] theorem put_noting (place : Place) :
    (s.noting notes).put place v = (s.put place v).noting notes := by
  cases place <;> rfl

@[simp] theorem peek_noting (place : Place) : (s.noting notes).peek place = s.peek place := by
  cases place <;> rfl

@[simp] theorem overwrite_noting (place : Place) :
    (s.noting notes).overwrite place v = (s.overwrite place v).noting notes := by
  cases place <;> rfl

@[simp] theorem shown_noting : (s.noting notes).shown constants o = s.shown constants o := by
  cases o <;> rfl

@[simp] theorem held_noting : (s.noting notes).held constants o = s.held constants o := by
  cases o <;> rfl

@[simp] theorem target_noting : (s.noting notes).target constants o = s.target constants o := rfl

@[simp] theorem defining_noting :
    (s.noting notes).defining constants o = (s.defining constants o).noting notes := by
  unfold defining
  split <;> rfl

@[simp] theorem assign_noting :
    (s.noting notes).assign constants o v = (s.assign constants o v).noting notes := by
  simp only [assign, defining_noting, target_noting, overwrite_noting]

@[simp] theorem yield_noting :
    (s.noting notes).yield constants o v = (s.yield constants o v).noting notes := by
  unfold yield
  split
  · rfl
  · simp only [acquire_noting, assign_noting]

@[simp] theorem vacate_noting : (s.noting notes).vacate o = (s.vacate o).noting notes := by
  cases o <;> rfl

@[simp] theorem vacateRead_noting (instr : Instruction) :
    (s.noting notes).vacateRead instr = (s.vacateRead instr).noting notes := by
  unfold vacateRead
  dsimp only
  split <;> split <;> simp only [vacate_noting]

@[simp] theorem bound_noting (slot : Slot) :
    (s.noting notes).bound slot = ((s.bound slot).1, (s.bound slot).2.noting notes) := by
  simp only [bound, frame_noting]
  cases s.frame.get slot <;> rfl

@[simp] theorem isSelfBound_noting (place : Place) :
    (s.noting notes).isSelfBound place = s.isSelfBound place := by
  cases place <;> rfl

@[simp] theorem separate_noting (place : Place) :
    (s.noting notes).separate place
      = ((s.separate place).1, (s.separate place).2.noting notes) := by
  cases place <;> rfl

end Store

namespace Effect

/-- The ending with other notes. -/
def noting {α : Type} (ending : Except Fault α × Store) (notes : Array Note) :
    Except Fault α × Store :=
  (ending.1, ending.2.noting notes)

variable (constants : Array Value) (instr : Instruction) (s : Store) (notes : Array Note)

theorem setFieldAt_noting (place : Place) (key : String) (v : Value) :
    setFieldAt place key v (s.noting notes) = noting (setFieldAt place key v s) notes := by
  simp only [setFieldAt, Store.isSelfBound_noting, Store.separate_noting, Store.peek_noting]
  split
  · rfl
  · split <;> rfl

theorem binary_noting (g : Heap → Value → Value → Except Fault Value) :
    binary constants instr g (s.noting notes) = noting (binary constants instr g s) notes := by
  simp only [binary, Store.shown_noting, Store.heap_noting]
  split
  · rfl
  · simp [noting]

/-- An effect does not read the notes and leaves them alone. -/
theorem of_noting (f : Function) (pc : Nat) :
    Effect.of f instr pc (s.noting notes) = noting (Effect.of f instr pc s) notes := by
  unfold Effect.of
  cases instr.opcode with
  | assign => simp [assign, noting]
  | assignRef => simp [assignRef, noting]
  | newComposite =>
    simp only [newComposite, Store.held_noting]
    split
    · simp only [noting, ← Store.assign_noting]
      rfl
    · rfl
  | setField =>
    simp only [setField, Store.shown_noting, Store.target_noting, Store.acquire_noting,
      Store.defining_noting, setFieldAt_noting]
    split
    · rfl
    · rename_i key _
      generalize setFieldAt _ key _ _ = ending
      obtain ⟨result, t⟩ := ending
      cases result with
      | error fault => rfl
      | ok _ => simp [noting]
  | getField =>
    simp only [getField, Store.shown_noting, Store.heap_noting]
    split
    · rfl
    · split
      · simp [noting]
      · rfl
  | free => simp [noting]
  | jmpIfFalse =>
    simp only [jumpIfFalse, Store.shown_noting, Store.heap_noting]
    split
    · rfl
    · simp [noting]
  | ret => simp [finish, noting]
  | arithmetic op => exact binary_noting _ _ _ _ _
  | boolXor => exact binary_noting _ _ _ _ _
  | comparison op => exact binary_noting _ _ _ _ _
  | compound op =>
    simp only [compound, Store.shown_noting, Store.acquire_noting, Store.heap_noting,
      Store.target_noting, Store.peek_noting]
    split
    · simp [noting]
    · simp [noting]
  | unary op => exact binary_noting _ _ _ _ fun h a _ => Operator.unary h op a
  | step time direction =>
    simp only [step, Store.target_noting, Store.peek_noting]
    split
    · simp [noting]
    · split
      · simp [noting]
      · simp [noting]
  | _ => rfl

/-- The end of an instruction does not read the notes and leaves them alone. -/
theorem finishing_noting (ending : Except Fault Flow × Store) (notes : Array Note) :
    finishing (noting ending notes) = noting (finishing ending) notes := by
  obtain ⟨result, s⟩ := ending
  cases result with
  | ok flow => rfl
  | error fault => cases fault <;> rfl

/-- Two endings have the same result, heap and frame. -/
structure Agrees {α : Type} (first second : Except Fault α × Store) : Prop where
  result : first.1 = second.1
  store : first.2.Agrees second.2

/-- Where stores agree, instructions have the same effect. -/
theorem agrees_of (f : Function) (pc : Nat) {s t : Store} (agrees : s.Agrees t) :
    Agrees (finishing (Effect.of f instr pc s)) (finishing (Effect.of f instr pc t)) := by
  rw [agrees.eq_noting, of_noting, finishing_noting]
  exact ⟨rfl, Store.agrees_noting _ _⟩

end Effect

/-! ## Runs in step -/

namespace Machine

/-- The machine without handlers. -/
def plain (m : Machine) : Machine := { m with table := .empty }

end Machine

/-- Two runs stand at the same position with the same heap and frame after as many
instructions. -/
structure Progress.Agrees (p q : Progress) : Prop where
  store : p.store.Agrees q.store
  pc : p.pc = q.pc
  instructions : p.statistics.instructions = q.statistics.instructions

/-- Two runs have come equally far. -/
inductive Step.Agrees : Step → Step → Prop
  | running {p q : Progress} (agrees : p.Agrees q) : Agrees (.running p) (.running q)
  | ended {outcome : Outcome} {p q : Progress} (agrees : p.Agrees q) :
    Agrees (.ended outcome p) (.ended outcome q)

/-- Where a run stands the store is accounted for, and the scratch slot is bound to no cell. -/
structure Progress.Rests (f : Function) (outside : Node → Nat) (p : Progress) : Prop where
  accounted : p.store.Accounted f outside []
  scratch : p.store.frame.scratch.Plain

/-- Instructions with handlers end like the built-in ones wherever the store is
accounted for and the scratch slot is bound to no cell. -/
def Machine.Transparent (m : Machine) (f : Function) (outside : Node → Nat) : Prop :=
  ∀ {pc instr handler category} {s : Store}, f.code[pc]? = some instr →
    m.table.lookup instr.opcode = some handler → instr.opcode.category? = some category →
    s.Accounted f outside [] → s.frame.scratch.Plain →
    Effect.Agrees (Effect.calling m.options.negationOrder f instr pc category handler s)
      (Effect.finishing (Effect.of f instr pc s))

/-- Instructions with handlers end like the built-in ones wherever the store is accounted for,
the scratch slot is bound to no cell and the heap is as assumed. -/
def Machine.TransparentWhere (m : Machine) (f : Function) (outside : Node → Nat)
    (assumed : Heap → Prop) : Prop :=
  ∀ {pc instr handler category} {s : Store}, f.code[pc]? = some instr →
    m.table.lookup instr.opcode = some handler → instr.opcode.category? = some category →
    s.Accounted f outside [] → s.frame.scratch.Plain → assumed s.heap →
    Effect.Agrees (Effect.calling m.options.negationOrder f instr pc category handler s)
      (Effect.finishing (Effect.of f instr pc s))

namespace Machine

variable {m : Machine} {f : Function} {outside : Node → Nat} {assumed : Heap → Prop}

/-- Instructions end alike with a transparent table and without one. -/
theorem agrees_dispatch (transparent : m.TransparentWhere f outside assumed) {pc : Nat}
    {instr : Instruction} (found : f.code[pc]? = some instr) {s t : Store} (agrees : s.Agrees t)
    (acc : t.Accounted f outside []) (scratch : t.frame.scratch.Plain) (holds : assumed t.heap) :
    Effect.Agrees (Effect.dispatch m f instr pc s) (Effect.dispatch m.plain f instr pc t) := by
  have same := Effect.agrees_of instr f pc agrees
  have builtIn : Effect.dispatch m.plain f instr pc t = Effect.finishing (Effect.of f instr pc t) :=
    rfl
  rw [builtIn, Effect.dispatch]
  split
  · rename_i handler category look has
    have acc' := acc.congr agrees.symm
    have scratch' : s.frame.scratch.Plain := by
      rw [agrees.frame]
      exact scratch
    have called := transparent found look has acc' scratch' (agrees.heap ▸ holds)
    exact ⟨called.result.trans same.result, called.store.trans same.store⟩
  · exact same

/-- A step of the machine without handlers keeps a run at rest. -/
theorem rests_step (verified : f.Verified) {p q : Progress} (rests : p.Rests f outside)
    (steps : m.plain.step f p = .running q) : q.Rests f outside := by
  cases found : f.code[p.pc]? with
  | none =>
    rw [step, found] at steps
    cases steps
  | some instr =>
    obtain ⟨statistics, -, eq⟩ := step_eq (m := m.plain) verified found rests.accounted.fits
    have acc := Effect.finishing_accounted (Effect.of_accounted verified found rests.accounted)
    have builtIn : Effect.dispatch m.plain f instr p.pc p.store
        = Effect.finishing (Effect.of f instr p.pc p.store) := rfl
    have scratch : ∀ flow, (Effect.of f instr p.pc p.store).1 = .ok flow →
        (Effect.finishing (Effect.of f instr p.pc p.store)).2.frame.scratch = .null :=
      fun flow flows => Effect.scratch_finishing flows
    rw [eq, builtIn] at steps
    rw [← Effect.fst_finishing] at scratch acc
    generalize Effect.finishing (Effect.of f instr p.pc p.store) = ending at steps scratch acc
    obtain ⟨result, s⟩ := ending
    cases result with
    | error fault => cases steps
    | ok flow =>
      cases flow with
      | next =>
        cases steps
        exact ⟨acc, Value.plain_of_scalar (congrArg Value.node? (scratch _ rfl))⟩
      | jump target =>
        cases steps
        exact ⟨acc, Value.plain_of_scalar (congrArg Value.node? (scratch _ rfl))⟩
      | finish v => cases steps

/-- One instruction keeps runs in step. -/
theorem agrees_step (verified : f.Verified) (transparent : m.TransparentWhere f outside assumed)
    {p q : Progress} (agrees : p.Agrees q) (rests : q.Rests f outside)
    (holds : assumed q.store.heap) :
    (m.step f p).Agrees (m.plain.step f q) := by
  cases found : f.code[q.pc]? with
  | none =>
    have found' : f.code[p.pc]? = none := by rw [agrees.pc, found]
    rw [step, found', step, found, agrees.pc]
    exact .ended agrees
  | some instr =>
    have found' : f.code[p.pc]? = some instr := by rw [agrees.pc, found]
    have fits : p.store.frame.Fits f := by
      rw [agrees.store.frame]
      exact rests.accounted.fits
    obtain ⟨first, count, eq⟩ := step_eq (m := m) verified found' fits
    obtain ⟨second, count', eq'⟩ := step_eq (m := m.plain) verified found rests.accounted.fits
    have same := agrees_dispatch transparent found agrees.store rests.accounted rests.scratch
      holds
    have counts : first.instructions = second.instructions := by
      rw [count, count', agrees.instructions]
    rw [eq, eq', agrees.pc]
    have settings : m.plain.options = m.options := rfl
    rw [settings]
    generalize Effect.dispatch m f instr q.pc p.store = one at same
    generalize Effect.dispatch m.plain f instr q.pc q.store = two at same
    obtain ⟨result, s⟩ := one
    obtain ⟨result', t⟩ := two
    obtain ⟨eqs, stores⟩ := same
    dsimp only at eqs stores
    subst eqs
    cases result with
    | error fault => exact .ended ⟨stores, rfl, counts⟩
    | ok flow =>
      cases flow with
      | next => exact .running ⟨stores, rfl, counts⟩
      | jump target => exact .running ⟨stores, rfl, counts⟩
      | finish v => exact .ended ⟨stores, rfl, counts⟩

/-- Any number of instructions keeps runs in step. -/
theorem agrees_runFor (verified : f.Verified)
    (transparent : m.TransparentWhere f outside assumed)
    (keeps : m.plain.Keeps f fun _ s => assumed s.heap) (n : Nat) {p q : Progress}
    (agrees : p.Agrees q) (rests : q.Rests f outside) (holds : assumed q.store.heap) :
    (m.runFor f n p).Agrees (m.plain.runFor f n q) := by
  induction n generalizing p q with
  | zero => exact .running agrees
  | succ n ih =>
    have one := agrees_step verified transparent agrees rests holds
    have kept := keeps.step verified rests.accounted.fits holds
    rw [runFor, runFor]
    cases eq : m.step f p with
    | running p' =>
      cases eq' : m.plain.step f q with
      | running q' =>
        rw [eq, eq'] at one
        rw [eq'] at kept
        obtain ⟨agrees'⟩ := one
        exact ih agrees' (rests_step verified rests eq') kept
      | ended outcome q' =>
        rw [eq, eq'] at one
        cases one
    | ended outcome p' =>
      cases eq' : m.plain.step f q with
      | running q' =>
        rw [eq, eq'] at one
        cases one
      | ended outcome' q' =>
        rw [eq, eq'] at one
        exact one

end Machine

/-- A store between runs: every node has as many handles as are in the heap, in the
frame and outside, the function's constants are among the holders outside, and
the scratch slot is bound to no cell. -/
structure Store.AtRest (f : Function) (outside : Node → Nat) (s : Store) : Prop where
  owns : s.Owns [] outside
  constants : ∀ node : Node, node.uses f.constants.toList ≤ outside node
  scratch : s.frame.scratch.Plain

/-- Two executions end with the same outcome, heap and frame, after as many
instructions. -/
structure SameEnding (first second : Outcome × Machine × Store) : Prop where
  outcome : first.1 = second.1
  heap : first.2.2.heap = second.2.2.heap
  frame : first.2.2.frame = second.2.2.frame
  instructions : first.2.1.statistics.instructions = second.2.1.statistics.instructions

namespace Machine

variable {m : Machine} {f : Function} {outside : Node → Nat} {s : Store}

/-- Growing a frame adds no handles. -/
theorem uses_prepare (node : Node) (frame : Frame) (temporaryCount variableCount : Nat) :
    node.uses (frame.prepare temporaryCount variableCount).values = node.uses frame.values := by
  have nulls : ∀ n, node.uses (List.replicate n Value.null) = 0 := by
    intro n
    induction n with
    | zero => rfl
    | succ n ih => rw [List.replicate_succ, Node.uses_cons, ih, Node.usedBy_null]
  simp only [Frame.values, Frame.prepare, Frame.extend, Array.toList_append,
    Array.toList_replicate, Node.uses_append, nulls]
  omega

/-- A run starts with the accounts even if they are. -/
theorem accounted_start (m : Machine) (owns : s.Owns [] outside)
    (constants : ∀ node : Node, node.uses f.constants.toList ≤ outside node) :
    (m.start f s).store.Accounted f outside [] := by
  refine ⟨s.frame.fits_prepare f, Heap.Accounts.congr owns fun node => ?_, constants⟩
  have same := uses_prepare node s.frame f.temporaries f.variableNames.size
  simp only [start, Node.uses_append, same]

/-- A run starts at rest in a store at rest. -/
theorem rests_start (m : Machine) (rest : s.AtRest f outside) :
    (m.start f s).Rests f outside where
  accounted := m.accounted_start rest.owns rest.constants
  scratch := rest.scratch

/-- With a table that is transparent where the heap is as the built-in instructions keep it,
a function is executed as without one. -/
theorem sameEnding_of_transparentWhere {assumed : Heap → Prop} (verified : f.verify = .ok ())
    (rest : s.AtRest f outside) (holds : assumed s.heap)
    (keeps : m.plain.Keeps f fun _ s => assumed s.heap)
    (transparent : m.TransparentWhere f outside assumed) :
    SameEnding (m.executeIn f s) (m.plain.executeIn f s) := by
  have start : (m.start f s).Agrees (m.plain.start f s) := ⟨⟨rfl, rfl⟩, rfl, rfl⟩
  have runs := agrees_runFor (Function.verified_of_verify verified) transparent keeps
    (budget m.options.maxInstructions) start (m.plain.rests_start rest) holds
  have settings : m.plain.options = m.options := rfl
  rw [executeIn_eq m verified, executeIn_eq m.plain verified, settings]
  generalize m.runFor f (budget m.options.maxInstructions) (m.start f s) = one at runs
  generalize m.plain.runFor f (budget m.options.maxInstructions) (m.plain.start f s) = two at runs
  cases runs with
  | @running p q agrees =>
    have same : cutShort f m.options.maxInstructions p
        = cutShort f m.options.maxInstructions q := by
      unfold cutShort
      rw [agrees.pc]
    exact ⟨same, agrees.store.heap, agrees.store.frame, agrees.instructions⟩
  | ended agrees => exact ⟨rfl, agrees.store.heap, agrees.store.frame, agrees.instructions⟩

/-- With a transparent table a function is executed as without one. -/
theorem sameEnding_of_transparent (verified : f.verify = .ok ()) (rest : s.AtRest f outside)
    (transparent : m.Transparent f outside) :
    SameEnding (m.executeIn f s) (m.plain.executeIn f s) :=
  @sameEnding_of_transparentWhere m f outside s (fun _ => True) verified rest trivial
    (fun _ _ _ _ _ => trivial) fun found look has acc scratch _ =>
      transparent found look has acc scratch

end Machine

end OverloadMachine
