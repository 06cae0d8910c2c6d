import OverloadMachine.Proofs.Steps

/-!
# Accounts of instructions

Every effect of a verified instruction keeps the accounts of the store even: what
it acquires it stores or gives up, on faults too, and only the value that ends a
run passes to the caller. So the number of handles of a node is the number of its
holders at every step of a run, whatever was run before.
-/

namespace OverloadMachine

namespace Operator

/-! ## Operators make scalars -/

/-- The value of a number is a scalar. -/
theorem node?_toValue (n : Number) : n.toValue.node? = none := by
  cases n <;> rfl

/-- What an operator makes of two numbers is a scalar. -/
theorem node?_onNumbers {op : Opcode} {g : Number → Number → Except Fault Number} {a b v : Value}
    (made : onNumbers op g a b = .ok v) : v.node? = none := by
  obtain ⟨x, -, made⟩ := bind_eq_ok.mp made
  obtain ⟨y, -, made⟩ := bind_eq_ok.mp made
  obtain ⟨z, -, made⟩ := bind_eq_ok.mp made
  cases made
  exact node?_toValue z

/-- What an operator makes of two integers is a scalar. -/
theorem node?_onIntegers {op : Opcode} {g : Int64 → Int64 → Except Fault Int64} {a b v : Value}
    (made : onIntegers op g a b = .ok v) : v.node? = none := by
  obtain ⟨x, -, made⟩ := bind_eq_ok.mp made
  obtain ⟨y, -, made⟩ := bind_eq_ok.mp made
  obtain ⟨z, -, made⟩ := bind_eq_ok.mp made
  cases made
  rfl

/-- Built-in arithmetic makes scalars. -/
theorem node?_arithmetic {h : Heap} {op : ArithmeticOp} {a b v : Value}
    (made : arithmetic h op a b = .ok v) : v.node? = none := by
  unfold arithmetic at made
  dsimp only at made
  split at made
  · cases made
  · cases op with
    | concat =>
      cases made
      rfl
    | mod => exact node?_onIntegers made
    | shl => exact node?_onIntegers made
    | shr => exact node?_onIntegers made
    | bitAnd => exact node?_onIntegers made
    | bitOr => exact node?_onIntegers made
    | bitXor => exact node?_onIntegers made
    | _ => exact node?_onNumbers made

/-- Exclusive disjunctions make scalars. -/
theorem node?_boolXor {h : Heap} {a b v : Value} (made : boolXor h a b = .ok v) :
    v.node? = none := by
  obtain ⟨x, -, made⟩ := bind_eq_ok.mp made
  obtain ⟨y, -, made⟩ := bind_eq_ok.mp made
  cases made
  rfl

/-- Unary operators make scalars. -/
theorem node?_unary {h : Heap} {op : UnaryOp} {a v : Value} (made : unary h op a = .ok v) :
    v.node? = none := by
  cases op with
  | boolNot =>
    unfold unary at made
    cases truth : h.truth? a with
    | none =>
      rw [truth] at made
      cases made
    | some truthy =>
      rw [truth] at made
      cases made
      rfl
  | bitNot =>
    cases a with
    | int i =>
      cases made
      rfl
    | float x =>
      unfold unary at made
      dsimp only at made
      split at made <;> cases made
      rfl
    | _ => cases made

/-- Steps make scalars. -/
theorem node?_step {time : StepTime} {direction : StepDirection} {a v : Value}
    (made : step time direction a = .ok v) : v.node? = none := by
  cases a with
  | null => cases direction <;> cases made <;> rfl
  | bool b =>
    cases made
    rfl
  | int i =>
    cases made
    exact node?_toValue _
  | float x =>
    cases made
    exact node?_toValue _
  | str s =>
    unfold step at made
    dsimp only at made
    split at made <;> cases made
    exact node?_toValue _
  | ref cell => cases made
  | composite id => cases made

/-- Comparisons make scalars. -/
theorem node?_comparison (h : Heap) (op : ComparisonOp) (a b : Value) :
    (comparison h op a b).node? = none := by
  cases op with
  | spaceship =>
    unfold comparison
    dsimp only
    split <;> rfl
  | _ => rfl

/-- Comparisons that end make scalars. -/
theorem node?_ending_comparison? {h : Heap} {op : ComparisonOp} {a b v : Value}
    (made : Fault.ending (comparison? h op a b) = .ok v) : v.node? = none := by
  have is : comparison h op a b = v := by
    cases found : comparison? h op a b with
    | none =>
      rw [found] at made
      cases made
    | some w =>
      rw [found] at made
      cases made
      exact comparison_of_comparison? found
  exact is ▸ node?_comparison h op a b

/-- Arithmetic takes scalars only. -/
theorem scalars_of_arithmetic {h : Heap} {op : ArithmeticOp} {a b v : Value}
    (made : arithmetic h op a b = .ok v) : a.node? = none ∧ b.node? = none := by
  unfold arithmetic at made
  dsimp only at made
  split at made
  · cases made
  · rename_i scalars
    constructor
    · cases a <;> first | rfl | exact absurd rfl scalars
    · cases b <;> first | rfl | exact absurd (Bool.or_true _) scalars

/-- Steps take scalars only. -/
theorem scalar_of_step {time : StepTime} {direction : StepDirection} {a v : Value}
    (made : step time direction a = .ok v) : a.node? = none := by
  cases a <;> first | rfl | cases made

end Operator

namespace Store

/-! ## Accounts -/

/-- The frame is large enough for a function and the store is accounted for, with
the function's constants among the holders outside. -/
structure Accounted (f : Function) (outside : Node → Nat) (held : List Value) (s : Store) :
    Prop where
  fits : s.frame.Fits f
  owns : s.Owns held outside
  constants : ∀ node : Node, node.uses f.constants.toList ≤ outside node

namespace Accounted

variable {f : Function} {outside : Node → Nat} {held : List Value} {s : Store} {v : Value}
  {o : Operand}

/-- A literal is alive. -/
theorem alive_const (acc : s.Accounted f outside held) (i : Nat) :
    s.heap.Alive (f.constants[i]?.getD .null) := by
  cases found : f.constants[i]? with
  | none => exact s.heap.alive_of_node?_eq_none rfl
  | some w =>
    refine Heap.Accounts.alive_outside acc.owns fun node => ?_
    have mem : w ∈ f.constants.toList := Array.mem_toList_iff.mpr (Array.mem_of_getElem? found)
    exact Nat.le_trans (node.usedBy_le_uses mem) (acc.constants node)

/-- What the slot of an operand holds is alive. -/
theorem alive_slot (acc : s.Accounted f outside held) (o : Operand) :
    s.heap.Alive (s.held f.constants o) := by
  cases o with
  | unused => exact s.heap.alive_of_node?_eq_none rfl
  | const i => exact acc.alive_const i
  | _ => exact acc.owns.alive_get _

/-- What an operand shows is alive. -/
theorem alive_shown (acc : s.Accounted f outside held) (o : Operand) :
    s.heap.Alive (s.shown f.constants o) := by
  unfold Store.shown Heap.lookThrough
  split
  · exact acc.owns.alive_content _
  · exact acc.alive_slot o

/-- What is held is alive. -/
theorem alive_held (acc : s.Accounted f outside held) (mem : v ∈ held) : s.heap.Alive v :=
  acc.owns.alive_held mem

/-- The place of an operand is there. -/
theorem hasPlace (acc : s.Accounted f outside held) (within : o.Within f) :
    s.HasPlace (s.target f.constants o) :=
  acc.owns.hasPlace_placeOf (within.has_slot acc.fits)

/-- A scalar may be held. -/
theorem scalar (acc : s.Accounted f outside held) (scalar : v.node? = none) :
    s.Accounted f outside (v :: held) where
  fits := acc.fits
  owns := acc.owns.congr fun node => by
    rw [Node.uses_cons, Node.usedBy_of_node?_eq_none node scalar, Nat.zero_add]
  constants := acc.constants

theorem acquire (acc : s.Accounted f outside held) (alive : s.heap.Alive v) :
    (s.acquire v).Accounted f outside (v :: held) :=
  ⟨acc.fits, acc.owns.acquire alive, acc.constants⟩

theorem release (acc : s.Accounted f outside (v :: held)) :
    (s.release v).Accounted f outside held :=
  ⟨acc.fits, acc.owns.release, acc.constants⟩

theorem overwrite {place : Place} (acc : s.Accounted f outside (v :: held))
    (has : s.HasPlace place) : (s.overwrite place v).Accounted f outside held :=
  ⟨(s.fits_overwrite place v f).mpr acc.fits, acc.owns.overwrite has, acc.constants⟩

theorem put {place : Place} (acc : s.Accounted f outside (v :: held)) (has : s.HasPlace place) :
    (s.put place v).Accounted f outside (s.peek place :: held) :=
  ⟨(s.fits_put place v f).mpr acc.fits, acc.owns.put has, acc.constants⟩

theorem defining (acc : s.Accounted f outside held) (o : Operand) :
    (s.defining f.constants o).Accounted f outside held where
  fits := (s.fits_defining _ _ f).mpr acc.fits
  owns := by
    unfold Store.defining
    split
    · refine Heap.Accounts.congr acc.owns fun node => ?_
      simp only [Node.uses_append, Frame.uses_define]
    · exact acc.owns
  constants := acc.constants

/-- Defining a variable removes no place. -/
theorem hasPlace_defining (acc : s.Accounted f outside held) (within : o.Within f) (p : Operand) :
    (s.defining f.constants p).HasPlace (s.target f.constants o) := by
  have has := (acc.defining p).hasPlace within
  rwa [target, placeOf_defining] at has

theorem assign (acc : s.Accounted f outside (v :: held)) (within : o.Within f) :
    (s.assign f.constants o v).Accounted f outside held :=
  (acc.defining o).overwrite (acc.hasPlace_defining within o)

theorem yield (acc : s.Accounted f outside held) (within : o.Within f) (alive : s.heap.Alive v) :
    (s.yield f.constants o v).Accounted f outside held := by
  unfold Store.yield
  split
  · exact acc
  · exact (acc.acquire alive).assign within

theorem vacate (acc : s.Accounted f outside held) (within : o.Within f) :
    (s.vacate o).Accounted f outside held := by
  cases o with
  | temp i => exact (acc.scalar rfl).overwrite (within.has_slot acc.fits)
  | _ => exact acc

theorem vacateRead (acc : s.Accounted f outside held) {instr : Instruction}
    (first : instr.op1.Within f) (second : instr.op2.Within f) :
    (s.vacateRead instr).Accounted f outside held := by
  have one : (if instr.op1 ≠ instr.result then s.vacate instr.op1 else s).Accounted f outside
      held := by
    split
    · exact acc.vacate first
    · exact acc
  unfold Store.vacateRead
  dsimp only
  split
  · exact one.vacate second
  · exact one

/-- A new composite without fields is held. -/
theorem create (acc : s.Accounted f outside held) (className : String) :
    ({ s with heap := (s.heap.create className .empty).2 } : Store).Accounted f outside
      (.composite (s.heap.create className .empty).1 :: held) where
  fits := acc.fits
  owns := by
    have first : s.heap.Accounts
        ((OrderedMap.empty : NameMap Value).values ++ (s.frame.values ++ held)) outside := acc.owns
    refine (first.create className).congr fun node => ?_
    simp only [Node.uses_append, Node.uses_cons]
    omega
  constants := acc.constants

/-- An unbound slot that is bound to a new cell, of which the caller gets a handle. -/
theorem bind_new (acc : s.Accounted f outside held) {slot : Slot} (has : s.frame.Has slot) :
    ({ s with
      heap := (s.heap.createCell (s.frame.get slot)).2.acquire
        (.ref (s.heap.createCell (s.frame.get slot)).1)
      frame := s.frame.put slot (.ref (s.heap.createCell (s.frame.get slot)).1) } :
        Store).Accounted f outside (.ref (s.heap.createCell (s.frame.get slot)).1 :: held) where
  fits := (s.frame.fits_put slot _ f).mpr acc.fits
  owns := by
    -- The slot's value passes to the cell, and the slot gets a handle of the cell.
    have first : s.heap.Accounts
        (s.frame.get slot :: ((s.frame.put slot .null).values ++ held)) outside :=
      Heap.Accounts.congr acc.owns fun node => by
        have sum := s.frame.uses_put node has .null
        rw [Node.usedBy_null] at sum
        simp only [Node.uses_append, Node.uses_cons]
        omega
    have made := first.createCell
    refine (made.acquire (made.alive List.mem_cons_self)).congr fun node => ?_
    have empty := s.frame.uses_put node has .null
    have full := s.frame.uses_put node has (.ref (s.heap.createCell (s.frame.get slot)).1)
    rw [Node.usedBy_null] at empty
    simp only [Node.uses_append, Node.uses_cons]
    omega
  constants := acc.constants

/-- The caller of a binding gets a handle of the cell. -/
theorem bound (acc : s.Accounted f outside held) {slot : Slot} (has : s.frame.Has slot) :
    (s.bound slot).2.Accounted f outside (.ref (s.bound slot).1 :: held) := by
  have new := acc.bind_new has
  unfold Store.bound
  cases value : s.frame.get slot with
  | ref cell =>
    have alive := acc.owns.alive_get slot
    rw [value] at alive
    exact acc.acquire alive
  | _ =>
    rw [value] at new
    exact new

end Accounted

end Store

namespace Effect

/-! ## Instructions -/

variable {f : Function} {instr : Instruction} {pc : Nat} {outside : Node → Nat}
  {held : List Value} {s : Store}

/-- The handles that pass to the caller with a result. -/
def given : Except Fault Flow → List Value
  | .ok (.finish v) => [v]
  | _ => []

theorem assign_accounted (checked : instr.Checked f pc) (acc : s.Accounted f outside held) :
    (assign f.constants instr s).2.Accounted f outside held := by
  have loaded := acc.acquire (acc.alive_shown instr.op2)
  have vacated := loaded.vacateRead checked.op1 checked.op2
  exact (vacated.yield checked.result (vacated.alive_held List.mem_cons_self)).assign checked.op1

theorem assignRef_accounted (checked : instr.Checked f pc) (acc : s.Accounted f outside held) :
    (assignRef f.constants instr s).2.Accounted f outside held := by
  have defined := acc.defining instr.op2
  have bound := defined.bound (checked.op2.has_slot defined.fits)
  have again := bound.defining instr.op1
  exact again.overwrite (checked.op1.has_slot again.fits)

theorem compound_accounted (checked : instr.Checked f pc) (acc : s.Accounted f outside held)
    (op : ArithmeticOp) : (compound f.constants instr op s).2.Accounted f outside held := by
  have loaded := acc.acquire (acc.alive_shown instr.op2)
  unfold compound
  dsimp only
  split
  · exact (loaded.defining instr.op1).release
  · rename_i v made
    have scalar := Operator.node?_arithmetic made
    have vacated := ((loaded.scalar scalar).assign checked.op1).vacateRead checked.op1 checked.op2
    exact (vacated.yield checked.result (Heap.alive_of_node?_eq_none _ scalar)).release

theorem step_accounted (checked : instr.Checked f pc) (acc : s.Accounted f outside held)
    (time : StepTime) (direction : StepDirection) :
    (step f.constants instr time direction s).2.Accounted f outside held := by
  unfold step
  dsimp only
  split
  · exact acc.defining instr.op1
  · rename_i v made
    have scalar := Operator.node?_step made
    cases time with
    | pre =>
      have assigned := (acc.scalar scalar).assign checked.op1
      exact assigned.yield checked.result (Heap.alive_of_node?_eq_none _ scalar)
    | post =>
      have has := acc.hasPlace_defining checked.op1 instr.op1
      have updated := ((acc.defining instr.op1).scalar scalar).put has
      rw [Store.peek_defining] at updated
      exact updated.assign checked.result

theorem binary_accounted (checked : instr.Checked f pc) (acc : s.Accounted f outside held)
    {g : Heap → Value → Value → Except Fault Value}
    (scalar : ∀ {h a b v}, g h a b = .ok v → v.node? = none) :
    (binary f.constants instr g s).2.Accounted f outside held := by
  unfold binary
  split
  · exact acc
  · rename_i v made
    exact ((acc.vacateRead checked.op1 checked.op2).scalar (scalar made)).assign checked.result

theorem unary_accounted (checked : instr.Checked f pc) (acc : s.Accounted f outside held)
    (op : UnaryOp) : (unary f.constants instr op s).2.Accounted f outside held := by
  unfold unary
  split
  · exact acc
  · rename_i v made
    exact ((acc.vacateRead checked.op1 checked.op2).scalar (Operator.node?_unary made)).assign
      checked.result

theorem newComposite_accounted (checked : instr.Checked f pc) (acc : s.Accounted f outside held) :
    (newComposite f.constants instr s).2.Accounted f outside held := by
  unfold newComposite
  split
  · rename_i className _
    exact (acc.create className).assign checked.result
  · exact acc

theorem setFieldAt_accounted {place : Place} {v : Value} (key : String)
    (acc : s.Accounted f outside (v :: held)) (has : s.HasPlace place) :
    (setFieldAt place key v s).2.Accounted f outside held := by
  unfold setFieldAt
  split
  · exact acc.release
  · have separated : (s.separate place).2.Accounted f outside (v :: held) :=
      ⟨(s.fits_separate place f).mpr acc.fits, acc.owns.separate has, acc.constants⟩
    dsimp only
    split
    · rename_i id _
      have first : (s.separate place).2.heap.Accounts
          (v :: ((s.separate place).2.frame.values ++ held)) outside :=
        Heap.Accounts.congr separated.owns fun node => by
          simp only [Node.uses_append, Node.uses_cons]
          omega
      exact ⟨separated.fits, first.setField id key, acc.constants⟩
    · exact separated.release

theorem setField_accounted {data : Instruction} (checked : instr.Checked f pc)
    (operand : data.op1.Within f) (acc : s.Accounted f outside held) :
    (setField f.constants instr data pc s).2.Accounted f outside held := by
  unfold setField
  split
  · exact acc
  · rename_i key _
    have loaded := acc.acquire (acc.alive_shown data.op1)
    have has := loaded.hasPlace_defining checked.op1 instr.op1
    have set := setFieldAt_accounted key (loaded.defining instr.op1) has
    dsimp only
    split
    · rename_i eq
      rw [Store.target, Store.placeOf_acquire, ← Store.target, eq] at set
      exact set
    · rename_i eq
      rw [Store.target, Store.placeOf_acquire, ← Store.target, eq] at set
      exact (set.vacate checked.op2).vacate operand

theorem getField_accounted (checked : instr.Checked f pc) (acc : s.Accounted f outside held) :
    (getField f.constants instr s).2.Accounted f outside held := by
  unfold getField
  split
  · exact acc
  · rename_i key _
    split
    · rename_i id shown
      have alive := (Heap.Accounts.closed acc.owns).alive_field id key
      have loaded := acc.acquire alive
      exact ((loaded.vacate checked.op1).vacate checked.op2).assign checked.result
    · exact acc

/-- Only the end of a run gives a handle to the caller. -/
theorem given_of (ends : instr.opcode ≠ .ret) : given (Effect.of f instr pc s).1 = [] := by
  cases result : (Effect.of f instr pc s).1 with
  | error fault => rfl
  | ok flow =>
    rcases flow_of result with ⟨rfl, -⟩ | ⟨rfl, -⟩ | ⟨rfl, -⟩ | ⟨-, is⟩
    · rfl
    · rfl
    · rfl
    · exact absurd is ends

/-- An instruction keeps the accounts even; the value that ends a run passes to the
caller. -/
theorem of_accounted (verified : f.Verified) (found : f.code[pc]? = some instr)
    (acc : s.Accounted f outside held) :
    (Effect.of f instr pc s).2.Accounted f outside
      (given (Effect.of f instr pc s).1 ++ held) := by
  have checked := verified.checked found
  by_cases ends : instr.opcode = .ret
  · have loaded := acc.acquire (acc.alive_shown instr.op1)
    unfold Effect.of
    rw [ends]
    exact loaded.vacate checked.op1
  · rw [given_of ends, List.nil_append]
    unfold Effect.of
    cases is : instr.opcode with
    | nop => exact acc
    | assign => exact assign_accounted checked acc
    | assignRef => exact assignRef_accounted checked acc
    | newComposite => exact newComposite_accounted checked acc
    | setField =>
      obtain ⟨-, data, behind, -⟩ := checked.setField is
      dsimp only
      rw [behind, Option.getD_some]
      exact setField_accounted checked (verified.checked behind).op1 acc
    | opData => exact acc
    | getField => exact getField_accounted checked acc
    | free => exact acc.vacate checked.op1
    | jmp => exact acc
    | jmpIfFalse =>
      dsimp only
      unfold jumpIfFalse
      split
      · exact acc
      · exact acc.vacate checked.op1
    | ret => exact absurd is ends
    | arithmetic op => exact binary_accounted checked acc Operator.node?_arithmetic
    | boolXor => exact binary_accounted checked acc Operator.node?_boolXor
    | comparison op => exact binary_accounted checked acc Operator.node?_ending_comparison?
    | compound op => exact compound_accounted checked acc op
    | unary op => exact unary_accounted checked acc op
    | step time direction => exact step_accounted checked acc time direction

/-- The end of a built-in instruction keeps the accounts even. -/
theorem finishing_accounted {ending : Except Fault Flow × Store}
    (acc : ending.2.Accounted f outside held) :
    (finishing ending).2.Accounted f outside held := by
  have cleared : (ending.2.overwrite (.slot .scratch) .null).Accounted f outside held :=
    (acc.scalar rfl).overwrite (show ending.2.HasPlace (.slot .scratch) from trivial)
  unfold finishing
  split
  · exact acc
  · exact cleared

/-- Behind an instruction that the run survives the scratch slot is empty. -/
theorem scratch_finishing {ending : Except Fault Flow × Store} {flow : Flow}
    (flows : ending.1 = .ok flow) : (finishing ending).2.frame.scratch = .null := by
  obtain ⟨result, s⟩ := ending
  cases flows
  rfl

end Effect

end OverloadMachine
