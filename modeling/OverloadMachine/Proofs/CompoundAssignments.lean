import OverloadMachine.Proofs.Failures
import OverloadMachine.Proofs.InterceptedCalls
import OverloadMachine.Proofs.NativeOperators
import OverloadMachine.Proofs.Sharing

/-!
# Compound assignment

A compound assignment loads its operand, replaces the value of its variable, empties
what it has read and stores its result. The plain operator with an assignment behind it
empties what it has read first, keeps the value in a temporary, and stores the result
before the variable. Operators make scalars, so the two differ in the order of writes
alone: both come to the same store, whatever the operands and the result share, or end
in the same fault.
-/

namespace OverloadMachine

/-- The plain operator in place of a compound assignment, with its result in a temporary. -/
def Instruction.operatorPart (instr : Instruction) (base : Opcode) (i : Nat) : Instruction :=
  { instr with opcode := base, result := .temp i }

/-- The assignment of what the plain operator has left in a temporary. -/
def Instruction.assignmentPart (instr : Instruction) (i : Nat) : Instruction :=
  { instr with opcode := .assign, op2 := .temp i }

namespace Store

variable {f : Function} {outside : Node → Nat} {held : List Value} {s : Store} {o p : Operand}
  {v : Value} {i : Nat}

/-! ## Assignments in another order -/

/-- Two definitions may be made in any order. -/
theorem defining_comm (s : Store) (constants : Array Value) (o p : Operand) :
    (s.defining constants o).defining constants p
      = (s.defining constants p).defining constants o := by
  cases o with
  | dynamic j =>
    cases p with
    | dynamic k =>
      simp only [defining]
      cases (Operand.dynamic j).slot constants <;> cases (Operand.dynamic k).slot constants
        <;> first | rfl | exact ext_parts rfl (s.frame.define_comm _ _) rfl
    | _ => rfl
  | _ => rfl

/-- Operands show the same places after a scalar was written to the place of one. -/
theorem Accounted.target_overwrite (acc : s.Accounted f outside held) (scalar : v.node? = none)
    (within : o.Within f) (p : Operand) :
    (s.overwrite (s.target f.constants o) v).target f.constants p = s.target f.constants p :=
  placeOf_put (acc.hasPlace within) (Value.ne_ref_of_scalar scalar) (p.slot f.constants)

theorem Accounted.target_assign (acc : s.Accounted f outside held) (scalar : v.node? = none)
    (within : o.Within f) (p : Operand) :
    (s.assign f.constants o v).target f.constants p = s.target f.constants p := by
  have same := (acc.defining o).target_overwrite scalar within p
  rwa [target_defining, target_defining] at same

/-- A scalar may be written to the places of two operands in any order, also if they are
one place. -/
theorem Accounted.overwrite_comm (acc : s.Accounted f outside held) (scalar : v.node? = none)
    (first : o.Within f) (second : p.Within f) :
    (s.overwrite (s.target f.constants o) v).overwrite (s.target f.constants p) v
      = (s.overwrite (s.target f.constants p) v).overwrite (s.target f.constants o) v := by
  have survives : ∀ {q r : Operand}, q.Within f → r.Within f →
      (s.overwrite (s.target f.constants q) v).HasPlace (s.target f.constants r) := by
    intro q r withinQ withinR
    have has := ((acc.scalar scalar).overwrite (acc.hasPlace withinQ)).hasPlace withinR
    rwa [acc.target_overwrite scalar withinQ] at has
  by_cases same : s.target f.constants o = s.target f.constants p
  · rw [same]
  · exact Store.overwrite_comm same (survives first second) (survives second first)

/-- A scalar may be assigned to two operands in any order. -/
theorem Accounted.assign_comm (acc : s.Accounted f outside held) (scalar : v.node? = none)
    (first : o.Within f) (second : p.Within f) :
    (s.assign f.constants o v).assign f.constants p v
      = (s.assign f.constants p v).assign f.constants o v := by
  have twice : ∀ {q r : Operand}, q.Within f →
      (s.assign f.constants q v).assign f.constants r v
        = (((s.defining f.constants q).defining f.constants r).overwrite
          (s.target f.constants q) v).overwrite (s.target f.constants r) v := by
    intro q r within
    have same := acc.target_assign scalar within r
    have moved := (s.defining f.constants q).defining_overwrite (s.target f.constants q) v
      f.constants r
    rw [Store.assign, same, ← moved]
    rfl
  have exchanged := ((acc.defining o).defining p).overwrite_comm scalar first second
  simp only [target_defining] at exchanged
  rw [twice first, twice second, exchanged, defining_comm]

/-- A scalar may be assigned to an operand before it is delivered or afterwards. -/
theorem Accounted.deliver_assign (acc : s.Accounted f outside held) (scalar : v.node? = none)
    (first : o.Within f) (second : p.Within f) :
    (s.deliver f.constants p v).assign f.constants o v
      = (s.assign f.constants o v).deliver f.constants p v := by
  unfold Store.deliver
  split
  · rfl
  · exact acc.assign_comm scalar second first

theorem Accounted.deliver (acc : s.Accounted f outside held) (scalar : v.node? = none)
    (within : o.Within f) : (s.deliver f.constants o v).Accounted f outside held := by
  unfold Store.deliver
  split
  · exact acc
  · exact (acc.scalar scalar).assign within

theorem get_deliver_ne (s : Store) {constants : Array Value} {slot : Slot}
    (ne : slot ≠ o.slot constants) (v : Value) :
    (s.deliver constants o v).frame.get slot = s.frame.get slot := by
  unfold deliver
  split
  · rfl
  · exact s.get_assign_ne ne v

/-! ## Slots that are emptied -/

/-- A result may be delivered before a temporary is emptied or afterwards. -/
theorem Accounted.vacate_deliver (acc : s.Accounted f outside held) (read : p.Within f)
    (within : o.Within f) (ne : p ≠ o) :
    (s.vacate p).deliver f.constants o v = (s.deliver f.constants o v).vacate p := by
  unfold Store.deliver
  split
  · rfl
  · exact acc.vacate_assign read within ne

/-- Two slots may be emptied in any order. -/
theorem emptied_comm {slot other : Slot} (ne : slot ≠ other) (has : s.frame.Has slot)
    (has' : s.frame.Has other) :
    (s.emptied slot).emptied other = (s.emptied other).emptied slot :=
  overwrite_comm (fun eq => ne (Place.slot.inj eq)) ((Frame.has_put _ _ other .null).mpr has')
    ((Frame.has_put _ _ slot .null).mpr has)

/-- What is assigned to an empty temporary is put into it. -/
theorem assign_temp (constants : Array Value) (null : s.frame.get (.temp i) = .null) (v : Value) :
    s.assign constants (.temp i) v = s.put (.slot (.temp i)) v := by
  have place : s.target constants (.temp i) = .slot (.temp i) :=
    placeOf_of_ne_ref fun cell eq => by
      rw [Operand.slot, null] at eq
      cases eq
  have peek : s.peek (.slot (.temp i)) = .null := null
  rw [assign_eq, place, peek, release_of_scalar _ rfl]
  rfl

/-- A temporary that is given a scalar and emptied is as it was. -/
theorem vacate_assign_temp (constants : Array Value) (has : s.frame.Has (.temp i))
    (null : s.frame.get (.temp i) = .null) (scalar : v.node? = none) :
    (s.assign constants (.temp i) v).vacate (.temp i) = s := by
  have filled : s.Filled (.slot (.temp i)) := by
    rintro _ ⟨⟩
    have lt : i < s.frame.temps.size := has
    exact ⟨_, Array.getElem?_eq_getElem lt⟩
  have given : (s.put (.slot (.temp i)) v).peek (.slot (.temp i)) = v := Frame.get_put_self has v
  have back := put_peek filled
  have peek : s.peek (.slot (.temp i)) = .null := null
  calc (s.assign constants (.temp i) v).vacate (.temp i)
      = ((s.put (.slot (.temp i)) v).put (.slot (.temp i)) .null).release
          ((s.put (.slot (.temp i)) v).peek (.slot (.temp i))) := by
        rw [assign_temp constants null]
        rfl
    _ = s.put (.slot (.temp i)) .null := by
        rw [given, release_of_scalar _ scalar]
        exact ext_parts rfl (Frame.put_put s.frame (.temp i) v .null) rfl
    _ = s := by rw [← peek, back]

/-- Only the second operand is emptied where the first one is a variable and the second one
is not the result. -/
theorem vacateRead_of_isVariable (s : Store) (instr : Instruction)
    (assigned : instr.op1.isVariable = true) (apart : instr.op2 ≠ instr.result) :
    s.vacateRead instr = s.vacate instr.op2 := by
  unfold vacateRead
  rw [vacate_of_isVariable assigned, ite_self, if_pos apart]

/-! ## Through a temporary -/

/-- A scalar that is assigned through a temporary, behind the operand that was read, comes
to where it is assigned at once. -/
theorem Accounted.assign_through (acc : s.Accounted f outside held) (scalar : v.node? = none)
    {read result : Operand} (first : o.Within f) (assigned : o.isVariable = true)
    (second : read.Within f) (third : result.Within f) (storable : result.isLiteral = false)
    (within : (Operand.temp i).Within f) (null : s.frame.get (.temp i) = .null)
    (apart : read ≠ result) :
    ((((((s.vacate read).assign f.constants (.temp i) v).emptied .scratch).vacate
        (.temp i)).deliver f.constants result v).assign f.constants o v).emptied .scratch
      = (((s.assign f.constants o v).deliver f.constants result v).vacate read).emptied
        .scratch := by
  have clear : ∀ t : Store, t.frame.Has .scratch := fun _ => trivial
  have vacated := acc.vacate second
  have given := (vacated.scalar scalar).assign (o := .temp i) within
  have differ := (first.slot_ne_scratch (Operand.isWritable_of_isVariable assigned)).symm
  have other : read ≠ o ∨ ∀ t : Store, t.vacate read = t := by
    by_cases same : read = o
    · exact .inr fun t => vacate_of_isVariable (same ▸ assigned) t
    · exact .inl same
  have moved : (s.vacate read).assign f.constants o v = (s.assign f.constants o v).vacate read := by
    rcases other with ne | nothing
    · exact acc.vacate_assign second first ne
    · rw [nothing, nothing]
  have back : (((s.vacate read).assign f.constants (.temp i) v).emptied .scratch).vacate (.temp i)
      = (s.vacate read).emptied .scratch := by
    have there : (s.vacate read).frame.Has (.temp i) := within.has_slot vacated.fits
    have kept := vacate_assign_temp f.constants there (get_vacate_of_null null read) scalar
    calc (((s.vacate read).assign f.constants (.temp i) v).emptied .scratch).vacate (.temp i)
        = (((s.vacate read).assign f.constants (.temp i) v).vacate (.temp i)).emptied
            .scratch := emptied_comm nofun (clear _) (within.has_slot given.fits)
      _ = (s.vacate read).emptied .scratch := by rw [kept]
  have delivered := vacated.deliver scalar third
  have stored := (acc.scalar scalar).assign first
  rw [back, vacated.deliver_emptied third storable, delivered.assign_emptied first (clear _) differ,
    emptied_emptied, vacated.deliver_assign scalar first third, moved,
    stored.vacate_deliver second third apart]

/-- A temporary that is empty stays empty under a compound assignment of which it is not the
result. -/
theorem get_temp_of_compound (s : Store) (constants : Array Value) {read result : Operand}
    (null : s.frame.get (.temp i) = .null) (assigned : o.isVariable = true)
    (unused : result ≠ .temp i) (v : Value) :
    ((((s.assign constants o v).deliver constants result v).vacate read).emptied
      .scratch).frame.get (.temp i) = .null := by
  have other : Operand.temp i ≠ o := by
    rintro rfl
    cases assigned
  have differ : Slot.scratch ≠ .temp i := nofun
  have stored : ((s.assign constants o v).deliver constants result v).frame.get (.temp i)
      = .null := by
    rw [get_deliver_ne _ (Operand.temp_ne_slot unused.symm constants),
      get_assign_ne _ (Operand.temp_ne_slot other constants), null]
  rw [frame_emptied, Frame.get_put_ne _ .null differ, get_vacate_of_null stored]

end Store

namespace Effect

variable {f : Function} {instr : Instruction} {op : ArithmeticOp} {i pc : Nat} {s : Store}
  {v : Value} {fault : Fault}

/-! ## Instructions -/

/-- A compound assignment faults as its operator does. -/
theorem fst_compound_of_fault (assigned : instr.op1.isVariable = true)
    (made : Operator.arithmetic s.heap op (s.shown f.constants instr.op1)
      (s.shown f.constants instr.op2) = .error fault) :
    (Effect.compound f.constants instr op s).1 = .error fault := by
  have loaded : Operator.arithmetic (s.acquire (s.shown f.constants instr.op2)).heap op
      ((s.acquire (s.shown f.constants instr.op2)).peek ((s.acquire
        (s.shown f.constants instr.op2)).target f.constants instr.op1))
      (s.shown f.constants instr.op2) = .error fault := by
    rw [Store.target, Store.placeOf_acquire, ← Store.target, Store.peek_acquire,
      Store.peek_target assigned, Heap.arithmetic_heap s.heap, made]
  unfold Effect.compound
  dsimp only
  rw [loaded]

/-- The plain operator in place of a compound assignment leaves its value in the temporary. -/
theorem finishing_operatorPart (assigned : instr.op1.isVariable = true)
    (fresh : instr.op2 ≠ .temp i)
    (made : Operator.arithmetic s.heap op (s.shown f.constants instr.op1)
      (s.shown f.constants instr.op2) = .ok v) :
    finishing (Effect.of f (instr.operatorPart (.arithmetic op) i) pc s)
      = (.ok .next, ((s.vacate instr.op2).assign f.constants (.temp i) v).emptied .scratch) := by
  have vacated := s.vacateRead_of_isVariable (instr.operatorPart (.arithmetic op) i) assigned fresh
  unfold Effect.of Effect.binary
  dsimp only [Instruction.operatorPart] at vacated ⊢
  rw [made]
  dsimp only
  rw [vacated]
  rfl

/-- The assignment of a scalar that is in the temporary empties it, stores the result, and
then the variable. -/
theorem finishing_assignmentPart (assigned : instr.op1.isVariable = true)
    (fresh : instr.result ≠ .temp i) (scalar : v.node? = none)
    (there : s.frame.get (.temp i) = v) :
    finishing (Effect.of f (instr.assignmentPart i) pc s) = (.ok .next,
      (((s.vacate (.temp i)).deliver f.constants instr.result v).assign f.constants instr.op1
        v).emptied .scratch) := by
  have vacated := s.vacateRead_of_isVariable (instr.assignmentPart i) assigned fresh.symm
  have shown : s.shown f.constants (.temp i) = v := by
    rw [Store.shown, Store.held, there,
      s.heap.lookThrough_of_ne_ref (Value.ne_ref_of_scalar scalar)]
  unfold Effect.of Effect.assign
  dsimp only [Instruction.assignmentPart] at vacated ⊢
  rw [shown, Store.acquire_of_scalar s scalar, vacated, Store.yield_of_scalar _ _ _ scalar]
  rfl

end Effect

namespace Machine

variable {m : Machine} {f g : Function} {instr : Instruction} {base : Opcode} {i : Nat}
  {p q : Progress} {outside : Node → Nat}

/-- An instruction without a handler is built in. -/
theorem step_of_unhandled (verified : f.Verified) (found : f.code[p.pc]? = some instr)
    (fits : p.store.frame.Fits f) (unhandled : m.table.lookup instr.opcode = none) :
    ∃ statistics, m.step f p = proceed m.options p.pc statistics
      (Effect.finishing (Effect.of f instr p.pc p.store)) := by
  obtain ⟨statistics, -, eq⟩ := step_eq (m := m) verified found fits
  refine ⟨statistics, ?_⟩
  rw [eq, Effect.dispatch, unhandled]

/-- A built-in instruction that goes on to the next one. -/
theorem step_of_next {t : Store} (verified : f.Verified) (found : f.code[p.pc]? = some instr)
    (fits : p.store.frame.Fits f) (unhandled : m.table.lookup instr.opcode = none)
    (ends : Effect.finishing (Effect.of f instr p.pc p.store) = (.ok .next, t)) :
    ∃ statistics, m.step f p = .running ⟨t, statistics, p.pc + 1⟩ := by
  obtain ⟨statistics, eq⟩ := step_of_unhandled (m := m) verified found fits unhandled
  rw [ends] at eq
  exact ⟨statistics, eq⟩

/-- A built-in instruction that operands are to blame for ends the run as failed. -/
theorem step_of_fault {fault : Fault} (verified : f.Verified) (found : f.code[p.pc]? = some instr)
    (fits : p.store.frame.Fits f) (unhandled : m.table.lookup instr.opcode = none)
    (faults : (Effect.of f instr p.pc p.store).1 = .error fault) (blamed : fault.IsOfOperands) :
    ∃ r, m.step f p = .ended (.failed fault) r := by
  obtain ⟨statistics, eq⟩ := step_of_unhandled (m := m) verified found fits unhandled
  have same := (Effect.fst_finishing (Effect.of f instr p.pc p.store)).trans faults
  generalize Effect.finishing (Effect.of f instr p.pc p.store) = ending at same eq
  obtain ⟨result, t⟩ := ending
  obtain rfl : result = .error fault := same
  rw [eq, proceed, blamed.fails]
  exact ⟨_, rfl⟩

/-- Behind a compound assignment that makes a value its operand has it, its result has it,
and what was read is emptied. -/
theorem step_of_compound {op : ArithmeticOp} {v : Value} (verified : f.Verified)
    (found : f.code[p.pc]? = some instr) (is : instr.opcode = .compound op)
    (unhandled : m.table.lookup instr.opcode = none) (acc : p.store.Accounted f outside [])
    (made : Operator.arithmetic p.store.heap op (p.store.shown f.constants instr.op1)
      (p.store.shown f.constants instr.op2) = .ok v)
    (apart : instr.result ≠ instr.op2) :
    ∃ statistics, m.step f p = .running ⟨(((p.store.assign f.constants instr.op1 v).deliver
      f.constants instr.result v).vacate instr.op2).emptied .scratch, statistics, p.pc + 1⟩ := by
  have checked := verified.checked found
  have has : instr.opcode.category? = some .binaryAssign := by rw [is]; rfl
  have assigned := (checked.operator has).assigned rfl
  have effect : Effect.of f instr p.pc p.store
      = Effect.compound f.constants instr op p.store := by rw [Effect.of, is]
  have outcome : instr.opcode.outcome (p.store.shown f.constants instr.op1) v = v := by
    rw [is]
    rfl
  refine step_of_next verified found acc.fits unhandled ?_
  rw [effect, Effect.finishing_of_compound checked is acc made,
    Store.vacateRead_of_isVariable _ instr assigned apart.symm, Store.operated, outcome]
  rfl

/-- The plain operator that makes a value and the assignment of the temporary behind it
write the result first and then the operand. -/
theorem runFor_of_parts {op : ArithmeticOp} {v : Value} (verified : g.Verified)
    (first : g.code[q.pc]? = some (instr.operatorPart (.arithmetic op) i))
    (second : g.code[q.pc + 1]? = some (instr.assignmentPart i))
    (plain : m.table.lookup (.arithmetic op) = none) (acc : q.store.Accounted g outside [])
    (assigned : instr.op1.isVariable = true)
    (made : Operator.arithmetic q.store.heap op (q.store.shown g.constants instr.op1)
      (q.store.shown g.constants instr.op2) = .ok v)
    (null : q.store.frame.get (.temp i) = .null) (unread : instr.op2 ≠ .temp i)
    (unused : instr.result ≠ .temp i) :
    ∃ statistics, m.runFor g 2 q = .running ⟨((((((q.store.vacate instr.op2).assign g.constants
      (.temp i) v).emptied .scratch).vacate (.temp i)).deliver g.constants instr.result
        v).assign g.constants instr.op1 v).emptied .scratch, statistics, q.pc + 2⟩ := by
  have scalar := Operator.node?_arithmetic made
  have within := (verified.checked first).result
  have vacated := acc.vacate (verified.checked first).op2
  have given : ((q.store.vacate instr.op2).assign g.constants (.temp i) v).Accounted g outside [] :=
    (vacated.scalar scalar).assign within
  have stored : (((q.store.vacate instr.op2).assign g.constants (.temp i) v).emptied
      .scratch).Accounted g outside [] := given.emptied trivial
  have there : (((q.store.vacate instr.op2).assign g.constants (.temp i) v).emptied
      .scratch).frame.get (.temp i) = v := by
    have differ : Slot.scratch ≠ .temp i := nofun
    rw [Store.assign_temp g.constants (Store.get_vacate_of_null null instr.op2)]
    exact (Frame.get_put_ne _ .null differ).trans
      (Frame.get_put_self (within.has_slot vacated.fits) v)
  have noOperator : m.table.lookup .assign = none := by
    cases look : m.table.lookup .assign with
    | none => rfl
    | some handler => exact absurd (m.table.operators .assign (by rw [look]; rfl)) (by decide)
  obtain ⟨before, one⟩ := step_of_next (m := m) verified first acc.fits plain
    (Effect.finishing_operatorPart assigned unread made)
  generalize ((q.store.vacate instr.op2).assign g.constants (.temp i) v).emptied .scratch
    = between at stored there one ⊢
  obtain ⟨statistics, two⟩ := step_of_next (m := m) (p := ⟨between, before, q.pc + 1⟩) verified
    second stored.fits noOperator (Effect.finishing_assignmentPart assigned unused scalar there)
  refine ⟨statistics, ?_⟩
  rw [runFor, one]
  dsimp only
  rw [runFor, two]
  rfl

/-- A compound assignment without a handler comes to what the plain operator comes to, with
its result in an empty temporary, and an assignment of the temporary behind it: either both
go on with the same store, in which the temporary is empty again, or both end in the same
fault. -/
theorem compound_is_operator_then_assignment (verified : f.verify = .ok ())
    (verified' : g.verify = .ok ()) (constants : g.constants = f.constants)
    (compound : instr.opcode.compoundBase? = some base)
    (found : f.code[p.pc]? = some instr)
    (first : g.code[q.pc]? = some (instr.operatorPart base i))
    (second : g.code[q.pc + 1]? = some (instr.assignmentPart i))
    (unhandled : m.table.lookup instr.opcode = none) (plain : m.table.lookup base = none)
    (start : q.store = p.store) (acc : p.store.Accounted f outside [])
    (fits : p.store.frame.Fits g) (null : p.store.frame.get (.temp i) = .null)
    (apart : instr.result ≠ instr.op2) (unread : instr.op2 ≠ .temp i)
    (unused : instr.result ≠ .temp i) :
    (∃ t statistics statistics', m.step f p = .running ⟨t, statistics, p.pc + 1⟩
        ∧ m.runFor g 2 q = .running ⟨t, statistics', q.pc + 2⟩ ∧ t.frame.get (.temp i) = .null)
      ∨ ∃ fault r r', m.step f p = .ended (.failed fault) r
        ∧ m.runFor g 2 q = .ended (.failed fault) r' := by
  obtain ⟨op, is, rfl⟩ : ∃ op, instr.opcode = .compound op ∧ base = .arithmetic op := by
    cases is : instr.opcode with
    | compound op =>
      rw [is] at compound
      exact ⟨op, rfl, (Option.some.inj compound).symm⟩
    | _ =>
      rw [is] at compound
      cases compound
  have order := Function.verified_of_verify verified
  have order' := Function.verified_of_verify verified'
  have checked := order.checked found
  have has : instr.opcode.category? = some .binaryAssign := by rw [is]; rfl
  have shape := checked.operator has
  have assigned := shape.assigned rfl
  have fits' : q.store.frame.Fits g := by rwa [start]
  have acc' : p.store.Accounted g outside [] := ⟨fits, acc.owns, constants ▸ acc.constants⟩
  cases made : Operator.arithmetic p.store.heap op (p.store.shown f.constants instr.op1)
      (p.store.shown f.constants instr.op2) with
  | error fault =>
    have blamed := Operator.blames_arithmetic _ _ _ _ fault made
    have faults : (Effect.of f instr p.pc p.store).1 = .error fault := by
      rw [Effect.of, is]
      exact Effect.fst_compound_of_fault assigned made
    have faults' : (Effect.of g (instr.operatorPart (.arithmetic op) i) q.pc q.store).1
        = .error fault := by
      unfold Effect.of Effect.binary
      dsimp only [Instruction.operatorPart]
      rw [start, constants, made]
    obtain ⟨r, one⟩ := step_of_fault (m := m) order found acc.fits unhandled faults blamed
    obtain ⟨r', two⟩ := step_of_fault (m := m) order' first fits' plain faults' blamed
    refine .inr ⟨fault, r, r', one, ?_⟩
    rw [runFor, two]
  | ok v =>
    have variable_within : instr.op1.Within g := (order'.checked first).op1
    have read_within : instr.op2.Within g := (order'.checked first).op2
    have result_within : instr.result.Within g := (order'.checked second).result
    have through := acc'.assign_through (Operator.node?_arithmetic made) variable_within assigned
      read_within result_within shape.result (order'.checked first).result null apart.symm
    obtain ⟨statistics, one⟩ := step_of_compound (m := m) order found is unhandled acc made apart
    obtain ⟨statistics', two⟩ := runFor_of_parts (m := m) order' first second plain
      (by rwa [start]) assigned (by rwa [start, constants]) (by rwa [start]) unread unused
    rw [start, through, constants] at two
    exact .inl ⟨_, statistics, statistics', one, two,
      p.store.get_temp_of_compound f.constants null assigned unused v⟩

/-- Adds a variable to itself, and stores the sum in another one too. -/
def compoundDoubling : Function where
  name := "doubling"
  code := #[
    ⟨.compound .add, .var 0, .var 0, .var 1, 0⟩,
    ⟨.ret, .var 0, .unused, .unused, 0⟩]
  constants := #[]
  temporaries := 0
  variableNames := #["a", "b"]

/-- Does so with the plain operator and an assignment. -/
def plainDoubling : Function where
  name := "doubling"
  code := #[
    ⟨.arithmetic .add, .var 0, .var 0, .temp 1, 0⟩,
    ⟨.assign, .var 0, .temp 1, .var 1, 0⟩,
    ⟨.ret, .var 0, .unused, .unused, 0⟩]
  constants := #[]
  temporaries := 2
  variableNames := #["a", "b"]

/-- Operands and result may all be bound to one cell. -/
theorem compound_is_operator_then_assignment_doubling :
    let m := Machine.ofTable .standard .empty
    aliasing.Accounted compoundDoubling (fun _ => 0) []
      ∧ ∃ t statistics statistics',
        m.step compoundDoubling ⟨aliasing, .zero, 0⟩ = .running ⟨t, statistics, 1⟩
          ∧ m.runFor plainDoubling 2 ⟨aliasing, .zero, 0⟩ = .running ⟨t, statistics', 2⟩
          ∧ t.heap.content ⟨0⟩ = .int 10 := by
  intro m
  have acc : aliasing.Accounted compoundDoubling (fun _ => 0) [] :=
    ⟨⟨by decide, by decide⟩, atRest_aliasing.owns, fun _ => Nat.le_refl 0⟩
  refine ⟨acc, ?_⟩
  rcases compound_is_operator_then_assignment (m := m) (f := compoundDoubling) (g := plainDoubling)
    (i := 1) (p := ⟨aliasing, .zero, 0⟩) (q := ⟨aliasing, .zero, 0⟩) rfl rfl rfl rfl rfl rfl rfl
    rfl rfl rfl acc ⟨by decide, by decide⟩ rfl nofun nofun nofun
    with ⟨t, statistics, statistics', one, two, -⟩ | ⟨fault, r, r', one, -⟩
  · refine ⟨t, statistics, statistics', one, two, ?_⟩
    cases one
    rfl
  · cases one

end Machine

end OverloadMachine
