import OverloadMachine.Proofs.CopiedOrder
import OverloadMachine.Proofs.VectorArithmetic
import OverloadMachine.Proofs.VectorSteps

/-!
# Equality of vectors

The built-in equality takes a composite for equal to itself, and otherwise compares classes,
numbers of fields, names of fields and values. The operator of vectors compares the components as
numbers. On vectors that have no other fields the two agree, whatever mixture of integers and floats
the components are, unless a vector with a component that is no number is compared with itself.
-/

namespace OverloadMachine

/-! ## Components -/

namespace Number

/-- Whether a number is a float that is no number. -/
def isNaN : Number → Bool
  | int _ => false
  | float x => x.isNaN

/-- Two numbers are equal exactly if the order says so: integers exactly, and otherwise both sides
as floats. -/
theorem compare_beq_eq (x y : Number) : (x.compare y == some .eq) = x.same y := by
  have floats : ∀ x y : Float, (compareFloat x y == some .eq) = (x == y) := fun x y =>
    Bool.eq_iff_iff.mpr (beq_iff_eq.trans compareFloat_eq_iff)
  cases x with
  | int i =>
    cases y with
    | int j =>
      refine Bool.eq_iff_iff.mpr ?_
      rw [beq_iff_eq, compare, Option.some.injEq, Std.LawfulEqCmp.compare_eq_iff_eq,
        Int64.toInt_inj]
      exact beq_iff_eq.symm
    | float y => exact floats _ _
  | float x => cases y <;> exact floats _ _

/-- A number is equal to itself exactly if it is one. -/
theorem same_self (n : Number) : n.same n = !n.isNaN := by
  cases n with
  | int i => exact beq_self_eq_true i
  | float x =>
    cases none : x.isNaN with
    | false =>
      rw [isNaN, none]
      exact compareFloat_eq_iff.mp (compareFloat_self none)
    | true =>
      have uncomparable : (float x).compare (float x) = Option.none := compareFloat_of_isNaN none x
      rw [← compare_beq_eq, uncomparable, isNaN, none]
      rfl

/-- Numbers are grounded, and compared as numbers. -/
theorem compare?_toValue (h : Heap) (x y : Number) :
    Operator.compare? h x.toValue y.toValue = some (x.compare y) := by
  have scalar : ∀ n : Number, n.toValue.node? = none := fun n => by cases n <;> rfl
  have order := Heap.Grounded.compare?_eq (h := h) (.scalar (scalar x)) (.scalar (scalar y))
  have plain : h.compareStep (Operator.compare? h) x.toValue y.toValue
      = some (Operator.compareScalars h x.toValue y.toValue) := by
    cases x <;> cases y <;> rfl
  rw [order, plain]
  exact congrArg some
    (Operator.compareScalars_numbers h (ofValue?_eq_some.mpr rfl) (ofValue?_eq_some.mpr rfl))

end Number

namespace Vector2

/-- Whether a component is no number. -/
def hasNaN (a : Vector2) : Bool := a.x.isNaN || a.y.isNaN

theorem same_self (a : Vector2) : a.same a = !a.hasNaN := by
  rw [same, Component.same_eq, Component.same_eq, a.x.same_self, a.y.same_self, hasNaN,
    Bool.not_or]

/-- A new composite has the components of a vector as its fields, in the order of their names. -/
theorem entries_writeInto (a : Vector2) : (a.writeInto .empty).entries = a.entries := by
  have first : ¬"y" < "x" := by decide
  have other : "x" ≠ "y" := by decide
  simp [writeInto, entries, OrderedMap.insert, OrderedMap.empty, OrderedMap.place, first, other]

end Vector2

namespace Heap

variable {h : Heap} {i j : CompositeId} {c d : Composite} {a b : Vector2}

/-- A vector without other fields has its components as its fields. -/
theorem fields_of_isBare (is : c.IsVector a) (bare : c.IsBare) : c.fields = a.writeInto .empty :=
  OrderedMap.ext_get? fun key => (is.isBare_iff.mpr bare key).symm

/-- Fields with the components of vectors are equal if the components are. -/
theorem compareFields_entries (h : Heap) (a b : Vector2) :
    ((Operator.compareFields (Operator.compare? h) a.entries b.entries).join == some .eq)
      = a.same b := by
  rw [Vector2.same, Vector2.Component.same_eq, Vector2.Component.same_eq,
    ← Number.compare_beq_eq, ← Number.compare_beq_eq]
  simp only [Vector2.entries, Operator.compareFields, Number.compare?_toValue]
  cases a.x.compare b.x with
  | none => rfl
  | some order =>
    cases order with
    | eq => cases a.y.compare b.y with
      | none => rfl
      | some order => cases order <;> rfl
    | _ => rfl

theorem grounded_of_isVector (found : h.composite? i = some c) (is : c.IsVector a)
    (bare : c.IsBare) : h.Grounded (.composite i) := by
  refine .composite found fun w mem => .scalar ?_
  rw [fields_of_isBare is bare] at mem
  obtain ⟨e, among, rfl⟩ := List.mem_map.mp mem
  exact a.scalar_writeInto e among

/-- Vectors without other fields are equal in the loose order if they are one composite or their
components are equal as numbers. -/
theorem compare_vectors (one : h.composite? i = some c) (other : h.composite? j = some d)
    (is : c.IsVector a) (is' : d.IsVector b) (bare : c.IsBare) (bare' : d.IsBare) :
    (Operator.compare h (.composite i) (.composite j) == some .eq) = (i == j || a.same b) := by
  rw [Operator.compare,
    (grounded_of_isVector one is bare).compare?_eq (grounded_of_isVector other is' bare'),
    compareStep]
  by_cases same : i = j
  · rw [if_pos same, beq_iff_eq.mpr same]
    rfl
  · have classes : c.className = d.className := is.className.trans is'.className.symm
    rw [if_neg same, beq_eq_false_iff_ne.mpr same, one, other, Bool.false_or]
    dsimp only
    rw [if_neg (not_not_intro classes), fields_of_isBare is bare, fields_of_isBare is' bare',
      OrderedMap.size, OrderedMap.size, a.entries_writeInto, b.entries_writeInto]
    exact compareFields_entries h a b

/-- So the built-in equality is that of the components exactly if no vector with a component that is
no number is compared with itself. -/
theorem compare_vectors_eq_same_iff (one : h.composite? i = some c)
    (other : h.composite? j = some d) (is : c.IsVector a) (is' : d.IsVector b) (bare : c.IsBare)
    (bare' : d.IsBare) :
    (Operator.compare h (.composite i) (.composite j) == some .eq) = a.same b
      ↔ (i = j → a.hasNaN = false) := by
  rw [compare_vectors one other is is' bare bare']
  by_cases same : i = j
  · subst same
    obtain rfl : c = d := Option.some.inj (one.symm.trans other)
    have x := Number.toValue_inj.mp (Option.some.inj (is.x.symm.trans is'.x))
    have y := Number.toValue_inj.mp (Option.some.inj (is.y.symm.trans is'.y))
    obtain rfl : a = b := congrArg₂ Vector2.mk x y
    rw [beq_self_eq_true, Bool.true_or, a.same_self]
    cases a.hasNaN <;> simp
  · rw [beq_eq_false_iff_ne.mpr same, Bool.false_or]
    exact iff_of_true rfl fun eq => absurd eq same

end Heap

/-! ## Instructions -/

namespace ComparisonOp

/-- Equality, or the opposite, as a comparison operator has it of two things that are equal or
not. -/
def ofEquality (op : ComparisonOp) (equal : Bool) : Bool :=
  if op = .equal then equal else !equal

end ComparisonOp

namespace Effect

variable {f : Function} {instr : Instruction} {pc : Nat} {outside : Node → Nat} {s : Store}
  {op : ComparisonOp}

/-- A built-in comparison stores its value, if it has one. -/
theorem of_comparison {v : Value} (is : instr.opcode = .comparison op)
    (made : Operator.comparison? s.heap op (s.shown f.constants instr.op1)
      (s.shown f.constants instr.op2) = some v) :
    Effect.of f instr pc s
      = (.ok .next, (s.vacateRead instr).assign f.constants instr.result v) := by
  rw [Effect.of, is]
  dsimp only
  rw [binary, made]
  rfl

/-- A built-in comparison ends as a handled call does whose result is the value of the comparison,
if the result is used or the scratch slot is bound to no cell. -/
theorem finishing_of_comparison {v : Value} (checked : instr.Checked f pc)
    (is : instr.opcode = .comparison op) (acc : s.Accounted f outside [])
    (made : Operator.comparison? s.heap op (s.shown f.constants instr.op1)
      (s.shown f.constants instr.op2) = some v)
    (either : instr.result.isUnused = false ∨ s.frame.scratch.Plain) :
    finishing (Effect.of f instr pc s)
      = (.ok .next, ended f.constants instr (some v) s) := by
  have scalar : v.node? = none :=
    Operator.node?_ending_comparison? (congrArg Fault.ending made)
  rw [of_comparison is made, finishing_next]
  have stored : storePending f.constants instr (some v) s
      = s.deliver f.constants instr.result v :=
    storePending_scalar f.constants instr .binary s scalar
  have ending : ended f.constants instr (some v) s
      = ((s.deliver f.constants instr.result v).vacateRead instr).emptied .scratch := by
    rw [ended, stored]
    rfl
  rw [ending]
  refine congrArg (Prod.mk _) ?_
  rcases either with used | scratch
  · have same := acc.vacateRead_assign (v := v) checked.op1 checked.op2 checked.result
    rw [same, Store.deliver, if_neg (ne_true_of_eq_false used)]
  · exact emptied_vacateRead_assign checked acc scratch scalar

end Effect

namespace Vector2

variable {f : Function} {pc : Nat} {ctx : CallContext} {outside : Node → Nat} {s : Store}
  {op : ComparisonOp} {a b : Vector2}

/-- The handler of an equality yields what the components say, of two vectors. -/
theorem exists_equality (call : ctx.Of f pc) (fits : s.frame.Fits f)
    (takes : ctx.category.hasSecondOperand = true) (among : op = .equal ∨ op = .notEqual)
    (left : s.heap.IsVector (s.shown f.constants ctx.instr.op1) a)
    (right : s.heap.IsVector (s.shown f.constants ctx.instr.op2) b) :
    ∃ handler, (Opcode.comparison op, handler) ∈ operators
      ∧ handler.run ctx ⟨s, none, none⟩
        = (yield (.scalar (.bool (op.ofEquality (a.same b))))).run ctx ⟨s, none, none⟩ := by
  have found : both (ctx.view s) = .ok (a, b) := by
    rw [both_eq call fits takes, ofValue_eq_ok.mpr left, ofValue_eq_ok.mpr right]
    rfl
  rcases among with rfl | rfl
  · refine ⟨onVectors fun a b => .scalar (.bool (a.same b)), by simp [operators], ?_⟩
    rw [onVectors, Handler.run, found]
    rfl
  · refine ⟨onVectors fun a b => .scalar (.bool (!a.same b)), by simp [operators], ?_⟩
    rw [onVectors, Handler.run, found]
    rfl

end Vector2

namespace Machine

variable {m : Machine} {f : Function} {instr : Instruction} {p : Progress}
  {outside : Node → Nat} {op : ComparisonOp} {i j : CompositeId} {c d : Composite} {a b : Vector2}

/-- Vectors without other fields are equal or not for the handler of the operator exactly as for the
built-in one, shared or not, if no component of a vector that is compared with itself is a float
that is no number. The two instructions give the same result, and but for the statistics they leave
the same behind. -/
theorem vector_equality_is_the_built_in_one (verified : f.verify = .ok ())
    (found : f.code[p.pc]? = some instr) (registered : Vector2.RegisteredIn m.table)
    (fits : p.store.frame.Fits f) (owns : p.store.Owns [] outside)
    (constants : ∀ node : Node, node.uses f.constants.toList ≤ outside node)
    (opcode : instr.opcode = .comparison op) (among : op = .equal ∨ op = .notEqual)
    (left : p.store.shown f.constants instr.op1 = .composite i)
    (right : p.store.shown f.constants instr.op2 = .composite j)
    (one : p.store.heap.composite? i = some c) (other : p.store.heap.composite? j = some d)
    (is : c.IsVector a) (is' : d.IsVector b) (bare : c.IsBare) (bare' : d.IsBare)
    (numbers : i = j → a.hasNaN = false) :
    ∃ t u, m.dispatch f instr p = (.ok .next, t,
        { p.statistics with handled := p.statistics.handled.add instr.opcode })
      ∧ m.plain.dispatch f instr p = (.ok .next, u, p.statistics)
      ∧ (instr.result.isUnused = false →
        t.shown f.constants instr.result = .bool (op.ofEquality (a.same b))
          ∧ u.shown f.constants instr.result = .bool (op.ofEquality (a.same b)))
      ∧ (instr.result.isUnused = false ∨ p.store.frame.scratch = .null → u = t) := by
  have verified := Function.verified_of_verify verified
  have checked := verified.checked found
  have acc : p.store.Accounted f outside [] := ⟨fits, owns, constants⟩
  have has : instr.opcode.category? = some .binary := by rw [opcode]; rfl
  have storable := (checked.operator has).result
  have call : CallContext.Of f p.pc ⟨instr, .binary, f.constants, m.options.negationOrder⟩ :=
    ⟨checked, has, rfl⟩
  have value : Operator.comparison p.store.heap op (p.store.shown f.constants instr.op1)
      (p.store.shown f.constants instr.op2) = .bool (op.ofEquality (a.same b)) := by
    have equal := (Heap.compare_vectors_eq_same_iff one other is is' bare bare').mpr numbers
    rw [left, right, ← equal]
    rcases among with rfl | rfl <;> rfl
  have made : Operator.comparison? p.store.heap op (p.store.shown f.constants instr.op1)
      (p.store.shown f.constants instr.op2) = some (.bool (op.ofEquality (a.same b))) := by
    have ends := (Heap.grounded_of_isVector one is bare).compare?_eq_some
      (Heap.grounded_of_isVector other is' bare')
    rw [← value, left, right]
    exact Operator.comparison?_of_compare? op ends
  obtain ⟨handler, mem, run⟩ := Vector2.exists_equality call fits rfl among
    ⟨i, c, left, one, is⟩ ⟨j, d, right, other, is'⟩
  have look : m.table.lookup instr.opcode = some handler := by
    rw [opcode]
    exact registered _ mem
  generalize op.ofEquality (a.same b) = r at made run
  have handles : Effect.settle f.constants instr (handler.run
      ⟨instr, .binary, f.constants, m.options.negationOrder⟩ ⟨p.store, none, none⟩)
      = (.ok .handled, Effect.ended f.constants instr (some (.bool r)) p.store) := by
    rw [run, Vector2.run_yield rfl, Draft.build_scalar _ _ rfl]
    rfl
  have plain : m.plain.dispatch f instr p = ((Effect.finishing (Effect.of f instr p.pc p.store)).1,
      (Effect.finishing (Effect.of f instr p.pc p.store)).2, p.statistics) := by
    rw [← builtin_eq verified found fits]
    rfl
  have next : (Effect.finishing (Effect.of f instr p.pc p.store)).1 = .ok .next := by
    rw [Effect.fst_finishing, Effect.of_comparison opcode made]
  have same : instr.result.isUnused = false ∨ p.store.frame.scratch = .null →
      (Effect.finishing (Effect.of f instr p.pc p.store)).2
        = Effect.ended f.constants instr (some (.bool r)) p.store := by
    intro either
    have unbound := either.imp_right fun null =>
      Value.plain_of_scalar (congrArg Value.node? null)
    rw [Effect.finishing_of_comparison checked opcode acc made unbound]
  refine ⟨_, _, dispatch_of_handled verified found fits look has handles, by rw [plain, next],
    fun used => ?_, same⟩
  have held : p.store.Accounted f outside [.bool r] := acc.scalar rfl
  obtain ⟨kept, holds⟩ := Effect.peek_ended checked storable held used fun cell is => by cases is
  rw [same (.inl used), ← Store.peek_target_of_isWritable _
    (Operand.isWritable_of_isLiteral storable used), kept, holds]
  exact ⟨rfl, rfl⟩

/-- A store in which two variables have vectors that differ in one component. -/
def parted : Store where
  heap := (vector.2.createWith Vector2.className (Vector2.entries ⟨.int 1, .int 3⟩)).2
  frame := { Frame.ofSizes 1 0 with vars := #[.composite ⟨0⟩, .composite ⟨1⟩] }
  notes := #[]

theorem owns_parted : parted.Owns [] fun _ => 0 := by
  have one : vector.2.Accounts [.composite ⟨0⟩] fun _ => 0 :=
    (Vector2.accounts_entries ⟨.int 1, .int 2⟩).createWith Vector2.className
  have scalars : vector.2.Accounts ((Vector2.entries ⟨.int 1, .int 3⟩).map (·.2)
      ++ [.composite ⟨0⟩]) fun _ => 0 := one.congr fun node => by
    rw [Node.uses_append, node.uses_of_scalars (List.forall_mem_map.mpr
      (Vector2.scalar_entries ⟨.int 1, .int 3⟩)), Nat.zero_add]
  have two : parted.heap.Accounts [.composite ⟨1⟩, .composite ⟨0⟩] fun _ => 0 :=
    scalars.createWith Vector2.className
  exact two.congr fun node => by
    simp [parted, Frame.values, Frame.ofSizes, OrderedMap.values, OrderedMap.empty, Nat.add_comm]

/-- The vectors are not equal, for the handler as well as built in. -/
theorem vector_equality_is_the_built_in_one_parted :
    let m := Machine.ofTable .standard Vector2.table
    ((m.dispatch equality equality.code[0] ⟨parted, .zero, 0⟩).2.1.shown #[] (.temp 0)
        = .bool false)
      ∧ (m.plain.dispatch equality equality.code[0] ⟨parted, .zero, 0⟩).2.1.shown #[] (.temp 0)
        = .bool false := by
  intro m
  have is : Composite.IsVector
      ⟨Vector2.className, Vector2.writeInto ⟨.int 1, .int 2⟩ .empty, false, 1⟩
      ⟨.int 1, .int 2⟩ := ⟨rfl, rfl, rfl⟩
  have is' : Composite.IsVector
      ⟨Vector2.className, Vector2.writeInto ⟨.int 1, .int 3⟩ .empty, false, 1⟩
      ⟨.int 1, .int 3⟩ := ⟨rfl, rfl, rfl⟩
  have code : equality.code[(⟨parted, .zero, 0⟩ : Progress).pc]? = some equality.code[0] := rfl
  obtain ⟨t, u, ends, plain, results, -⟩ := vector_equality_is_the_built_in_one (m := m) rfl code
    Vector2.registeredIn_table ⟨by decide, by decide⟩ owns_parted
    (fun node => Nat.le_of_eq (by cases node <;> rfl)) rfl (.inl rfl) rfl rfl rfl rfl is is'
    (is.isBare_iff.mp fun _ => rfl) (is'.isBare_iff.mp fun _ => rfl) nofun
  rw [ends, plain]
  exact results rfl

end Machine

end OverloadMachine
