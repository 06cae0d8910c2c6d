import OverloadMachine.Proofs.NegationOrders
import OverloadMachine.Proofs.VectorUpdates

/-!
# Arithmetic of vectors

Sums and differences of two vectors and products of a vector with a number are new vectors, whose
components are what the built-in operators make of the components of the operands. Only the place
of the result holds such a vector, and the composites of the operands stay as they are as long as
they last. With any other operands the instruction is left to the built-in operator, before
anything has changed.
-/

namespace OverloadMachine

/-! ## What is left of a heap -/

namespace Heap

variable {h k l : Heap}

/-- The composites of the second heap are in the first one, with the same contents and at least as
many handles. -/
def Sheds (h k : Heap) : Prop :=
  ∀ id c, k.composite? id = some c →
    ∃ more, c.count ≤ more ∧ h.composite? id = some { c with count := more }

namespace Sheds

theorem of_remains (remains : Remains k h) : Sheds h k := fun _ _ found => remains.composite found

theorem refl (h : Heap) : Sheds h h := of_remains (.refl h)

theorem trans (first : Sheds h k) (second : Sheds k l) : Sheds h l := by
  intro id c found
  obtain ⟨m, le, found⟩ := second id c found
  obtain ⟨n, le', found⟩ := first id _ found
  exact ⟨n, Nat.le_trans le le', found⟩

/-- What is left of a composite is the composite with its contents. -/
theorem retains (sheds : Sheds h k) {id : CompositeId} {c : Composite}
    (found : h.composite? id = some c) (lasts : (k.composite? id).isSome) : k.Retains id c := by
  obtain ⟨d, left⟩ := Option.isSome_iff_exists.mp lasts
  obtain ⟨more, -, before⟩ := sheds id d left
  obtain rfl : c = { d with count := more } := Option.some.inj (found.symm.trans before)
  exact ⟨d.count, left⟩

end Sheds

end Heap

namespace Store

variable {constants : Array Value} {instr : Instruction}

/-- A write gives up handles, and leaves every composite alone otherwise. -/
theorem sheds_overwrite (s : Store) (place : Place) (v : Value) :
    s.heap.Sheds (s.overwrite place v).heap := by
  have put : s.heap.Sheds (s.put place v).heap := by
    cases place with
    | slot slot => exact .refl _
    | cell cell =>
      intro id c found
      exact ⟨c.count, Nat.le_refl _, (Heap.composite?_putContent s.heap cell v id).symm.trans found⟩
  exact put.trans (.of_remains (Heap.remains_release _ _))

theorem sheds_vacateRead (s : Store) (instr : Instruction) :
    s.heap.Sheds (s.vacateRead instr).heap := by
  have one : ∀ (t : Store) (o : Operand), t.heap.Sheds (t.vacate o).heap := by
    intro t o
    cases o with
    | temp i => exact t.sheds_overwrite _ _
    | _ => exact .refl _
  have first : s.heap.Sheds (if instr.op1 ≠ instr.result then s.vacate instr.op1 else s).heap := by
    split
    · exact one s instr.op1
    · exact .refl _
  unfold vacateRead
  dsimp only
  split
  · exact first.trans (one _ instr.op2)
  · exact first

/-- The end of a handled call takes composites and handles away, and nothing else. -/
theorem sheds_ended (constants : Array Value) (instr : Instruction) (pending : Option Value)
    (s : Store) : s.heap.Sheds (Effect.ended constants instr pending s).heap := by
  have stored : s.heap.Sheds (Effect.storePending constants instr pending s).heap := by
    unfold Effect.storePending
    split
    · split
      · exact .of_remains (Heap.remains_release _ _)
      · have assigned := (s.defining constants instr.result).sheds_overwrite
          (s.target constants instr.result)
        rw [Store.heap_defining] at assigned
        exact assigned _
    · exact .refl _
  exact (stored.trans (sheds_vacateRead _ instr)).trans (sheds_overwrite _ _ _)

end Store

/-! ## Operands -/

theorem Number.toValue_inj {x y : Number} : x.toValue = y.toValue ↔ x = y := by
  cases x <;> cases y <;> simp [toValue]

/-- A value is a composite that is a vector. -/
def Heap.IsVector (h : Heap) (v : Value) (u : Vector2) : Prop :=
  ∃ id c, v = .composite id ∧ h.composite? id = some c ∧ c.IsVector u

namespace ArithmeticOp

/-- Two operands are ones that an operator joins to a vector: vectors for a sum or a difference,
and for a product a vector and a number on either side. -/
def Joins (op : ArithmeticOp) (h : Heap) (a b : Value) : Prop :=
  match op with
  | .add | .sub => (∃ u, h.IsVector a u) ∧ ∃ v, h.IsVector b v
  | .mul => (∃ u, h.IsVector a u) ∧ (∃ k : Number, b = k.toValue)
      ∨ (∃ k : Number, a = k.toValue) ∧ ∃ v, h.IsVector b v
  | _ => False

/-- A vector has the components that the built-in operator makes of those of two operands. -/
def Makes (op : ArithmeticOp) (h : Heap) (a b : Value) (w : Vector2) : Prop :=
  Operator.arithmetic h op (h.part a "x") (h.part b "x") = .ok w.x.toValue
    ∧ Operator.arithmetic h op (h.part a "y") (h.part b "y") = .ok w.y.toValue

variable {op : ArithmeticOp} {h : Heap} {a b : Value} {u v w : Vector2} {k : Number}

/-- Operands make one vector at most. -/
theorem Makes.unique (one : op.Makes h a b v) (other : op.Makes h a b w) : v = w :=
  congrArg₂ Vector2.mk (Number.toValue_inj.mp (Except.ok.inj (one.1.symm.trans other.1)))
    (Number.toValue_inj.mp (Except.ok.inj (one.2.symm.trans other.2)))

theorem makes_add (left : h.IsVector a u) (right : h.IsVector b v) : add.Makes h a b (u.add v) := by
  obtain ⟨id, c, rfl, found, is⟩ := left
  obtain ⟨other, d, rfl, found', is'⟩ := right
  obtain ⟨x, y⟩ := Heap.part_of_isVector found is
  obtain ⟨x', y'⟩ := Heap.part_of_isVector found' is'
  rw [Makes, x, y, x', y']
  exact ⟨Operator.apply_add (h := h) u.x v.x, Operator.apply_add (h := h) u.y v.y⟩

theorem makes_sub (left : h.IsVector a u) (right : h.IsVector b v) : sub.Makes h a b (u.sub v) := by
  obtain ⟨id, c, rfl, found, is⟩ := left
  obtain ⟨other, d, rfl, found', is'⟩ := right
  obtain ⟨x, y⟩ := Heap.part_of_isVector found is
  obtain ⟨x', y'⟩ := Heap.part_of_isVector found' is'
  rw [Makes, x, y, x', y']
  exact ⟨Operator.apply_sub (h := h) u.x v.x, Operator.apply_sub (h := h) u.y v.y⟩

theorem makes_scale (left : h.IsVector a u) : mul.Makes h a k.toValue (u.scale k) := by
  obtain ⟨id, c, rfl, found, is⟩ := left
  obtain ⟨x, y⟩ := Heap.part_of_isVector found is
  rw [Makes, x, y, Heap.part_of_number, Heap.part_of_number]
  exact ⟨Operator.apply_mul (h := h) u.x k, Operator.apply_mul (h := h) u.y k⟩

/-- The number may stand on the left too, as the product of two numbers does not depend on their
order. -/
theorem makes_scale_left (right : h.IsVector b v) : mul.Makes h k.toValue b (v.scale k) := by
  obtain ⟨id, c, rfl, found, is⟩ := right
  obtain ⟨x, y⟩ := Heap.part_of_isVector found is
  rw [Makes, x, y, Heap.part_of_number, Heap.part_of_number, Vector2.scale,
    Vector2.Component.mul_eq, Vector2.Component.mul_eq, v.x.mul_comm, v.y.mul_comm]
  exact ⟨Operator.apply_mul (h := h) k v.x, Operator.apply_mul (h := h) k v.y⟩

end ArithmeticOp

/-! ## Handlers -/

namespace Vector2

variable {f : Function} {pc : Nat} {ctx : CallContext} {outside : Node → Nat} {s : Store}
  {op : ArithmeticOp} {h : Heap} {v : Value}

/-- A value that is no vector is refused. -/
theorem ofValue_cases (h : Heap) (v : Value) : (∃ u, h.IsVector v u ∧ ofValue h v = .ok u)
    ∨ (¬∃ u, h.IsVector v u) ∧ ∃ reason, ofValue h v = .error reason := by
  cases is : ofValue h v with
  | ok u => exact .inl ⟨u, ofValue_eq_ok.mp is, rfl⟩
  | error reason =>
    refine .inr ⟨?_, reason, rfl⟩
    rintro ⟨u, vector⟩
    rw [ofValue_eq_ok.mpr vector] at is
    cases is

/-- A value that is no number is refused. -/
theorem factor_cases (v : Value) : (∃ k : Number, v = k.toValue ∧ factor v = .ok k)
    ∨ (¬∃ k : Number, v = k.toValue) ∧ ∃ reason, factor v = .error reason := by
  unfold factor
  cases is : Number.ofValue? v with
  | some k => exact .inl ⟨k, Number.ofValue?_eq_some.mp is, rfl⟩
  | none =>
    refine .inr ⟨?_, _, rfl⟩
    rintro ⟨k, number⟩
    rw [Number.ofValue?_eq_some.mpr number] at is
    cases is

/-- A vector is no number. -/
theorem factor_of_isVector {u : Vector2} (is : h.IsVector v u) :
    ¬∃ k : Number, v = k.toValue := by
  obtain ⟨id, c, rfl, -, -⟩ := is
  rintro ⟨k, number⟩
  cases k <;> cases number

/-- What the handler of an operator finds in its operands. -/
theorem both_eq (call : ctx.Of f pc) (fits : s.frame.Fits f)
    (takes : ctx.category.hasSecondOperand = true) :
    both (ctx.view s) = ofValue s.heap (s.shown f.constants ctx.instr.op1) >>= fun a =>
      ofValue s.heap (s.shown f.constants ctx.instr.op2) >>= fun b => .ok (a, b) := by
  have first : (ctx.view s).op1.value = s.shown f.constants ctx.instr.op1 :=
    call.see_eq call.checked.op1 fits
  rw [both, first, second_eq call fits takes]
  rfl

/-- An operator of two vectors yields its value, and leaves other operands alone. -/
theorem onVectors_cases (call : ctx.Of f pc) (fits : s.frame.Fits f)
    (takes : ctx.category.hasSecondOperand = true) (g : Vector2 → Vector2 → Draft) :
    (∃ u v, s.heap.IsVector (s.shown f.constants ctx.instr.op1) u
        ∧ s.heap.IsVector (s.shown f.constants ctx.instr.op2) v
        ∧ (onVectors g).run ctx ⟨s, none, none⟩ = (yield (g u v)).run ctx ⟨s, none, none⟩)
      ∨ (¬((∃ u, s.heap.IsVector (s.shown f.constants ctx.instr.op1) u)
          ∧ ∃ v, s.heap.IsVector (s.shown f.constants ctx.instr.op2) v))
        ∧ ∃ reason, (onVectors g).run ctx ⟨s, none, none⟩
          = (some (.unsupported reason), ⟨s, none, none⟩) := by
  rw [onVectors, Handler.run, both_eq call fits takes]
  rcases ofValue_cases s.heap (s.shown f.constants ctx.instr.op1) with
    ⟨u, left, first⟩ | ⟨no, reason, first⟩
  · rcases ofValue_cases s.heap (s.shown f.constants ctx.instr.op2) with
      ⟨v, right, second⟩ | ⟨no, reason, second⟩
    · rw [first, second]
      exact .inl ⟨u, v, left, right, rfl⟩
    · rw [first, second]
      exact .inr ⟨fun joins => no joins.2, reason, rfl⟩
  · rw [first]
    exact .inr ⟨fun joins => no joins.1, reason, rfl⟩

/-- A number and a vector on either side are scaled, and other operands are left alone. -/
theorem product_cases (call : ctx.Of f pc) (fits : s.frame.Fits f)
    (takes : ctx.category.hasSecondOperand = true) :
    (∃ w, ArithmeticOp.mul.Joins s.heap (s.shown f.constants ctx.instr.op1)
          (s.shown f.constants ctx.instr.op2)
        ∧ ArithmeticOp.mul.Makes s.heap (s.shown f.constants ctx.instr.op1)
          (s.shown f.constants ctx.instr.op2) w
        ∧ product (ctx.view s) = .ok w)
      ∨ ¬ArithmeticOp.mul.Joins s.heap (s.shown f.constants ctx.instr.op1)
          (s.shown f.constants ctx.instr.op2)
        ∧ ∃ reason, product (ctx.view s) = .error reason := by
  have first : (ctx.view s).op1.value = s.shown f.constants ctx.instr.op1 :=
    call.see_eq call.checked.op1 fits
  have heap : (ctx.view s).heap = s.heap := rfl
  rw [product, first, second_eq call fits takes, heap]
  generalize s.shown f.constants ctx.instr.op1 = a
  generalize s.shown f.constants ctx.instr.op2 = b
  have given : ∀ next : Value → Except Unsupported Vector2, (Except.ok b >>= next) = next b :=
    fun _ => rfl
  rw [given]
  rcases ofValue_cases s.heap a with ⟨u, left, vector⟩ | ⟨noLeft, reason, other⟩
  · rcases ofValue_cases s.heap b with ⟨v, right, vector'⟩ | ⟨noRight, reason', other'⟩
    · refine .inr ⟨?_, ⟨"scalar", "vector"⟩, ?_⟩
      · rintro (⟨-, number⟩ | ⟨number, -⟩)
        · exact factor_of_isVector right number
        · exact factor_of_isVector left number
      · rw [vector, vector']
        rfl
    · rw [vector, other']
      rcases factor_cases b with ⟨k, rfl, number⟩ | ⟨none, reason, number⟩
      · rw [number]
        exact .inl ⟨u.scale k, .inl ⟨⟨u, left⟩, k, rfl⟩, ArithmeticOp.makes_scale left, rfl⟩
      · rw [number]
        exact .inr ⟨fun joins => joins.elim (fun is => none is.2) fun is => noRight is.2, reason,
          rfl⟩
  · rcases ofValue_cases s.heap b with ⟨v, right, vector'⟩ | ⟨noRight, reason', other'⟩
    · rw [other, vector']
      rcases factor_cases a with ⟨k, rfl, number⟩ | ⟨none, reason, number⟩
      · rw [number]
        exact .inl ⟨v.scale k, .inr ⟨⟨k, rfl⟩, v, right⟩, ArithmeticOp.makes_scale_left right, rfl⟩
      · rw [number]
        exact .inr ⟨fun joins => joins.elim (fun is => noLeft is.1) fun is => none is.1, reason,
          rfl⟩
    · rw [other, other']
      exact .inr ⟨fun joins => joins.elim (fun is => noLeft is.1) fun is => noRight is.2, reason,
        rfl⟩

/-- A product that stands for no sign is scaled, or left alone. -/
theorem run_multiply_of_unsigned (unsigned : ctx.order.sign? ctx.constants ctx.instr = none) :
    multiply.run ctx ⟨s, none, none⟩
      = (orDecline (fun w => yield w.draft) (product (ctx.view s))).run ctx ⟨s, none, none⟩ := by
  have sign : (ctx.view s).sign = none := congrArg (Option.map _) unsigned
  rw [multiply, Handler.run, sign]

/-- The handler of a sum, a difference or a product that stands for no sign yields the vector that
the operands are joined to, and leaves other operands alone. -/
theorem exists_handler (call : ctx.Of f pc) (fits : s.frame.Fits f)
    (takes : ctx.category.hasSecondOperand = true) (among : op = .add ∨ op = .sub ∨ op = .mul)
    (unsigned : op = .mul → ctx.order.sign? ctx.constants ctx.instr = none) :
    let a := s.shown f.constants ctx.instr.op1
    let b := s.shown f.constants ctx.instr.op2
    ∃ handler, (Opcode.arithmetic op, handler) ∈ operators
      ∧ ((∃ w, op.Joins s.heap a b ∧ op.Makes s.heap a b w
          ∧ handler.run ctx ⟨s, none, none⟩ = (yield w.draft).run ctx ⟨s, none, none⟩)
        ∨ ¬op.Joins s.heap a b ∧ ∃ reason, handler.run ctx ⟨s, none, none⟩
          = (some (.unsupported reason), ⟨s, none, none⟩)) := by
  intro a b
  rcases among with rfl | rfl | rfl
  · refine ⟨onVectors fun a b => (a.add b).draft, by simp [operators], ?_⟩
    rcases onVectors_cases call fits takes fun a b => (a.add b).draft with
      ⟨u, v, left, right, run⟩ | other
    · exact .inl ⟨u.add v, ⟨⟨u, left⟩, v, right⟩, ArithmeticOp.makes_add left right, run⟩
    · exact .inr other
  · refine ⟨onVectors fun a b => (a.sub b).draft, by simp [operators], ?_⟩
    rcases onVectors_cases call fits takes fun a b => (a.sub b).draft with
      ⟨u, v, left, right, run⟩ | other
    · exact .inl ⟨u.sub v, ⟨⟨u, left⟩, v, right⟩, ArithmeticOp.makes_sub left right, run⟩
    · exact .inr other
  · refine ⟨multiply, by simp [operators], ?_⟩
    rw [run_multiply_of_unsigned (unsigned rfl)]
    rcases product_cases call fits takes with ⟨w, joins, makes, product⟩ | ⟨no, reason, product⟩
    · rw [product]
      exact .inl ⟨w, joins, makes, rfl⟩
    · rw [product]
      exact .inr ⟨no, reason, rfl⟩

end Vector2

/-! ## New vectors -/

namespace Store

/-- From one store to another an instruction has made a vector. The result, if it is used, is a new
composite with the components as its only fields, and only the place of the result holds it. What
composites are left are as they were. -/
structure Yields (s : Store) (f : Function) (instr : Instruction) (w : Vector2) (t : Store) :
    Prop where
  result : instr.result.isUnused = false → ∃ id c, t.shown f.constants instr.result = .composite id
    ∧ s.heap.composite? id = none ∧ t.heap.composite? id = some c
    ∧ c.IsVector w ∧ c.fields = w.writeInto .empty ∧ c.flagged = false ∧ c.count = 1
    ∧ t.Confines f [] (t.target f.constants instr.result) id
  retains : ∀ id c, s.heap.composite? id = some c → (t.heap.composite? id).isSome →
    t.heap.Retains id c

/-- The result that has been made is the vector. -/
theorem Yields.isVector {s t : Store} {f : Function} {instr : Instruction} {w : Vector2}
    (yields : s.Yields f instr w t) (used : instr.result.isUnused = false) :
    t.heap.IsVector (t.shown f.constants instr.result) w := by
  obtain ⟨id, c, shows, -, found, is, -⟩ := yields.result used
  exact ⟨id, c, shows, found, is⟩

end Store

namespace Vector2

variable {f : Function} {pc : Nat} {ctx : CallContext} {outside : Node → Nat} {s : Store}

/-- A composite with the components of a vector as its fields is that vector. -/
theorem isVector_writeInto (w : Vector2) (flagged : Bool) (count : Nat) :
    Composite.IsVector ⟨className, w.writeInto .empty, flagged, count⟩ w := by
  refine ⟨rfl, ?_, ?_⟩
  · rw [w.get?_writeInto, if_pos rfl]
  · rw [w.get?_writeInto, if_neg (by decide), if_pos rfl]

/-- In an empty heap a composite can be made of the components of a vector. -/
theorem accounts_entries (w : Vector2) :
    Heap.empty.Accounts (w.entries.map (·.2) ++ []) fun _ => 0 := fun node => by
  rw [List.append_nil, node.uses_of_scalars (List.forall_mem_map.mpr w.scalar_entries)]
  cases node <;> rfl

/-- A composite that is made or copied for the result is what the result shows at the end of the
call, and then only handles have been given up. -/
theorem exists_delivered (call : ctx.Of f pc) (given : ctx.hasResult = true)
    (acc : s.Accounted f outside []) {draft : Draft} {id : CompositeId} {h : Heap}
    (built : draft.build (ctx.view s) s.heap = (.composite id, h)) :
    ∃ t, Effect.settle f.constants ctx.instr ((yield draft).run ctx ⟨s, none, none⟩)
        = (.ok .handled, t)
      ∧ t.Accounted f outside [] ∧ h.Sheds t.heap
      ∧ (ctx.instr.result.isUnused = false →
        t.shown f.constants ctx.instr.result = .composite id
          ∧ t.peek (t.target f.constants ctx.instr.result) = .composite id
          ∧ ∃ c, t.heap.composite? id = some c ∧ 0 < c.count) := by
  have storable := (call.checked.operator call.category).result
  have made := CallState.accounted_build (c := ⟨s, none, none⟩) call acc draft
  unfold CallState.build at made
  dsimp only at made
  rw [built] at made
  dsimp only at made
  rw [run_yield given, built, Effect.settle_handled]
  have after : (Effect.ended f.constants ctx.instr (some (.composite id))
      { s with heap := h }).Accounted f outside [] := Effect.accounted_ended call.checked made
  refine ⟨_, rfl, after, Store.sheds_ended _ _ _ _, fun used => ?_⟩
  obtain ⟨kept, holds⟩ := Effect.peek_ended call.checked storable made used nofun
  dsimp only
  generalize Effect.ended f.constants ctx.instr (some (.composite id)) { s with heap := h } = t
    at after kept holds ⊢
  rw [← kept] at holds
  have alive := after.owns.alive_place (t.target f.constants ctx.instr.result)
  rw [holds] at alive
  obtain ⟨count, positive, live⟩ := alive (.composite id) rfl
  obtain ⟨c, found, rfl⟩ := Option.map_eq_some_iff.mp live
  refine ⟨?_, holds, c, found, positive⟩
  rw [← Store.peek_target_of_isWritable _ (Operand.isWritable_of_isLiteral storable used), holds]

/-- A vector that is yielded is new, and only the result holds it. -/
theorem exists_yields (call : ctx.Of f pc) (given : ctx.hasResult = true)
    (acc : s.Accounted f outside []) (w : Vector2) :
    ∃ t, Effect.settle f.constants ctx.instr ((yield w.draft).run ctx ⟨s, none, none⟩)
        = (.ok .handled, t)
      ∧ s.Yields f ctx.instr w t := by
  have fresh : s.heap.composite? (s.heap.create className (w.writeInto .empty)).1 = none :=
    OrderedMap.get?_next _
  have there : ∀ id, (s.heap.create className (w.writeInto .empty)).2.composite? id
      = if (s.heap.create className (w.writeInto .empty)).1 = id
        then some ⟨className, w.writeInto .empty, false, 1⟩ else s.heap.composite? id :=
    fun id => Heap.composite?_putComposite _ _ _ _
  obtain ⟨t, settles, after, sheds, delivers⟩ :=
    exists_delivered call given acc (w.build_draft (ctx.view s) s.heap)
  generalize (s.heap.create className (w.writeInto .empty)).1 = new at fresh there delivers
  generalize (s.heap.create className (w.writeInto .empty)).2 = k at there sheds
  refine ⟨t, settles, fun used => ?_, fun id c found lasts => ?_⟩
  · obtain ⟨shows, holds, c, found, positive⟩ := delivers used
    obtain ⟨more, le, before⟩ := sheds new c found
    rw [there, if_pos rfl] at before
    obtain ⟨d, fields, flagged, left⟩ := c
    cases before
    have single : left = 1 := Nat.le_antisymm le positive
    subst single
    exact ⟨new, _, shows, fresh, found, w.isVector_writeInto false 1, rfl, rfl, rfl,
      after.confines (after.hasPlace call.checked.result) holds found rfl⟩
  · refine sheds.retains ?_ lasts
    have other : new ≠ id := by
      rintro rfl
      rw [fresh] at found
      cases found
    rw [there, if_neg other, found]

end Vector2

namespace Machine

variable {m : Machine} {f : Function} {instr : Instruction} {p : Progress}
  {outside : Node → Nat} {op : ArithmeticOp}

/-- An instruction whose handler finds operands that it does not support is left to the built-in
operator. -/
theorem dispatch_of_unsupported {handler : Handler} {category : Category} {reason : Unsupported}
    (verified : f.Verified) (found : f.code[p.pc]? = some instr) (fits : p.store.frame.Fits f)
    (look : m.table.lookup instr.opcode = some handler)
    (has : instr.opcode.category? = some category)
    (run : handler.run ⟨instr, category, f.constants, m.options.negationOrder⟩
      ⟨p.store, none, none⟩ = (some (.unsupported reason), ⟨p.store, none, none⟩)) :
    m.dispatch f instr p = ((builtin f instr p.pc (p.store.emptied .scratch)).1,
      (builtin f instr p.pc (p.store.emptied .scratch)).2,
      { p.statistics with declined := p.statistics.declined.add instr.opcode }) := by
  have call := Action.invoke_eq (verified.checked found) has fits handler m.options.negationOrder
  rw [run] at call
  have declines : Effect.settle f.constants instr
      (some (.unsupported reason), ⟨p.store, none, none⟩)
      = (.ok .declined, p.store.emptied .scratch) := rfl
  rw [declines] at call
  simp only [dispatch, look, call]

/-- A sum or difference of two vectors, and a product of a vector with a number on either side that
stands for no sign, is handled: the result is a new vector that nothing else holds, its components
are what the built-in operator makes of those of the operands, and the composites that are left are
as they were, whatever operands and result share. With any other operands the instruction is
declined, and all of it is the built-in one. -/
theorem vector_arithmetic_is_componentwise (verified : f.verify = .ok ())
    (found : f.code[p.pc]? = some instr) (registered : Vector2.RegisteredIn m.table)
    (fits : p.store.frame.Fits f) (owns : p.store.Owns [] outside)
    (constants : ∀ node : Node, node.uses f.constants.toList ≤ outside node)
    (opcode : instr.opcode = .arithmetic op) (among : op = .add ∨ op = .sub ∨ op = .mul)
    (unsigned : op = .mul → m.options.negationOrder.sign? f.constants instr = none) :
    let a := p.store.shown f.constants instr.op1
    let b := p.store.shown f.constants instr.op2
    (op.Joins p.store.heap a b → ∃ t w, m.dispatch f instr p = (.ok .next, t,
          { p.statistics with handled := p.statistics.handled.add instr.opcode })
        ∧ op.Makes p.store.heap a b w ∧ p.store.Yields f instr w t)
      ∧ (¬op.Joins p.store.heap a b →
        m.dispatch f instr p = ((builtin f instr p.pc (p.store.emptied .scratch)).1,
          (builtin f instr p.pc (p.store.emptied .scratch)).2,
          { p.statistics with declined := p.statistics.declined.add instr.opcode })) := by
  intro a b
  have verified := Function.verified_of_verify verified
  have has : instr.opcode.category? = some .binary := by rw [opcode]; rfl
  have call : CallContext.Of f p.pc ⟨instr, .binary, f.constants, m.options.negationOrder⟩ :=
    ⟨verified.checked found, has, rfl⟩
  obtain ⟨handler, mem, ends⟩ := Vector2.exists_handler call fits rfl among unsigned
  have look : m.table.lookup instr.opcode = some handler := by
    rw [opcode]
    exact registered _ mem
  rcases ends with ⟨w, joins, makes, run⟩ | ⟨no, reason, run⟩
  · obtain ⟨t, settles, yields⟩ := Vector2.exists_yields call rfl ⟨fits, owns, constants⟩ w
    rw [← run] at settles
    exact ⟨fun _ => ⟨t, w, dispatch_of_handled verified found fits look has settles, makes, yields⟩,
      fun no => absurd joins no⟩
  · exact ⟨fun joins => absurd joins no,
      fun _ => dispatch_of_unsupported verified found fits look has run⟩

/-- Adds two variables, puts the sum into one of them, and returns it. -/
def merging : Function where
  name := "merging"
  code := #[
    ⟨.arithmetic .add, .var 0, .var 1, .var 0, 0⟩,
    ⟨.ret, .var 0, .unused, .unused, 0⟩]
  constants := #[]
  temporaries := 1
  variableNames := #["a", "b"]

/-- Two variables share a vector. One of them is given the sum, which is new, and the other one
keeps the vector. -/
theorem vector_arithmetic_is_componentwise_merging :
    let m := Machine.ofTable .standard Vector2.table
    let t := (m.dispatch merging merging.code[0] ⟨twins, .zero, 0⟩).2.1
    ∃ id c, t.shown #[] (.var 0) = .composite id ∧ t.heap.composite? id = some c
      ∧ c.fields.get? "x" = some (.int 2) ∧ c.fields.get? "y" = some (.int 4) ∧ c.count = 1
      ∧ id ≠ ⟨0⟩ ∧ t.heap.Retains ⟨0⟩
        ⟨Vector2.className, Vector2.writeInto ⟨.int 1, .int 2⟩ .empty, false, 2⟩ := by
  intro m t
  have is : Composite.IsVector
      ⟨Vector2.className, Vector2.writeInto ⟨.int 1, .int 2⟩ .empty, false, 2⟩
      ⟨.int 1, .int 2⟩ := ⟨rfl, rfl, rfl⟩
  have vector : twins.heap.IsVector (.composite ⟨0⟩) ⟨.int 1, .int 2⟩ := ⟨⟨0⟩, _, rfl, rfl, is⟩
  have code : merging.code[(⟨twins, .zero, 0⟩ : Progress).pc]? = some merging.code[0] := rfl
  obtain ⟨u, w, ends, ⟨x, y⟩, yields⟩ := (vector_arithmetic_is_componentwise (m := m) rfl code
    Vector2.registeredIn_table ⟨by decide, by decide⟩ owns_twins
    (fun node => Nat.le_of_eq (by cases node <;> rfl)) rfl (.inl rfl) (nofun)).1
    ⟨⟨_, vector⟩, _, vector⟩
  have same : t = u := congrArg (·.2.1) ends
  obtain ⟨id, c, shows, fresh, found, made, -, -, single, -⟩ := yields.result rfl
  have lasts : (t.heap.composite? ⟨0⟩).isSome := rfl
  rw [same] at lasts ⊢
  refine ⟨id, c, shows, found, ?_, ?_, single, ?_, yields.retains ⟨0⟩ _ rfl lasts⟩
  · have sum : Value.int 2 = w.x.toValue := Except.ok.inj x
    rw [made.x, ← sum]
  · have sum : Value.int 4 = w.y.toValue := Except.ok.inj y
    rw [made.y, ← sum]
  · rintro rfl
    cases fresh

end Machine

end OverloadMachine
