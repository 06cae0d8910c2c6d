import OverloadMachine.Proofs.NativeOperators
import OverloadMachine.Proofs.VectorReplacement

/-!
# Updates of vectors

Compound assignments and steps update a vector in place, copy on write. The first operand's place
holds a vector afterwards whose components are what the built-in operators make of those before,
and whose other fields are the same. Whoever else held the vector, in a slot, in a cell, in a
field or as a constant, still holds it as it was, and the second operand shows what it showed.
The result, if there is one, is another handle of the updated composite.
-/

namespace OverloadMachine

/-- What an operand contributes to a component: the component of the same name if it is a
composite, else the value itself. -/
def Heap.part (h : Heap) (operand : Value) (key : String) : Value :=
  match operand with
  | .composite id => (h.field? id key).getD .null
  | v => v

/-- The second operand is one that an update of a vector goes with: a vector to be added or
subtracted, or a number to be multiplied with. A step goes with anything. -/
def Opcode.UpdatesWith (op : Opcode) (h : Heap) (operand : Value) : Prop :=
  match op with
  | .compound .add | .compound .sub =>
    ∃ id c b, operand = .composite id ∧ h.composite? id = some c ∧ Composite.IsVector c b
  | .compound .mul => ∃ k : Number, operand = k.toValue
  | .step .pre _ => True
  | _ => False

/-- What updates a vector is an operator. -/
theorem Opcode.UpdatesWith.category {op : Opcode} {h : Heap} {operand : Value}
    (suits : op.UpdatesWith h operand) : ∃ category, op.category? = some category := by
  unfold UpdatesWith at suits
  split at suits <;> first | exact ⟨_, rfl⟩ | exact suits.elim

/-- A vector has the components that the built-in operator makes of those of another. -/
def Opcode.Combines (op : Opcode) (h : Heap) (a : Vector2) (operand : Value) (w : Vector2) : Prop :=
  Operator.apply h a.x.toValue (h.part operand "x") op = .ok w.x.toValue
    ∧ Operator.apply h a.y.toValue (h.part operand "y") op = .ok w.y.toValue

/-- The operators of vectors are registered in a table. -/
def Vector2.RegisteredIn (table : DispatchTable Handler) : Prop :=
  ∀ e ∈ operators, table.lookup e.1 = some e.2

theorem Vector2.registeredIn_table : RegisteredIn table := by
  intro e mem
  simp only [operators, List.mem_cons, List.not_mem_nil, or_false] at mem
  rcases mem with rfl | rfl | rfl | rfl | rfl | rfl | rfl | rfl | rfl | rfl | rfl | rfl | rfl
    <;> rfl

namespace Operator

variable {h : Heap} (a b : Number) {time : StepTime}

theorem apply_add : apply h a.toValue b.toValue (.compound .add) = .ok (a.add b).toValue := by
  cases a <;> cases b <;> rfl

theorem apply_sub : apply h a.toValue b.toValue (.compound .sub) = .ok (a.sub b).toValue := by
  cases a <;> cases b <;> rfl

theorem apply_mul : apply h a.toValue b.toValue (.compound .mul) = .ok (a.mul b).toValue := by
  cases a <;> cases b <;> rfl

theorem apply_step (v : Value) (direction : StepDirection) :
    apply h a.toValue v (.step time direction)
      = .ok (a.add (.int (Vector2.stepDelta direction))).toValue := by
  cases a <;> cases direction <;> rfl

end Operator

namespace Heap

variable {h : Heap} {id : CompositeId} {c : Composite} {u : Vector2} {cell : CellId}

/-- A cell with a composite in it is there. -/
theorem isSome_body?_of_content (inside : h.content cell = .composite id) :
    (h.body? (.cell cell)).isSome := by
  refine Option.isSome_map.trans ?_
  unfold content at inside
  cases there : h.cell? cell with
  | none =>
    rw [there] at inside
    cases inside
  | some k => rfl

theorem part_of_isVector (found : h.composite? id = some c) (is : c.IsVector u) :
    h.part (.composite id) "x" = u.x.toValue ∧ h.part (.composite id) "y" = u.y.toValue := by
  have field : ∀ key, h.field? id key = c.fields.get? key := fun key => by
    rw [field?, found]
    rfl
  rw [part, part, field, field, is.x, is.y]
  exact ⟨rfl, rfl⟩

theorem combines_of_isVector {op : Opcode} {a b w : Vector2} (found : h.composite? id = some c)
    (is : c.IsVector b) (x : Operator.apply h a.x.toValue b.x.toValue op = .ok w.x.toValue)
    (y : Operator.apply h a.y.toValue b.y.toValue op = .ok w.y.toValue) :
    op.Combines h a (.composite id) w := by
  obtain ⟨first, second⟩ := part_of_isVector found is
  rw [Opcode.Combines, first, second]
  exact ⟨x, y⟩

theorem part_of_number (h : Heap) (k : Number) (key : String) :
    h.part k.toValue key = k.toValue := by
  cases k <;> rfl

end Heap

namespace Vector2

variable {f : Function} {pc : Nat} {ctx : CallContext} {outside : Node → Nat} {s : Store}
  {id : CompositeId} {c : Composite} {a : Vector2} {h : Heap} {operand : Value}

/-! ## Handlers -/

theorem second_eq (call : ctx.Of f pc) (fits : s.frame.Fits f)
    (takes : ctx.category.hasSecondOperand = true) :
    second (ctx.view s) = .ok (s.shown f.constants ctx.instr.op2) := by
  have given := (call.checked.operator call.category).second takes
  have there : (ctx.view s).op2 = some (ctx.see s ctx.instr.op2) :=
    if_pos (by rw [takes, given]; rfl)
  rw [second, there, ← call.see_eq call.checked.op2 fits]

theorem run_assignVectors {b : Vector2} (found : both (ctx.view s) = .ok (a, b))
    (g : Vector2 → Vector2 → Vector2) :
    (assignVectors g).run ctx ⟨s, none, none⟩
      = (updateInPlace (g a b)).run ctx ⟨s, none, none⟩ := by
  rw [assignVectors, Handler.run, found]
  rfl

theorem ofValue_first (call : ctx.Of f pc) (fits : s.frame.Fits f)
    (shows : s.shown f.constants ctx.instr.op1 = .composite id)
    (found : s.heap.composite? id = some c) (is : c.IsVector a) :
    ofValue (ctx.view s).heap (ctx.view s).op1.value = .ok a := by
  have value : (ctx.view s).op1.value = .composite id :=
    (call.see_eq call.checked.op1 fits).trans shows
  rw [value]
  exact ofValue_eq_ok.mpr ⟨id, c, rfl, found, is⟩

/-- An instruction that updates a vector has a handler, and that updates the vector in place to the
one that the built-in operator leads to. -/
theorem exists_updateInPlace (call : ctx.Of f pc) (fits : s.frame.Fits f)
    (shows : s.shown f.constants ctx.instr.op1 = .composite id)
    (found : s.heap.composite? id = some c) (is : c.IsVector a)
    (suits : ctx.instr.opcode.UpdatesWith s.heap (s.shown f.constants ctx.instr.op2)) :
    ∃ handler w, (ctx.instr.opcode, handler) ∈ operators
      ∧ ctx.category.isAssignment = true ∧ ctx.category.alwaysYields = false
      ∧ handler.run ctx ⟨s, none, none⟩ = (updateInPlace w).run ctx ⟨s, none, none⟩
      ∧ ctx.instr.opcode.Combines s.heap a (s.shown f.constants ctx.instr.op2) w := by
  have has := call.category
  have first := ofValue_first call fits shows found is
  have second : ctx.category.hasSecondOperand = true → second (ctx.view s)
      = .ok (s.shown f.constants ctx.instr.op2) := second_eq call fits
  generalize ctx.category = category at has second
  generalize s.shown f.constants ctx.instr.op2 = operand at suits second
  have both : ∀ {other d b}, category.hasSecondOperand = true → operand = .composite other →
      s.heap.composite? other = some d → d.IsVector b → both (ctx.view s) = .ok (a, b) := by
    intro other d b takes eq there vector
    have right : ofValue (ctx.view s).heap operand = .ok b :=
      ofValue_eq_ok.mpr ⟨other, d, eq, there, vector⟩
    rw [both, first, second takes]
    exact congrArg (· >>= fun b => .ok (a, b)) right
  unfold Opcode.UpdatesWith at suits
  split at suits
  · rename_i op
    rw [op] at has ⊢
    cases has
    obtain ⟨other, d, b, rfl, there, vector⟩ := suits
    refine ⟨assignVectors add, a.add b, by simp [operators], rfl, rfl, ?_, ?_⟩
    · exact run_assignVectors (both rfl rfl there vector) add
    · exact Heap.combines_of_isVector there vector (Operator.apply_add _ _)
        (Operator.apply_add _ _)
  · rename_i op
    rw [op] at has ⊢
    cases has
    obtain ⟨other, d, b, rfl, there, vector⟩ := suits
    refine ⟨assignVectors sub, a.sub b, by simp [operators], rfl, rfl, ?_, ?_⟩
    · exact run_assignVectors (both rfl rfl there vector) sub
    · exact Heap.combines_of_isVector there vector (Operator.apply_sub _ _)
        (Operator.apply_sub _ _)
  · rename_i op
    rw [op] at has ⊢
    cases has
    obtain ⟨k, rfl⟩ := suits
    refine ⟨assignProduct, a.scale k, by simp [operators], rfl, rfl, ?_, ?_⟩
    · have number : factor k.toValue = .ok k := by cases k <;> rfl
      rw [assignProduct, Handler.run, first, second rfl]
      change (orDecline (fun v => updateInPlace v)
        (factor k.toValue >>= fun k => .ok (a.scale k))).run ctx _ = _
      rw [number]
      rfl
    · rw [Opcode.Combines, Heap.part_of_number, Heap.part_of_number]
      exact ⟨Operator.apply_mul _ _, Operator.apply_mul _ _⟩
  · rename_i direction op
    rw [op] at has ⊢
    cases has
    refine ⟨stepBefore direction, a.step (stepDelta direction), ?_, rfl, rfl, ?_, ?_⟩
    · cases direction <;> simp [operators]
    · rw [stepBefore, Handler.run, first]
      rfl
    · exact ⟨Operator.apply_step _ _ _, Operator.apply_step _ _ _⟩
  · exact suits.elim

/-- An update in place ends with the instruction handled, and its result, if there is one, is the
updated composite. -/
theorem exists_revises (call : ctx.Of f pc) (assigns : ctx.category.isAssignment = true)
    (optional : ctx.category.alwaysYields = false) (acc : s.Accounted f outside [])
    (there : s.peek (s.target f.constants ctx.instr.op1) = .composite id)
    (found : s.heap.composite? id = some c) (is : c.IsVector a) (unflagged : c.flagged = false)
    (w : Vector2) :
    ∃ u t now, Effect.settle f.constants ctx.instr ((updateInPlace w).run ctx ⟨s, none, none⟩)
        = (.ok .handled, t)
      ∧ s.Revises f ctx.instr outside id now c (w.writeInto c.fields) u t
      ∧ (ctx.instr.result.isUnused = false →
        t.target f.constants ctx.instr.result = s.target f.constants ctx.instr.result
          ∧ t.peek (s.target f.constants ctx.instr.result) = .composite now) := by
  have shape := call.checked.operator call.category
  have has := acc.hasPlace call.checked.op1
  obtain ⟨u, now, ran, between, replaces⟩ := exists_replaces call assigns acc there found is
    unflagged w (Handler.orRefused fun _ => .inspect fun view =>
      if view.hasResult then yield (.copy (.operand .first)) else .answer .handled)
  have asked : (ctx.view u).hasResult = !ctx.instr.result.isUnused := by
    change ctx.hasResult = _
    rw [CallContext.hasResult, optional, Bool.false_or]
  have ends : (updateInPlace w).run ctx ⟨s, none, none⟩ = (if !ctx.instr.result.isUnused then
      yield (.copy (.operand .first)) else .answer .handled).run ctx ⟨u, none, none⟩ := by
    rw [updateInPlace, ran, ← asked]
    rfl
  rw [ends]
  by_cases unused : ctx.instr.result.isUnused = true
  · rw [unused]
    refine ⟨u, _, now, Effect.settle_handled _ _ none u, ⟨acc, has, there, found, replaces, between,
      ?_, ?_⟩, fun used => by cases used⟩
    · exact Effect.closes_ended (.refl u.heap) _ _ none
    · exact Effect.accounted_ended call.checked between
  · have used := Bool.eq_false_iff.mpr unused
    have given : ctx.hasResult = true := by
      rw [CallContext.hasResult, used, Bool.not_false, Bool.or_true]
    have target := replaces.target_eq there f.constants ctx.instr.op1
    have shown : (ctx.view u).find (.operand .first) = .composite now := by
      have seen := call.see_eq call.checked.op1 between.fits
      rw [← Store.peek_target (shape.assigned assigns), target, replaces.holds] at seen
      exact seen
    have built : (Draft.copy (.operand .first)).build (ctx.view u) u.heap
        = (.composite now, u.heap.acquire (.composite now)) := by
      rw [Draft.build, shown]
    obtain ⟨t, ends, closes, -, after, kept, holds⟩ :=
      exists_yielded call given used between built fun cell is => by cases is
    rw [used, Bool.not_false, if_pos rfl]
    refine ⟨u, t, now, ends, ⟨acc, has, there, found, replaces, between, closes, after⟩,
      fun _ => ?_⟩
    rw [← replaces.target_eq there f.constants ctx.instr.result]
    exact ⟨kept, holds⟩

end Vector2

/-! ## Holders -/

namespace Store

variable {f : Function} {pc : Nat} {outside : Node → Nat} {s t u : Store} {instr : Instruction}
  {id now : CompositeId} {c : Composite} {fields : NameMap Value} {a w : Vector2} {place : Place}

/-- An operand that is bound to a cell is bound together with those that show the cell. -/
theorem target_ne_cell {o p : Operand} {cell : CellId} (acc : s.Accounted f outside [])
    (within : o.Within f) (writable : o.isWritable = true) (within' : p.Within f)
    (bound : s.held f.constants p = .ref cell) (apart : ¬s.Aliases f.constants o p) :
    s.target f.constants o ≠ .cell cell := by
  intro shows
  refine apart (.inr ⟨cell, ?_, ?_⟩)
  · rw [resolve_eq within acc.fits, held_of_isWritable writable, placeOf_eq_cell.mp shows]
  · rw [resolve_eq within' acc.fits, bound]

/-- What an operand shows is not confined to the place of another that is no alias of it. -/
theorem not_confines_of_shown {o p : Operand} (acc : s.Accounted f outside [])
    (within : o.Within f) (writable : o.isWritable = true) (within' : p.Within f)
    (shows : s.shown f.constants p = .composite id) (apart : ¬s.Aliases f.constants o p) :
    ¬s.Confines f [] (s.target f.constants o) id := by
  intro confines
  cases holds : s.held f.constants p with
  | ref cell =>
    rw [shown, holds] at shows
    exact confines.peek (.cell cell) (target_ne_cell acc within writable within' holds apart) shows
  | composite other =>
    rw [shown, holds] at shows
    cases shows
    -- The composite is held by the operand's slot or by a constant, and neither is in the place.
    by_cases place : p.isWritable = true
    · rw [held_of_isWritable place] at holds
      exact confines.peek (.slot (p.slot f.constants))
        (s.target_ne_slot fun same => apart (.inl same)) holds
    · cases p with
      | const i => exact confines.literal i holds
      | unused => cases holds
      | _ => exact place rfl
  | _ =>
    rw [shown, holds] at shows
    cases shows

/-- From one store to another, an instruction has updated the vector that its first operand shows,
and who else held the vector still holds it as it was. -/
structure CopiesOnWrite (s : Store) (f : Function) (instr : Instruction) (id now : CompositeId)
    (c : Composite) (a : Vector2) (t : Store) : Prop where
  place : t.target f.constants instr.op1 = s.target f.constants instr.op1
  shows : t.shown f.constants instr.op1 = .composite now
  exact : now = id ↔ c.count = 1
  /-- The updated composite is a vector with the built-in results as its components and with the
  other fields as before. -/
  updated : ∃ d w, t.heap.Retains now d ∧ d.IsVector w
    ∧ instr.opcode.Combines s.heap a (s.shown f.constants instr.op2) w
    ∧ ∀ key, key ≠ "x" → key ≠ "y" → d.fields.get? key = c.fields.get? key
  /-- Every slot that showed the vector does, but for the place of the first operand and that of the
  result, and for the slots that are emptied. -/
  slots : ∀ slot, s.peek (s.placeOf slot) = .composite id →
    s.target f.constants instr.op1 ≠ s.placeOf slot →
    ¬s.Delivers f.constants instr (s.placeOf slot) → ¬instr.Clears slot →
      t.peek (t.placeOf slot) = .composite id ∧ t.heap.Retains id c
  /-- So does every cell that is still there, -/
  cells : ∀ cell, s.heap.content cell = .composite id →
    s.target f.constants instr.op1 ≠ .cell cell → ¬s.Delivers f.constants instr (.cell cell) →
    (t.heap.cell? cell).isSome → t.heap.content cell = .composite id ∧ t.heap.Retains id c
  /-- every composite with the vector in a field, -/
  fields : ∀ other d key, s.heap.composite? other = some d →
    d.fields.get? key = some (.composite id) → (t.heap.composite? other).isSome →
      t.heap.Retains other d ∧ t.heap.Retains id c
  /-- and every constant. -/
  constants : ∀ i : Nat, f.constants[i]? = some (.composite id) → t.heap.Retains id c
  /-- The second operand shows what it showed, unless it names the place of the first operand or of
  the result, or is a temporary that is emptied. -/
  second : ¬s.Aliases f.constants instr.op1 instr.op2 →
    (instr.result.isUnused = false → ¬s.Aliases f.constants instr.result instr.op2) →
    ¬instr.Vacates (instr.op2.slot f.constants) →
      t.shown f.constants instr.op2 = s.shown f.constants instr.op2
        ∧ ∀ other d, s.shown f.constants instr.op2 = .composite other →
          s.heap.composite? other = some d → t.heap.Retains other d
  result : instr.result.isUnused = false → t.shown f.constants instr.result = .composite now

namespace Revises

variable (revises : s.Revises f instr outside id now c fields u t)

include revises

/-- A composite that somebody holds afterwards is as before if it was held apart from the place of
the operand. -/
theorem retains_of_alive (shared : ¬s.Confines f [] (s.target f.constants instr.op1) id)
    (alive : t.heap.Alive (.composite id)) : t.heap.Retains id c :=
  revises.retains revises.found (revises.ne_now revises.found fun _ => shared)
    (alive.isSome_body? rfl)

theorem retains_of_peek (apart : s.target f.constants instr.op1 ≠ place)
    (there : s.peek place = .composite id) {other : Place} (holds : t.peek other = .composite id) :
    t.heap.Retains id c := by
  have alive := revises.after.owns.alive_place other
  rw [holds] at alive
  exact revises.retains_of_alive (fun confines => confines.peek place apart there) alive

/-- A composite that an operand shows before and after is as before if the operand is no alias of
the first one. -/
theorem retains_of_shown {o : Operand} {other : CompositeId} {d : Composite}
    (checked : instr.Checked f pc) (assigned : instr.op1.isVariable = true) (within : o.Within f)
    (apart : ¬s.Aliases f.constants instr.op1 o)
    (same : t.shown f.constants o = s.shown f.constants o)
    (shows : s.shown f.constants o = .composite other) (found : s.heap.composite? other = some d) :
    t.heap.Retains other d := by
  have alive := revises.after.alive_shown o
  rw [same, shows] at alive
  refine revises.retains found (revises.ne_now found ?_) (alive.isSome_body? rfl)
  rintro rfl
  exact not_confines_of_shown revises.before checked.op1
    (Operand.isWritable_of_isVariable assigned) within shows apart

/-- An operand shows what it showed if it names neither the place of the first operand nor that of
the result and is not emptied. -/
theorem shown_eq {o : Operand} (checked : instr.Checked f pc)
    (assigned : instr.op1.isVariable = true) (storable : instr.result.isLiteral = false)
    (within : o.Within f) (apart : ¬s.Aliases f.constants instr.op1 o)
    (unstored : instr.result.isUnused = false → ¬s.Aliases f.constants instr.result o)
    (kept : ¬instr.Vacates (o.slot f.constants)) :
    t.shown f.constants o = s.shown f.constants o := by
  have holds : t.held f.constants o = s.held f.constants o := by
    by_cases place : o.isWritable = true
    · rw [held_of_isWritable place, held_of_isWritable place]
      refine (revises.closes.slots _ (fun delivers => ?_) ?_).trans
        (revises.replaces.get_eq (s.target_ne_slot fun same => apart (.inl same)))
      · obtain ⟨used, shows⟩ := revises.delivers_iff.mp delivers
        exact s.target_ne_slot (fun same => unstored used (.inl same)) shows
      · exact fun clears => clears.elim (within.slot_ne_scratch place) kept
    · cases o with
      | unused => rfl
      | const i => rfl
      | _ => exact absurd rfl place
  rw [shown, shown, holds]
  cases bound : s.held f.constants o with
  | ref cell =>
    have there := revises.before.alive_slot o
    have lasts := revises.after.alive_slot o
    rw [holds, bound] at lasts
    rw [bound] at there
    refine revises.content ?_ (fun delivers => ?_) (there.isSome_body? rfl)
      (lasts.isSome_body? rfl)
    · exact target_ne_cell revises.before checked.op1 (Operand.isWritable_of_isVariable assigned)
        within bound apart
    · exact target_ne_cell revises.before checked.result
        (Operand.isWritable_of_isLiteral storable delivers.1) within bound (unstored delivers.1)
        delivers.2
  | _ => rfl

/-- The operand shows the place that it showed, also if the result is stored into it. -/
theorem target_eq (checked : instr.Checked f pc) (assigned : instr.op1.isVariable = true)
    (result : instr.result.isUnused = false →
      t.target f.constants instr.result = s.target f.constants instr.result) :
    t.target f.constants instr.op1 = s.target f.constants instr.op1 := by
  by_cases delivers : s.Delivers f.constants instr (s.target f.constants instr.op1)
  -- The result goes to the same place, so the operand names its slot or is bound to its cell.
  · obtain ⟨used, same⟩ := delivers
    cases shows : s.target f.constants instr.op1 with
    | slot slot =>
      rw [shows] at same
      rw [← same, ← result used, target, target, (placeOf_eq_slot shows).1,
        (placeOf_eq_slot same).1]
    | cell cell =>
      have bound := placeOf_eq_cell.mp shows
      refine placeOf_eq_cell.mpr (Eq.trans ?_ bound)
      have kept : u.frame.get (instr.op1.slot f.constants)
          = s.frame.get (instr.op1.slot f.constants) :=
        revises.replaces.get_eq fun same => by rw [shows] at same; cases same
      refine (revises.closes.slots _ (fun delivers => ?_) ?_).trans kept
      · have slot := (revises.delivers_iff.mp delivers).2
        rw [same, shows] at slot
        cases slot
      · exact instr.not_clears_of_isVariable (checked.op1.isVariable_slot assigned)
  · exact (revises.peek_target assigned checked.op1 delivers).1

/-- What is so revised is copied on write. -/
theorem copiesOnWrite (checked : instr.Checked f pc) (assigned : instr.op1.isVariable = true)
    (storable : instr.result.isLiteral = false) (is : c.IsVector a)
    (components : fields = w.writeInto c.fields)
    (combines : instr.opcode.Combines s.heap a (s.shown f.constants instr.op2) w)
    (result : instr.result.isUnused = false →
      t.target f.constants instr.result = s.target f.constants instr.result
        ∧ t.peek (s.target f.constants instr.result) = .composite now) :
    s.CopiesOnWrite f instr id now c a t := by
  have place := revises.target_eq checked assigned fun used => (result used).1
  have holds : t.peek (s.target f.constants instr.op1) = .composite now := by
    by_cases delivers : s.Delivers f.constants instr (s.target f.constants instr.op1)
    · exact delivers.2 ▸ (result delivers.1).2
    · exact (revises.peek_target assigned checked.op1 delivers).2
  have shows : t.shown f.constants instr.op1 = .composite now := by
    rw [← Store.peek_target assigned, place, holds]
  refine ⟨place, shows, revises.now_eq_iff, ?_, ?_, ?_, ?_, ?_, ?_, ?_⟩
  · obtain ⟨d, retains, vector, others⟩ := revises.exists_vector is components holds
    exact ⟨d, w, retains, vector, combines, others⟩
  · intro slot there apart unstored kept
    obtain ⟨same, still⟩ := revises.peek apart unstored kept
    have holds := still.trans there
    rw [same]
    exact ⟨holds, revises.retains_of_peek apart there holds⟩
  · intro cell there apart unstored lasts
    have before : s.peek (.cell cell) = .composite id := there
    have after : t.peek (.cell cell) = .composite id :=
      (revises.content apart unstored (Heap.isSome_body?_of_content there)
        (Option.isSome_map.trans lasts)).trans there
    exact ⟨after, revises.retains_of_peek apart before after⟩
  · intro other d key found holds lasts
    have mem := OrderedMap.mem_values.mpr ⟨key, holds⟩
    have shared : ¬s.Confines f [] (s.target f.constants instr.op1) id :=
      fun confines => confines.apart other d found mem
    obtain ⟨n, found'⟩ := revises.retains found (revises.ne_now found fun _ => shared)
      (Option.isSome_map.trans lasts)
    have closed := Heap.Accounts.closed revises.after.owns
    exact ⟨⟨n, found'⟩, revises.retains_of_alive shared (closed.alive_value found' mem)⟩
  · intro i there
    have alive := revises.after.alive_const i
    rw [there, Option.getD_some] at alive
    refine revises.retains_of_alive (fun confines => confines.literal i ?_) alive
    rw [there, Option.getD_some]
  · intro apart unstored kept
    have same := revises.shown_eq checked assigned storable checked.op2 apart unstored kept
    exact ⟨same, fun other d there found =>
      revises.retains_of_shown checked assigned checked.op2 apart same there found⟩
  · intro used
    obtain ⟨kept, holds⟩ := result used
    rw [← peek_target_of_isWritable t (Operand.isWritable_of_isLiteral storable used), kept, holds]

end Revises

end Store

namespace Machine

variable {m : Machine} {f : Function} {instr : Instruction} {p : Progress}
  {outside : Node → Nat} {id : CompositeId} {c : Composite} {a : Vector2}

/-- An instruction whose operator is registered for vectors and that its handler handles. -/
theorem dispatch_of_handled {handler : Handler} {category : Category} {t : Store}
    (verified : f.Verified) (found : f.code[p.pc]? = some instr) (fits : p.store.frame.Fits f)
    (look : m.table.lookup instr.opcode = some handler)
    (has : instr.opcode.category? = some category)
    (handles : Effect.settle f.constants instr (handler.run
      ⟨instr, category, f.constants, m.options.negationOrder⟩ ⟨p.store, none, none⟩)
        = (.ok .handled, t)) :
    m.dispatch f instr p = (.ok .next, t,
      { p.statistics with handled := p.statistics.handled.add instr.opcode }) := by
  have call := Action.invoke_eq (verified.checked found) has fits handler m.options.negationOrder
  rw [handles] at call
  simp only [dispatch, look, call]

/-- A compound assignment or a step whose first operand shows a vector without the flag, with a
second operand that goes with it, is handled, and updates the vector copy on write: whatever the
operands share, with each other, with other slots, with cells, fields and constants. -/
theorem vector_updates_are_copy_on_write (verified : f.verify = .ok ())
    (found : f.code[p.pc]? = some instr) (registered : Vector2.RegisteredIn m.table)
    (fits : p.store.frame.Fits f) (owns : p.store.Owns [] outside)
    (constants : ∀ node : Node, node.uses f.constants.toList ≤ outside node)
    (shows : p.store.shown f.constants instr.op1 = .composite id)
    (there : p.store.heap.composite? id = some c) (is : c.IsVector a)
    (unflagged : c.flagged = false)
    (suits : instr.opcode.UpdatesWith p.store.heap (p.store.shown f.constants instr.op2)) :
    ∃ t now, m.dispatch f instr p = (.ok .next, t,
        { p.statistics with handled := p.statistics.handled.add instr.opcode })
      ∧ p.store.CopiesOnWrite f instr id now c a t := by
  have verified := Function.verified_of_verify verified
  have checked := verified.checked found
  have acc : p.store.Accounted f outside [] := ⟨fits, owns, constants⟩
  obtain ⟨category, has⟩ := suits.category
  have call : CallContext.Of f p.pc ⟨instr, category, f.constants, m.options.negationOrder⟩ :=
    ⟨checked, has, rfl⟩
  obtain ⟨handler, w, mem, assigns, optional, run, combines⟩ :=
    Vector2.exists_updateInPlace call fits shows there is suits
  have shape := checked.operator has
  have assigned := shape.assigned assigns
  have holds := (Store.peek_target assigned p.store).trans shows
  obtain ⟨u, t, now, ends, revises, result⟩ :=
    Vector2.exists_revises call assigns optional acc holds there is unflagged w
  rw [← run] at ends
  exact ⟨t, now, dispatch_of_handled verified found fits (registered _ mem) has ends,
    revises.copiesOnWrite checked assigned shape.result is rfl combines result⟩

/-- Adds a vector to a variable that shares it, and returns the result. -/
def gathering : Function where
  name := "gathering"
  code := #[
    ⟨.compound .add, .var 0, .var 1, .temp 0, 0⟩,
    ⟨.ret, .temp 0, .unused, .unused, 0⟩]
  constants := #[]
  temporaries := 1
  variableNames := #["a", "b"]

/-- The variable and the temporary share the sum. The other variable keeps the vector. -/
theorem vector_updates_are_copy_on_write_gathering :
    let m := Machine.ofTable .standard Vector2.table
    ∃ t now d, (m.dispatch gathering gathering.code[0] ⟨twins, .zero, 0⟩).2.1 = t
      ∧ t.shown #[] (.var 0) = .composite now ∧ t.shown #[] (.temp 0) = .composite now
      ∧ t.heap.Retains now d
      ∧ d.fields.get? "x" = some (.int 2) ∧ d.fields.get? "y" = some (.int 4)
      ∧ now ≠ ⟨0⟩ ∧ t.shown #[] (.var 1) = .composite ⟨0⟩
      ∧ t.heap.Retains ⟨0⟩
        ⟨Vector2.className, Vector2.writeInto ⟨.int 1, .int 2⟩ .empty, false, 2⟩ := by
  intro m
  have is : Composite.IsVector
      ⟨Vector2.className, Vector2.writeInto ⟨.int 1, .int 2⟩ .empty, false, 2⟩
      ⟨.int 1, .int 2⟩ := ⟨rfl, rfl, rfl⟩
  have code : gathering.code[(⟨twins, .zero, 0⟩ : Progress).pc]? = some gathering.code[0] := rfl
  have shows : twins.shown gathering.constants gathering.code[0].op1 = .composite ⟨0⟩ := rfl
  obtain ⟨t, now, ends, copies⟩ := vector_updates_are_copy_on_write (m := m) rfl code
    Vector2.registeredIn_table ⟨by decide, by decide⟩ owns_twins
    (fun node => Nat.le_of_eq (by cases node <;> rfl)) shows rfl is rfl
    ⟨⟨0⟩, _, _, rfl, rfl, is⟩
  obtain ⟨d, w, retains, vector, ⟨x, y⟩, -⟩ := copies.updated
  have apart : ¬twins.Aliases gathering.constants (.var 0) (.var 1) := by
    rintro (same | ⟨cell, bound, -⟩)
    · cases same
    · cases bound
  have unstored : ¬twins.Aliases gathering.constants (.temp 0) (.var 1) := by
    rintro (same | ⟨cell, bound, -⟩)
    · cases same
    · cases bound
  have kept : ¬gathering.code[0].Vacates (.var 1) := by
    rintro ⟨i, same, -⟩
    cases same
  obtain ⟨second, old⟩ := copies.second apart (fun _ => unstored) kept
  refine ⟨t, now, d, congrArg (·.2.1) ends, copies.shows, copies.result rfl, retains, ?_, ?_, ?_,
    second, old ⟨0⟩ _ rfl rfl⟩
  · have sum : Value.int 2 = w.x.toValue := Except.ok.inj x
    rw [vector.x, ← sum]
  · have sum : Value.int 4 = w.y.toValue := Except.ok.inj y
    rw [vector.y, ← sum]
  · exact fun same => nomatch copies.exact.mp same

end Machine

end OverloadMachine
