import OverloadMachine.Proofs.VectorUpdates

/-!
# Steps behind which the vector before is the result

An increment or decrement that comes afterwards steps the vector of its first operand, copy on
write, and its result is a new composite with the components before. No other field of the vector
is taken over into that. So the result is the vector as it was exactly if the vector has no other
fields.
-/

namespace OverloadMachine

/-- A composite has no fields but the components of a vector. -/
def Composite.IsBare (c : Composite) : Prop :=
  ∀ key, (c.fields.get? key).isSome → key = "x" ∨ key = "y"

/-- The components alone are the fields of a vector exactly if it has no others. -/
theorem Composite.IsVector.isBare_iff {c : Composite} {a : Vector2} (is : c.IsVector a) :
    (∀ key, (a.writeInto .empty).get? key = c.fields.get? key) ↔ c.IsBare := by
  constructor
  · intro same key there
    rw [← same key, a.get?_writeInto] at there
    by_contra other
    obtain ⟨x, y⟩ := not_or.mp other
    rw [if_neg x, if_neg y] at there
    cases there
  · intro bare key
    rw [a.get?_writeInto]
    by_cases x : key = "x"
    · rw [if_pos x, x, is.x]
    by_cases y : key = "y"
    · rw [if_neg x, if_pos y, y, is.y]
    · rw [if_neg x, if_neg y]
      cases there : c.fields.get? key with
      | none => rfl
      | some v => exact absurd (bare key (by rw [there]; rfl)) (not_or.mpr ⟨x, y⟩)

namespace Store

variable {f : Function} {outside : Node → Nat} {s t u : Store} {instr : Instruction}
  {id now old : CompositeId} {c : Composite} {a : Vector2}

/-- From one store to another, an instruction has stepped the vector that its first operand shows,
and its result is a vector with the components before. -/
structure StepsAfter (s : Store) (f : Function) (instr : Instruction) (id now old : CompositeId)
    (c : Composite) (a : Vector2) (t : Store) : Prop where
  result : t.shown f.constants instr.result = .composite old
  fresh : s.heap.composite? old = none
  apart : old ≠ now
  /-- The result has the class of the vector and the components before, and no other fields. -/
  before : t.heap.Retains old ⟨c.className, a.writeInto .empty, false, 1⟩
  /-- The first operand shows the stepped vector, with the other fields as before, unless the
  temporary of the result is bound to the same cell. -/
  after : s.target f.constants instr.op1 ≠ s.target f.constants instr.result →
    t.target f.constants instr.op1 = s.target f.constants instr.op1
      ∧ t.shown f.constants instr.op1 = .composite now
      ∧ (now = id ↔ c.count = 1)
      ∧ ∃ d w, t.heap.Retains now d ∧ d.IsVector w
        ∧ instr.opcode.Combines s.heap a .null w
        ∧ ∀ key, key ≠ "x" → key ≠ "y" → d.fields.get? key = c.fields.get? key

end Store

namespace Vector2

variable {f : Function} {pc : Nat} {ctx : CallContext} {outside : Node → Nat} {s : Store}
  {id : CompositeId} {c : Composite} {a : Vector2} {direction : StepDirection}

/-- A step that comes afterwards ends with the instruction handled. -/
theorem exists_stepsAfter (call : ctx.Of f pc) (opcode : ctx.instr.opcode = .step .post direction)
    (acc : s.Accounted f outside [])
    (shows : s.shown f.constants ctx.instr.op1 = .composite id)
    (found : s.heap.composite? id = some c) (is : c.IsVector a) (unflagged : c.flagged = false) :
    ∃ t now old, Effect.settle f.constants ctx.instr
        ((stepAfter direction).run ctx ⟨s, none, none⟩) = (.ok .handled, t)
      ∧ s.StepsAfter f ctx.instr id now old c a t := by
  have category : ctx.category = .unaryAssignPost := by
    have has := call.category
    rw [opcode] at has
    exact (Option.some.inj has).symm
  have assigns : ctx.category.isAssignment = true := by rw [category]; rfl
  have given : ctx.hasResult = true := by rw [CallContext.hasResult, category]; rfl
  have shape := call.checked.operator call.category
  have assigned := shape.assigned assigns
  obtain ⟨i, temporary⟩ := shape.before category
  have used : ctx.instr.result.isUnused = false := by rw [temporary]; rfl
  have there := (Store.peek_target assigned s).trans shows
  have first := ofValue_first call acc.fits shows found is
  obtain ⟨next, starts, goesOn⟩ : ∃ next, (stepAfter direction).run ctx ⟨s, none, none⟩
      = ((a.step (stepDelta direction)).replace next).run ctx ⟨s, none, none⟩
        ∧ next (.ok ()) = yield a.draft := by
    rw [stepAfter, Handler.run, first]
    exact ⟨_, rfl, rfl⟩
  obtain ⟨u, now, ran, between, replaces⟩ := exists_replaces call assigns acc there found is
    unflagged (a.step (stepDelta direction)) next
  have run : (stepAfter direction).run ctx ⟨s, none, none⟩
      = (yield a.draft).run ctx ⟨u, none, none⟩ := by
    rw [starts, ran, goesOn]
  obtain ⟨t, ends, closes, finishes, after, kept, holds⟩ :=
    exists_yielded call given used between (a.build_draft (ctx.view u) u.heap)
      fun cell is => by cases is
  have revises : s.Revises f ctx.instr outside id now c _ u t :=
    ⟨acc, acc.hasPlace call.checked.op1, there, found, replaces, between, closes, after⟩
  -- The result is made after the step, so it is neither the vector before nor the stepped one.
  have unmade : u.heap.composite? (u.heap.create className (a.writeInto .empty)).1 = none :=
    OrderedMap.get?_next _
  have made : ({ u with heap := (u.heap.create className (a.writeInto .empty)).2 } :
      Store).heap.Retains (u.heap.create className (a.writeInto .empty)).1
        ⟨c.className, a.writeInto .empty, false, 1⟩ :=
    ⟨1, by rw [is.className]; simp [Heap.create]⟩
  generalize (u.heap.create className (a.writeInto .empty)).1 = old at unmade made holds
  obtain ⟨apart, fresh⟩ := replaces.fresh unmade
  have alive := after.owns.alive_place (u.target f.constants ctx.instr.result)
  rw [holds] at alive
  refine ⟨t, now, old, run ▸ ends, ⟨?_, fresh, apart,
    finishes.retains made (alive.isSome_body? rfl), fun elsewhere => ?_⟩⟩
  · rw [← Store.peek_target_of_isWritable t
      (Operand.isWritable_of_isLiteral shape.result used), kept, holds]
  · obtain ⟨place, updated⟩ := revises.peek_target assigned call.checked.op1
      fun delivers => elsewhere delivers.2.symm
    obtain ⟨d, retains, vector, others⟩ := revises.exists_vector is rfl updated
    refine ⟨place, ?_, revises.now_eq_iff, d, _, retains, vector, ?_, others⟩
    · rw [← Store.peek_target assigned, place, updated]
    · rw [opcode]
      exact ⟨Operator.apply_step _ _ _, Operator.apply_step _ _ _⟩

end Vector2

namespace Machine

variable {m : Machine} {f : Function} {instr : Instruction} {p : Progress}
  {outside : Node → Nat} {id : CompositeId} {c : Composite} {a : Vector2}
  {direction : StepDirection}

/-- An increment or decrement that comes afterwards, of a vector without the flag, is handled,
whatever shares the vector. The first operand shows the stepped vector, and the result is a new
composite. It has the class and the fields of the vector before exactly if that had no fields but
its components. -/
theorem post_step_returns_the_vector_before_iff (verified : f.verify = .ok ())
    (found : f.code[p.pc]? = some instr) (registered : Vector2.RegisteredIn m.table)
    (fits : p.store.frame.Fits f) (owns : p.store.Owns [] outside)
    (constants : ∀ node : Node, node.uses f.constants.toList ≤ outside node)
    (opcode : instr.opcode = .step .post direction)
    (shows : p.store.shown f.constants instr.op1 = .composite id)
    (there : p.store.heap.composite? id = some c) (is : c.IsVector a)
    (unflagged : c.flagged = false) :
    ∃ t now old, m.dispatch f instr p = (.ok .next, t,
        { p.statistics with handled := p.statistics.handled.add instr.opcode })
      ∧ p.store.StepsAfter f instr id now old c a t
      ∧ ((∃ d, t.heap.composite? old = some d ∧ d.className = c.className
          ∧ ∀ key, d.fields.get? key = c.fields.get? key) ↔ c.IsBare) := by
  have verified := Function.verified_of_verify verified
  have has : instr.opcode.category? = some .unaryAssignPost := by rw [opcode]; rfl
  have mem : (Opcode.step .post direction, Vector2.stepAfter direction) ∈ Vector2.operators := by
    cases direction with
    | up => exact List.mem_iff_getElem?.mpr ⟨11, rfl⟩
    | down => exact List.mem_iff_getElem?.mpr ⟨12, rfl⟩
  have look : m.table.lookup instr.opcode = some (Vector2.stepAfter direction) := by
    rw [opcode]
    exact registered _ mem
  have call : CallContext.Of f p.pc
      ⟨instr, .unaryAssignPost, f.constants, m.options.negationOrder⟩ :=
    ⟨verified.checked found, has, rfl⟩
  obtain ⟨t, now, old, ends, steps⟩ := Vector2.exists_stepsAfter call opcode
    ⟨fits, owns, constants⟩ shows there is unflagged
  refine ⟨t, now, old, dispatch_of_handled verified found fits look has ends, steps, ?_⟩
  obtain ⟨n, result⟩ := steps.before
  rw [← is.isBare_iff]
  constructor
  · rintro ⟨d, same, -, fields⟩
    rw [result] at same
    cases same
    exact fields
  · exact fun fields => ⟨_, result, rfl, fields⟩

/-- Increments its variable and returns the vector before. -/
def returning : Function where
  name := "returning"
  code := #[
    ⟨.step .post .up, .var 0, .unused, .temp 0, 0⟩,
    ⟨.ret, .temp 0, .unused, .unused, 0⟩]
  constants := #[]
  temporaries := 1
  variableNames := #["a", "b"]

/-- Two variables share a vector. After the increment of one of them there are three composites:
what it was, for the other one, the same again as the result, and the stepped one. -/
theorem post_step_returns_the_vector_before_iff_returning :
    let m := Machine.ofTable .standard Vector2.table
    ∃ t now old d, (m.dispatch returning returning.code[0] ⟨twins, .zero, 0⟩).2.1 = t
      ∧ t.shown #[] (.temp 0) = .composite old ∧ t.heap.composite? old = some d
      ∧ d.fields.get? "x" = some (.int 1) ∧ d.fields.get? "y" = some (.int 2)
      ∧ t.shown #[] (.var 0) = .composite now ∧ old ≠ now ∧ now ≠ ⟨0⟩ := by
  intro m
  have is : Composite.IsVector
      ⟨Vector2.className, Vector2.writeInto ⟨.int 1, .int 2⟩ .empty, false, 2⟩
      ⟨.int 1, .int 2⟩ := ⟨rfl, rfl, rfl⟩
  have code : returning.code[(⟨twins, .zero, 0⟩ : Progress).pc]? = some returning.code[0] := rfl
  have opcode : returning.code[0].opcode = .step .post .up := rfl
  have shows : twins.shown returning.constants returning.code[0].op1 = .composite ⟨0⟩ := rfl
  obtain ⟨t, now, old, ends, steps, same⟩ := post_step_returns_the_vector_before_iff (m := m) rfl
    code Vector2.registeredIn_table ⟨by decide, by decide⟩ owns_twins
    (fun node => Nat.le_of_eq (by cases node <;> rfl)) opcode shows rfl is rfl
  obtain ⟨-, shows, exact, -⟩ := steps.after nofun
  obtain ⟨d, found, -, fields⟩ := same.mpr (is.isBare_iff.mp fun _ => rfl)
  exact ⟨t, now, old, d, congrArg (·.2.1) ends, steps.result, found, fields "x", fields "y", shows,
    steps.apart, fun eq => nomatch exact.mp eq⟩

/-- A store with a vector that has a third field. -/
def tagged : Store where
  heap := (Heap.empty.createWith Vector2.className
    (Vector2.entries ⟨.int 1, .int 2⟩ ++ [("tag", .str "keep")])).2
  frame := { Frame.ofSizes 1 0 with vars := #[.composite ⟨0⟩, .null] }
  notes := #[]

/-- The third field is kept by the stepped vector, and lost from the result. -/
theorem post_step_drops_other_fields :
    let m := Machine.ofTable .standard Vector2.table
    let ending := m.dispatch returning returning.code[0] ⟨tagged, .zero, 0⟩
    returning.verify = .ok () ∧ ending.1 = .ok .next
      ∧ tagged.shown #[] (.var 0) = .composite ⟨0⟩
      ∧ (tagged.heap.composite? ⟨0⟩).map (·.className) = some Vector2.className
      ∧ tagged.heap.field? ⟨0⟩ "x" = some (.int 1) ∧ tagged.heap.field? ⟨0⟩ "y" = some (.int 2)
      ∧ tagged.heap.field? ⟨0⟩ "tag" = some (.str "keep")
      ∧ ending.2.1.shown #[] (.temp 0) = .composite ⟨1⟩
      ∧ ending.2.1.heap.field? ⟨1⟩ "x" = some (.int 1)
      ∧ ending.2.1.heap.field? ⟨1⟩ "y" = some (.int 2)
      ∧ ending.2.1.heap.field? ⟨1⟩ "tag" = none
      ∧ ending.2.1.heap.field? ⟨0⟩ "tag" = some (.str "keep") :=
  ⟨rfl, rfl, rfl, rfl, rfl, rfl, rfl, rfl, rfl, rfl, rfl, rfl⟩

end Machine

end OverloadMachine
