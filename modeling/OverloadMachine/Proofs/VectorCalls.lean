import OverloadMachine.Proofs.Contracts
import OverloadMachine.Vector2.Operators

/-!
# Calls of the operators of vectors

The handlers of vectors set a result only where one is asked for, and write only
where the instruction assigns. An update finds its vector again after the
separation, in the same place and free to be changed, whoever shares it. So the
handlers meet the contracts of their calls, and no run breaks one.
-/

namespace OverloadMachine

/-- What is found in a table that entries were registered in is one of them, or was there
before. -/
theorem DispatchTable.Builder.lookup_registerAll {α : Type} (entries : List (Opcode × α))
    {b : Builder α} {op : Opcode} {handler : α}
    (found : (b.registerAll entries).2.table.lookup op = some handler) :
    (op, handler) ∈ entries ∨ b.table.lookup op = some handler := by
  induction entries generalizing b with
  | nil => exact Or.inr found
  | cons e rest ih =>
    unfold registerAll register at found
    split at found
    · rename_i b' eq
      split at eq
      · cases eq
        rcases ih found with there | before
        · exact Or.inl (List.mem_cons_of_mem _ there)
        · rw [lookup_set] at before
          split at before
          · rename_i same
            cases before
            rw [same]
            exact Or.inl List.mem_cons_self
          · exact Or.inr before
      · cases eq
    · rename_i error b' eq
      split at eq <;> cases eq
      exact Or.inr found

namespace Vector2

/-- The table with the operators of vectors. -/
def table : DispatchTable Handler :=
  (DispatchTable.Builder.empty.registerAll operators).2.freeze

/-- The handlers of the table are the operators of vectors. -/
theorem mem_operators {op : Opcode} {handler : Handler}
    (look : table.lookup op = some handler) : (op, handler) ∈ operators := by
  rcases DispatchTable.Builder.lookup_registerAll operators look with there | before
  · exact there
  · cases before

/-- The handlers of vectors for the operators of a category. -/
inductive HandlerFor : Category → Handler → Prop
  /-- Two vectors yield a vector or a scalar. -/
  | onVectors (g : Vector2 → Vector2 → Draft)
    (yields : ∀ a b, (∃ v : Vector2, g a b = v.draft) ∨ ∃ v, g a b = .scalar v) :
    HandlerFor .binary (onVectors g)
  | multiply : HandlerFor .binary multiply
  | assignVectors (g : Vector2 → Vector2 → Vector2) : HandlerFor .binaryAssign (assignVectors g)
  | assignProduct : HandlerFor .binaryAssign assignProduct
  | stepBefore (direction : StepDirection) : HandlerFor .unaryAssignPre (stepBefore direction)
  | stepAfter (direction : StepDirection) : HandlerFor .unaryAssignPost (stepAfter direction)

/-- Every operator of vectors has a handler for its category. -/
theorem handlerFor_of_mem {op : Opcode} {handler : Handler} (mem : (op, handler) ∈ operators)
    {category : Category} (has : op.category? = some category) : HandlerFor category handler := by
  simp only [operators, List.mem_cons, Prod.mk.injEq, List.not_mem_nil, or_false] at mem
  rcases mem with ⟨rfl, rfl⟩ | ⟨rfl, rfl⟩ | ⟨rfl, rfl⟩ | ⟨rfl, rfl⟩ | ⟨rfl, rfl⟩ | ⟨rfl, rfl⟩
    | ⟨rfl, rfl⟩ | ⟨rfl, rfl⟩ | ⟨rfl, rfl⟩ | ⟨rfl, rfl⟩ | ⟨rfl, rfl⟩ | ⟨rfl, rfl⟩ | ⟨rfl, rfl⟩
    <;> cases has
  · exact .onVectors _ fun a b => Or.inl ⟨_, rfl⟩
  · exact .onVectors _ fun a b => Or.inl ⟨_, rfl⟩
  · exact .multiply
  · exact .onVectors _ fun a b => Or.inr ⟨_, rfl⟩
  · exact .onVectors _ fun a b => Or.inr ⟨_, rfl⟩
  · exact .onVectors _ fun a b => Or.inr ⟨_, rfl⟩
  · exact .assignVectors add
  · exact .assignVectors sub
  · exact .assignProduct
  · exact .stepBefore .up
  · exact .stepBefore .down
  · exact .stepAfter .up
  · exact .stepAfter .down

/-- The handler of an instruction in the table is one of vectors for its category. -/
theorem handlerFor_of_lookup {op : Opcode} {handler : Handler}
    (look : table.lookup op = some handler) {category : Category}
    (has : op.category? = some category) : HandlerFor category handler :=
  handlerFor_of_mem (mem_operators look) has

/-- What is a vector is a composite of the class of vectors. -/
theorem composite_of_ofValue {h : Heap} {v : Value} {u : Vector2} (is : ofValue h v = .ok u) :
    ∃ id c, v = .composite id ∧ h.composite? id = some c ∧ c.className = className := by
  unfold ofValue at is
  split at is
  · rename_i c there
    obtain ⟨id, composite, found⟩ := Option.bind_eq_some_iff.mp there
    unfold ofComposite at is
    split at is
    · rename_i isVector
      cases v <;> cases composite
      exact ⟨id, c, rfl, found, isVector⟩
    · cases is
  · cases is

/-! ## Contracts -/

variable {f : Function} {pc : Nat} {ctx : CallContext} {outside : Node → Nat} {s : Store}

/-- A result that is asked for may be set. -/
theorem meets_yield (given : ctx.hasResult = true) (result : Draft) (c : CallState) :
    (yield result).Meets ctx c := by
  refine ⟨given, ?_⟩
  rw [(CallState.setResult_of_hasResult given result).1]
  exact nofun

/-- Whoever declines breaks no contract. -/
theorem meets_orDecline {α : Type} {next : α → Handler} {found : Except Unsupported α}
    {c : CallState} (meets : ∀ a, found = .ok a → (next a).Meets ctx c) :
    (orDecline next found).Meets ctx c := by
  cases found with
  | ok a => exact meets a rfl
  | error reason => exact nofun

/-- A call of a category that always yields asks for a result. -/
theorem hasResult_of_alwaysYields (yields : ctx.category.alwaysYields = true) :
    ctx.hasResult = true := by
  rw [CallContext.hasResult, yields, Bool.true_or]

theorem meets_onVectors (yields : ctx.category.alwaysYields = true)
    (g : Vector2 → Vector2 → Draft) (c : CallState) : (onVectors g).Meets ctx c :=
  meets_orDecline fun _ _ => meets_yield (hasResult_of_alwaysYields yields) _ c

theorem meets_multiply (yields : ctx.category.alwaysYields = true) (c : CallState) :
    multiply.Meets ctx c := by
  have given := hasResult_of_alwaysYields yields
  unfold multiply Handler.Meets
  dsimp only
  split
  · rename_i seen _
    refine meets_orDecline fun v _ => ?_
    cases seen.sign with
    | negate => exact meets_yield given _ c
    | plus => exact meets_yield given _ c
  · exact meets_orDecline fun v _ => meets_yield given _ c

/-- Numbers are made without touching the heap. -/
theorem buildEach_entries (view : CallView) (h : Heap) (v : Vector2) :
    Draft.buildEach view h (v.entries.map fun e => (e.1, .scalar e.2)) = (v.entries, h) := by
  have scalar (n : Number) :
      (if n.toValue.isHandle then Value.null else n.toValue) = n.toValue := by
    cases n <;> rfl
  simp only [entries, List.map_cons, List.map_nil, Draft.buildEach, Draft.build, scalar]

/-- After the separation of what the first operand shows its components can be replaced. -/
theorem passes_separate (call : ctx.Of f pc) (acc : s.Accounted f outside [])
    (assigns : ctx.category.isAssignment = true) {id : CompositeId}
    (shown : s.shown f.constants ctx.instr.op1 = .composite id) {result : Except Violation Bool}
    {d : CallState} (separates : CallState.separate ctx ⟨s, none, none⟩ = (some result, d))
    (v : Vector2) :
    result.isOk = true ∧ d.Passes ctx (v.entries.map fun e => (e.1, .scalar e.2)) := by
  have assigned := (call.checked.operator call.category).assigned assigns
  have has := acc.hasPlace_defining call.checked.op1 ctx.instr.op1
  have defined := acc.defining ctx.instr.op1
  have slot := call.checked.op1.has_slot defined.fits
  rw [← Store.peek_target assigned, ← Store.peek_defining s f.constants ctx.instr.op1] at shown
  obtain ⟨j, there⟩ := defined.owns.composite_separate has shown
  have may := defined.owns.mayChange_separate has there
  have place : ((s.defining f.constants ctx.instr.op1).separate
      (s.target f.constants ctx.instr.op1)).2.target f.constants ctx.instr.op1
      = s.target f.constants ctx.instr.op1 := by
    have kept := Store.placeOf_separate (s := s.defining f.constants ctx.instr.op1) slot
    rwa [Store.placeOf_defining] at kept
  have fits := (Store.fits_separate _ (s.target f.constants ctx.instr.op1) f).mpr defined.fits
  unfold CallState.separate at separates
  rw [call.target_eq (c := ⟨s, none, none⟩) assigns acc.fits] at separates
  dsimp only at separates
  split at separates
  · cases separates
  · generalize (s.defining f.constants ctx.instr.op1).separate (s.target f.constants ctx.instr.op1)
      = separated at separates there may place fits
    obtain ⟨copied, t⟩ := separated
    cases separates
    have targeted := call.target_eq (c := ⟨t, none, none⟩) assigns fits
    dsimp only at place targeted
    rw [place] at targeted
    have holds : (CallState.target ctx ⟨t, none, none⟩).2.store.peek
        (s.target f.constants ctx.instr.op1) = .composite j := by
      rw [targeted, Store.peek_defining]
      exact there
    refine ⟨rfl, CallState.passes_of_target (by rw [buildEach_entries]) (congrArg Prod.fst targeted)
      holds ?_⟩
    rw [targeted, Store.heap_defining]
    exact may

/-- Components are replaced under guard, and the guard lets them. -/
theorem meets_replace (call : ctx.Of f pc) (acc : s.Accounted f outside [])
    (assigns : ctx.category.isAssignment = true) {id : CompositeId}
    (shown : s.shown f.constants ctx.instr.op1 = .composite id) (v : Vector2)
    {next : Except Refusal Unit → Handler} (later : ∀ d, (next (.ok ())).Meets ctx d) :
    (v.replace next).Meets ctx ⟨s, none, none⟩ := by
  refine ⟨assigns, fun result d separates => ?_⟩
  obtain ⟨ok, passes⟩ := passes_separate call acc assigns shown separates v
  cases result with
  | error violation => cases ok
  | ok copied =>
    refine ⟨assigns, rfl, passes, ?_⟩
    rw [(CallState.setFields_of_passes assigns passes).1]
    exact later _

theorem meets_updateInPlace (call : ctx.Of f pc) (acc : s.Accounted f outside [])
    (assigns : ctx.category.isAssignment = true) {id : CompositeId}
    (shown : s.shown f.constants ctx.instr.op1 = .composite id) (v : Vector2) :
    (updateInPlace v).Meets ctx ⟨s, none, none⟩ := by
  refine meets_replace call acc assigns shown v fun d => ?_
  by_cases given : ctx.hasResult = true
  · have asked : (ctx.view d.store).hasResult = true := given
    unfold Handler.orRefused Handler.Meets
    dsimp only
    rw [if_pos asked]
    exact meets_yield given _ d
  · have spared : ¬(ctx.view d.store).hasResult = true := given
    unfold Handler.orRefused Handler.Meets
    dsimp only
    rw [if_neg spared]
    exact nofun

/-- A first operand that is a vector shows a composite. -/
theorem shown_of_ofValue (call : ctx.Of f pc) (fits : s.frame.Fits f) {u : Vector2}
    (is : ofValue s.heap (ctx.view s).op1.value = .ok u) :
    ∃ id, s.shown f.constants ctx.instr.op1 = .composite id := by
  obtain ⟨id, -, shown, -⟩ := composite_of_ofValue is
  refine ⟨id, ?_⟩
  rw [← call.see_eq call.checked.op1 fits]
  exact shown

/-- The operators of vectors meet the contracts of their calls. -/
theorem HandlerFor.meets (call : ctx.Of f pc) (acc : s.Accounted f outside []) {handler : Handler}
    (is : HandlerFor ctx.category handler) : handler.Meets ctx ⟨s, none, none⟩ := by
  have update : ctx.category.isAssignment = true → ∀ {u : Vector2},
      ofValue s.heap (ctx.view s).op1.value = .ok u → ∀ v : Vector2,
      (updateInPlace v).Meets ctx ⟨s, none, none⟩ := by
    intro assigns u vector v
    obtain ⟨id, shown⟩ := shown_of_ofValue call acc.fits vector
    exact meets_updateInPlace call acc assigns shown v
  generalize eq : ctx.category = category at is
  cases is with
  | onVectors g _ => exact meets_onVectors (by rw [eq]; rfl) g _
  | multiply => exact meets_multiply (by rw [eq]; rfl) _
  | assignVectors g =>
    refine meets_orDecline fun found both => ?_
    obtain ⟨u, vector, -⟩ := bind_eq_ok.mp both
    exact update (by rw [eq]; rfl) vector _
  | assignProduct =>
    refine meets_orDecline fun v product => ?_
    obtain ⟨u, vector, -⟩ := bind_eq_ok.mp product
    exact update (by rw [eq]; rfl) vector _
  | stepBefore direction =>
    exact meets_orDecline fun u vector => update (by rw [eq]; rfl) vector _
  | stepAfter direction =>
    refine meets_orDecline fun u vector => ?_
    obtain ⟨id, shown⟩ := shown_of_ofValue call acc.fits vector
    exact meets_replace call acc (by rw [eq]; rfl) shown _ fun d =>
      meets_yield (hasResult_of_alwaysYields (by rw [eq]; rfl)) _ d

end Vector2

namespace Machine

variable {m : Machine} {f : Function} {outside : Node → Nat} {s : Store}

/-- A table without handlers breaks no contract, and the operators of vectors break none. -/
theorem meetsContracts_of_vectors (verified : f.Verified)
    (table : m.table = .empty ∨ m.table = Vector2.table) : m.MeetsContracts f outside := by
  intro pc instr handler category s found look has acc
  rcases table with empty | vectors
  · rw [empty] at look
    cases look
  · rw [vectors] at look
    have call : CallContext.Of f pc ⟨instr, category, f.constants, m.options.negationOrder⟩ :=
      ⟨verified.checked found, has, rfl⟩
    exact Vector2.HandlerFor.meets call acc (Vector2.handlerFor_of_lookup look has)

/-- Without handlers, and with the operators of vectors, no run of a verified function ends in a
violation, whatever is shared, flagged, bound or malformed. After any number of
instructions, a field is set only where the guard lets it: by SET_FIELD in what is in
the place after the separation, and by a handler at whatever step it comes to set
fields. -/
theorem no_violation_with_vectors (verified : f.verify = .ok ()) (owns : s.Owns [] outside)
    (constants : ∀ node : Node, node.uses f.constants.toList ≤ outside node)
    (table : m.table = .empty ∨ m.table = Vector2.table) :
    (∀ violation, (m.executeIn f s).1 ≠ .failed (.contract violation)
        ∧ (m.executeIn f s).1 ≠ .aborted (.contract violation))
      ∧ ∀ n p, m.runFor f n (m.start f s) = .running p → ∃ instr, m.GuardsAt f p instr :=
  no_violation_of_meetsContracts verified owns constants
    (meetsContracts_of_vectors (Function.verified_of_verify verified) table)

/-- Adds a vector to itself, stores the sum in a field of its own and steps it. -/
def doubling : Function where
  name := "doubling"
  code := #[
    ⟨.compound .add, .var 0, .var 1, .unused, 0⟩,
    ⟨.setField, .var 0, .const 0, .unused, 0⟩,
    ⟨.opData, .var 0, .unused, .unused, 0⟩,
    ⟨.step .post .up, .var 0, .unused, .temp 0, 0⟩,
    ⟨.ret, .temp 0, .unused, .unused, 0⟩]
  constants := #[.str "self"]
  temporaries := 1
  variableNames := #["a", "b"]

/-- A vector in a heap of its own. -/
def vector : CompositeId × Heap :=
  Heap.empty.createWith Vector2.className (Vector2.entries ⟨.int 1, .int 2⟩)

/-- A store in which two variables share a vector. -/
def twins : Store where
  heap := vector.2.acquire (.composite vector.1)
  frame := { Frame.ofSizes 1 0 with vars := #[.composite vector.1, .composite vector.1] }
  notes := #[]

theorem owns_twins : twins.Owns [] fun _ => 0 := by
  have nothing : Heap.empty.Accounts
      ((Vector2.entries ⟨.int 1, .int 2⟩).map (·.2) ++ []) fun _ => 0 := fun node => by
    cases node <;> rfl
  have one := nothing.createWith Vector2.className
  exact (one.acquire (one.alive List.mem_cons_self)).congr fun node => by
    simp [twins, vector, Frame.values, Frame.ofSizes, OrderedMap.values, OrderedMap.empty]

/-- A shared vector is doubled, put into itself and stepped without a violation. -/
theorem no_violation_doubling :
    let m := Machine.ofTable .standard Vector2.table
    (∀ violation, (m.executeIn doubling twins).1 ≠ .failed (.contract violation)
        ∧ (m.executeIn doubling twins).1 ≠ .aborted (.contract violation))
      ∧ ∀ n p, m.runFor doubling n (m.start doubling twins) = .running p →
        ∃ instr, m.GuardsAt doubling p instr :=
  no_violation_with_vectors rfl owns_twins (fun node => Nat.le_of_eq (by cases node <;> rfl))
    (Or.inr rfl)

end Machine

end OverloadMachine
