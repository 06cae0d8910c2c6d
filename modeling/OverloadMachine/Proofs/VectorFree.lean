import OverloadMachine.Proofs.Counting
import OverloadMachine.Proofs.VectorCalls

/-!
# Programs without vectors

The classes of the composites in a heap are those that were there and those that
NEW_COMPOSITE has named: copies keep the class of what they copy, and nothing else
makes a composite. So a function that names no vectors meets none, and there the
handlers of vectors decline before they take any effect. Such a function runs as
without them, and every instruction that has a handler is counted as declined.
-/

namespace OverloadMachine

/-! ## Classes -/

/-- Every composite is of an allowed class. -/
def Heap.Classes (h : Heap) (allowed : String → Prop) : Prop :=
  ∀ id c, h.composite? id = some c → allowed c.className

namespace Heap.Classes

variable {h k : Heap} {allowed : String → Prop}

/-- Only the composites of a heap matter. -/
theorem congr (classes : h.Classes allowed) (same : ∀ id, k.composite? id = h.composite? id) :
    k.Classes allowed := fun id c found => classes id c (by rw [← same, found])

theorem remains (classes : h.Classes allowed) (remains : Remains k h) : k.Classes allowed := by
  intro id c found
  obtain ⟨more, -, before⟩ := remains.composite found
  have may := classes id _ before
  exact may

theorem release (classes : h.Classes allowed) (v : Value) : (h.release v).Classes allowed :=
  classes.remains (remains_release h v)

theorem putComposite (classes : h.Classes allowed) (id : CompositeId) {c : Composite}
    (may : allowed c.className) : (h.putComposite id c).Classes allowed := by
  intro j d found
  rw [composite?_putComposite] at found
  split at found
  · cases found
    exact may
  · exact classes j d found

theorem acquire (classes : h.Classes allowed) (v : Value) : (h.acquire v).Classes allowed := by
  unfold Heap.acquire
  split
  · split
    · rename_i c found
      exact classes.putComposite _ (classes _ c found)
    · exact classes
  · split
    · exact classes
    · exact classes
  · exact classes

theorem acquireAll (classes : h.Classes allowed) (vs : List Value) :
    (h.acquireAll vs).Classes allowed := by
  induction vs generalizing h with
  | nil => exact classes
  | cons v vs ih => exact ih (classes.acquire v)

theorem create (classes : h.Classes allowed) {className : String} (may : allowed className)
    (fields : NameMap Value) : (h.create className fields).2.Classes allowed :=
  classes.putComposite _ may

theorem putContent (classes : h.Classes allowed) (cell : CellId) (v : Value) :
    (h.putContent cell v).Classes allowed :=
  classes.congr fun id => composite?_putContent h cell v id

theorem insertField (classes : h.Classes allowed) (id : CompositeId) (key : String) (v : Value) :
    (h.insertField id key v).Classes allowed := by
  cases found : h.composite? id with
  | none =>
    unfold Heap.insertField
    rw [found]
    exact classes.release v
  | some c =>
    have set : (h.putComposite id { c with fields := c.fields.insert key v }).Classes allowed :=
      classes.putComposite id (classes id c found)
    exact set.remains (remains_insertField found key v)

theorem setField (classes : h.Classes allowed) (id : CompositeId) (key : String) (v : Value) :
    (h.setField id key v).2.Classes allowed := by
  rw [Heap.setField, setFields]
  cases h.checkMutation id with
  | ok _ => exact classes.insertField id key v
  | error violation => exact classes.release v

theorem separateComposite (classes : h.Classes allowed) (id : CompositeId) :
    (h.separateComposite id).2.2.Classes allowed := by
  unfold Heap.separateComposite
  split
  · rename_i c found
    split
    · exact classes
    · exact ((classes.acquireAll _).create (classes id c found) _).release _
  · exact classes

theorem separate (classes : h.Classes allowed) (v : Value) :
    (h.separate v).2.2.Classes allowed := by
  unfold Heap.separate
  split
  · exact classes.separateComposite _
  · split
    · exact (classes.separateComposite _).putContent _ _
    · exact classes
  · exact classes

end Heap.Classes

namespace Store

variable {s : Store} {allowed : String → Prop} {constants : Array Value}

/-- The composites of a store are of allowed classes. -/
def Classed (s : Store) (allowed : String → Prop) : Prop := s.heap.Classes allowed

namespace Classed

theorem put (classed : s.Classed allowed) (place : Place) (v : Value) :
    (s.put place v).Classed allowed := by
  cases place with
  | slot slot => exact classed
  | cell cell => exact Heap.Classes.putContent classed cell v

theorem overwrite (classed : s.Classed allowed) (place : Place) (v : Value) :
    (s.overwrite place v).Classed allowed :=
  Heap.Classes.release (classed.put place v) _

theorem acquire (classed : s.Classed allowed) (v : Value) : (s.acquire v).Classed allowed :=
  Heap.Classes.acquire classed v

theorem release (classed : s.Classed allowed) (v : Value) : (s.release v).Classed allowed :=
  Heap.Classes.release classed v

theorem defining (classed : s.Classed allowed) (constants : Array Value) (o : Operand) :
    (s.defining constants o).Classed allowed := by
  unfold Classed
  rw [heap_defining]
  exact classed

theorem assign (classed : s.Classed allowed) (o : Operand) (v : Value) :
    (s.assign constants o v).Classed allowed :=
  (classed.defining constants o).overwrite _ v

theorem yield (classed : s.Classed allowed) (o : Operand) (v : Value) :
    (s.yield constants o v).Classed allowed := by
  unfold Store.yield
  split
  · exact classed
  · exact (classed.acquire v).assign o v

theorem vacate (classed : s.Classed allowed) (o : Operand) : (s.vacate o).Classed allowed := by
  cases o with
  | temp i => exact classed.overwrite _ .null
  | _ => exact classed

theorem vacateRead (classed : s.Classed allowed) (instr : Instruction) :
    (s.vacateRead instr).Classed allowed := by
  have one : (if instr.op1 ≠ instr.result then s.vacate instr.op1 else s).Classed allowed := by
    split
    · exact classed.vacate _
    · exact classed
  unfold Store.vacateRead
  dsimp only
  split
  · exact one.vacate _
  · exact one

theorem bound (classed : s.Classed allowed) (slot : Slot) : (s.bound slot).2.Classed allowed := by
  unfold Store.bound
  split
  · exact classed.acquire _
  · exact Heap.Classes.acquire (h := (s.heap.createCell _).2) classed _

theorem separate (classed : s.Classed allowed) (place : Place) :
    (s.separate place).2.Classed allowed := by
  have separated : ({ s with heap := (s.heap.separate (s.peek place)).2.2 } : Store).Classed
      allowed := Heap.Classes.separate classed _
  exact separated.put place _

end Classed

end Store

namespace Effect

variable {f : Function} {instr : Instruction} {pc : Nat} {s : Store} {allowed : String → Prop}

theorem classed_binary (classed : s.Classed allowed) (constants : Array Value)
    (instr : Instruction) (g : Heap → Value → Value → Except Fault Value) :
    (binary constants instr g s).2.Classed allowed := by
  unfold binary
  split
  · exact classed
  · exact (classed.vacateRead instr).assign _ _

theorem classed_setFieldAt (classed : s.Classed allowed) (place : Place) (key : String)
    (v : Value) : (setFieldAt place key v s).2.Classed allowed := by
  unfold setFieldAt
  split
  · exact classed.release v
  · dsimp only
    split
    · exact Heap.Classes.setField (classed.separate place) _ key v
    · exact (classed.separate place).release v

/-- A built-in instruction makes composites of the classes that are there and of the one
that it names. -/
theorem classed_of (named : ∀ className, instr.opcode = .newComposite →
      s.held f.constants instr.op1 = .str className → allowed className)
    (classed : s.Classed allowed) : (Effect.of f instr pc s).2.Classed allowed := by
  unfold Effect.of
  cases is : instr.opcode with
  | assign => exact (((classed.acquire _).vacateRead instr).yield _ _).assign _ _
  | assignRef => exact (((classed.defining _ _).bound _).defining _ _).overwrite _ _
  | newComposite =>
    dsimp only
    unfold newComposite
    split
    · rename_i className held
      have created : ({ s with heap := (s.heap.create className .empty).2 } : Store).Classed
          allowed := Heap.Classes.create classed (named className is held) .empty
      exact created.assign _ _
    · exact classed
  | setField =>
    dsimp only
    unfold setField
    split
    · exact classed
    · rename_i key _
      have loaded := classed.acquire (s.shown f.constants (f.code[pc + 1]?.getD instr).op1)
      have set := classed_setFieldAt (loaded.defining f.constants instr.op1)
        (s.target f.constants instr.op1) key (s.shown f.constants (f.code[pc + 1]?.getD instr).op1)
      dsimp only
      split
      · rename_i eq
        rw [eq] at set
        exact set
      · rename_i eq
        rw [eq] at set
        exact (set.vacate _).vacate _
  | getField =>
    dsimp only
    unfold getField
    split
    · exact classed
    · split
      · exact (((classed.acquire _).vacate _).vacate _).assign _ _
      · exact classed
  | free => exact classed.vacate _
  | jmpIfFalse =>
    dsimp only
    unfold jumpIfFalse
    split
    · exact classed
    · exact classed.vacate _
  | ret => exact (classed.acquire _).vacate _
  | arithmetic op => exact classed_binary classed _ _ _
  | boolXor => exact classed_binary classed _ _ _
  | comparison op => exact classed_binary classed _ _ _
  | compound op =>
    dsimp only
    unfold compound
    dsimp only
    split
    · exact ((classed.acquire _).defining _ _).release _
    · exact ((((classed.acquire _).assign _ _).vacateRead instr).yield _ _).release _
  | unary op => exact classed_binary classed _ _ fun h a _ => Operator.unary h op a
  | step time direction =>
    dsimp only
    unfold step
    dsimp only
    split
    · exact classed.defining _ _
    · split
      · exact (classed.assign _ _).yield _ _
      · exact ((classed.defining _ _).put _ _).assign _ _
  | _ => exact classed

/-- The end of an instruction makes no composites. -/
theorem classed_finishing {ending : Except Fault Flow × Store}
    (classed : ending.2.Classed allowed) : (finishing ending).2.Classed allowed := by
  unfold finishing
  split
  · exact classed
  · exact classed.overwrite _ _

end Effect

/-! ## Handlers without vectors -/

namespace Vector2

variable {h : Heap} {ctx : CallContext}

/-- A heap without vectors. -/
def Absent (h : Heap) : Prop := h.Classes fun name => name ≠ className

/-- A value is no vector. -/
def Refused {α : Type} (found : Except Unsupported α) : Prop := ∃ reason, found = .error reason

/-- Without vectors no value is a vector. -/
theorem Absent.ofValue (absent : Absent h) (v : Value) : Refused (ofValue h v) := by
  cases is : Vector2.ofValue h v with
  | error reason => exact ⟨reason, rfl⟩
  | ok u =>
    obtain ⟨id, c, -, found, vector⟩ := composite_of_ofValue is
    exact absurd vector (absent id c found)

/-- What begins with a refusal is refused. -/
theorem Refused.bind {α β : Type} {first : Except Unsupported α} (refused : Refused first)
    (next : α → Except Unsupported β) : Refused (first >>= next) := by
  obtain ⟨reason, rfl⟩ := refused
  exact ⟨reason, rfl⟩

/-- Without vectors there is no product of a vector and a number. -/
theorem Absent.product {view : CallView} (absent : Absent view.heap) : Refused (product view) := by
  unfold Vector2.product
  cases second view with
  | error reason => exact ⟨reason, rfl⟩
  | ok rhs =>
    obtain ⟨one, left⟩ := absent.ofValue view.op1.value
    obtain ⟨two, right⟩ := absent.ofValue rhs
    refine ⟨one, ?_⟩
    simp only [bind, Except.bind, left, right]
    rfl

/-- A handler declines what is refused before it changes anything. -/
theorem Refused.run_orDecline {α : Type} {found : Except Unsupported α} (refused : Refused found)
    (next : α → Handler) (c : CallState) :
    ∃ reason, (orDecline next found).run ctx c = (some (.unsupported reason), c) := by
  obtain ⟨reason, rfl⟩ := refused
  exact ⟨reason, rfl⟩

/-- Without vectors the operators of vectors decline before they change anything. -/
theorem HandlerFor.run_of_absent {category : Category} {handler : Handler}
    (is : HandlerFor category handler) (ctx : CallContext) (c : CallState)
    (absent : Absent c.store.heap) :
    ∃ reason, handler.run ctx c = (some (.unsupported reason), c) := by
  cases is with
  | onVectors g _ => exact ((absent.ofValue _).bind _).run_orDecline _ c
  | multiply =>
    rw [Vector2.multiply, Handler.run]
    split
    · exact (absent.ofValue _).run_orDecline _ c
    · exact absent.product.run_orDecline _ c
  | assignVectors g => exact ((absent.ofValue _).bind _).run_orDecline _ c
  | assignProduct => exact ((absent.ofValue _).bind _).run_orDecline _ c
  | stepBefore direction => exact (absent.ofValue _).run_orDecline _ c
  | stepAfter direction => exact (absent.ofValue _).run_orDecline _ c

end Vector2

/-- A function names no class when it makes composites. -/
def Function.MakesNo (f : Function) (className : String) : Prop :=
  ∀ instr ∈ f.code, instr.opcode = .newComposite →
    ∀ i, instr.op1 = .const i → f.constants[i]? ≠ some (.str className)

namespace Machine

variable {m : Machine} {f : Function} {outside : Node → Nat} {s : Store}

/-- Without handlers a function that names no vectors makes none. -/
theorem keeps_absent (verified : f.Verified) (makes : f.MakesNo Vector2.className) :
    m.plain.Keeps f fun _ s => Vector2.Absent s.heap := by
  intro pc instr s found absent
  refine Effect.classed_finishing (Effect.classed_of (fun className is held => ?_) absent)
  obtain ⟨⟨i, name, first, text⟩, -⟩ := (verified.checked found).newComposite is
  rintro rfl
  rw [first, Store.held, text, Option.getD_some] at held
  cases held
  exact makes instr (Array.mem_of_getElem? found) is i first text

/-- Without vectors the operators of vectors decline every call. -/
theorem declinesWhere_absent (table : m.table = Vector2.table) :
    m.DeclinesWhere f outside Vector2.Absent := by
  intro pc instr handler category s found look has acc absent
  rw [table] at look
  obtain ⟨reason, run⟩ := (Vector2.handlerFor_of_lookup look has).run_of_absent
    ⟨instr, category, f.constants, m.options.negationOrder⟩ ⟨s, none, none⟩ absent
  exact ⟨.unsupported reason, _, run, trivial, .refl s, rfl⟩

/-- A verified function that makes no vectors, in a store in which there are none, ends with
the operators of vectors as without handlers, with the same outcome, heap and frame.
No instruction is counted as handled, and each that is fetched and has a handler is
counted as declined. -/
theorem sameEnding_without_vectors (verified : f.verify = .ok ()) (rest : s.AtRest f outside)
    (table : m.table = Vector2.table) (absent : Vector2.Absent s.heap)
    (makes : f.MakesNo Vector2.className) :
    SameEnding (m.executeIn f s) (m.plain.executeIn f s)
      ∧ (m.executeIn f s).2.1.statistics.handled = m.statistics.handled
      ∧ ∀ op, (m.executeIn f s).2.1.statistics.declined.get op
        = m.statistics.declined.get op
          + (m.fetched f (budget m.options.maxInstructions) (m.start f s)).countP fun instr =>
            instr.opcode == op && m.table.contains op := by
  have order := Function.verified_of_verify verified
  have declines : m.DeclinesWhere f outside Vector2.Absent := declinesWhere_absent table
  have keeps := keeps_absent (m := m) order makes
  exact ⟨sameEnding_of_transparentWhere verified rest absent keeps
      (declines.transparent order),
    statistics_executeIn verified rest absent declines keeps⟩

/-- Compares two composites, negates what comes out, adds it to an undefined variable and
faults at the sum of two composites. -/
def bystander : Function where
  name := "bystander"
  code := #[
    ⟨.comparison .equal, .var 0, .var 1, .temp 0, 0⟩,
    ⟨.arithmetic .mul, .const 0, .temp 0, .temp 1, 0⟩,
    ⟨.compound .add, .dynamic 1, .temp 1, .unused, 0⟩,
    ⟨.newComposite, .const 2, .unused, .temp 0, 0⟩,
    ⟨.arithmetic .add, .temp 0, .var 0, .temp 1, 0⟩,
    ⟨.ret, .temp 1, .unused, .unused, 0⟩]
  constants := #[.int (-1), .str "sum", .str "Point"]
  temporaries := 2
  variableNames := #["a", "b"]

/-- The class of a composite is not that of vectors. -/
theorem absent_sharing : Vector2.Absent sharing.heap := by
  have nothing : Heap.empty.Classes fun name => name ≠ Vector2.className :=
    fun id c found => by cases found
  exact (nothing.create (by decide) .empty).acquire _

/-- Operators on composites that are no vectors are not disturbed by those of vectors. -/
theorem sameEnding_bystander :
    let m := Machine.ofTable .standard Vector2.table
    SameEnding (m.executeIn bystander sharing) (m.plain.executeIn bystander sharing)
      ∧ (m.executeIn bystander sharing).2.1.statistics.handled = m.statistics.handled
      ∧ ∀ op, (m.executeIn bystander sharing).2.1.statistics.declined.get op
        = m.statistics.declined.get op + (m.fetched bystander (budget m.options.maxInstructions)
          (m.start bystander sharing)).countP fun instr =>
            instr.opcode == op && m.table.contains op := by
  have rest : sharing.AtRest bystander fun _ => 0 :=
    ⟨atRest_sharing.owns, fun node => Nat.le_of_eq (by cases node <;> rfl), nofun⟩
  have makes : bystander.MakesNo Vector2.className := by
    intro instr mem is i first
    simp only [bystander, List.mem_toArray, List.mem_cons, List.not_mem_nil, or_false] at mem
    rcases mem with rfl | rfl | rfl | rfl | rfl | rfl <;> cases is
    cases first
    simp [bystander, Vector2.className]
  exact sameEnding_without_vectors rfl rest rfl absent_sharing makes

/-- With a reference in the scratch slot the operators of vectors are noticed: without them a
sum that is not used is written through the reference, and with them the reference is given
up before. -/
theorem vector_sum_spares_leftover :
    let m := Machine.ofTable .standard Vector2.table
    discardedSum.verify = .ok () ∧ leftover.Owns [] (fun _ => 0)
      ∧ (∀ node : Node, node.uses discardedSum.constants.toList ≤ 0)
      ∧ Vector2.Absent leftover.heap ∧ discardedSum.MakesNo Vector2.className
      ∧ (m.executeIn discardedSum leftover).2.2.heap.content ⟨0⟩ = .int 1
      ∧ (m.plain.executeIn discardedSum leftover).2.2.heap.content ⟨0⟩ = .int 10 := by
  refine ⟨rfl, owns_leftover, uses_discardedSum, fun id c found => (nomatch found),
    fun instr mem is => ?_, rfl, rfl⟩
  simp only [discardedSum, List.mem_toArray, List.mem_cons, List.not_mem_nil, or_false] at mem
  rcases mem with rfl | rfl <;> cases is

end Machine

end OverloadMachine
