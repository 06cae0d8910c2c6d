import OverloadMachine.Proofs.CallEndings
import OverloadMachine.Proofs.ForestCalls

/-!
# Literals

The constants of a function may be composites, with others below them, and a program gets
handles of them: it loads them into variables, stores them in fields and returns them. But
it never changes one. A composite is changed in place only while it has one handle and that
is in the place that is written. A literal has a handle among the constants, and what a
literal holds has one in a field, so neither is met there.
-/

namespace OverloadMachine

namespace Heap

variable {f : Function} {h k l : Heap} {id other : CompositeId} {b : Body} {held : List Value}
  {outside : Node → Nat}

/-! ## Composites of literals -/

/-- A composite is a literal of a function, or is reached from one through fields. -/
inductive Literal (f : Function) (h : Heap) : CompositeId → Prop
  | root {i : Nat} {id : CompositeId} (constant : f.constants[i]? = some (.composite id)) :
    Literal f h id
  | field {id other : CompositeId} (holder : Literal f h id) (contains : h.Contains id other) :
    Literal f h other

/-- The composites of literals are in the second heap what they are in the first one. -/
def Fixes (f : Function) (h k : Heap) : Prop :=
  ∀ id b, h.Literal f id → h.body? (.composite id) = some b → k.body? (.composite id) = some b

/-- What is composite is something, with the handles left out. -/
theorem body?_of_composite {c : Composite} (found : h.composite? id = some c) :
    h.body? (.composite id) = some (.composite c.className c.fields c.flagged) := by
  rw [body?, found, Option.map_some]

/-- A composite that stays what it is holds what it held. -/
theorem Contains.of_body (contains : h.Contains id other)
    (same : ∀ b, h.body? (.composite id) = some b → k.body? (.composite id) = some b) :
    k.Contains id other := by
  obtain ⟨c, found, mem⟩ := contains
  obtain ⟨d, found', eq⟩ := Option.map_eq_some_iff.mp (same _ (body?_of_composite found))
  injection eq with _ fields _
  exact ⟨d, found', fields ▸ mem⟩

/-- Composites of literals are such where they stay what they are. -/
theorem Literal.fixes (literal : h.Literal f id) (fixes : Fixes f h k) : k.Literal f id := by
  induction literal with
  | root constant => exact .root constant
  | field holder contains ih => exact .field ih (contains.of_body fun b => fixes _ b holder)

/-- Constants that are counted outside are alive. -/
theorem alive_constant (accounts : h.Accounts held outside)
    (constants : ∀ node : Node, node.uses f.constants.toList ≤ outside node) {i : Nat} {v : Value}
    (constant : f.constants[i]? = some v) : h.Alive v :=
  accounts.alive_outside fun node => Nat.le_trans
    (node.usedBy_le_uses (Array.mem_toList_iff.mpr (Array.mem_of_getElem? constant)))
    (constants node)

/-- Composites of literals are alive. -/
theorem Literal.alive (literal : h.Literal f id) (accounts : h.Accounts held outside)
    (constants : ∀ node : Node, node.uses f.constants.toList ≤ outside node) :
    h.Alive (.composite id) := by
  induction literal with
  | root constant => exact alive_constant accounts constants constant
  | field holder contains ih =>
    obtain ⟨c, found, mem⟩ := contains
    exact accounts.closed.alive_value found mem

namespace Fixes

theorem refl (f : Function) (h : Heap) : Fixes f h h := fun _ _ _ found => found

/-- New nodes and handles leave what is there. -/
theorem of_remains (remains : h.Remains k) : Fixes f h k := fun _ _ _ found => remains.body? found

theorem trans (first : Fixes f h k) (second : Fixes f k l) : Fixes f h l :=
  fun id b literal found => second id b (literal.fixes first) (first id b literal found)

/-- The composites of literals stay if every composite stays what it is that stays alive: a
literal has a handle among the constants, and what it holds has one in a field. -/
theorem of_alive (accounts : k.Accounts held outside)
    (constants : ∀ node : Node, node.uses f.constants.toList ≤ outside node)
    (same : ∀ id b, h.Literal f id → h.body? (.composite id) = some b →
      k.Alive (.composite id) → k.body? (.composite id) = some b) : Fixes f h k := by
  have alive : ∀ id, h.Literal f id → k.Alive (.composite id) := by
    intro id literal
    induction literal with
    | root constant => exact alive_constant accounts constants constant
    | field holder contains ih =>
      obtain ⟨c, found, mem⟩ := contains.of_body fun b was => same _ b holder was ih
      exact accounts.closed.alive_value found mem
  exact fun id b literal was => same id b literal was (alive id literal)

/-- Composites stay what they are if nodes and handles were first added and then taken away. -/
theorem of_persists (accounts : k.Accounts held outside)
    (constants : ∀ node : Node, node.uses f.constants.toList ≤ outside node)
    (persists : ∀ id, h.Literal f id → Persists (.composite id) h k) : Fixes f h k :=
  of_alive accounts constants fun id b literal was alive => by
    obtain ⟨c, found, -⟩ := alive.composite?
    exact (persists id literal).body? was (by rw [body?_of_composite found]; rfl)

end Fixes

/-- Another handle leaves every node what it is. -/
theorem body?_acquire (h : Heap) (v : Value) (node : Node) :
    (h.acquire v).body? node = h.body? node := by
  cases v with
  | composite id =>
    unfold acquire
    dsimp only
    split
    · rename_i c found
      by_cases same : node = .composite id
      · subst same
        rw [body?_of_composite found, body?, composite?_putComposite, if_pos rfl, Option.map_some]
      · exact h.body?_putComposite _ same
    · rfl
  | ref cell =>
    unfold acquire
    dsimp only
    split
    · rename_i c found
      by_cases same : node = .cell cell
      · subst same
        rw [body?, body?, cell?_putCell, if_pos rfl, found, Option.map_some, Option.map_some]
      · exact h.body?_putCell _ same
    · rfl
  | _ => rfl

end Heap

namespace Store

variable {f : Function} {base : Heap} {outside : Node → Nat} {held : List Value} {s t : Store}
  {place : Place} {id other : CompositeId} {v : Value}

/-! ## Composites that are left alone -/

theorem stems_acquire (node : Node) (s : Store) (v : Value) :
    Heap.Stems node s.heap (s.acquire v).heap := .of_eq (Heap.body?_acquire s.heap v node)

theorem stems_defining (node : Node) (s : Store) (constants : Array Value) (o : Operand) :
    Heap.Stems node s.heap (s.defining constants o).heap := .of_eq (by rw [heap_defining])

theorem stems_put (id : CompositeId) (s : Store) (place : Place) (v : Value) :
    Heap.Stems (.composite id) s.heap (s.put place v).heap := by
  cases place with
  | slot slot => exact .refl _ _
  | cell cell => exact .of_eq (Heap.body?_putContent _ _ nofun)

theorem stems_assign (id : CompositeId) (s : Store) (constants : Array Value) (o : Operand)
    (v : Value) : Heap.Stems (.composite id) s.heap (s.assign constants o v).heap := by
  have written := stems_put id (s.defining constants o) (s.target constants o) v
  exact ((stems_defining _ s constants o).trans written).trans (.release _ _ _)

theorem stems_yield (id : CompositeId) (s : Store) (constants : Array Value) (o : Operand)
    (v : Value) : Heap.Stems (.composite id) s.heap (s.yield constants o v).heap := by
  unfold Store.yield
  split
  · exact .refl _ _
  · exact (stems_acquire _ s v).trans (stems_assign id _ constants o v)

theorem stems_bound (id : CompositeId) (s : Store) (slot : Slot) :
    Heap.Stems (.composite id) s.heap (s.bound slot).2.heap := by
  unfold bound
  split
  · exact stems_acquire _ s _
  · exact .of_eq (Heap.body?_acquire (s.heap.createCell (s.frame.get slot)).2 _ (.composite id))

/-- Separation leaves every composite what it is that lives through it. -/
theorem persists_separate_composite (closed : s.heap.Closed) (id : CompositeId) (place : Place) :
    Heap.Persists (.composite id) s.heap (s.separate place).2.heap := by
  have separated : Heap.Persists (.composite id) s.heap (s.heap.separate (s.peek place)).2.2 :=
    .separate closed fun inner _ => nofun
  exact separated.stems (stems_put id { s with heap := _ } place _)

/-! ## Literals -/

namespace Forested

/-- Whoever changes a literal in place would need its only handle: a literal has another one
beside that in a place. -/
theorem not_mutable_of_literal (forested : s.Forested f outside held)
    (has : s.HasPlace place) (there : s.peek place = .composite id)
    (literal : s.heap.Literal f id) {c : Composite} (found : s.heap.composite? id = some c) :
    c.isMutable = false := by
  have none := forested.heap.unflagged id c found
  rw [Composite.isMutable, none, Bool.or_false, beq_eq_false_iff_ne]
  intro single
  have confines := forested.accounted.confines has there found single
  cases literal with
  | @root i id constant =>
    refine confines.literal i ?_
    rw [constant]
    rfl
  | @field holder id _ contains =>
    obtain ⟨d, found, mem⟩ := contains
    exact confines.apart holder d found mem

/-- The guard lets no field of a literal be set. -/
theorem stems_setFields (forested : s.Forested f outside held) (has : s.HasPlace place)
    (there : s.peek place = .composite other) (literal : s.heap.Literal f id)
    (entries : List (String × Value)) :
    Heap.Stems (.composite id) s.heap (s.heap.setFields other entries).2 := by
  by_cases same : id = other
  · subst same
    have alive := forested.accounted.owns.alive_place place
    rw [there] at alive
    obtain ⟨c, found, -⟩ := alive.composite?
    have shared := forested.not_mutable_of_literal has there literal found
    unfold Heap.setFields Heap.checkMutation
    rw [found]
    dsimp only
    rw [if_neg (by rw [shared]; exact Bool.false_ne_true)]
    exact .of_remains (Heap.remains_releaseAll _ _)
  · exact .setFields (fun eq => same (Node.composite.inj eq)) s.heap entries

end Forested

/-- The store is a forest in which literals are what they are in another heap. -/
structure Fixed (f : Function) (base : Heap) (outside : Node → Nat) (held : List Value)
    (s : Store) : Prop where
  forested : s.Forested f outside held
  fixes : Heap.Fixes f base s.heap

/-- Literals stay what they are if they persist. -/
theorem Fixed.persists {outside' : Node → Nat} {rest : List Value}
    (fixed : s.Fixed f base outside held) (forested : t.Forested f outside' rest)
    (persists : ∀ id, s.heap.Literal f id → Heap.Persists (.composite id) s.heap t.heap) :
    t.Fixed f base outside' rest :=
  ⟨forested, fixed.fixes.trans
    (.of_persists forested.accounted.owns forested.accounted.constants persists)⟩

end Store

/-! ## Instructions -/

namespace Effect

variable {f : Function} {instr : Instruction} {pc : Nat} {base : Heap} {outside : Node → Nat}
  {held : List Value} {s : Store} {id : CompositeId}

section Composites

variable (id : CompositeId) (constants : Array Value) (instr : Instruction) (s : Store)

theorem stems_assign : Heap.Stems (.composite id) s.heap (assign constants instr s).2.heap :=
  (((Store.stems_acquire _ s _).trans (Store.stems_vacateRead _ _ instr)).trans
    (Store.stems_yield id _ constants _ _)).trans (Store.stems_assign id _ constants _ _)

theorem stems_assignRef :
    Heap.Stems (.composite id) s.heap (assignRef constants instr s).2.heap := by
  have bound := Store.stems_bound id (s.defining constants instr.op2) (instr.op2.slot constants)
  exact (((Store.stems_defining _ s _ _).trans bound).trans
    (Store.stems_defining _ _ constants instr.op1)).trans (.release _ _ _)

theorem stems_compound (op : ArithmeticOp) :
    Heap.Stems (.composite id) s.heap (compound constants instr op s).2.heap := by
  have loaded := Store.stems_acquire (.composite id) s (s.shown constants instr.op2)
  unfold compound
  dsimp only
  split
  · exact (loaded.trans (Store.stems_defining _ _ constants instr.op1)).trans (.release _ _ _)
  · exact (((loaded.trans (Store.stems_assign id _ constants _ _)).trans
      (Store.stems_vacateRead _ _ instr)).trans (Store.stems_yield id _ constants _ _)).trans
      (.release _ _ _)

theorem stems_step (time : StepTime) (direction : StepDirection) :
    Heap.Stems (.composite id) s.heap (step constants instr time direction s).2.heap := by
  unfold step
  dsimp only
  split
  · exact Store.stems_defining _ s constants instr.op1
  · cases time with
    | pre =>
      exact (Store.stems_assign id _ constants _ _).trans (Store.stems_yield id _ constants _ _)
    | post =>
      exact ((Store.stems_defining _ s constants instr.op1).trans
        (Store.stems_put id _ (s.target constants instr.op1) _)).trans
        (Store.stems_assign id _ constants _ _)

theorem stems_binary (g : Heap → Value → Value → Except Fault Value) :
    Heap.Stems (.composite id) s.heap (binary constants instr g s).2.heap := by
  unfold binary
  split
  · exact .refl _ _
  · exact (Store.stems_vacateRead _ s instr).trans (Store.stems_assign id _ constants _ _)

theorem stems_getField :
    Heap.Stems (.composite id) s.heap (getField constants instr s).2.heap := by
  unfold getField
  split
  · exact .refl _ _
  · split
    · exact (((Store.stems_acquire _ s _).trans (Store.stems_vacate _ _ _)).trans
        (Store.stems_vacate _ _ _)).trans (Store.stems_assign id _ constants _ _)
    · exact .refl _ _

theorem persists_newComposite :
    Heap.Persists (.composite id) s.heap (newComposite constants instr s).2.heap := by
  unfold newComposite
  split
  · rename_i className _
    -- The new composite is given up by a release, which takes nothing else away.
    have created := Heap.remains_release (s.heap.create className .empty).2
      (.composite (s.heap.create className .empty).1)
    rw [Heap.release_create] at created
    exact (Heap.Persists.of_remains created).stems
      (Store.stems_assign id { s with heap := _ } constants _ _)
  · exact .refl _ _

end Composites

/-- A field is set where a place has the only handle, so no literal changes. -/
theorem persists_setFieldAt {place : Place} {v : Value} (key : String)
    (forested : s.Forested f outside (v :: held)) (has : s.HasPlace place)
    (plain : (s.peek place).Plain) (literal : s.heap.Literal f id) :
    Heap.Persists (.composite id) s.heap (setFieldAt place key v s).2.heap := by
  have closed := Heap.Accounts.closed forested.accounted.owns
  unfold setFieldAt
  split
  · exact .of_stems (.release _ _ _)
  · have separated := forested.separate has plain
    have persists := Store.persists_separate_composite closed id place
    dsimp only
    split
    · rename_i other there
      have kept : Heap.Fixes f s.heap (s.separate place).2.heap :=
        .of_persists separated.accounted.owns separated.accounted.constants fun id _ =>
          Store.persists_separate_composite closed id place
      exact persists.stems (separated.stems_setFields (has.separate there)
        there (literal.fixes kept) _)
    · exact persists.stems (.release _ _ _)

theorem persists_setField {data : Instruction} (checked : instr.Checked f pc)
    (forested : s.Forested f outside held) (literal : s.heap.Literal f id) :
    Heap.Persists (.composite id) s.heap (setField f.constants instr data pc s).2.heap := by
  unfold setField
  split
  · exact .refl _ _
  · rename_i key _
    have loaded := forested.load data.op1
    have has := loaded.accounted.hasPlace_defining checked.op1 instr.op1
    have plain := loaded.plain_peek (instr.op1.slot f.constants)
    have same : ((s.acquire (s.shown f.constants data.op1)).defining f.constants instr.op1).heap
        = s.heap.acquire (s.shown f.constants data.op1) := Store.heap_defining _ _ _
    have loads := Heap.remains_release (s.heap.acquire (s.shown f.constants data.op1))
      (s.shown f.constants data.op1)
    rw [Heap.release_acquire (forested.accounted.alive_shown data.op1)] at loads
    have set := persists_setFieldAt key (loaded.defining instr.op1) has
      (by rw [Store.peek_defining]; exact plain)
      (by rw [same]; exact literal.fixes (.of_remains loads))
    rw [same] at set
    have whole := Heap.Persists.after loads set
    dsimp only
    split
    · rename_i eq
      rw [Store.target, Store.placeOf_acquire, ← Store.target, eq] at whole
      exact whole
    · rename_i eq
      rw [Store.target, Store.placeOf_acquire, ← Store.target, eq] at whole
      exact (whole.stems (Store.stems_vacate _ _ _)).stems (Store.stems_vacate _ _ _)

/-- A literal that lives through a built-in instruction stays what it is. -/
theorem persists_of (verified : f.Verified) (found : f.code[pc]? = some instr)
    (forested : s.Forested f outside []) (literal : s.heap.Literal f id) :
    Heap.Persists (.composite id) s.heap (Effect.of f instr pc s).2.heap := by
  have checked := verified.checked found
  have refl : Heap.Persists (.composite id) s.heap s.heap := .refl _ _
  unfold Effect.of
  cases is : instr.opcode with
  | nop | opData | jmp => exact refl
  | assign => exact .of_stems (stems_assign id _ instr s)
  | assignRef => exact .of_stems (stems_assignRef id _ instr s)
  | newComposite => exact persists_newComposite id _ instr s
  | setField =>
    obtain ⟨-, data, behind, -⟩ := checked.setField is
    exact persists_setField checked forested literal
  | getField => exact .of_stems (stems_getField id _ instr s)
  | free => exact .of_stems (Store.stems_vacate _ s _)
  | jmpIfFalse =>
    dsimp only [jumpIfFalse]
    split
    · exact refl
    · exact .of_stems (Store.stems_vacate _ s _)
  | ret =>
    exact .of_stems ((Store.stems_acquire _ s _).trans (Store.stems_vacate _ _ _))
  | arithmetic op | boolXor | comparison op => exact .of_stems (stems_binary id _ instr s _)
  | unary op => exact .of_stems (stems_binary id _ instr s fun h a _ => Operator.unary h op a)
  | compound op => exact .of_stems (stems_compound id _ instr s op)
  | step time direction => exact .of_stems (stems_step id _ instr s time direction)

/-- A built-in instruction leaves the literals what they were. -/
theorem fixed_of (verified : f.Verified) (found : f.code[pc]? = some instr)
    (fixed : s.Fixed f base outside []) :
    (Effect.of f instr pc s).2.Fixed f base outside (given (Effect.of f instr pc s).1) :=
  fixed.persists (forested_of verified found fixed.forested) fun _ literal =>
    persists_of verified found fixed.forested literal

theorem fixed_finishing {ending : Except Fault Flow × Store}
    (fixed : ending.2.Fixed f base outside held) :
    (finishing ending).2.Fixed f base outside held := by
  refine fixed.persists (forested_finishing fixed.forested) fun id _ => .of_stems ?_
  unfold finishing
  split
  · exact .refl _ _
  · exact .release _ _ _

end Effect

/-! ## Calls of handlers -/

namespace CallState

variable {f : Function} {pc : Nat} {ctx : CallContext} {base : Heap} {outside : Node → Nat}
  {c d : CallState} {touched : Option Touch} {id : CompositeId}

/-- The store of a call is a forest in which literals are what they are in another heap. -/
def Fixed (c : CallState) (f : Function) (base : Heap) (outside : Node → Nat) : Prop :=
  c.store.Fixed f base outside c.pending.toList

/-- What a handler sets under guard are not the fields of a literal. -/
theorem persists_setFields (call : ctx.Of f pc) (forested : c.Forested f outside)
    {fields : List (String × Draft)} (noCell : Draft.EachMakesNoCell fields)
    (literal : c.store.heap.Literal f id) :
    Heap.Persists (.composite id) c.store.heap (c.setFields ctx true fields).2.store.heap := by
  have built := forested_buildEach call forested noCell
  have remains := remains_made call forested.accounted fields
  unfold made at remains
  unfold CallState.setFields
  dsimp only
  generalize Draft.buildEach (ctx.view c.store) c.store.heap fields = made at built remains ⊢
  obtain ⟨entries, heap⟩ := made
  dsimp only at built remains ⊢
  refine .after remains (.of_stems ?_)
  have released : ∀ d : CallState, d.store.heap = heap → Heap.Stems (.composite id) heap
      (entries.foldl (fun c e => c.release e.2) d).store.heap := by
    rintro d rfl
    rw [heap_foldl_release]
    exact .of_remains (Heap.remains_releaseAll _ _)
  by_cases assigns : ctx.category.isAssignment = true
  · rw [call.target_eq (c := { c with store := { c.store with heap := heap } }) assigns
      built.accounted.fits]
    dsimp only
    have same := Store.heap_defining { c.store with heap := heap } f.constants ctx.instr.op1
    dsimp only at same
    split
    · rename_i other there
      have has := built.accounted.hasPlace_defining call.checked.op1 ctx.instr.op1
      have set := (built.defining ctx.instr.op1).stems_setFields has there
        (by rw [same]; exact literal.fixes (.of_remains remains)) entries
      rw [if_pos rfl]
      rw [same] at set ⊢
      exact set
    · exact released _ same
  · rw [CallState.target, if_neg assigns]
    exact released (CallState.refuse _ _) rfl

namespace Fixed

/-- A step leaves the literals that touches no composite. -/
theorem of_spares (fixed : c.Fixed f base outside) (forested : d.Forested f outside)
    (spares : Spares ctx touched c d) (spared : ∀ id, touched ≠ some (.node (.composite id))) :
    d.Fixed f base outside :=
  Store.Fixed.persists fixed forested fun id _ => spares.node (.composite id) (spared id)

theorem setResult (fixed : c.Fixed f base outside) (call : ctx.Of f pc) {draft : Draft}
    (noCell : draft.MakesNoCell) : (c.setResult ctx draft).2.Fixed f base outside := by
  have spares : Spares ctx none c (c.setResult ctx draft).2 :=
    spares_setResult call fixed.forested.accounted draft
  exact fixed.of_spares (CallState.Forested.setResult fixed.forested call noCell) spares
    fun _ => nofun

theorem write (fixed : c.Fixed f base outside) (call : ctx.Of f pc) {draft : Draft}
    (noCell : draft.MakesNoCell) : (c.write ctx draft).2.Fixed f base outside := by
  refine fixed.of_spares (CallState.Forested.write fixed.forested call noCell)
    (spares_write call fixed.forested.accounted draft fun _ => .answer .handled) fun id eq => ?_
  unfold Handler.touch? at eq
  dsimp only at eq
  split at eq
  · exact Place.touch_ne_composite _ id (Option.some.inj eq)
  · cases eq

theorem separate (fixed : c.Fixed f base outside) (call : ctx.Of f pc) :
    (c.separate ctx).2.Fixed f base outside := by
  refine Store.Fixed.persists fixed (CallState.Forested.separate fixed.forested call)
    fun id _ => ?_
  have same := Store.heap_defining c.store f.constants ctx.instr.op1
  unfold CallState.separate
  by_cases assigns : ctx.category.isAssignment = true
  · rw [call.target_eq assigns fixed.forested.accounted.fits]
    dsimp only
    split
    · rw [same]
      exact .refl _ _
    · have closed := Heap.Accounts.closed fixed.forested.accounted.owns
      rw [← same] at closed
      have persists := Store.persists_separate_composite closed id
        (c.store.target f.constants ctx.instr.op1)
      rwa [same] at persists
  · rw [CallState.target, if_neg assigns]
    exact .refl _ _

theorem setFields (fixed : c.Fixed f base outside) (call : ctx.Of f pc)
    {fields : List (String × Draft)} (noCell : Draft.EachMakesNoCell fields) :
    (c.setFields ctx true fields).2.Fixed f base outside :=
  Store.Fixed.persists fixed (CallState.Forested.setFields fixed.forested call noCell)
    fun _ literal => persists_setFields call fixed.forested noCell literal

end Fixed

end CallState

/-- A tame handler leaves the literals what they were. -/
theorem Handler.Tame.fixed_run {f : Function} {pc : Nat} {ctx : CallContext} {base : Heap}
    {outside : Node → Nat} {h : Handler} {c : CallState} (tame : h.Tame) (call : ctx.Of f pc)
    (fixed : c.Fixed f base outside) : (h.run ctx c).2.Fixed f base outside := by
  induction h generalizing c with
  | answer reply => exact fixed
  | inspect next ih => exact ih _ (tame _) fixed
  | note line next ih =>
    have forested := fixed.forested
    exact ih tame ⟨⟨forested.accounted.congr ⟨rfl, rfl⟩, forested.heap, forested.held,
      forested.literals, forested.bare⟩, fixed.fixes⟩
  | setResult value next ih => exact ih _ (tame.2 _) (fixed.setResult call tame.1)
  | write value next ih => exact ih _ (tame.2 _) (fixed.write call tame.1)
  | separate next ih =>
    have kept := fixed.separate call
    rw [Handler.run]
    split
    · rename_i result d eq
      rw [eq] at kept
      exact ih result (tame result) kept
    · rename_i d eq
      rw [eq] at kept
      exact kept
  | setFields guarded fields next ih =>
    obtain ⟨rfl, noCell, later⟩ := tame
    exact ih _ (later _) (fixed.setFields call noCell)
  | setFlag flag next => exact tame.elim
  | mutate source change next => exact tame.elim

/-! ## Runs -/

/-- The call of a tame handler, and the built-in instruction if it declines, leave the literals
what they were. -/
theorem Effect.fixed_calling {f : Function} {instr : Instruction} {pc : Nat} {base : Heap}
    {outside : Node → Nat} {s : Store} (verified : f.Verified) (found : f.code[pc]? = some instr)
    {category : Category} (has : instr.opcode.category? = some category) (order : NegationOrder)
    {handler : Handler} (tame : handler.Tame) (fixed : s.Fixed f base outside []) :
    (calling order f instr pc category handler s).2.Fixed f base outside
      (given (calling order f instr pc category handler s).1) := by
  have checked := verified.checked found
  have call : CallContext.Of f pc ⟨instr, category, f.constants, order⟩ := ⟨checked, has, rfl⟩
  have start : CallState.Fixed ⟨s, none, none⟩ f base outside := fixed
  have ran := tame.fixed_run call start
  have settled : (settle f.constants instr (handler.run ⟨instr, category, f.constants, order⟩
      ⟨s, none, none⟩)).2.Fixed f base outside [] :=
    Store.Fixed.persists ran (forested_settle checked ran.forested) fun id _ =>
      .of_stems (stems_settle (Place.touch_ne_composite _ id))
  unfold calling
  generalize settle f.constants instr _ = ending at settled ⊢
  obtain ⟨result, t⟩ := ending
  cases result with
  | error fault => exact settled
  | ok decision =>
    cases decision with
    | handled => exact settled
    | declined =>
      have kept := fixed_finishing (fixed_of verified found settled)
      rw [deciding, fst_finishing]
      exact kept

/-- Every instruction leaves the literals what they were, if all handlers are tame. -/
theorem Machine.keeps_literals {m : Machine} {f : Function} (verified : f.Verified)
    (tame : ∀ {op handler category}, m.table.lookup op = some handler →
      op.category? = some category → handler.Tame) (base : Heap) (outside : Node → Nat) :
    m.Keeps f fun held s => s.Fixed f base outside held := by
  intro pc instr s found fixed
  unfold Effect.dispatch
  split
  · rename_i handler category look has
    exact Effect.fixed_calling verified found has _ (tame look has) fixed
  · have kept := Effect.fixed_finishing (Effect.fixed_of verified found fixed)
    rw [Effect.fst_finishing]
    exact kept

end OverloadMachine
