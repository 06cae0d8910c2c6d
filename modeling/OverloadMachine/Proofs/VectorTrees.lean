import OverloadMachine.Proofs.ForestCalls

/-!
# Vectors as trees

The operators of vectors make new composites and change the first operand's composite in
place, after its holder is separated from the others. Which of this happens can be told
from the trees of the operands, and so can the trees that it leads to: a new vector is a
new tree, and a change in place is a change of the tree of one variable, and of those that
are bound to it. So a call of such an operator comes to the same in all stores that show
the same trees, whatever they share.
-/

namespace OverloadMachine

/-! ## Trees that are vectors -/

/-- Numeric field of a tree. -/
def Tree.component? (fields : List (String × Tree)) (key : String) : Option Number :=
  Number.ofValue? ((OrderedMap.lookup key fields).getD .null).surface

/-- The vector that a tree is, if it is one. -/
def Tree.vector? : Tree → Option Vector2
  | .leaf _ _ => none
  | .node className fields =>
    if className = Vector2.className then do
      let x ← component? fields "x"
      let y ← component? fields "y"
      return ⟨x, y⟩
    else none

/-- Set a field of the tree in a slot and in all that are bound to it. -/
def TreeStore.setField (T : TreeStore) (slot : Slot) (key : String) (t : Tree) : TreeStore :=
  match T.value slot with
  | .node className fields => T.write slot (.node className (OrderedMap.place key t fields))
  | .leaf _ _ => T

/-- What is read of a variable is the tree in its slot. -/
theorem TreeStore.read_of_isVariable {T : TreeStore} {constants : Array Value}
    {literals : Array Tree} {o : Operand} (assigned : o.isVariable = true) :
    T.read constants literals o = T.value (o.slot constants) := by
  cases o <;> first | rfl | cases assigned

namespace Vector2

/-- The tree of a new vector. -/
def tree (v : Vector2) : Tree :=
  .node className ((v.writeInto .empty).entries.map fun e => (e.1, .ofValue e.2))

/-- Replace the components of the tree in a slot. -/
def replaceIn (v : Vector2) (T : TreeStore) (slot : Slot) : TreeStore :=
  v.entries.foldl (fun T e => T.setField slot e.1 (.ofValue e.2)) T

end Vector2

namespace Heap

variable {h : Heap} {t : Tree} {v : Value}

/-- The number of a value is that of its tree. -/
theorem Holds.number (holds : h.Holds t v) :
    Number.ofValue? v = Number.ofValue? t.surface := by
  cases t with
  | leaf w scalar => exact congrArg Number.ofValue? holds
  | node className fields =>
    obtain ⟨id, c, rfl, -⟩ := holds
    rfl

/-- The number in a field is that in the field of the tree. -/
theorem HoldsEach.component {c : Composite} {fields : List (String × Tree)}
    (each : h.HoldsEach fields c.fields.entries) (key : String) :
    (Vector2.component? c key).toOption = Tree.component? fields key := by
  have same := (each.lookup key).number
  have field : c.fields.get? key = OrderedMap.lookup key c.fields.entries := rfl
  rw [← field] at same
  rw [Tree.component?, ← same, Vector2.component?]
  cases c.fields.get? key with
  | none => rfl
  | some v =>
    dsimp only [Option.bind_eq_bind, Option.bind_some, Option.getD_some]
    cases Number.ofValue? v <;> rfl

/-- Whether a value is a vector, and which, can be told from its tree. -/
theorem Holds.vector (holds : h.Holds t v) : (Vector2.ofValue h v).toOption = t.vector? := by
  cases t with
  | leaf w scalar =>
    obtain rfl : v = w := holds
    cases v <;> first | rfl | cases scalar
  | node className fields =>
    obtain ⟨id, c, rfl, found, rfl, each⟩ := holds
    have x := each.component "x"
    have y := each.component "y"
    have there : ((Value.composite id).composite? >>= h.composite?) = some c := found
    rw [Vector2.ofValue, there, Tree.vector?, ← x, ← y]
    dsimp only
    unfold Vector2.ofComposite
    split
    · cases Vector2.component? c "x" <;> cases Vector2.component? c "y" <;> rfl
    · rfl

/-- What is in a numeric field is a scalar. -/
theorem scalar_of_component {c : Composite} {key : String} {n : Number}
    (is : Vector2.component? c key = .ok n) : ((c.fields.get? key).getD .null).node? = none := by
  unfold Vector2.component? at is
  cases there : c.fields.get? key with
  | none => rfl
  | some w =>
    rw [there] at is
    cases w <;> first | rfl | cases is

/-- The components of a vector are scalars. -/
theorem scalar_of_vector {id : CompositeId} {c : Composite} {u : Vector2}
    (found : h.composite? id = some c) (is : Vector2.ofValue h (.composite id) = .ok u)
    (v : Vector2) : ∀ e ∈ v.entries, ((c.fields.get? e.1).getD .null).node? = none := by
  have there : ((Value.composite id).composite? >>= h.composite?) = some c := found
  rw [Vector2.ofValue, there] at is
  dsimp only [Vector2.ofComposite] at is
  split at is
  · obtain ⟨x, first, is⟩ := bind_eq_ok.mp is
    obtain ⟨y, second, -⟩ := bind_eq_ok.mp is
    intro e mem
    rcases List.mem_cons.mp mem with rfl | mem
    · exact scalar_of_component first
    · rw [List.mem_singleton.mp mem]
      exact scalar_of_component second
  · cases is

/-- Scalars unfold into their leaves. -/
theorem holdsEach_scalars (h : Heap) {entries : List (String × Value)}
    (scalars : ∀ e ∈ entries, e.2.node? = none) :
    h.HoldsEach (entries.map fun e => (e.1, .ofValue e.2)) entries := by
  induction entries with
  | nil => rfl
  | cons e rest ih =>
    exact ⟨e.2, rest, rfl, h.holds_ofValue (scalars e List.mem_cons_self),
      ih fun e mem => scalars e (List.mem_cons_of_mem _ mem)⟩

/-- A field is set where no handle is given up for it. -/
theorem insertField_of_scalar {id : CompositeId} {c : Composite}
    (found : h.composite? id = some c) {key : String}
    (old : ((c.fields.get? key).getD .null).node? = none) (v : Value) :
    h.insertField id key v = h.putComposite id { c with fields := c.fields.insert key v } := by
  unfold insertField
  rw [found]
  dsimp only
  cases there : c.fields.get? key with
  | none => rfl
  | some w =>
    rw [there] at old
    exact release_of_node?_eq_none _ old

end Heap

namespace Store.Mirrors

variable {f : Function} {outside : Node → Nat} {literals : Array Tree} {s : Store}
  {T : TreeStore} {slot : Slot} {id : CompositeId} {c : Composite} {held : List (Value × Tree)}

/-- A new composite of scalars is a node of leaves. -/
theorem createScalars (mirrors : s.Mirrors f outside literals held T) (className : String)
    {fields : NameMap Value} (scalars : ∀ e ∈ fields.entries, e.2.node? = none) :
    ({ s with heap := (s.heap.create className fields).2 } : Store).Mirrors f outside literals
      ((.composite (s.heap.create className fields).1,
        .node className (fields.entries.map fun e => (e.1, .ofValue e.2))) :: held) T := by
  let e : Value × Tree := (.composite (s.heap.create className fields).1,
    .node className (fields.entries.map fun e => (e.1, .ofValue e.2)))
  have acc : ({ s with heap := (s.heap.create className fields).2 } : Store).Accounted f outside
      ((e :: held).map (·.1)) := by
    refine ⟨mirrors.accounted.fits, ?_, mirrors.accounted.constants⟩
    have none : ∀ node : Node, node.uses fields.values = 0 := fun node =>
      node.uses_of_scalars fun v mem => by
        obtain ⟨e, among, rfl⟩ := List.mem_map.mp mem
        exact scalars e among
    have first : s.heap.Accounts (fields.values ++ (s.frame.values ++ held.map (·.1))) outside :=
      Heap.Accounts.congr mirrors.accounted.owns fun node => by
        rw [Node.uses_append, none, Nat.zero_add]
    refine (first.create className).congr fun node => ?_
    simp only [e, List.map_cons, Node.uses_append, Node.uses_cons]
    omega
  have carries : s.heap.Carries (s.heap.create className fields).2 :=
    .of_grows (.create s.heap className fields)
  refine mirrors.carry_places acc carries ?_ (fun _ => rfl) rfl fun slot ne =>
    mirrors.shown_of_same acc carries ne ?_
  · intro e mem
    rcases List.mem_cons.mp mem with rfl | old
    · refine Or.inr ⟨_, ⟨className, fields, false, 1⟩, rfl, ?_, rfl, ?_⟩
      · simp only [Heap.create, Heap.composite?_putComposite, if_true]
      · exact Heap.holdsEach_scalars _ scalars
    · exact Or.inl old
  · change Store.peek _ (s.placeOf slot) = _
    cases s.placeOf slot <;> rfl

/-- Scalars are set in place of scalars, while the composite has one handle. -/
theorem insertScalars {entries : List (String × Value)}
    (mirrors : s.Mirrors f outside literals held T) (has : s.frame.Has slot)
    (ne : slot ≠ .scratch) (there : s.peek (s.placeOf slot) = .composite id)
    (found : s.heap.composite? id = some c) (single : c.count = 1)
    (scalars : ∀ e ∈ entries, e.2.node? = none)
    (old : ∀ e ∈ entries, ((c.fields.get? e.1).getD .null).node? = none) :
    ({ s with heap := s.heap.insertFields id entries } : Store).Mirrors f outside literals held
      (entries.foldl (fun T e => T.setField slot e.1 (.ofValue e.2)) T) := by
  induction entries generalizing s T c with
  | nil => exact mirrors
  | cons e rest ih =>
    have holds := mirrors.shown slot ne
    rw [there] at holds
    obtain ⟨d, fields, found', tree, -⟩ := holds.of_composite
    have scalar := scalars e List.mem_cons_self
    have set := @insertField _ _ _ _ _ _ e.1 _ _ _ _ _ _ _ (mirrors.scalar scalar) has ne there
      found single tree
    have heap := Heap.insertField_of_scalar found (old e List.mem_cons_self) e.2
    have shown := set.accounted.peek_insertField found slot
    have step : T.setField slot e.1 (.ofValue e.2)
        = T.write slot (.node d.className (OrderedMap.place e.1 (.ofValue e.2) fields)) := by
      rw [TreeStore.setField, tree]
    rw [List.foldl_cons, step]
    refine ih (c := { c with fields := c.fields.insert e.1 e.2 }) set has (shown.trans there) ?_
      single (fun e mem => scalars e (List.mem_cons_of_mem _ mem)) fun other mem => ?_
    · rw [heap, Heap.composite?_putComposite, if_pos rfl]
    · rw [OrderedMap.get?_insert]
      split
      · exact scalar
      · exact old other (List.mem_cons_of_mem _ mem)

end Store.Mirrors

/-! ## What calls come to -/

theorem ok_of_toOption {ε α : Type} {x : Except ε α} {a : α} (found : x.toOption = some a) :
    x = .ok a := by
  cases x <;> cases found
  rfl

theorem toOption_bind {ε α β : Type} (x : Except ε α) (next : α → Except ε β) :
    (x >>= next).toOption = x.toOption.bind fun a => (next a).toOption := by
  cases x <;> rfl

section Calls

variable {f : Function} {pc : Nat} {ctx : CallContext} {literals : Array Tree}
  {T U : TreeStore} {t : Tree} {u v : Vector2}

/-- The operands of a verified instruction are in its function. -/
theorem CallContext.Of.within_select (call : ctx.Of f pc) (side : Side) :
    (side.select ctx.instr).Within f := by
  cases side with
  | first => exact call.checked.op1
  | second => exact call.checked.op2

/-- A draft makes a value with the same tree in every store that shows the trees. -/
def Draft.Makes (ctx : CallContext) (f : Function) (literals : Array Tree) (draft : Draft)
    (T : TreeStore) (t : Tree) : Prop :=
  ∀ (outside : Node → Nat) (s : Store), s.Mirrors f outside literals [] T →
    ({ s with heap := (draft.build (ctx.view s) s.heap).2 } : Store).Mirrors f outside literals
      [((draft.build (ctx.view s) s.heap).1, t)] T

/-- A handler handles its instruction in every store that shows the trees, and leaves the
same trees. -/
def Handler.Makes (ctx : CallContext) (f : Function) (literals : Array Tree) (h : Handler)
    (T U : TreeStore) : Prop :=
  ∀ (outside : Node → Nat) (s : Store), s.Mirrors f outside literals [] T →
    ∃ t, Effect.settle f.constants ctx.instr (h.run ctx ⟨s, none, none⟩) = (.ok .handled, t)
      ∧ t.Mirrors f outside literals [] U

/-- A handler declines in every store that shows the trees, before it has done anything. -/
def Handler.Leaves (ctx : CallContext) (f : Function) (literals : Array Tree) (h : Handler)
    (T : TreeStore) : Prop :=
  ∀ (outside : Node → Nat) (s : Store), s.Mirrors f outside literals [] T →
    ∃ reason, h.run ctx ⟨s, none, none⟩ = (some (.unsupported reason), ⟨s, none, none⟩)

/-- What a call comes to can be told from the trees. -/
def Handler.Decided (ctx : CallContext) (f : Function) (literals : Array Tree) (h : Handler)
    (T : TreeStore) : Prop :=
  (∃ U, h.Makes ctx f literals T U) ∨ h.Leaves ctx f literals T

/-- What is looked for in a call is found or not in every store that shows the trees. -/
def CallContext.Finds {α : Type} (ctx : CallContext) (f : Function) (literals : Array Tree)
    (look : CallView → Except Unsupported α) (T : TreeStore) (found : Option α) : Prop :=
  ∀ (outside : Node → Nat) (s : Store), s.Mirrors f outside literals [] T →
    (look (ctx.view s)).toOption = found

namespace Vector2

theorem makes_scalar (w : Value) : (Draft.scalar w).Makes ctx f literals T
    (.ofValue (if w.isHandle then .null else w)) := by
  intro outside s mirrors
  have scalar : (if w.isHandle then Value.null else w).node? = none := by cases w <;> rfl
  exact mirrors.scalar scalar

/-- A vector is made of its components, one after the other. -/
theorem createWith_entries (h : Heap) (v : Vector2) :
    h.createWith className v.entries = h.create className (v.writeInto .empty) := by
  simp [Heap.createWith, Heap.gather, entries, writeInto, OrderedMap.get?_insert]

/-- The components of a vector are numbers. -/
theorem scalar_entries (v : Vector2) : ∀ e ∈ v.entries, e.2.node? = none := by
  have number : ∀ n : Number, n.toValue.node? = none := fun n => by cases n <;> rfl
  intro e mem
  rcases List.mem_cons.mp mem with rfl | mem
  · exact number v.x
  · rw [List.mem_singleton.mp mem]
    exact number v.y

/-- The fields of a new vector are numbers. -/
theorem scalar_writeInto (v : Vector2) :
    ∀ e ∈ (v.writeInto (.empty : NameMap Value)).entries, e.2.node? = none := by
  intro e mem
  have among : e.2 ∈ (v.writeInto (.empty : NameMap Value)).values :=
    List.mem_map.mpr ⟨e, mem, rfl⟩
  rcases OrderedMap.mem_values_insert among with eq | among
  · rw [eq]
    exact v.scalar_entries ("y", v.y.toValue) (List.mem_cons_of_mem _ List.mem_cons_self)
  · rcases OrderedMap.mem_values_insert among with eq | among
    · rw [eq]
      exact v.scalar_entries ("x", v.x.toValue) List.mem_cons_self
    · cases among

/-- A vector is made as a composite with its components and no other fields. -/
theorem build_draft (v : Vector2) (view : CallView) (h : Heap) :
    v.draft.build view h = (.composite (h.create className (v.writeInto .empty)).1,
      (h.create className (v.writeInto .empty)).2) := by
  rw [draft, Draft.build, buildEach_entries]
  dsimp only
  rw [createWith_entries]

theorem makes_draft (v : Vector2) : v.draft.Makes ctx f literals T v.tree := by
  intro outside s mirrors
  rw [build_draft]
  exact mirrors.createScalars className v.scalar_writeInto

/-- Another handle of what an operand shows has its tree. -/
theorem makes_copy {source : Source} {o : Operand} (within : o.Within f)
    (finds : ∀ s : Store, s.frame.Fits f → (ctx.view s).find source = s.shown f.constants o) :
    (Draft.copy source).Makes ctx f literals T (T.read f.constants literals o) := by
  intro outside s mirrors
  rw [Draft.build, finds s mirrors.accounted.fits]
  exact mirrors.acquire (mirrors.read within) (mirrors.accounted.alive_shown o)

theorem makes_first (call : ctx.Of f pc) : (Draft.copy (.operand .first)).Makes ctx f literals T
    (T.read f.constants literals ctx.instr.op1) :=
  makes_copy call.checked.op1 fun _ fits => by
    rw [← call.see_eq call.checked.op1 fits]
    rfl

/-- What handled an instruction without a result leaves the trees, but for the temporaries
that are emptied. -/
theorem makes_handled (call : ctx.Of f pc) :
    (Handler.answer .handled).Makes ctx f literals T (T.vacateRead ctx.instr) :=
  fun _ _ mirrors => ⟨_, rfl, (mirrors.vacateRead call.checked.op1 call.checked.op2).clear⟩

/-- A result that is asked for is made and held back, and the instruction is handled. -/
theorem run_yield (given : ctx.hasResult = true) (draft : Draft) (s : Store) :
    (yield draft).run ctx ⟨s, none, none⟩ = (some .handled,
      ⟨{ s with heap := (draft.build (ctx.view s) s.heap).2 },
        some (draft.build (ctx.view s) s.heap).1, none⟩) := by
  have set : CallState.setResult ctx ⟨s, none, none⟩ draft = (.ok (),
      ⟨{ s with heap := (draft.build (ctx.view s) s.heap).2 },
        some (draft.build (ctx.view s) s.heap).1, none⟩) := by
    unfold CallState.setResult
    dsimp only
    rw [if_pos given]
    rfl
  rw [yield, Handler.run, set]
  rfl

theorem makes_yield (call : ctx.Of f pc) (given : ctx.hasResult = true) {draft : Draft}
    (makes : draft.Makes ctx f literals T t) : (yield draft).Makes ctx f literals T
      ((T.deliver f.constants ctx.instr.result t).vacateRead ctx.instr) := by
  intro outside s mirrors
  have made := makes outside s mirrors
  rw [run_yield given]
  refine ⟨_, rfl, Store.Mirrors.clear (Store.Mirrors.vacateRead ?_ call.checked.op1
    call.checked.op2)⟩
  unfold Effect.storePending
  dsimp only
  split
  · rename_i unused
    rw [TreeStore.deliver, if_pos unused]
    exact made.release
  · exact made.assign_result call.checked.result

section Replacement

variable {outside : Node → Nat} {s : Store} {id : CompositeId} {c : Composite}

/-- What an operand shows can be separated, unless it is a cell that is bound to itself. -/
theorem separate_of_free (call : ctx.Of f pc) (assigns : ctx.category.isAssignment = true)
    (fits : s.frame.Fits f) (free : (s.defining f.constants ctx.instr.op1).isSelfBound
      (s.target f.constants ctx.instr.op1) = false) :
    CallState.separate ctx ⟨s, none, none⟩
      = (some (.ok ((s.defining f.constants ctx.instr.op1).separate
          (s.target f.constants ctx.instr.op1)).1),
        ⟨((s.defining f.constants ctx.instr.op1).separate
          (s.target f.constants ctx.instr.op1)).2, none, none⟩) := by
  unfold CallState.separate
  rw [call.target_eq (c := ⟨s, none, none⟩) assigns fits]
  dsimp only
  rw [free, if_neg Bool.false_ne_true]

/-- What an operand shows that is a tree can be separated. -/
theorem separate_eq (call : ctx.Of f pc) (assigns : ctx.category.isAssignment = true)
    (mirrors : s.Mirrors f outside literals [] T) :
    CallState.separate ctx ⟨s, none, none⟩
      = (some (.ok ((s.defining f.constants ctx.instr.op1).separate
          (s.target f.constants ctx.instr.op1)).1),
        ⟨((s.defining f.constants ctx.instr.op1).separate
          (s.target f.constants ctx.instr.op1)).2, none, none⟩) := by
  have assigned := (call.checked.operator call.category).assigned assigns
  have ne := Slot.ne_scratch (call.checked.op1.isVariable_slot assigned)
  have free := (mirrors.defining ctx.instr.op1).isSelfBound ne
  rw [Store.placeOf_defining, ← Store.target] at free
  exact separate_of_free call assigns mirrors.accounted.fits free

/-- Components may be set in a composite that has one handle. -/
theorem setFields_eq (call : ctx.Of f pc) (assigns : ctx.category.isAssignment = true)
    (fits : s.frame.Fits f) (there : s.peek (s.target f.constants ctx.instr.op1) = .composite id)
    (found : s.heap.composite? id = some c) (single : c.count = 1) (v : Vector2) :
    CallState.setFields ctx ⟨s, none, none⟩ true (v.entries.map fun e => (e.1, .scalar e.2))
      = (.ok (), ⟨{ s.defining f.constants ctx.instr.op1 with
          heap := s.heap.insertFields id v.entries }, none, none⟩) := by
  have allowed : s.heap.checkMutation id = .ok () := by
    rw [Heap.checkMutation, found]
    simp [Composite.isMutable, single]
  unfold CallState.setFields
  rw [buildEach_entries]
  dsimp only
  rw [call.target_eq (c := ⟨s, none, none⟩) assigns fits]
  dsimp only
  rw [Store.peek_defining, there]
  dsimp only
  rw [if_pos rfl, Store.heap_defining, Heap.setFields, allowed]
  rfl

/-- The holder of a tree is separated: then the first operand shows a composite that has one
handle, and the trees are the same. -/
theorem exists_separated (call : ctx.Of f pc) (assigns : ctx.category.isAssignment = true)
    (mirrors : s.Mirrors f outside literals [] T) {className : String}
    {fields : List (String × Tree)}
    (tree : T.value (ctx.instr.op1.slot f.constants) = .node className fields) :
    ∃ copied t id c, CallState.separate ctx ⟨s, none, none⟩
        = (some (.ok copied), ⟨t, none, none⟩)
      ∧ t.Mirrors f outside literals [] T
      ∧ t.peek (t.target f.constants ctx.instr.op1) = .composite id
      ∧ t.heap.composite? id = some c ∧ c.count = 1 := by
  have assigned := (call.checked.operator call.category).assigned assigns
  have ne := Slot.ne_scratch (call.checked.op1.isVariable_slot assigned)
  have defined := mirrors.defining ctx.instr.op1
  have has := call.checked.op1.has_slot defined.accounted.fits
  obtain ⟨separated, places⟩ := defined.separate has ne
  have shown := defined.shown _ ne
  rw [tree] at shown
  obtain ⟨id, c, eq, found, single, -⟩ := Heap.separate_node shown defined.unflagged
    (defined.accounted.alive_peek _)
  have there := defined.peek_separate has ne
  rw [eq] at there
  rw [← Store.Mirrors.composite?_separate] at found
  have target : (s.defining f.constants ctx.instr.op1).placeOf (ctx.instr.op1.slot f.constants)
      = s.target f.constants ctx.instr.op1 := Store.placeOf_defining _ _ _ _
  have same := places (ctx.instr.op1.slot f.constants)
  rw [target] at separated there found same
  exact ⟨_, _, id, c, separate_eq call assigns mirrors, separated,
    (congrArg (Store.peek _) same).trans there, found, single⟩

/-- The components of a vector are set that has one handle. -/
theorem exists_replaced (call : ctx.Of f pc) (assigns : ctx.category.isAssignment = true)
    (mirrors : s.Mirrors f outside literals [] T)
    (vector : (T.value (ctx.instr.op1.slot f.constants)).vector? = some u)
    (there : s.peek (s.target f.constants ctx.instr.op1) = .composite id)
    (found : s.heap.composite? id = some c) (single : c.count = 1) (v : Vector2) :
    ∃ t, CallState.setFields ctx ⟨s, none, none⟩ true (v.entries.map fun e => (e.1, .scalar e.2))
        = (.ok (), ⟨t, none, none⟩)
      ∧ t.Mirrors f outside literals [] (v.replaceIn T (ctx.instr.op1.slot f.constants)) := by
  have assigned := (call.checked.operator call.category).assigned assigns
  have ne := Slot.ne_scratch (call.checked.op1.isVariable_slot assigned)
  have defined := mirrors.defining ctx.instr.op1
  have target : (s.defining f.constants ctx.instr.op1).placeOf (ctx.instr.op1.slot f.constants)
      = s.target f.constants ctx.instr.op1 := Store.placeOf_defining _ _ _ _
  have shown := defined.shown _ ne
  rw [target, Store.peek_defining, there, Store.heap_defining] at shown
  have old := Heap.scalar_of_vector found (ok_of_toOption (shown.vector.trans vector)) v
  have set := defined.insertScalars (call.checked.op1.has_slot defined.accounted.fits) ne
    (by rw [target, Store.peek_defining]; exact there) (by rw [Store.heap_defining]; exact found)
    single v.scalar_entries old
  rw [Store.heap_defining] at set
  exact ⟨_, setFields_eq call assigns mirrors.accounted.fits there found single v, set⟩

/-- The first operand's vector is separated and its components are replaced. -/
theorem run_replace (call : ctx.Of f pc) (assigns : ctx.category.isAssignment = true)
    (mirrors : s.Mirrors f outside literals [] T)
    (vector : (T.read f.constants literals ctx.instr.op1).vector? = some u) (v : Vector2)
    (next : Except Refusal Unit → Handler) :
    ∃ t : Store, (v.replace next).run ctx ⟨s, none, none⟩ = (next (.ok ())).run ctx ⟨t, none, none⟩
      ∧ t.Mirrors f outside literals [] (v.replaceIn T (ctx.instr.op1.slot f.constants)) := by
  have assigned := (call.checked.operator call.category).assigned assigns
  rw [TreeStore.read_of_isVariable assigned] at vector
  obtain ⟨className, fields, tree⟩ : ∃ className fields,
      T.value (ctx.instr.op1.slot f.constants) = .node className fields := by
    cases tree : T.value (ctx.instr.op1.slot f.constants) with
    | leaf w scalar =>
      rw [tree] at vector
      cases vector
    | node className fields => exact ⟨_, _, rfl⟩
  obtain ⟨copied, t, id, c, separates, separated, there, found, single⟩ :=
    exists_separated call assigns mirrors tree
  obtain ⟨t', sets, replaced⟩ := exists_replaced call assigns separated vector there found single v
  refine ⟨t', ?_, replaced⟩
  rw [replace, Handler.run, separates]
  dsimp only [Handler.orViolated]
  rw [Handler.run, sets]

end Replacement

theorem makes_replace (call : ctx.Of f pc) (assigns : ctx.category.isAssignment = true)
    (vector : (T.read f.constants literals ctx.instr.op1).vector? = some u)
    {next : Except Refusal Unit → Handler}
    (later : (next (.ok ())).Makes ctx f literals
      (v.replaceIn T (ctx.instr.op1.slot f.constants)) U) :
    (v.replace next).Makes ctx f literals T U := by
  intro outside s mirrors
  obtain ⟨t, ran, replaced⟩ := run_replace call assigns mirrors vector v next
  rw [ran]
  exact later outside t replaced

/-- A look at what is the same for all stores may be skipped. -/
theorem makes_inspect {next : CallView → Handler} {h : Handler}
    (same : ∀ s, next (ctx.view s) = h) (makes : h.Makes ctx f literals T U) :
    (Handler.inspect next).Makes ctx f literals T U := by
  intro outside s mirrors
  rw [Handler.run, same]
  exact makes outside s mirrors

/-- The result of an update is what the place shows, if a result is asked for. -/
theorem makes_shown (call : ctx.Of f pc) (literals : Array Tree) (T : TreeStore) :
    ∃ U, (Handler.inspect fun view =>
      if view.hasResult then yield (.copy (.operand .first)) else .answer .handled).Makes ctx f
        literals T U := by
  have looks : ∀ (s : Store), (ctx.view s).hasResult = ctx.hasResult := fun _ => rfl
  by_cases given : ctx.hasResult = true
  · exact ⟨_, makes_inspect (fun s => by rw [looks, if_pos given])
      (makes_yield call given (makes_first call))⟩
  · exact ⟨_, makes_inspect (fun s => by rw [looks, if_neg given]) (makes_handled call)⟩

theorem makes_updateInPlace (call : ctx.Of f pc) (assigns : ctx.category.isAssignment = true)
    (vector : (T.read f.constants literals ctx.instr.op1).vector? = some u) (v : Vector2) :
    ∃ U, (updateInPlace v).Makes ctx f literals T U := by
  obtain ⟨U, shows⟩ := makes_shown call literals
    (v.replaceIn T (ctx.instr.op1.slot f.constants))
  exact ⟨U, makes_replace call assigns vector shows⟩

/-! ## Operands -/

/-- Whether a value is a number, and which, can be told from its tree. -/
theorem factor_of_holds {h : Heap} {w : Value} (holds : h.Holds t w) :
    (factor w).toOption = Number.ofValue? t.surface := by
  rw [← holds.number, factor]
  cases Number.ofValue? w <;> rfl

/-- Tree of the second operand, if there is one. -/
def secondTree? (ctx : CallContext) (f : Function) (literals : Array Tree) (T : TreeStore) :
    Option Tree :=
  if ctx.category.hasSecondOperand && !ctx.instr.op2.isUnused then
    some (T.read f.constants literals ctx.instr.op2)
  else none

section Found

variable {outside : Node → Nat} {s : Store}

theorem vector_first (call : ctx.Of f pc) (mirrors : s.Mirrors f outside literals [] T) :
    (ofValue (ctx.view s).heap (ctx.view s).op1.value).toOption
      = (T.read f.constants literals ctx.instr.op1).vector? := by
  have holds := mirrors.read call.checked.op1
  rw [← call.see_eq call.checked.op1 mirrors.accounted.fits] at holds
  exact holds.vector

/-- What is made of the second operand can be told from its tree. -/
theorem second_bind {α : Type} (call : ctx.Of f pc) (mirrors : s.Mirrors f outside literals [] T)
    {next : Value → Except Unsupported α} {found : Tree → Option α}
    (later : (next (s.shown f.constants ctx.instr.op2)).toOption
      = found (T.read f.constants literals ctx.instr.op2)) :
    (second (ctx.view s) >>= next).toOption
      = (secondTree? ctx f literals T).bind found := by
  unfold secondTree?
  by_cases given : (ctx.category.hasSecondOperand && !ctx.instr.op2.isUnused) = true
  · have there : (ctx.view s).op2 = some (ctx.see s ctx.instr.op2) := if_pos given
    rw [second, there, if_pos given]
    dsimp only
    rw [call.see_eq call.checked.op2 mirrors.accounted.fits]
    exact later
  · have none : (ctx.view s).op2 = none := if_neg given
    rw [second, none, if_neg given]
    rfl

end Found

/-- Two vectors are found in the trees of the operands. -/
theorem finds_both (call : ctx.Of f pc) : ctx.Finds f literals both T
    ((T.read f.constants literals ctx.instr.op1).vector?.bind fun a =>
      (secondTree? ctx f literals T).bind fun t => t.vector?.bind fun b => some (a, b)) := by
  intro outside s mirrors
  rw [both, toOption_bind, vector_first call mirrors]
  congr 1
  funext a
  have right : (ofValue (ctx.view s).heap (s.shown f.constants ctx.instr.op2)).toOption
      = (T.read f.constants literals ctx.instr.op2).vector? :=
    (mirrors.read call.checked.op2).vector
  refine second_bind call mirrors ?_
  rw [toOption_bind, right]
  rfl

/-- A vector and a number are found in the trees of the operands. -/
theorem finds_scaled (call : ctx.Of f pc) : ctx.Finds f literals (fun view => do
      let a ← ofValue view.heap view.op1.value
      let k ← factor (← second view)
      return a.scale k) T
    ((T.read f.constants literals ctx.instr.op1).vector?.bind fun a =>
      (secondTree? ctx f literals T).bind fun t =>
        (Number.ofValue? t.surface).bind fun k => some (a.scale k)) := by
  intro outside s mirrors
  rw [toOption_bind, vector_first call mirrors]
  congr 1
  funext a
  refine second_bind call mirrors ?_
  rw [toOption_bind, factor_of_holds (mirrors.read call.checked.op2)]
  rfl

/-- The product of a vector and a number, in trees. -/
def productOf (t u : Tree) : Option Vector2 :=
  match t.vector?, u.vector? with
  | some v, none => (Number.ofValue? u.surface).map v.scale
  | none, some v => (Number.ofValue? t.surface).map v.scale
  | _, _ => none

theorem finds_product (call : ctx.Of f pc) : ctx.Finds f literals product T
    ((secondTree? ctx f literals T).bind
      (productOf (T.read f.constants literals ctx.instr.op1))) := by
  intro outside s mirrors
  have left := vector_first call mirrors
  have right : (ofValue (ctx.view s).heap (s.shown f.constants ctx.instr.op2)).toOption
      = (T.read f.constants literals ctx.instr.op2).vector? :=
    (mirrors.read call.checked.op2).vector
  have number := factor_of_holds (mirrors.read call.checked.op1)
  have number' := factor_of_holds (mirrors.read call.checked.op2)
  rw [← call.see_eq call.checked.op1 mirrors.accounted.fits] at number
  change (factor (ctx.view s).op1.value).toOption = _ at number
  refine second_bind call mirrors ?_
  rw [productOf, ← left, ← right, ← number, ← number']
  cases ofValue (ctx.view s).heap (ctx.view s).op1.value with
  | ok v =>
    cases ofValue (ctx.view s).heap (s.shown f.constants ctx.instr.op2) with
    | ok w => rfl
    | error reason =>
      cases factor (s.shown f.constants ctx.instr.op2) <;> rfl
  | error reason =>
    cases ofValue (ctx.view s).heap (s.shown f.constants ctx.instr.op2) with
    | ok w => cases factor (ctx.view s).op1.value <;> rfl
    | error reason => rfl

/-- Whoever declines for what is not found goes on with what is. -/
theorem decided_orDecline {α : Type} {look : CallView → Except Unsupported α} {found : Option α}
    (finds : ctx.Finds f literals look T found) {next : α → Handler}
    (decided : ∀ a, found = some a → ∃ U, (next a).Makes ctx f literals T U) :
    (Handler.inspect fun view => orDecline next (look view)).Decided ctx f literals T := by
  cases found with
  | none =>
    refine Or.inr fun outside s mirrors => ?_
    have nothing := finds outside s mirrors
    cases same : look (ctx.view s) with
    | error reason =>
      refine ⟨reason, ?_⟩
      rw [Handler.run, same]
      rfl
    | ok a =>
      rw [same] at nothing
      cases nothing
  | some a =>
    obtain ⟨U, makes⟩ := decided a rfl
    refine Or.inl ⟨U, fun outside s mirrors => ?_⟩
    have there := finds outside s mirrors
    cases same : look (ctx.view s) with
    | error reason =>
      rw [same] at there
      cases there
    | ok b =>
      rw [same] at there
      cases there
      rw [Handler.run, same]
      exact makes outside s mirrors

/-- What a handler looks at first does not matter if it goes on alike. -/
theorem decided_inspect {next other : CallView → Handler}
    (same : ∀ s, next (ctx.view s) = other (ctx.view s))
    (decided : (Handler.inspect other).Decided ctx f literals T) :
    (Handler.inspect next).Decided ctx f literals T := by
  have runs : ∀ c : CallState, (Handler.inspect next).run ctx c
      = (Handler.inspect other).run ctx c := fun c => by
    rw [Handler.run, Handler.run, same]
  unfold Handler.Decided Handler.Makes Handler.Leaves at decided ⊢
  simpa only [runs] using decided

/-- The result of a unary minus or plus of a vector. -/
def signed (sign : Sign) (v : Vector2) : Handler :=
  match sign with
  | .negate => yield v.negate.draft
  | .plus => yield (.copy .signOperand)

/-- Which of its meanings a product has can be told from the instruction. -/
theorem decided_multiply (call : ctx.Of f pc) (given : ctx.hasResult = true)
    (literals : Array Tree) (T : TreeStore) : multiply.Decided ctx f literals T := by
  cases recognised : ctx.order.sign? ctx.constants ctx.instr with
  | none =>
    have none : ∀ s, (ctx.view s).sign = none := fun s => by
      rw [CallContext.view, recognised]
      rfl
    refine decided_inspect (fun s => ?_) (decided_orDecline (finds_product call) fun v _ =>
      ⟨_, makes_yield call given (makes_draft v)⟩)
    rw [none]
  | some sign =>
    have seen : ∀ s, (ctx.view s).sign = some ⟨sign, ctx.order.valueSide,
        ctx.see s (ctx.order.valueSide.select ctx.instr)⟩ := fun s => by
      rw [CallContext.view, recognised]
      rfl
    have within := call.within_select ctx.order.valueSide
    have shows : ∀ s : Store, s.frame.Fits f → (ctx.view s).find .signOperand
        = s.shown f.constants (ctx.order.valueSide.select ctx.instr) := fun s fits => by
      rw [CallView.find, seen, ← call.see_eq within fits]
      rfl
    have finds : ctx.Finds f literals (fun view => ofValue view.heap (view.find .signOperand)) T
        (T.read f.constants literals (ctx.order.valueSide.select ctx.instr)).vector? := by
      intro outside s mirrors
      dsimp only
      rw [shows s mirrors.accounted.fits]
      exact (mirrors.read within).vector
    have decided : (Handler.inspect fun view => orDecline (signed sign)
        (ofValue view.heap (view.find .signOperand))).Decided ctx f literals T := by
      refine decided_orDecline finds fun v _ => ?_
      cases sign with
      | negate => exact ⟨_, makes_yield call given (makes_draft _)⟩
      | plus => exact ⟨_, makes_yield call given (makes_copy within shows)⟩
    refine decided_inspect (fun s => ?_) decided
    rw [CallView.find, seen]
    cases sign <;> rfl

/-- What a call of a vector's operator comes to can be told from the trees. -/
theorem HandlerFor.decided (call : ctx.Of f pc) {handler : Handler}
    (is : HandlerFor ctx.category handler) (literals : Array Tree) (T : TreeStore) :
    handler.Decided ctx f literals T := by
  generalize eq : ctx.category = category at is
  have assigns : category.isAssignment = true → ctx.category.isAssignment = true :=
    fun is => by rw [eq]; exact is
  have yields : category.alwaysYields = true → ctx.hasResult = true :=
    fun is => hasResult_of_alwaysYields (by rw [eq]; exact is)
  cases is with
  | onVectors g draws =>
    refine decided_orDecline (finds_both call) fun ⟨a, b⟩ _ => ?_
    rcases draws a b with ⟨v, made⟩ | ⟨v, made⟩
    · exact ⟨_, made ▸ makes_yield call (yields rfl) (makes_draft v)⟩
    · exact ⟨_, made ▸ makes_yield call (yields rfl) (makes_scalar v)⟩
  | multiply => exact decided_multiply call (yields rfl) literals T
  | assignVectors g =>
    refine decided_orDecline (finds_both call) fun ⟨a, b⟩ found => ?_
    obtain ⟨u, vector, -⟩ := Option.bind_eq_some_iff.mp found
    exact makes_updateInPlace call (assigns rfl) vector _
  | assignProduct =>
    refine decided_orDecline (finds_scaled call) fun v found => ?_
    obtain ⟨u, vector, -⟩ := Option.bind_eq_some_iff.mp found
    exact makes_updateInPlace call (assigns rfl) vector _
  | stepBefore direction =>
    exact decided_orDecline (fun _ _ mirrors => vector_first call mirrors) fun u vector =>
      makes_updateInPlace call (assigns rfl) vector _
  | stepAfter direction =>
    exact decided_orDecline (fun _ _ mirrors => vector_first call mirrors) fun u vector =>
      ⟨_, makes_replace call (assigns rfl) vector
        (makes_yield call (yields rfl) (makes_draft u))⟩

end Vector2

end Calls

end OverloadMachine
