import OverloadMachine.Proofs.CallEndings

/-!
# Declined calls

A handler that declines hands the instruction back, and with it what it has done so far:
nothing is rolled back but the result that was held back. What it has written through the
first operand stays, and so do the changes that it has made to composites and cells that its
call leads to, and the built-in instruction meets them. Everything else is as before the
call. A handler that has changed nothing leaves at most the dynamic variable defined that
the first operand names, and then the built-in operator runs as if there were no handler.
-/

namespace OverloadMachine

namespace Frame

/-- A variable that is defined is not defined anew. -/
theorem define_define (frame : Frame) (name : String) :
    (frame.define name).define name = frame.define name := by
  have known : (frame.define name).symbols.contains name = true := by
    unfold define
    split
    · assumption
    · simp [put, OrderedMap.contains]
  rw [define, if_pos known]

end Frame

namespace Store

variable {s : Store} {constants : Array Value} {o : Operand}

theorem defining_defining (s : Store) (constants : Array Value) (o : Operand) :
    (s.defining constants o).defining constants o = s.defining constants o := by
  cases o with
  | dynamic i =>
    unfold defining
    cases (Operand.dynamic i).slot constants with
    | symbol name => simp only [Frame.define_define]
    | _ => rfl
  | _ => rfl

/-- A definition changes what no operand shows. -/
theorem shown_defining (s : Store) (constants : Array Value) (o p : Operand) :
    (s.defining constants o).shown constants p = s.shown constants p := by
  have held : (s.defining constants o).held constants p = s.held constants p := by
    cases p with
    | unused => rfl
    | const i => rfl
    | _ => exact get_defining s constants o _
  rw [shown, shown, held, heap_defining]

theorem acquire_defining (s : Store) (constants : Array Value) (o : Operand) (v : Value) :
    (s.defining constants o).acquire v = (s.acquire v).defining constants o := by
  unfold defining
  split <;> rfl

/-- What is assigned defines the variable that it is assigned to. -/
theorem assign_defining (s : Store) (constants : Array Value) (o : Operand) (v : Value) :
    (s.defining constants o).assign constants o v = s.assign constants o v := by
  rw [assign, assign, defining_defining, target_defining]

end Store

namespace Effect

variable {f : Function} {instr : Instruction} {pc : Nat} {category : Category}

/-- An operator that assigns defines its variable, so it may have been defined before. -/
theorem of_defining (has : instr.opcode.category? = some category)
    (assigns : category.isAssignment = true) (s : Store) :
    Effect.of f instr pc (s.defining f.constants instr.op1) = Effect.of f instr pc s := by
  unfold Effect.of
  cases is : instr.opcode with
  | compound op =>
    dsimp only [compound]
    simp only [Store.shown_defining, Store.acquire_defining, Store.target_defining,
      Store.peek_defining, Store.heap_defining, Store.defining_defining, Store.assign_defining]
  | step time direction =>
    dsimp only [step]
    simp only [Store.target_defining, Store.peek_defining, Store.defining_defining,
      Store.assign_defining]
  | _ =>
    rw [is] at has
    cases has <;> cases assigns

end Effect

/-- What ends declined has answered without a violation, and its result is given up. -/
theorem Effect.settle_declined {constants : Array Value} {instr : Instruction}
    {ending : Option Answer × CallState} {t : Store}
    (ends : Effect.settle constants instr ending = (.ok .declined, t)) :
    ∃ reply d, ending = (some reply, d) ∧ d.violation = none
      ∧ t = (Effect.dropPending d.pending d.store).overwrite (.slot .scratch) .null := by
  obtain ⟨answer, d⟩ := ending
  rcases Effect.settle_cases constants instr answer d with
    ⟨-, -, eq⟩ | ⟨reply, rfl, -, quiet, eq⟩ | ⟨fault, eq⟩
  · rw [eq] at ends
    cases ends
  · rw [eq] at ends
    exact ⟨reply, d, rfl, quiet, (congrArg Prod.snd ends).symm⟩
  · rw [eq] at ends
    cases ends

/-! ## Calls that change nothing -/

namespace CallState

variable {f : Function} {pc : Nat} {ctx : CallContext} {outside : Node → Nat}
  {held : List Value} {c d : CallState} {s u : Store}

theorem violation_setResult (c : CallState) (draft : Draft) :
    ctx.hasResult = true ∧ (c.setResult ctx draft).2.violation = c.violation
      ∨ (c.setResult ctx draft).2.violation ≠ none := by
  unfold setResult
  dsimp only
  split
  · rename_i given
    refine .inl ⟨given, ?_⟩
    split <;> rfl
  · exact .inr (Option.some_ne_none _)

/-- A step meets a violation, or keeps the one that was met. -/
theorem violation_advance {h k : Handler} (advances : h.advance ctx c = some (k, d)) :
    d.violation = c.violation ∨ d.violation ≠ none := by
  cases h with
  | answer reply => cases advances
  | inspect next =>
    cases advances
    exact .inl rfl
  | note line next =>
    cases advances
    exact .inl rfl
  | setResult value next =>
    cases advances
    exact (violation_setResult c value).imp_left And.right
  | write value next =>
    cases advances
    exact (seeks_write ctx c value).violation_cases
  | separate next =>
    have kept := (seeks_separate ctx c).violation_cases
    rw [Handler.advance] at advances
    split at advances
    · rename_i eq
      cases advances
      rwa [eq] at kept
    · cases advances
  | setFields guarded fields next =>
    cases advances
    exact (seeks_setFields ctx c guarded fields).violation_cases
  | setFlag flag next =>
    cases advances
    exact (seeks_setFlag ctx c flag).violation_cases
  | mutate source change next =>
    cases advances
    exact .inl rfl

/-- What has met no violation had met none. -/
theorem violation_of_reaches {h k : Handler} (reaches : Handler.Reaches ctx h c k d)
    (none : d.violation = none) : c.violation = .none := by
  induction reaches with
  | start => exact none
  | step _ advances ih =>
    rcases violation_advance advances with kept | met
    · exact ih (kept ▸ none)
    · exact absurd none met

end CallState

/-! ## Calls that touch nothing -/

namespace CallState.Quiet

variable {f : Function} {pc : Nat} {ctx : CallContext} {outside : Node → Nat}
  {held : List Value} {c d : CallState} {s u : Store}

/-- A state with the heap of a quiet one is quiet about the store with its frame. -/
theorem of_heap (quiet : c.Quiet s) (heap : d.store.heap = c.store.heap)
    (pending : d.pending = c.pending) (violation : d.violation = none)
    (same : u.heap = s.heap) (frame : d.store.frame = u.frame) : d.Quiet u := by
  have store := quiet.store
  refine ⟨?_, violation⟩
  rw [pending]
  cases held : c.pending with
  | none =>
    rw [held] at store
    exact ⟨heap.trans (store.heap.trans same.symm), frame⟩
  | some v =>
    rw [held] at store
    have released : d.store.heap.release v = s.heap := by
      rw [heap]
      exact store.heap
    exact ⟨released.trans same.symm, frame⟩

/-- A state whose operand was looked for is quiet about the store with the operand defined. -/
theorem defining (quiet : c.Quiet s) (heap : d.store.heap = c.store.heap)
    (pending : d.pending = c.pending) (violation : d.violation = none)
    (frame : d.store.frame = (c.store.defining ctx.constants ctx.instr.op1).frame) :
    d.Quiet (s.defining ctx.constants ctx.instr.op1) := by
  refine quiet.of_heap heap pending violation (Store.heap_defining _ _ _) (frame.trans ?_)
  have agrees : ({ c.store with heap := s.heap } : Store).Agrees s := ⟨rfl, quiet.frame⟩
  rw [← Store.frame_defining_heap c.store s.heap, agrees.eq_noting, Store.defining_noting]
  rfl

/-- A separation that touches nothing defines the variable that is the first operand. -/
theorem separate (quiet : c.Quiet s) (call : ctx.Of f pc) (fits : c.store.frame.Fits f)
    {next : Except Violation Bool → Handler} {k : Handler}
    (advances : (Handler.separate next).advance ctx c = some (k, d))
    (untouched : (Handler.separate next).touch? ctx c = none) (none : d.violation = none) :
    ctx.category.isAssignment = true ∧ d.Quiet (s.defining ctx.constants ctx.instr.op1) := by
  rw [Handler.advance] at advances
  rcases separate_cases call fits with ⟨violation, eq⟩ | absent | eq
  · rw [eq] at advances
    cases advances
    cases none
  · generalize c.separate ctx = ending at absent advances
    obtain ⟨result, e⟩ := ending
    cases absent
    cases advances
  · have assigns : ctx.category.isAssignment = true := Decidable.byContradiction fun not => by
      have met := (seeks_separate ctx c).violation_of_not_assigns not
      rw [eq] at met
      exact met quiet.violation
    have same : (c.separation ctx).1 = false := by
      simp only [Handler.touch?, eq] at untouched
      cases copied : (c.separation ctx).1 with
      | false => rfl
      | true =>
        rw [copied] at untouched
        cases untouched
    have kept := separation_of_not_copied call fits same
    rw [eq] at advances
    cases advances
    refine ⟨assigns, quiet.defining ?_ rfl none (congrArg Store.frame kept)⟩
    dsimp only
    rw [kept, Store.heap_defining]

/-- Fields that are not set are given up again, and at most the variable is defined that is the
first operand. -/
theorem setFields (quiet : c.Quiet s) (call : ctx.Of f pc) (held : c.Accounted f outside)
    {guarded : Bool} {fields : List (String × Draft)} {next : Except Refusal Unit → Handler}
    (untouched : (Handler.setFields guarded fields next).touch? ctx c = none)
    (none : (c.setFields ctx guarded fields).2.violation = none) :
    (c.setFields ctx guarded fields).2.Quiet s ∨ ctx.category.isAssignment = true
      ∧ (c.setFields ctx guarded fields).2.Quiet (s.defining ctx.constants ctx.instr.op1) := by
  rcases setFields_cases call held guarded fields with
    ⟨id, d, shows, eq, -, -⟩ | ⟨refusal, d, eq, pending, heap, frame⟩
  · simp only [Handler.touch?, eq, shows] at untouched
    cases untouched
  · have undone : d.store.heap = c.store.heap := by
      rw [heap]
      exact Draft.releaseAll_buildEach (call.shows held) (Heap.Accounts.closed held.owns) fields
        (.refl _)
    rw [eq] at none ⊢
    rcases frame with frame | ⟨assigns, frame⟩
    · exact .inl (quiet.of_heap undone pending none rfl (frame.trans quiet.frame))
    · exact .inr ⟨assigns, quiet.defining undone pending none frame⟩

/-- A flag that is set on nothing defines the variable that is the first operand. -/
theorem setFlag (quiet : c.Quiet s) (call : ctx.Of f pc) (fits : c.store.frame.Fits f)
    {flag : Bool} {next : Except Violation Unit → Handler}
    (untouched : (Handler.setFlag flag next).touch? ctx c = none)
    (none : (c.setFlag ctx flag).2.violation = none) :
    ctx.category.isAssignment = true
      ∧ (c.setFlag ctx flag).2.Quiet (s.defining ctx.constants ctx.instr.op1) := by
  have assigns : ctx.category.isAssignment = true := Decidable.byContradiction fun not =>
    (seeks_setFlag ctx c flag).violation_of_not_assigns not none
  have targeted := call.target_eq assigns fits
  simp only [Handler.touch?, assigns, if_true, Option.map_eq_none_iff] at untouched
  unfold CallState.setFlag at none ⊢
  rw [← call.constants] at targeted
  rw [targeted] at none ⊢
  dsimp only at none ⊢
  rw [Store.peek_defining] at none ⊢
  split at none
  · rename_i id shows
    rw [shows] at untouched
    cases untouched
  · exact ⟨assigns, quiet.defining (Store.heap_defining _ _ _) rfl none rfl⟩

/-- A change that touches nothing is refused, and what was made for it is given up again. -/
theorem mutate (quiet : c.Quiet s) (call : ctx.Of f pc) (held : c.Accounted f outside)
    {source : Source} {change : Mutation Draft} {next : Except Refusal Unit → Handler}
    (untouched : (Handler.mutate source change next).touch? ctx c = none) :
    (c.mutate ctx source change).2.Quiet s := by
  rcases mutate_cases call held source change with ⟨refusal, -, same⟩ | ⟨node, names, done, -⟩
  · exact quiet.of_heap same rfl quiet.violation rfl quiet.frame
  · simp only [Handler.touch?, done, names] at untouched
    cases untouched

/-- A step that touches nothing, and meets no violation, at most defines the variable that is
the first operand. -/
theorem advance (quiet : c.Quiet s) (call : ctx.Of f pc) (acc : s.Accounted f outside [])
    (held : c.Accounted f outside) {h k : Handler} (advances : h.advance ctx c = some (k, d))
    (untouched : h.touch? ctx c = none) (none : d.violation = none) :
    d.Quiet s ∨ ctx.category.isAssignment = true
      ∧ d.Quiet (s.defining ctx.constants ctx.instr.op1) := by
  cases h with
  | answer reply => cases advances
  | inspect next =>
    cases advances
    exact .inl quiet
  | note line next =>
    cases advances
    exact .inl (quiet.addNote line)
  | setResult value next =>
    cases advances
    rcases violation_setResult c value with ⟨given, -⟩ | met
    · exact .inl (quiet.setResult call acc given value).2
    · exact absurd none met
  | write value next =>
    cases advances
    have not : ¬ctx.category.isAssignment = true := fun assigns => by
      simp only [Handler.touch?, assigns, if_true] at untouched
      cases untouched
    exact absurd none ((seeks_write ctx c value).violation_of_not_assigns not)
  | separate next => exact .inr (quiet.separate call held.fits advances untouched none)
  | setFields guarded fields next =>
    cases advances
    exact quiet.setFields call held untouched none
  | setFlag flag next =>
    cases advances
    exact .inr (quiet.setFlag call held.fits untouched none)
  | mutate source change next =>
    cases advances
    exact .inl (quiet.mutate call held untouched)

/-- A run that touches nothing, and meets no violation, at most defines the variable that is
the first operand. -/
theorem reaches (quiet : c.Quiet s) (call : ctx.Of f pc) (acc : s.Accounted f outside [])
    (held : c.Accounted f outside) {h k : Handler} (reached : Handler.Reaches ctx h c k d)
    (untouched : ∀ x, ¬h.Touches ctx c x) (none : d.violation = none) :
    d.Quiet s ∨ ctx.category.isAssignment = true
      ∧ d.Quiet (s.defining ctx.constants ctx.instr.op1) := by
  induction reached with
  | start => exact .inl quiet
  | step before advances ih =>
    rename_i k l d e
    have none' : d.violation = .none := violation_of_reaches (.step .start advances) none
    have still : k.touch? ctx d = .none := by
      cases touched : k.touch? ctx d with
      | none => rfl
      | some x => exact absurd ⟨k, d, before, touched⟩ (untouched x)
    rcases ih none' with same | ⟨assigns, defined⟩
    · exact same.advance call acc (before.accounted call held) advances still none
    · have acc' : (s.defining ctx.constants ctx.instr.op1).Accounted f outside [] := by
        rw [call.constants]
        exact acc.defining ctx.instr.op1
      rcases defined.advance call acc' (before.accounted call held) advances still none with
        later | ⟨-, later⟩
      · exact .inr ⟨assigns, later⟩
      · rw [Store.defining_defining] at later
        exact .inr ⟨assigns, later⟩

end CallState.Quiet

namespace Handler

variable {f : Function} {pc : Nat} {ctx : CallContext} {outside : Node → Nat} {h : Handler}
  {c : CallState} {s t : Store} {instr : Instruction} {category : Category}
  {order : NegationOrder} {x : Touch}

/-- Only an instruction that assigns lets its handler change a slot. -/
theorem assigns_of_touch? {slot : Slot} (touches : h.touch? ctx c = some (.slot slot)) :
    ctx.category.isAssignment = true := by
  refine Decidable.byContradiction fun not => ?_
  cases h with
  | write value next => simp [touch?, not] at touches
  | separate next =>
    simp only [touch?, CallState.separate, c.target_of_not_assigns not] at touches
    cases touches
  | setFlag flag next => simp [touch?, not] at touches
  | setFields guarded fields next =>
    simp only [touch?, CallState.setFields, CallState.target_of_not_assigns _ not] at touches
    cases touches
  | mutate source change next =>
    simp only [touch?] at touches
    split at touches
    · obtain ⟨node, -, is⟩ := Option.map_eq_some_iff.mp touches
      cases is
    · cases touches
  | _ => cases touches

/-- The handler of an instruction that does not assign touches no slot. -/
theorem not_touches_of_not_assigns (not : ctx.category.isAssignment = false) (slot : Slot) :
    ¬h.Touches ctx c (.slot slot) := by
  rintro ⟨k, d, -, touches⟩
  rw [assigns_of_touch? touches] at not
  cases not

/-- Behind a call that has touched nothing and met no violation, at most the variable is
defined that is the first operand. -/
theorem quiet_of_not_touches (call : ctx.Of f pc) (acc : s.Accounted f outside []) {k : Handler}
    {d : CallState} (reaches : Reaches ctx h ⟨s, none, none⟩ k d)
    (untouched : ∀ x, ¬h.Touches ctx ⟨s, none, none⟩ x) (none : d.violation = none) :
    ∃ u, (u = s ∨ ctx.category.isAssignment = true
      ∧ u = s.defining ctx.constants ctx.instr.op1) ∧ d.Quiet u := by
  have first : CallState.Quiet ⟨s, .none, .none⟩ s := ⟨.refl s, rfl⟩
  rcases first.reaches call acc acc reaches untouched none with same | ⟨assigns, later⟩
  · exact ⟨s, .inl rfl, same⟩
  · exact ⟨_, .inr ⟨assigns, rfl⟩, later⟩

/-- The built-in operator runs behind a call that has touched nothing as without it, if the
scratch slot was bound to no cell. -/
theorem agrees_builtin (verified : f.Verified) (found : f.code[pc]? = some instr)
    (has : instr.opcode.category? = some category) (acc : s.Accounted f outside [])
    (scratch : s.frame.scratch.Plain) {u : Store}
    (defined : u = s ∨ category.isAssignment = true ∧ u = s.defining f.constants instr.op1)
    (agrees : t.Agrees (u.emptied .scratch)) :
    Effect.Agrees (Machine.builtin f instr pc t) (Machine.builtin f instr pc s) := by
  have checked := verified.checked found
  have still : u.Accounted f outside [] ∧ u.frame.scratch.Plain
      ∧ Effect.of f instr pc u = Effect.of f instr pc s := by
    rcases defined with rfl | ⟨assigns, rfl⟩
    · exact ⟨acc, scratch, rfl⟩
    · refine ⟨acc.defining instr.op1, ?_, Effect.of_defining has assigns s⟩
      rw [(s.definesAtMost_defining f.constants instr.op1).scratch]
      exact scratch
  obtain ⟨acc', plain, same⟩ := still
  have cleared : (u.emptied .scratch).Accounted f outside [] := acc'.emptied trivial
  have fits : t.frame.Fits f := by
    rw [agrees.frame]
    exact cleared.fits
  rw [Machine.builtin_eq verified found fits, Machine.builtin_eq verified found acc.fits, ← same,
    ← Effect.finishing_emptied checked has acc' plain]
  exact Effect.agrees_of instr f pc agrees

/-- A handler that declines gives up the result that was held back, and leaves everything as
it was before the call but what it has itself touched: the place of the first operand, and
composites and cells that its call leads to. The other slots are as before, and so is what
the operand's slot holds unless it was written, and every cell and composite that was not
touched and outlives the call. A node outlives it that another slot or somebody outside has
a handle of. What was touched stays as the handler has left it. The handler of an instruction
that does not assign leaves every slot alone. If nothing was touched, the store is as before
but for the definition of the operand's variable, and the built-in operator runs as if there
were no handler, if the scratch slot was bound to no cell. -/
theorem declining_keeps_untouched (verified : f.verify = .ok ())
    (found : f.code[pc]? = some instr) (has : instr.opcode.category? = some category)
    (fits : s.frame.Fits f) (owns : s.Owns [] outside)
    (constants : ∀ node : Node, node.uses f.constants.toList ≤ outside node)
    (declines : Action.invoke h f.constants order instr s = (.ok .declined, t)) :
    let ctx : CallContext := ⟨instr, category, f.constants, order⟩
    let start : CallState := ⟨s, none, none⟩
    let answered := (h.run ctx start).2.store
    t.frame.scratch = .null ∧ t.Owns [] outside
      ∧ (∀ slot, slot ≠ .scratch → t.frame.get? slot = answered.frame.get? slot)
      ∧ (∀ node, Heap.Stems node answered.heap t.heap)
      ∧ (∀ slot, slot ≠ .scratch → slot ≠ instr.op1.slot f.constants →
          t.frame.get? slot = s.frame.get? slot)
      ∧ (∀ slot, slot ≠ .scratch → ¬h.Touches ctx start (.slot slot) →
          t.frame.get slot = s.frame.get slot)
      ∧ (∀ node body, s.heap.body? node = some body → ¬h.Touches ctx start (.node node) →
          h.Outlives ctx start t node → t.heap.body? node = some body)
      ∧ (∀ node, (0 < outside node ∨ ∃ slot, slot ≠ .scratch ∧ slot ≠ instr.op1.slot f.constants
          ∧ (s.frame.get slot).node? = some node) → h.Outlives ctx start t node)
      ∧ (category.isAssignment = false → ∀ slot, ¬h.Touches ctx start (.slot slot))
      ∧ ((∀ x, ¬h.Touches ctx start x) →
          (∃ u, s.DefinesAtMost f.constants instr.op1 u ∧ t.Agrees (u.emptied .scratch))
          ∧ (s.frame.scratch.Plain →
            Effect.Agrees (Machine.builtin f instr pc t) (Machine.builtin f instr pc s))) := by
  intro ctx start answered
  have order' := Function.verified_of_verify verified
  have checked := order'.checked found
  have call : ctx.Of f pc := ⟨checked, has, rfl⟩
  have acc : s.Accounted f outside [] := ⟨fits, owns, constants⟩
  have held : start.Accounted f outside := acc
  have settled := Effect.settle_accounted checked (held.run call h)
  rw [Action.invoke_eq checked has fits] at declines
  have ends : Effect.settle f.constants instr (h.run ctx start) = (.ok .declined, t) := declines
  obtain ⟨slots, nodes⟩ := Effect.settle_unhandled (show
    (Effect.settle f.constants instr (h.run ctx start)).1 ≠ .ok .handled by rw [ends]; nofun)
  rw [ends] at settled slots nodes
  obtain ⟨reply, d, run, quiet, eq⟩ := Effect.settle_declined ends
  have reaches := reaches_answer run
  have left : answered = d.store := congrArg (fun ending => ending.2.store) run
  have others : ∀ slot, slot ≠ .scratch → slot ≠ instr.op1.slot f.constants →
      t.frame.get? slot = s.frame.get? slot := fun slot ne ne' =>
    (slots slot ne).trans ((congrArg (·.frame.get? slot) left).trans
      (reaches.get?_eq call held ne'))
  refine ⟨by rw [eq]; rfl, settled.owns, slots, nodes, others, fun slot ne untouched => ?_,
    fun node body was untouched outlives => ?_, fun node => ?_,
    fun not => not_touches_of_not_assigns not, fun untouched => ?_⟩
  · have same := (slots slot ne).trans (congrArg (·.frame.get? slot) left)
    exact (congrArg (·.getD .null) same).trans (reaches.get_eq call held untouched)
  · obtain ⟨body', there⟩ := Option.isSome_iff_exists.mp outlives.2
    have same := reaches.body?_eq call held outlives.1 untouched was
    rw [← left, nodes node body' there] at same
    rw [there, same]
  · rintro (counted | ⟨slot, ne, ne', names⟩)
    · exact outlives_of_outside call held settled counted
    · exact outlives_of_get call held settled ne'
        (congrArg (·.getD .null) (others slot ne ne')) names
  · obtain ⟨u, defined, same⟩ := quiet_of_not_touches call acc reaches untouched quiet
    have agrees : t.Agrees (u.emptied .scratch) := by
      rw [eq, same.store.eq_noting]
      exact Store.agrees_noting _ _
    refine ⟨⟨u, ?_, agrees⟩, fun scratch => agrees_builtin order' found has acc scratch defined
      agrees⟩
    rcases defined with rfl | ⟨-, rfl⟩
    · exact .inl rfl
    · exact s.definesAtMost_defining f.constants instr.op1

/-- Writes the first operand, and then leaves the instruction to the built-in operator. -/
def fickle : Handler := .write (.scalar (.int 70)) fun _ => .answer .declined

/-- Adds four to a variable. -/
def addingFour : Function where
  name := "addingFour"
  code := #[⟨.compound .add, .var 0, .const 0, .unused, 0⟩, ⟨.ret, .var 0, .unused, .unused, 0⟩]
  constants := #[.int 4]
  temporaries := 0
  variableNames := #["a"]

/-- A store in which the variable is ten. -/
def ten : Store where
  heap := .empty
  frame := { Frame.ofSizes 0 0 with vars := #[.int 10] }
  notes := #[]

/-- What a declining handler has written stays: no definition leads from the store before the
call to the one behind it, and the built-in addition ends otherwise than without a handler. -/
theorem declining_undoes_no_write :
    let call := Action.invoke fickle addingFour.constants .valueFirst addingFour.code[0] ten
    (addingFour.verify = .ok () ∧ ten.frame.Fits addingFour ∧ ten.Owns [] fun _ => 0)
      ∧ call.1 = .ok .declined
      ∧ (¬∃ u, ten.DefinesAtMost addingFour.constants addingFour.code[0].op1 u ∧ call.2.Agrees u)
      ∧ (Machine.builtin addingFour addingFour.code[0] 0 ten).2.frame.vars = #[.int 14]
      ∧ (Machine.builtin addingFour addingFour.code[0] 0 call.2).2.frame.vars = #[.int 74] := by
  intro call
  have owns : ten.Owns [] fun _ => 0 := fun node => by cases node <;> rfl
  refine ⟨⟨rfl, ⟨by decide, by decide⟩, owns⟩, rfl, ?_, rfl, rfl⟩
  rintro ⟨u, defines, agrees⟩
  have before : u.frame.vars = #[.int 10] := by
    rcases defines with rfl | ⟨i, name, dynamic, -⟩
    · rfl
    · cases dynamic
  have behind : call.2.frame.vars = #[.int 70] := rfl
  rw [agrees.frame, before] at behind
  cases behind

/-- Prepares a copy of the first operand's composite, and gives up. -/
def faltering : Handler :=
  .setResult (.copy (.operand .second)) fun _ => .separate fun _ =>
    .setFields true [("x", .scalar (.int 5))] fun _ =>
      .answer (.unsupported ⟨"composite", "int"⟩)

/-- Two variables share a point. -/
def sharedPair : Store where
  heap := ((Heap.empty.create "Point" .empty).2.acquire (.composite ⟨0⟩))
  frame := { Frame.ofSizes 1 0 with vars := #[.composite ⟨0⟩, .composite ⟨0⟩] }
  notes := #[]

/-- Adds one of two variables to the other. -/
def joining : Function where
  name := "joining"
  code := #[⟨.compound .add, .var 0, .var 1, .temp 0, 0⟩, ⟨.ret, .temp 0, .unused, .unused, 0⟩]
  constants := #[]
  temporaries := 1
  variableNames := #["a", "b"]

/-- The copy stays in the first variable, and the second one still shows the point. -/
theorem declining_keeps_untouched_faltering :
    let ending := Action.invoke faltering joining.constants .valueFirst joining.code[0] sharedPair
    ending.1 = .ok .declined
      ∧ ending.2.frame.vars = #[.composite ⟨1⟩, .composite ⟨0⟩]
      ∧ ending.2.frame.get? (.var 1) = some (.composite ⟨0⟩)
      ∧ ending.2.heap.body? (.composite ⟨0⟩) = some (.composite "Point" .empty false) := by
  intro ending
  have nothing : Heap.empty.Accounts [] fun _ => 0 := fun node => by cases node <;> rfl
  have one : (Heap.empty.create "Point" .empty).2.Accounts [.composite ⟨0⟩] fun _ => 0 :=
    @Heap.Accounts.create _ [] _ .empty nothing "Point"
  have two := one.acquire (one.alive List.mem_cons_self)
  have owns : sharedPair.Owns [] fun _ => 0 := fun node => by
    have slots : node.uses (sharedPair.frame.values ++ [])
        = node.uses [.null, .composite ⟨0⟩, .composite ⟨0⟩, .null] := rfl
    refine (two node).trans ?_
    rw [slots]
    simp only [Node.uses_cons, Node.uses_nil, Node.usedBy_null, Nat.zero_add]
    rfl
  have declined : ending = (.ok .declined, ending.2) := rfl
  have found : joining.code[0]? = some joining.code[0] := rfl
  obtain ⟨-, -, -, -, others, -, nodes, lasts, -, -⟩ := declining_keeps_untouched
    (f := joining) (s := sharedPair) rfl found rfl ⟨by decide, by decide⟩ owns
    (fun node => Nat.zero_le _) declined
  -- The result is held back, the separation writes the variable, and the fields are the copy's.
  have untouched : ¬faltering.Touches ⟨joining.code[0], .binaryAssign, #[], .valueFirst⟩
      ⟨sharedPair, none, none⟩ (.node (.composite ⟨0⟩)) :=
    not_touches_of_advance nofun rfl <| not_touches_of_advance (by decide) rfl <|
      not_touches_of_advance (by decide) rfl <| by
        rintro ⟨k, d, reaches, touches⟩
        rcases reaches.cases_head with ⟨rfl, rfl⟩ | ⟨k, d, advances, -⟩
        · cases touches
        · cases advances
  exact ⟨rfl, rfl, others (.var 1) nofun (by decide), nodes _ _ rfl untouched
    (lasts _ (.inr ⟨.var 1, nofun, by decide, rfl⟩))⟩

/-- The handler of a comparison may change what it is to compare, and then decline. -/
example :
    let changing : Handler := .mutate (.operand .first) (.setFields false [("x", .scalar (.int 5))])
      fun _ => .answer .declined
    let instr : Instruction := ⟨.comparison .equal, .var 0, .var 1, .temp 0, 0⟩
    let call := Action.invoke changing #[] .valueFirst instr sharedPair
    call.1 = .ok .declined ∧ sharedPair.heap.field? ⟨0⟩ "x" = none
      ∧ call.2.heap.field? ⟨0⟩ "x" = some (.int 5) :=
  ⟨rfl, rfl, rfl⟩

end Handler

end OverloadMachine
