import Mathlib
import OverloadMachine.Proofs.Counterparts
import OverloadMachine.Proofs.VectorCalls

/-!
# The negation order is unseen

Unary minus and plus are products with minus one and one, and the negation order says on
which side of the product the literal stands. A sequence of writer's calls gives one
function for each order. Run on machines of their orders, the two stay in step: the
built-in product does not depend on the order of its operands, a literal is not emptied
after it was read, and the handler of products looks at the value and not at its side.
Other instructions are shared by the functions; they stand for no sign in either order,
so that their handlers see the order only if they look at it, and those of vectors do
not. Only a fault that names the kinds of both operands tells the sides apart.
-/

namespace OverloadMachine

/-! ## Products in either order -/

/-- The product of two floats does not depend on their order. -/
theorem mulFloat_comm (x y : Float) : x * y = y * x := by
  open Float.Model in
  have signs : ∀ s t : UnpackedFloat.Sign, s * t = t * s := by
    intro s t
    cases s <;> cases t <;> rfl
  open Float.Model in
  have unpacked : ∀ a b : UnpackedFloat,
      UnpackedFloat.mul .binary64 a b = UnpackedFloat.mul .binary64 b a := by
    intro a b
    cases a <;> cases b <;> simp only [UnpackedFloat.mul, signs, Nat.mul_comm, Int.add_comm]
  exact congrArg (fun u => Float.ofModel (Float.Model.pack u)) (unpacked _ _)

namespace Number

/-- The product of two numbers does not depend on their order. -/
theorem mul_comm (a b : Number) : a.mul b = b.mul a := by
  cases a <;> cases b <;> simp only [mul, combine, Int.mul_comm, mulFloat_comm]

end Number

/-! ## Equal up to the sides of a product -/

/-- Two things are the same, or the second is the first one swapped. -/
def Alike {α : Type} (swap : α → α) (a b : α) : Prop := b = a ∨ b = swap a

namespace Alike

variable {α β : Type} {swap : α → α} {a b : α}

theorem same : Alike swap a a := .inl rfl

/-- What commutes with swapping keeps two things alike. -/
theorem map {swap' : β → β} (alike : Alike swap a b) (g : α → β)
    (commutes : ∀ a, g (swap a) = swap' (g a)) : Alike swap' (g a) (g b) := by
  rcases alike with same | swapped
  · exact .inl (congrArg g same)
  · exact .inr ((congrArg g swapped).trans (commutes a))

end Alike

/-- The fault with the sides of a product swapped. -/
def Fault.swapped : Fault → Fault
  | .operandKinds (.arithmetic .mul) left right => .operandKinds (.arithmetic .mul) right left
  | fault => fault

/-- The outcome with the sides of a product swapped. -/
def Outcome.swapped : Outcome → Outcome
  | .failed fault => .failed fault.swapped
  | outcome => outcome

/-- What becomes of a run, with the sides of a product swapped. -/
def Step.swapped : Step → Step
  | .running p => .running p
  | .ended outcome p => .ended outcome.swapped p

namespace Effect

/-- An ending with the sides of a product swapped. -/
def swapped {α β : Type} (ending : Except Fault α × β) : Except Fault α × β :=
  (ending.1.mapError Fault.swapped, ending.2)

/-- Endings that are alike are so with counters beside them. -/
theorem alike_counted {α : Type} {one other : Except Fault α × Store}
    (alike : Alike swapped one other) (statistics : Statistics) :
    Alike swapped (one.1, one.2, statistics) (other.1, other.2, statistics) :=
  alike.map (fun ending => (ending.1, ending.2, statistics)) fun _ => rfl

/-- The end of an instruction is the same with swapped sides. -/
theorem finishing_swapped (ending : Except Fault Flow × Store) :
    finishing (swapped ending) = swapped (finishing ending) := by
  obtain ⟨result, s⟩ := ending
  cases result with
  | ok flow => rfl
  | error fault =>
    cases fault with
    | operandKinds opcode left right =>
      -- Only for products are sides swapped, and for no opcode does the process go down.
      cases opcode with
      | arithmetic op => cases op <;> rfl
      | _ => rfl
    | _ => rfl

end Effect

namespace Operator

/-- A product of scalars does not depend on the order of a value and an integer. -/
theorem onNumbers_mul_comm (op : Opcode) (v : Value) (i : Int64) :
    onNumbers op (fun x y => .ok (x.mul y)) (.int i) v
      = onNumbers op (fun x y => .ok (x.mul y)) v (.int i) := by
  unfold onNumbers
  cases toNumber op v with
  | error fault => rfl
  | ok x => exact congrArg (fun n => Except.ok n.toValue) (Number.mul_comm (.int i) x)

/-- The product with the factor of a sign is the same on either side, up to the sides in a
fault. -/
theorem arithmetic_factor (h : Heap) (sign : Sign) (v : Value) :
    Alike (Except.mapError Fault.swapped) (arithmetic h .mul v sign.factor)
      (arithmetic h .mul sign.factor v) := by
  obtain ⟨i, factor⟩ : ∃ i, sign.factor = .int i := by
    cases sign <;> exact ⟨_, rfl⟩
  rw [factor]
  by_cases handle : v.isHandle = true
  · have one : arithmetic h .mul v (.int i)
        = .error (.operandKinds (.arithmetic .mul) v.kind .int) := by
      simp [arithmetic, handle, Value.kind]
    have other : arithmetic h .mul (.int i) v
        = .error (.operandKinds (.arithmetic .mul) .int v.kind) := by
      simp [arithmetic, handle, Value.kind]
    rw [one, other]
    exact .inr rfl
  · refine .inl ?_
    have scalar : v.isHandle = false := by simpa using handle
    simp only [arithmetic, scalar, show (Value.int i).isHandle = false from rfl]
    exact onNumbers_mul_comm _ v i

end Operator

namespace Effect

variable {literals : Array Value} {f g : Function} {i j : Instruction} {pc : Nat} {s : Store}

/-- The temporaries that a product has read are emptied alike on either side, as a literal
is not emptied. -/
theorem vacateRead_counterpart (pair : i.Counterpart literals f.constants j) (s : Store) :
    s.vacateRead j = s.vacateRead i := by
  cases pair with
  | same plain => rfl
  | sign factor => simp only [Store.vacateRead, Store.vacate, ite_self]

/-- What an operator does with the value that it has found. -/
def yielding (constants : Array Value) (instr : Instruction) (s : Store) :
    Except Fault Value → Except Fault Flow × Store
  | .error fault => (.error fault, s)
  | .ok v => (.ok .next, (s.vacateRead instr).assign constants instr.result v)

/-- The data behind a write of a field are the same in both functions. -/
theorem data_eq (twins : f.Counterparts literals g) (verified : f.Verified)
    (one : f.code[pc]? = some i) (is : i.opcode = .setField) :
    g.code[pc + 1]? = f.code[pc + 1]? := by
  obtain ⟨-, data, behind, carries⟩ := (verified.checked one).setField is
  obtain ⟨there, found, pair⟩ := twins.fetched behind
  rw [found, behind]
  cases pair with
  | same plain => rfl
  | sign factor => cases carries

/-- An instruction that two functions share has one effect in both. -/
theorem of_shared (twins : f.Counterparts literals g) (verified : f.Verified)
    (one : f.code[pc]? = some i) (s : Store) : Effect.of g i pc s = Effect.of f i pc s := by
  unfold Effect.of
  rw [twins.constants]
  -- Only the write of a field looks at the instruction behind.
  split <;> first | rfl | rw [data_eq twins verified one (by assumption)]

/-- The factor of a sign shows itself. -/
theorem shown_factor {constants : Array Value} {index : Nat} {sign : Sign}
    (factor : constants[index]? = some sign.factor) (s : Store) :
    s.shown constants (.const index) = sign.factor := by
  simp only [Store.shown, Store.held, factor, Option.getD_some]
  cases sign <;> rfl

/-- A built-in instruction and its counterpart have the same effect, up to the sides of a
product in a fault. -/
theorem of_counterpart (twins : f.Counterparts literals g) (verified : f.Verified)
    (one : f.code[pc]? = some i) (other : g.code[pc]? = some j) (s : Store) :
    Alike swapped (Effect.of f i pc s) (Effect.of g j pc s) := by
  have pair := twins.code one other
  have vacated := vacateRead_counterpart pair s
  cases pair with
  | same plain => exact .inl (of_shared twins verified one s)
  | @sign sign value result index target factor =>
    have product := Operator.arithmetic_factor s.heap sign (s.shown f.constants value)
    rw [← shown_factor factor s] at product
    simp only [Effect.of, binary, twins.constants, vacated]
    exact product.map
      (yielding f.constants ⟨.arithmetic .mul, value, .const index, result, target⟩ s)
      fun found => by cases found <;> rfl

end Effect

/-! ## Handlers that do not look at the order -/

/-- The call as a handler sees it on a machine with another negation order. -/
def CallView.reordered (view : CallView) (order : NegationOrder) : CallView :=
  { view with order := order }

@[simp] theorem CallView.heap_reordered (view : CallView) (order : NegationOrder) :
    (view.reordered order).heap = view.heap := rfl

/-- A handler finds the same whatever the negation order is. -/
theorem CallView.find_reordered (view : CallView) (order : NegationOrder) (source : Source) :
    (view.reordered order).find source = view.find source := by
  induction source with
  | operand side => cases side <;> rfl
  | signOperand => rfl
  | field source key ih | content source ih | composite source ih =>
    simp only [CallView.find, ih, heap_reordered]

mutual

/-- A value is made alike whatever the negation order is. -/
theorem Draft.build_reordered (view : CallView) (order : NegationOrder) (h : Heap) :
    (draft : Draft) → draft.build (view.reordered order) h = draft.build view h
  | .scalar v => by rw [Draft.build, Draft.build]
  | .copy source => by simp only [Draft.build, CallView.find_reordered]
  | .duplicate source => by simp only [Draft.build, CallView.find_reordered]
  | .new className fields => by
    simp only [Draft.build, Draft.buildEach_reordered view order h fields]
  | .cell content => by simp only [Draft.build, Draft.build_reordered view order h content]

/-- Values are made alike whatever the negation order is. -/
theorem Draft.buildEach_reordered (view : CallView) (order : NegationOrder) (h : Heap) :
    (fields : List (String × Draft)) →
      Draft.buildEach (view.reordered order) h fields = Draft.buildEach view h fields
  | [] => by rw [Draft.buildEach, Draft.buildEach]
  | (key, draft) :: rest => by
    simp only [Draft.buildEach, Draft.build_reordered view order h draft,
      Draft.buildEach_reordered view order _ rest]

end

/-- The values of a change are made alike whatever the negation order is. -/
theorem Mutation.build_reordered (view : CallView) (order : NegationOrder) (h : Heap)
    (change : Mutation Draft) : change.build (view.reordered order) h = change.build view h := by
  cases change with
  | setFields guarded fields => simp only [build, Draft.buildEach_reordered]
  | setContent content => simp only [build, Draft.build_reordered]
  | _ => rfl

namespace Handler

/-- A handler does not look at the negation order. -/
def Oblivious : Handler → Prop
  | .answer _ => True
  | .inspect next =>
    ∀ view, (next view).Oblivious ∧ ∀ order, next (view.reordered order) = next view
  | .note _ next => next.Oblivious
  | .setResult _ next | .write _ next | .setFlag _ next => ∀ result, (next result).Oblivious
  | .separate next => ∀ result, (next result).Oblivious
  | .setFields _ _ next | .mutate _ _ next => ∀ result, (next result).Oblivious

/-- A handler does the same for the product of a value and the factor of a sign in either
order. -/
def TurnsSigns (handler : Handler) : Prop :=
  ∀ ⦃constants : Array Value⦄ ⦃index : Nat⦄ ⦃sign : Sign⦄,
    constants[index]? = some sign.factor →
    ∀ (value result : Operand) (target : UInt32) (category : Category) (c : CallState),
      handler.run ⟨⟨.arithmetic .mul, .const index, value, result, target⟩, category, constants,
          .constantFirst⟩ c
        = handler.run ⟨⟨.arithmetic .mul, value, .const index, result, target⟩, category,
          constants, .valueFirst⟩ c

end Handler

namespace CallContext

variable {ctx : CallContext} {order : NegationOrder} {c : CallState}

/-- The call on a machine with another negation order. -/
def reordered (ctx : CallContext) (order : NegationOrder) : CallContext :=
  { ctx with order := order }

/-- The instruction of a call stands for no sign, in either order. -/
def NoSign (ctx : CallContext) : Prop :=
  ∀ order : NegationOrder, order.sign? ctx.constants ctx.instr = none

/-- Without a sign, a handler sees nothing else of the negation order than the order itself. -/
theorem view_reordered (plain : ctx.NoSign) (order : NegationOrder) (s : Store) :
    (ctx.reordered order).view s = (ctx.view s).reordered order := by
  simp only [view, reordered, CallView.reordered, plain order, plain ctx.order]
  rfl

theorem build_reordered (plain : ctx.NoSign) (order : NegationOrder) (c : CallState)
    (draft : Draft) : c.build (ctx.reordered order) draft = c.build ctx draft := by
  rw [CallState.build, CallState.build, view_reordered plain, Draft.build_reordered]

theorem setResult_reordered (plain : ctx.NoSign) (order : NegationOrder) (c : CallState)
    (draft : Draft) : c.setResult (ctx.reordered order) draft = c.setResult ctx draft := by
  unfold CallState.setResult
  rw [build_reordered plain]
  rfl

theorem write_reordered (plain : ctx.NoSign) (order : NegationOrder) (c : CallState)
    (draft : Draft) : c.write (ctx.reordered order) draft = c.write ctx draft := by
  unfold CallState.write
  rw [build_reordered plain]
  rfl

theorem setFields_reordered (plain : ctx.NoSign) (order : NegationOrder) (c : CallState)
    (guarded : Bool) (fields : List (String × Draft)) :
    c.setFields (ctx.reordered order) guarded fields = c.setFields ctx guarded fields := by
  unfold CallState.setFields
  rw [view_reordered plain, Draft.buildEach_reordered]
  rfl

theorem mutate_reordered (plain : ctx.NoSign) (order : NegationOrder) (c : CallState)
    (source : Source) (change : Mutation Draft) :
    c.mutate (ctx.reordered order) source change = c.mutate ctx source change := by
  unfold CallState.mutate
  dsimp only
  rw [view_reordered plain, Mutation.build_reordered, CallView.find_reordered]

/-- A handler that does not look at the order runs alike in either order for an instruction
that stands for no sign. -/
theorem run_reordered (ctx : CallContext) (plain : ctx.NoSign) (order : NegationOrder)
    {handler : Handler} (oblivious : handler.Oblivious) (c : CallState) :
    handler.run (ctx.reordered order) c = handler.run ctx c := by
  induction handler generalizing c with
  | answer reply => rfl
  | inspect next ih =>
    obtain ⟨later, same⟩ := oblivious (ctx.view c.store)
    rw [Handler.run, Handler.run, view_reordered plain, same]
    exact ih _ later c
  | note line next ih => exact ih oblivious _
  | setResult value next ih =>
    rw [Handler.run, Handler.run, setResult_reordered plain]
    exact ih _ (oblivious _) _
  | write value next ih =>
    rw [Handler.run, Handler.run, write_reordered plain]
    exact ih _ (oblivious _) _
  | separate next ih =>
    have same : c.separate (ctx.reordered order) = c.separate ctx := rfl
    rw [Handler.run, Handler.run, same]
    split
    · exact ih _ (oblivious _) _
    · rfl
  | setFields guarded fields next ih =>
    rw [Handler.run, Handler.run, setFields_reordered plain]
    exact ih _ (oblivious _) _
  | setFlag flag next ih =>
    rw [Handler.run, Handler.run]
    exact ih _ (oblivious _) _
  | mutate source change next ih =>
    rw [Handler.run, Handler.run, mutate_reordered plain]
    exact ih _ (oblivious _) _

end CallContext

namespace Vector2

theorem oblivious_yield (result : Draft) : (yield result).Oblivious := by
  intro outcome
  cases outcome <;> trivial

theorem oblivious_orDecline {α : Type} {next : α → Handler} (later : ∀ a, (next a).Oblivious)
    (found : Except Unsupported α) : (orDecline next found).Oblivious := by
  cases found with
  | ok a => exact later a
  | error reason => trivial

theorem oblivious_replace (v : Vector2) {next : Except Refusal Unit → Handler}
    (later : ∀ result, (next result).Oblivious) : (v.replace next).Oblivious := by
  intro separated
  cases separated with
  | error violation => trivial
  | ok copied => exact later

theorem oblivious_updateInPlace (v : Vector2) : (updateInPlace v).Oblivious := by
  refine oblivious_replace v fun result => ?_
  cases result with
  | error refusal => trivial
  | ok done =>
    refine fun view => ⟨?_, fun order => rfl⟩
    dsimp only
    split
    · exact oblivious_yield _
    · trivial

/-- The handlers of vectors do not look at the negation order. -/
theorem HandlerFor.oblivious {category : Category} {handler : Handler}
    (is : HandlerFor category handler) : handler.Oblivious := by
  cases is with
  | onVectors g yields =>
    exact fun view => ⟨oblivious_orDecline (fun _ => oblivious_yield _) _, fun order => rfl⟩
  | multiply =>
    refine fun view => ⟨?_, fun order => rfl⟩
    dsimp only
    split
    · rename_i seen _
      refine oblivious_orDecline (fun v => ?_) _
      cases seen.sign <;> exact oblivious_yield _
    · exact oblivious_orDecline (fun v => oblivious_yield _) _
  | assignVectors g =>
    exact fun view => ⟨oblivious_orDecline (fun _ => oblivious_updateInPlace _) _, fun order => rfl⟩
  | assignProduct =>
    exact fun view => ⟨oblivious_orDecline (fun _ => oblivious_updateInPlace _) _, fun order => rfl⟩
  | stepBefore direction =>
    exact fun view => ⟨oblivious_orDecline (fun _ => oblivious_updateInPlace _) _, fun order => rfl⟩
  | stepAfter direction =>
    refine fun view =>
      ⟨oblivious_orDecline (fun v => oblivious_replace _ fun result => ?_) _, fun order => rfl⟩
    split
    · trivial
    · exact oblivious_yield _

/-! ## Products with a sign -/

/-- Calls of one category with one opcode and one result yield alike what they make alike. -/
theorem run_yield_congr (one other : CallContext) (category : other.category = one.category)
    (opcode : other.instr.opcode = one.instr.opcode)
    (result : other.instr.result = one.instr.result) {c : CallState} {draft : Draft}
    (built : c.build other draft = c.build one draft) :
    (yield draft).run other c = (yield draft).run one c := by
  have given : other.hasResult = one.hasResult := by
    rw [CallContext.hasResult, CallContext.hasResult, category, result]
  have set : c.setResult other draft = c.setResult one draft := by
    rw [CallState.setResult, CallState.setResult, built, given, opcode]
  rw [yield, Handler.run, Handler.run, set]
  obtain ⟨outcome, d⟩ := c.setResult one draft
  cases outcome <;> rfl

/-- A vector is made alike in all calls. -/
theorem build_draft_congr (one other : CallContext) (c : CallState) (v : Vector2) :
    c.build other v.draft = c.build one v.draft := by
  simp only [CallState.build, draft, Draft.build, buildEach_entries]

/-- The handler of products looks at the sign and at the value, and not at the sides. -/
theorem turnsSigns_multiply : multiply.TurnsSigns := by
  intro constants index sign factor value result target category c
  let one : CallContext :=
    ⟨⟨.arithmetic .mul, value, .const index, result, target⟩, category, constants, .valueFirst⟩
  let other : CallContext :=
    ⟨⟨.arithmetic .mul, .const index, value, result, target⟩, category, constants, .constantFirst⟩
  have first : (one.view c.store).sign = some ⟨sign, .first, one.see c.store value⟩ := by
    simp [one, CallContext.view, NegationOrder.sign?, NegationOrder.valueSide, Side.other,
      Side.select, factor]
  have second : (other.view c.store).sign = some ⟨sign, .second, one.see c.store value⟩ := by
    simp [one, other, CallContext.view, CallContext.see, NegationOrder.sign?,
      NegationOrder.valueSide, Side.other, Side.select, factor]
  -- Both calls show the same sign of the same value, and only the side differs.
  change multiply.run other c = multiply.run one c
  simp only [multiply, Handler.run, first, second]
  change (orDecline _ (ofValue c.store.heap _)).run other c
    = (orDecline _ (ofValue c.store.heap _)).run one c
  cases ofValue c.store.heap (one.see c.store value).value with
  | error reason => rfl
  | ok v =>
    cases sign with
    | negate => exact run_yield_congr one other rfl rfl rfl (build_draft_congr one other c _)
    | plus =>
      have copied : c.build other (.copy .signOperand) = c.build one (.copy .signOperand) := by
        simp only [CallState.build, Draft.build, CallView.find, first, second, Option.map_some]
      exact run_yield_congr one other rfl rfl rfl copied

end Vector2

/-! ## Machines in either order -/

namespace Effect

variable {literals : Array Value} {f : Function} {i j : Instruction}

/-- What the answer of a handler does is the same on either side of a product. -/
theorem settle_counterpart (pair : i.Counterpart literals f.constants j)
    (ending : Option Answer × CallState) :
    settle f.constants j ending = settle f.constants i ending := by
  obtain ⟨answer, c⟩ := ending
  have result : j.result = i.result := by cases pair <;> rfl
  have concluded (answer : Answer) : conclude f.constants j answer c.pending c.store
      = conclude f.constants i answer c.pending c.store := by
    unfold conclude storePending
    simp only [result, vacateRead_counterpart pair]
  unfold settle
  simp only [concluded]

end Effect

namespace Machine

variable {m : Machine} {f g : Function} {i j : Instruction} {pc : Nat} {s : Store} {p : Progress}

/-- The machine with a negation order. -/
def ordered (m : Machine) (order : NegationOrder) : Machine :=
  { m with options := { m.options with negationOrder := order } }

/-- The handlers of a machine do not look at the negation order, and the one for products
takes signs in either order. -/
structure TakesEitherOrder (m : Machine) : Prop where
  oblivious : ∀ {op handler}, m.table.lookup op = some handler → handler.Oblivious
  turns : ∀ {handler}, m.table.lookup (.arithmetic .mul) = some handler → handler.TurnsSigns

/-- Without handlers, and with those of vectors, a machine takes either order. -/
theorem takesEitherOrder_of_vectors (tables : m.table = .empty ∨ m.table = Vector2.table) :
    m.TakesEitherOrder := by
  rcases tables with empty | vectors
  · refine ⟨fun look => ?_, fun look => ?_⟩ <;> rw [empty] at look <;> cases look
  · refine ⟨fun {op handler} look => ?_, fun look => ?_⟩ <;> rw [vectors] at look
    · obtain ⟨category, has⟩ := Option.isSome_iff_exists.mp
        (Vector2.table.operators op (by rw [look]; rfl))
      exact (Vector2.handlerFor_of_lookup look has).oblivious
    · cases look
      exact Vector2.turnsSigns_multiply

/-- Two verified functions are counterparts, each to run in a negation order of its own. -/
structure Paired (m : Machine) (f g : Function) : Prop where
  takes : m.TakesEitherOrder
  twins : f.Counterparts f.constants g
  verified : f.Verified
  other : g.Verified

/-- A run ends with swapped sides if its fault has them swapped. -/
theorem outcomeOf_swapped (options : Options) (fault : Fault) :
    outcomeOf options fault.swapped = (outcomeOf options fault).swapped := by
  cases fault with
  | operandKinds opcode left right =>
    cases opcode with
    | arithmetic op => cases op <;> rfl
    | _ => rfl
  | contract violation =>
    simp only [Fault.swapped, outcomeOf]
    split <;> rfl
  | _ => rfl

/-- A run goes on alike after endings that are alike. -/
theorem proceed_swapped (options : Options) (pc : Nat)
    (ending : Except Fault Flow × Store × Statistics) :
    proceed options pc (Effect.swapped ending).2.2
        ((Effect.swapped ending).1, (Effect.swapped ending).2.1)
      = (proceed options pc ending.2.2 (ending.1, ending.2.1)).swapped := by
  obtain ⟨result, s, statistics⟩ := ending
  cases result with
  | ok flow => cases flow <;> rfl
  | error fault => exact congrArg (Step.ended · _) (outcomeOf_swapped options fault)

namespace Paired

/-- A frame that is large enough for one function is so for the other. -/
theorem fits_iff (paired : m.Paired f g) {frame : Frame} : frame.Fits g ↔ frame.Fits f := by
  have temporaries := paired.twins.temporaries
  have names := paired.twins.variableNames
  constructor
  · intro fits
    exact ⟨temporaries ▸ fits.temps, names ▸ fits.vars⟩
  · intro fits
    exact ⟨temporaries ▸ fits.temps, names ▸ fits.vars⟩

/-- A call of a handler ends alike. -/
theorem invoke_eq (paired : m.Paired f g) (one : f.code[pc]? = some i)
    (other : g.code[pc]? = some j) (fits : s.frame.Fits f) {handler : Handler}
    (look : m.table.lookup i.opcode = some handler) :
    Action.invoke handler g.constants .constantFirst j s
      = Action.invoke handler f.constants .valueFirst i s := by
  have pair := paired.twins.code one other
  obtain ⟨category, has⟩ := Option.isSome_iff_exists.mp
    (m.table.operators i.opcode (by rw [look]; rfl))
  rw [Action.invoke_eq (paired.verified.checked one) has fits,
    Action.invoke_eq (paired.other.checked other) (pair.opcode_eq ▸ has) (paired.fits_iff.mpr fits),
    paired.twins.constants, Effect.settle_counterpart pair]
  cases pair with
  | same plain =>
    exact congrArg _ (CallContext.run_reordered ⟨i, category, f.constants, .valueFirst⟩
      (NegationOrder.sign?_of_plain plain) .constantFirst (paired.takes.oblivious look) _)
  | sign factor => exact congrArg _ (paired.takes.turns look factor _ _ _ _ _)

/-- A built-in instruction ends alike. -/
theorem builtin_alike (paired : m.Paired f g) (one : f.code[pc]? = some i)
    (other : g.code[pc]? = some j) (fits : s.frame.Fits f) :
    Alike Effect.swapped (builtin f i pc s) (builtin g j pc s) := by
  rw [builtin_eq paired.verified one fits, builtin_eq paired.other other (paired.fits_iff.mpr fits)]
  exact (Effect.of_counterpart paired.twins paired.verified one other s).map Effect.finishing
    Effect.finishing_swapped

/-- An instruction ends alike, by its handler or as built in, and is counted alike. -/
theorem dispatch_alike (paired : m.Paired f g) (one : f.code[p.pc]? = some i)
    (other : g.code[p.pc]? = some j) (fits : p.store.frame.Fits f) :
    Alike Effect.swapped ((m.ordered .valueFirst).dispatch f i p)
      ((m.ordered .constantFirst).dispatch g j p) := by
  have opcode := (paired.twins.code one other).opcode_eq
  unfold dispatch
  simp only [ordered, opcode]
  cases look : m.table.lookup i.opcode with
  | none =>
    exact Effect.alike_counted (paired.builtin_alike one other fits) p.statistics
  | some handler =>
    obtain ⟨category, has⟩ := Option.isSome_iff_exists.mp
      (m.table.operators i.opcode (by rw [look]; rfl))
    have kept := Action.fits_invoke (paired.verified.checked one) has fits handler .valueFirst
    dsimp only
    rw [paired.invoke_eq one other fits look]
    generalize Action.invoke handler f.constants .valueFirst i p.store = ending at kept ⊢
    obtain ⟨result, s⟩ := ending
    cases result with
    | error fault => exact .same
    | ok decision =>
      cases decision with
      | handled => exact .same
      | declined =>
        -- What the handler declines is built in, in the store that the call has left.
        exact Effect.alike_counted (paired.builtin_alike one other kept) _

/-- One instruction brings both runs equally far. -/
theorem step_alike (paired : m.Paired f g) (fits : p.store.frame.Fits f) :
    Alike Step.swapped ((m.ordered .valueFirst).step f p)
      ((m.ordered .constantFirst).step g p) := by
  cases one : f.code[p.pc]? with
  | none =>
    rw [step, step, one, paired.twins.fetched_none one]
    exact .same
  | some i =>
    obtain ⟨j, other, -⟩ := paired.twins.fetched one
    rw [step_eq_proceed one, step_eq_proceed other]
    exact (paired.dispatch_alike (p := p.counted) one other fits).map
      (fun ending => proceed m.options p.pc ending.2.2 (ending.1, ending.2.1))
      (proceed_swapped m.options p.pc)

/-- Any number of instructions bring both runs equally far. -/
theorem runFor_alike (paired : m.Paired f g) (n : Nat) (fits : p.store.frame.Fits f) :
    Alike Step.swapped ((m.ordered .valueFirst).runFor f n p)
      ((m.ordered .constantFirst).runFor g n p) := by
  induction n generalizing p with
  | zero => exact .same
  | succ n ih =>
    have one := paired.step_alike fits
    have keeps := (m.ordered .valueFirst).keeps_fits paired.verified
    have fitting := keeps.step paired.verified fits fits
    rw [runFor, runFor]
    cases steps : (m.ordered .valueFirst).step f p with
    | running q =>
      -- A run that goes on has no sides to swap, so both stand at the same progress.
      rw [steps] at one fitting
      have same : (m.ordered .constantFirst).step g p = .running q := by
        rcases one with same | same <;> exact same
      rw [same]
      exact ih fitting
    | ended outcome q =>
      rw [steps] at one
      rcases one with same | same
      · rw [same]
        exact .same
      · rw [same]
        exact .inr rfl

/-- Where a run is cut short it ends alike. -/
theorem cutShort_eq (paired : m.Paired f g) (limit : Option UInt64) (p : Progress) :
    cutShort g limit p = cutShort f limit p := by
  have fetched := paired.twins.opcode_eq p.pc
  unfold cutShort
  cases one : f.code[p.pc]? <;> cases other : g.code[p.pc]? <;> simp_all

/-- The function of one order starts where the other does. -/
theorem start_eq (paired : m.Paired f g) (s : Store) :
    (m.ordered .constantFirst).start g s = (m.ordered .valueFirst).start f s := by
  rw [start, start, paired.twins.temporaries, paired.twins.variableNames]
  rfl

/-- The two functions end alike, with the same store and the same counters. -/
theorem executeIn_alike (paired : m.Paired f g) (one : f.verify = .ok ())
    (other : g.verify = .ok ()) (s : Store) :
    Alike Outcome.swapped ((m.ordered .valueFirst).executeIn f s).1
        ((m.ordered .constantFirst).executeIn g s).1
      ∧ ((m.ordered .constantFirst).executeIn g s).2.2
        = ((m.ordered .valueFirst).executeIn f s).2.2
      ∧ ((m.ordered .constantFirst).executeIn g s).2.1.statistics
        = ((m.ordered .valueFirst).executeIn f s).2.1.statistics := by
  have fits : ((m.ordered .valueFirst).start f s).store.frame.Fits f := Frame.fits_prepare s.frame f
  have alike := paired.runFor_alike (budget m.options.maxInstructions) fits
  rw [executeIn_eq _ one, executeIn_eq _ other, paired.start_eq]
  dsimp only [ordered] at alike ⊢
  generalize runFor _ f _ _ = first at alike ⊢
  generalize runFor _ g _ _ = second at alike ⊢
  rcases alike with rfl | rfl
  · cases second with
    | running p => exact ⟨.inl (paired.cutShort_eq _ p), rfl, rfl⟩
    | ended outcome p => exact ⟨.same, rfl, rfl⟩
  · cases first with
    | running p => exact ⟨.inl (paired.cutShort_eq _ p), rfl, rfl⟩
    | ended outcome p => exact ⟨.inr rfl, rfl, rfl⟩

end Paired

/-- The negation order is invisible to programs. A sequence of calls writes a function in
either order; in one of them it is in order, and of its products with a literal one or
minus one there are only those for unary minus and plus. Each function is run on a machine
of its order, both without handlers or both with those of vectors, from one store. Then
the calls have handed out the same, both functions are in order, and they end with the
same outcome, up to the sides in a fault about the operands of a product, with the same
heap and frame and with the same counters. -/
theorem negation_order_is_unseen {order : NegationOrder} {name : String}
    {calls : List Writer.Call} (verified : (Writer.written order name calls).verify = .ok ())
    (plain : ∀ call ∈ calls, ∀ instr ∈ call.instructions,
      instr.multipliesByUnit (Writer.written order name calls).constants = false)
    (tables : m.table = .empty ∨ m.table = Vector2.table) (s : Store) :
    let handed (order : NegationOrder) := ((Writer.start name).performAll order calls).1
    let ending (order : NegationOrder) :=
      (m.ordered order).executeIn (Writer.written order name calls) s
    handed .constantFirst = handed .valueFirst
      ∧ (∀ order, (Writer.written order name calls).verify = .ok ())
      ∧ Alike Outcome.swapped (ending .valueFirst).1 (ending .constantFirst).1
      ∧ (ending .constantFirst).2.2 = (ending .valueFirst).2.2
      ∧ (ending .constantFirst).2.1.statistics = (ending .valueFirst).2.1.statistics := by
  obtain ⟨handed, twins⟩ := Writer.counterparts_written name plain
  have one : (Writer.written .valueFirst name calls).verify = .ok () := by
    cases order with
    | valueFirst => exact verified
    | constantFirst => exact twins.verify_iff.mp verified
  have other := twins.verify_iff.mpr one
  have literals : (Writer.written order name calls).constants
      = (Writer.written .valueFirst name calls).constants := by
    cases order with
    | valueFirst => rfl
    | constantFirst => exact twins.constants
  rw [literals] at twins
  have paired : m.Paired (Writer.written .valueFirst name calls)
      (Writer.written .constantFirst name calls) :=
    ⟨takesEitherOrder_of_vectors tables, twins, Function.verified_of_verify one,
      Function.verified_of_verify other⟩
  refine ⟨handed, fun order => ?_, paired.executeIn_alike one other s⟩
  cases order with
  | valueFirst => exact one
  | constantFirst => exact other

/-- Negates a variable and doubles what comes out. -/
def turning : List Writer.Call :=
  [.named "a", .temporary, .sign .negate (.var 0) (.temp 0), .constant (.int 2), .temporary,
    .emit (.arithmetic .mul) (.temp 0) (.const 1) (.temp 1), .ret (.temp 1)]

/-- A shared vector is negated and doubled in either order. -/
theorem negation_order_is_unseen_turning :
    let m := Machine.ofTable .standard Vector2.table
    let literals := (Writer.written .valueFirst "turning" turning).constants
    let handed (order : NegationOrder) := ((Writer.start "turning").performAll order turning).1
    let ending (order : NegationOrder) :=
      (m.ordered order).executeIn (Writer.written order "turning" turning) twins
    (Writer.written .valueFirst "turning" turning).verify = .ok ()
      ∧ (∀ call ∈ turning, ∀ instr ∈ call.instructions, instr.multipliesByUnit literals = false)
      ∧ handed .constantFirst = handed .valueFirst
      ∧ (∀ order, (Writer.written order "turning" turning).verify = .ok ())
      ∧ Alike Outcome.swapped (ending .valueFirst).1 (ending .constantFirst).1
      ∧ (ending .constantFirst).2.2 = (ending .valueFirst).2.2
      ∧ (ending .constantFirst).2.1.statistics = (ending .valueFirst).2.1.statistics := by
  have verified : (Writer.written .valueFirst "turning" turning).verify = .ok () := by cbv
  have constants : (Writer.written .valueFirst "turning" turning).constants
      = #[.int (-1), .int 2] := by cbv
  have plain : ∀ call ∈ turning, ∀ instr ∈ call.instructions, instr.multipliesByUnit
      (Writer.written .valueFirst "turning" turning).constants = false := by
    rw [constants]
    decide
  exact ⟨verified, plain, negation_order_is_unseen verified plain (Or.inr rfl) twins⟩

/-- Without handlers the kinds of a composite and the factor stand on exchanged sides. -/
example :
    let m := Machine.ofTable .standard .empty
    let ending (order : NegationOrder) :=
      (m.ordered order).executeIn (Writer.written order "turning" turning) twins
    (ending .valueFirst).1 = .failed (.operandKinds (.arithmetic .mul) .composite .int)
      ∧ (ending .constantFirst).1 = .failed (.operandKinds (.arithmetic .mul) .int .composite) := by
  cbv

end Machine

end OverloadMachine
