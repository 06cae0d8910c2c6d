import OverloadMachine.Proofs.CallEndings

/-!
# Definitions of dynamic variables

A dynamic variable comes into being when it is written, or looked up to be written. It is
never undefined again, and no read defines it: an instruction defines the variables of the
operands that it writes, and that of its result once it stores one. A name that no such
operand mentions stays undefined, and reads as null at every position of a run and within
every call of a handler.
-/

namespace OverloadMachine

/-- A dynamic variable is defined. -/
def Frame.Defines (frame : Frame) (name : String) : Prop :=
  (frame.get? (.symbol name)).isSome = true

instance (frame : Frame) (name : String) : Decidable (frame.Defines name) :=
  inferInstanceAs (Decidable (_ = true))

/-- An operand is the dynamic variable of a name. -/
def Operand.Names (constants : Array Value) (o : Operand) (name : String) : Prop :=
  o.slot constants = .symbol name

instance (constants : Array Value) (o : Operand) (name : String) :
    Decidable (o.Names constants name) := inferInstanceAs (Decidable (_ = _))

namespace Opcode

/-- Whether the first operand is written. -/
def writesFirst (op : Opcode) : Bool :=
  match op with
  | .assign | .assignRef | .setField => true
  | _ => (op.category?.map Category.isAssignment).getD false

/-- Whether there may be a result. -/
def hasResult : Opcode → Bool
  | .nop | .assignRef | .setField | .opData | .free | .jmp | .jmpIfFalse | .ret => false
  | _ => true

theorem writesFirst_of_category {op : Opcode} {category : Category}
    (has : op.category? = some category) (assigns : category.isAssignment = true) :
    op.writesFirst = true := by
  unfold writesFirst
  split
  · rfl
  · rfl
  · rfl
  · rw [has]
    exact assigns

theorem hasResult_of_category {op : Opcode} {category : Category}
    (has : op.category? = some category) : op.hasResult = true := by
  unfold hasResult
  split <;> first | rfl | cases has

end Opcode

namespace Instruction

/-- A dynamic variable is an operand that the instruction writes, its result apart. -/
def Writes (constants : Array Value) (instr : Instruction) (name : String) : Prop :=
  instr.opcode.writesFirst = true ∧ instr.op1.Names constants name
    ∨ instr.opcode = .assignRef ∧ instr.op2.Names constants name

/-- A dynamic variable is an operand that the instruction writes, or its result. -/
def Mentions (constants : Array Value) (instr : Instruction) (name : String) : Prop :=
  instr.Writes constants name
    ∨ instr.opcode.hasResult = true ∧ instr.result.Names constants name

instance (constants : Array Value) (instr : Instruction) (name : String) :
    Decidable (instr.Writes constants name) := inferInstanceAs (Decidable (_ ∨ _))

instance (constants : Array Value) (instr : Instruction) (name : String) :
    Decidable (instr.Mentions constants name) := inferInstanceAs (Decidable (_ ∨ _))

end Instruction

/-! ## What the operations of the store define -/

/-- Writing the slot of a dynamic variable defines it. -/
theorem Frame.defines_put_self (frame : Frame) (name : String) (v : Value) :
    (frame.put (.symbol name) v).Defines name := by
  rw [Defines, frame.get?_put_self _ v (.inr ⟨name, rfl⟩)]
  rfl

/-- Writing a slot defines no other variable. -/
theorem Frame.defines_put_ne (frame : Frame) {slot : Slot} {name : String} (v : Value)
    (ne : slot ≠ .symbol name) : (frame.put slot v).Defines name ↔ frame.Defines name := by
  rw [Defines, Defines, frame.get?_put_ne v ne]

/-- Of one frame and a later one: what is defined stays defined, and what is defined anew
is what may be. -/
structure Frame.Grows (may : String → Prop) (before after : Frame) : Prop where
  kept : ∀ name, before.Defines name → after.Defines name
  only : ∀ name, after.Defines name → before.Defines name ∨ may name

namespace Frame.Grows

variable {may more : String → Prop} {before between after : Frame}

theorem refl (frame : Frame) : Grows may frame frame := ⟨fun _ => id, fun _ => .inl⟩

theorem trans (first : Grows may before between) (second : Grows may between after) :
    Grows may before after where
  kept name defined := second.kept name (first.kept name defined)
  only name defined := by
    rcases second.only name defined with earlier | named
    · exact first.only name earlier
    · exact .inr named

theorem mono (grows : Grows may before after) (implies : ∀ name, may name → more name) :
    Grows more before after where
  kept := grows.kept
  only name defined := (grows.only name defined).imp_right (implies name)

/-- Writing a slot defines the variable of the slot, if it is that of one. -/
theorem put (grows : Grows may before after) {slot : Slot}
    (allowed : ∀ name, slot = .symbol name → may name) (v : Value) :
    Grows may before (after.put slot v) := by
  refine grows.trans ⟨fun name defined => ?_, fun name defined => ?_⟩
  · by_cases eq : slot = .symbol name
    · rw [eq]
      exact after.defines_put_self name v
    · exact (after.defines_put_ne v eq).mpr defined
  · by_cases eq : slot = .symbol name
    · exact .inr (allowed name eq)
    · exact .inl ((after.defines_put_ne v eq).mp defined)

section Stores

variable {t : Store} {place : Place} (grows : Grows may before t.frame)

include grows

theorem putPlace (allowed : ∀ name, place = .slot (.symbol name) → may name) (v : Value) :
    Grows may before (t.put place v).frame := by
  cases place with
  | slot slot => exact grows.put (fun name eq => allowed name (congrArg Place.slot eq)) v
  | cell cell => exact grows

theorem overwrite (allowed : ∀ name, place = .slot (.symbol name) → may name) (v : Value) :
    Grows may before (t.overwrite place v).frame := grows.putPlace allowed v

/-- Separation writes the place that it separates. -/
theorem separate (allowed : ∀ name, place = .slot (.symbol name) → may name) :
    Grows may before (t.separate place).2.frame :=
  putPlace (t := { t with heap := (t.heap.separate (t.peek place)).2.2 }) grows allowed _

theorem setFieldAt (allowed : ∀ name, place = .slot (.symbol name) → may name) (key : String)
    (v : Value) : Grows may before (Effect.setFieldAt place key v t).2.frame := by
  unfold Effect.setFieldAt
  split
  · exact grows
  · dsimp only
    split <;> exact grows.separate allowed

/-- Emptying an operand defines nothing: only temporaries are emptied. -/
theorem vacate (o : Operand) : Grows may before (t.vacate o).frame := by
  cases o with
  | temp i => exact grows.overwrite (fun _ eq => by cases eq) .null
  | _ => exact grows

theorem vacateRead (instr : Instruction) : Grows may before (t.vacateRead instr).frame := by
  have one : Grows may before
      (if instr.op1 ≠ instr.result then t.vacate instr.op1 else t).frame := by
    split
    · exact grows.vacate _
    · exact grows
  unfold Store.vacateRead
  dsimp only
  split
  · exact one.vacate _
  · exact one

/-- Binding a slot to a cell writes it. -/
theorem bound {slot : Slot} (allowed : ∀ name, slot = .symbol name → may name) :
    Grows may before (t.bound slot).2.frame := by
  unfold Store.bound
  split
  · exact grows
  · exact grows.put allowed _

variable {constants : Array Value} {o : Operand}
  (allowed : ∀ name, o.Names constants name → may name)

include allowed

/-- Looking an operand up to write it defines its variable. -/
theorem defining : Grows may before (t.defining constants o).frame := by
  unfold Store.defining
  split
  · rename_i name is
    dsimp only
    unfold Frame.define
    split
    · exact grows
    · refine grows.put (fun other eq => ?_) .null
      cases eq
      exact allowed name is
  · exact grows

theorem assign (v : Value) : Grows may before (t.assign constants o v).frame :=
  (grows.defining allowed).overwrite
    (fun name shows => allowed name (Store.placeOf_eq_slot shows).1) v

theorem yield (v : Value) : Grows may before (t.yield constants o v).frame := by
  unfold Store.yield
  split
  · exact grows
  · exact Grows.assign (t := t.acquire v) grows allowed v

end Stores

end Frame.Grows

/-! ## Instructions -/

namespace Effect

open OverloadMachine.Frame (Grows)

variable {f : Function} {instr : Instruction} {pc : Nat} {s : Store} {may : String → Prop}
  {constants : Array Value}

theorem grows_binary {g : Heap → Value → Value → Except Fault Value}
    (result : (binary constants instr g s).1 = .ok .next →
      ∀ name, instr.result.Names constants name → may name) :
    Grows may s.frame (binary constants instr g s).2.frame := by
  unfold binary at result ⊢
  split
  · exact .refl _
  · rename_i made
    rw [made] at result
    exact ((Grows.refl s.frame).vacateRead instr).assign (result rfl) _

theorem grows_newComposite
    (result : (newComposite constants instr s).1 = .ok .next →
      ∀ name, instr.result.Names constants name → may name) :
    Grows may s.frame (newComposite constants instr s).2.frame := by
  unfold newComposite at result ⊢
  split
  · rename_i className held
    rw [held] at result
    exact Grows.assign (t := { s with heap := (s.heap.create className .empty).2 })
      (.refl s.frame) (result rfl) _
  · exact .refl _

theorem grows_getField
    (result : (getField constants instr s).1 = .ok .next →
      ∀ name, instr.result.Names constants name → may name) :
    Grows may s.frame (getField constants instr s).2.frame := by
  unfold getField at result ⊢
  split
  · exact .refl _
  · rename_i key named
    rw [named] at result
    dsimp only at result
    split
    · rename_i id shows
      rw [shows] at result
      exact ((Grows.vacate (t := s.acquire _) (.refl s.frame) _).vacate _).assign (result rfl) _
    · exact .refl _

variable (first : ∀ name, instr.op1.Names constants name → may name)

include first

theorem grows_assign (result : ∀ name, instr.result.Names constants name → may name) :
    Grows may s.frame (assign constants instr s).2.frame :=
  ((Grows.vacateRead (t := s.acquire _) (.refl s.frame) instr).yield result _).assign first _

theorem grows_assignRef (second : ∀ name, instr.op2.Names constants name → may name) :
    Grows may s.frame (assignRef constants instr s).2.frame :=
  ((((Grows.refl s.frame).defining second).bound second).defining first).overwrite
    (fun name eq => first name (Place.slot.inj eq)) _

theorem grows_setField (data : Instruction) (pc : Nat) :
    Grows may s.frame (setField constants instr data pc s).2.frame := by
  unfold setField
  split
  · exact .refl _
  · rename_i key _
    have shown : ∀ name, s.target constants instr.op1 = .slot (.symbol name) → may name :=
      fun name shows => first name (Store.placeOf_eq_slot shows).1
    have set := Grows.setFieldAt
      (Grows.defining (t := s.acquire (s.shown constants data.op1)) (.refl s.frame) first) shown
      key (s.shown constants data.op1)
    dsimp only
    split <;> rename_i eq <;> rw [eq] at set
    · exact set
    · exact (set.vacate _).vacate _

theorem grows_compound {op : ArithmeticOp}
    (result : (compound constants instr op s).1 = .ok .next →
      ∀ name, instr.result.Names constants name → may name) :
    Grows may s.frame (compound constants instr op s).2.frame := by
  unfold compound at result ⊢
  dsimp only at result ⊢
  split
  · exact Grows.defining (t := s.acquire _) (.refl s.frame) first
  · rename_i v made
    rw [made] at result
    exact ((Grows.assign (t := s.acquire _) (.refl s.frame) first v).vacateRead instr).yield
      (result rfl) v

theorem grows_step {time : StepTime} {direction : StepDirection}
    (result : (step constants instr time direction s).1 = .ok .next →
      ∀ name, instr.result.Names constants name → may name) :
    Grows may s.frame (step constants instr time direction s).2.frame := by
  unfold step at result ⊢
  dsimp only at result ⊢
  split
  · exact (Grows.refl s.frame).defining first
  · rename_i v made
    rw [made] at result
    cases time with
    | pre => exact ((Grows.refl s.frame).assign first v).yield (result rfl) v
    | post =>
      have shown : ∀ name, s.target constants instr.op1 = .slot (.symbol name) → may name :=
        fun name shows => first name (Store.placeOf_eq_slot shows).1
      exact (((Grows.refl s.frame).defining first).putPlace shown v).assign (result rfl) _

omit first in
/-- A built-in instruction defines the variables that it writes, and that of its result if
it comes to its end. -/
theorem grows_of (written : ∀ name, instr.Writes f.constants name → may name)
    (stored : (Effect.of f instr pc s).1 = .ok .next → instr.opcode.hasResult = true →
      ∀ name, instr.result.Names f.constants name → may name) :
    Grows may s.frame (Effect.of f instr pc s).2.frame := by
  have first : instr.opcode.writesFirst = true →
      ∀ name, instr.op1.Names f.constants name → may name :=
    fun writes name names => written name (.inl ⟨writes, names⟩)
  have second : instr.opcode = .assignRef →
      ∀ name, instr.op2.Names f.constants name → may name :=
    fun is name names => written name (.inr ⟨is, names⟩)
  clear written
  unfold Effect.of at stored ⊢
  generalize instr.opcode = opcode at stored first second ⊢
  cases opcode with
  | assign => exact grows_assign (first rfl) (stored rfl rfl)
  | assignRef => exact grows_assignRef (first rfl) (second rfl)
  | newComposite => exact grows_newComposite fun ends => stored ends rfl
  | setField => exact grows_setField (first rfl) _ pc
  | getField => exact grows_getField fun ends => stored ends rfl
  | free => exact (Grows.refl s.frame).vacate _
  | jmpIfFalse =>
    dsimp only [jumpIfFalse]
    split
    · exact .refl _
    · exact (Grows.refl s.frame).vacate _
  | ret => exact Grows.vacate (t := s.acquire _) (.refl s.frame) _
  | arithmetic op => exact grows_binary fun ends => stored ends rfl
  | boolXor => exact grows_binary fun ends => stored ends rfl
  | comparison op => exact grows_binary fun ends => stored ends rfl
  | compound op => exact grows_compound (first rfl) fun ends => stored ends rfl
  | unary op =>
    exact grows_binary (g := fun h a _ => Operator.unary h op a) fun ends => stored ends rfl
  | step time direction =>
    exact grows_step (first (by cases time <;> rfl)) fun ends => stored ends rfl
  | _ => exact .refl _

end Effect

/-! ## Calls of handlers -/

/-- A handler defines at most the variable of its first operand, if the instruction assigns. -/
theorem CallContext.stable_grows {ctx : CallContext} {may : String → Prop}
    (first : ctx.category.isAssignment = true →
      ∀ name, ctx.instr.op1.Names ctx.constants name → may name) (before : Frame) :
    ctx.Stable (Frame.Grows may before) := fun assigns _ v _ grows => grows.put (first assigns) v

namespace Effect

open OverloadMachine.Frame (Grows)

variable {m : Machine} {f : Function} {instr : Instruction} {pc : Nat} {s t : Store}
  {may : String → Prop} {before : Frame}

theorem grows_finishing {ending : Except Fault Flow × Store}
    (grows : Grows may before ending.2.frame) : Grows may before (finishing ending).2.frame := by
  unfold finishing
  split
  · exact grows
  · exact grows.overwrite (fun _ eq => by cases eq) .null

theorem grows_storePending {constants : Array Value} {pending : Option Value}
    (grows : Grows may before t.frame)
    (result : pending.isSome = true → ∀ name, instr.result.Names constants name → may name) :
    Grows may before (storePending constants instr pending t).frame := by
  cases pending with
  | none => exact grows
  | some v =>
    unfold storePending
    dsimp only
    split
    · exact grows
    · exact grows.assign (result rfl) v

/-- A call of a handler defines at most what it writes and the result that it stores. So does
the built-in instruction, if the handler declines. -/
theorem grows_calling {order : NegationOrder} {category : Category} {handler : Handler}
    (has : instr.opcode.category? = some category)
    (written : ∀ name, instr.Writes f.constants name → may name)
    (stored : (calling order f instr pc category handler s).1 = .ok .next →
      (∀ c, handler.run ⟨instr, category, f.constants, order⟩ ⟨s, none, none⟩
        = (some .handled, c) → c.pending.isSome = true) →
      ∀ name, instr.result.Names f.constants name → may name) :
    Grows may s.frame (calling order f instr pc category handler s).2.frame := by
  have stable : CallContext.Stable ⟨instr, category, f.constants, order⟩ (Grows may s.frame) :=
    CallContext.stable_grows (fun assigns name names =>
      written name (.inl ⟨Opcode.writesFirst_of_category has assigns, names⟩)) s.frame
  have kept := stable.run (c := ⟨s, none, none⟩) (.refl s.frame) handler
  unfold calling at stored ⊢
  generalize handler.run ⟨instr, category, f.constants, order⟩ ⟨s, none, none⟩ = ending
    at kept stored ⊢
  obtain ⟨answer, c⟩ := ending
  rcases settle_cases f.constants instr answer c with
    ⟨rfl, -, eq⟩ | ⟨reply, rfl, declines, -, eq⟩ | ⟨fault, eq⟩
  · rw [eq] at stored ⊢
    have result : c.pending.isSome = true →
        ∀ name, instr.result.Names f.constants name → may name :=
      fun set => stored rfl fun d same => by
        cases same
        exact set
    exact ((grows_storePending kept result).vacateRead instr).overwrite
      (fun _ eq => by cases eq) .null
  · rw [eq] at stored ⊢
    have dropped : Grows may s.frame (dropPending c.pending c.store).frame := by
      rw [frame_dropPending]
      exact kept
    have cleared : Grows may s.frame
        ((dropPending c.pending c.store).overwrite (.slot .scratch) .null).frame :=
      dropped.overwrite (fun _ eq => by cases eq) .null
    -- What the handler declines is built in, and then the result is stored without a handler.
    refine grows_finishing (cleared.trans (grows_of written fun ends _ => ?_))
    refine stored ?_ fun d same => ?_
    · rw [deciding, fst_finishing]
      exact ends
    · cases same
      exact declines.elim
  · rw [eq]
    change Grows may s.frame (dropPending c.pending c.store).frame
    rw [frame_dropPending]
    exact kept

end Effect

/-! ## Runs -/

/-- An instruction stores a result: it comes to its end, it has one, and a handler that has
handled it has set one. -/
structure Machine.StoresResult (m : Machine) (f : Function) (instr : Instruction) (p : Progress) :
    Prop where
  ends : (m.dispatch f instr p).1 = .ok .next
  hasResult : instr.opcode.hasResult = true
  set : ∀ handler category c, m.table.lookup instr.opcode = some handler →
    instr.opcode.category? = some category →
    handler.run ⟨instr, category, f.constants, m.options.negationOrder⟩ ⟨p.store, none, none⟩
      = (some .handled, c) → c.pending.isSome = true

/-- The instruction at which a run stands defines a variable: as an operand that it writes, or
as its result, if it stores one. -/
def Machine.MayDefine (m : Machine) (f : Function) (p : Progress) (name : String) : Prop :=
  ∃ instr, f.code[p.pc]? = some instr
    ∧ (instr.Writes f.constants name
      ∨ instr.result.Names f.constants name ∧ m.StoresResult f instr p)

namespace Machine

open OverloadMachine.Frame (Grows)

variable {m : Machine} {f : Function} {s : Store} {p q : Progress} {instr : Instruction}

/-- An instruction, by its handler or as built in, defines at most what it writes and the
result that it stores. -/
theorem grows_dispatch (verified : f.Verified) (found : f.code[p.pc]? = some instr)
    (fits : p.store.frame.Fits f) :
    Grows (fun name => instr.Writes f.constants name
        ∨ instr.result.Names f.constants name ∧ m.StoresResult f instr p)
      p.store.frame (Effect.dispatch m f instr p.pc p.store).2.frame := by
  obtain ⟨ending, -, -⟩ := dispatch_eq (m := m) verified found fits
  have stores : (Effect.dispatch m f instr p.pc p.store).1 = .ok .next →
      instr.opcode.hasResult = true → _ → m.StoresResult f instr p :=
    fun ends has set => ⟨ending.trans ends, has, set⟩
  unfold Effect.dispatch at stores ⊢
  split at stores
  · rename_i handler category look has
    refine Effect.grows_calling has (fun name writes => .inl writes) fun ends set name names =>
      .inr ⟨names, stores ends (Opcode.hasResult_of_category has) ?_⟩
    intro handler' category' c look' has' ran
    cases look.symm.trans look'
    cases has.symm.trans has'
    exact set c ran
  · rename_i unhandled
    refine Effect.grows_finishing (Effect.grows_of (fun name writes => .inl writes)
      fun ends has name names => .inr ⟨names, stores ?_ has ?_⟩)
    · rw [Effect.fst_finishing]
      exact ends
    · intro handler category c look has
      exact (unhandled handler category look has).elim

/-- One step defines at most what its instruction writes and the result that it stores. -/
theorem grows_step (verified : f.Verified) (fits : p.store.frame.Fits f) :
    Grows (m.MayDefine f p) p.store.frame (m.step f p).store.frame := by
  cases found : f.code[p.pc]? with
  | none =>
    rw [step, found]
    exact .refl _
  | some instr =>
    have grows : Grows (m.MayDefine f p) _ _ :=
      (grows_dispatch (m := m) verified found fits).mono fun name named => ⟨instr, found, named⟩
    obtain ⟨statistics, -, eq⟩ := step_eq (m := m) verified found fits
    rw [eq]
    generalize Effect.dispatch m f instr p.pc p.store = ending at grows ⊢
    obtain ⟨fault | flow, t⟩ := ending
    · exact grows
    · cases flow <;> exact grows

/-- A run defines at most names that the instructions mention that it fetches. -/
theorem grows_runFor (verified : f.Verified) (n : Nat) (fits : p.store.frame.Fits f) :
    Grows (fun name => ∃ instr ∈ m.fetched f n p, instr.Mentions f.constants name)
      p.store.frame (m.runFor f n p).store.frame := by
  induction n generalizing p with
  | zero => exact .refl _
  | succ n ih =>
    have fitting := (m.keeps_fits verified).step verified fits fits
    have one : Grows (fun name => ∃ instr ∈ m.fetched f (n + 1) p,
        instr.Mentions f.constants name) p.store.frame (m.step f p).store.frame := by
      refine (grows_step verified fits).mono ?_
      rintro name ⟨instr, found, named⟩
      refine ⟨instr, ?_, ?_⟩
      · rw [fetched, found]
        exact List.mem_cons_self
      · exact named.imp_right fun stored => ⟨stored.2.hasResult, stored.1⟩
    rw [runFor]
    cases steps : m.step f p with
    | ended outcome q =>
      rw [steps] at one
      exact one
    | running q =>
      rw [steps] at one fitting
      refine one.trans ((ih fitting).mono ?_)
      rintro name ⟨instr, mem, mentions⟩
      refine ⟨instr, List.mem_of_mem_tail ?_, mentions⟩
      rw [tail_fetched_of_running steps]
      exact mem

/-- A run in a frame that is grown to the function's needs ends with the store of its last
step. -/
theorem store_executeIn (verified : f.verify = .ok ()) :
    (m.executeIn f s).2.2
      = (m.runFor f (budget m.options.maxInstructions) (m.start f s)).store := by
  rw [executeIn_eq m verified]
  generalize m.runFor f _ _ = ending
  cases ending <;> rfl

end Machine

/-! ## Reads -/

/-- Operands with the name of a dynamic variable read as null. -/
def Store.ReadsNull (s : Store) (constants : Array Value) (name : String) : Prop :=
  ∀ o : Operand, o.Names constants name → s.view constants o = .ok (.null, false)

/-- A dynamic variable that is not defined reads as null. -/
theorem Store.readsNull_of_undefined {s : Store} {name : String}
    (undefined : ¬s.frame.Defines name) (constants : Array Value) :
    s.ReadsNull constants name := by
  intro o names
  cases o with
  | dynamic i =>
    have holds : s.frame.get (.symbol name) = .null := by
      rw [Frame.Defines, Option.not_isSome_iff_eq_none] at undefined
      rw [Frame.get, undefined, Option.getD_none]
    have found : constants[i]? = some (.str name) := by
      simp only [Operand.Names, Operand.slot] at names
      split at names <;> cases names
      assumption
    have text : variableName constants i = .ok name := by rw [variableName, found]
    rw [view, resolve, text]
    change Except.ok (s.heap.lookThrough (s.frame.get (.symbol name))) = _
    rw [holds]
    rfl
  | _ => cases names

namespace Machine

variable {m : Machine} {f : Function} {s : Store} {p : Progress}

/-- Within a call of a handler the variables stay undefined that the instruction does not
write, and read as null. -/
theorem readsNull_of_reaches {instr : Instruction} {category : Category} {order : NegationOrder}
    {handler h : Handler} {c : CallState} {name : String}
    (has : instr.opcode.category? = some category)
    (reaches : handler.Reaches ⟨instr, category, f.constants, order⟩ ⟨s, none, none⟩ h c)
    (unwritten : ¬instr.Writes f.constants name) (undefined : ¬s.frame.Defines name) :
    c.store.ReadsNull f.constants name := by
  have stable : CallContext.Stable ⟨instr, category, f.constants, order⟩
      (Frame.Grows (instr.Writes f.constants ·) s.frame) :=
    CallContext.stable_grows (fun assigns name names =>
      .inl ⟨Opcode.writesFirst_of_category has assigns, names⟩) s.frame
  have kept := stable.reaches (c := ⟨s, none, none⟩) (.refl s.frame) reaches
  refine Store.readsNull_of_undefined (fun defined => ?_) f.constants
  exact (kept.only name defined).elim undefined unwritten

/-- Reads define no dynamic variable. What is defined stays defined, at every instruction and
over every run. An instruction defines only a variable that is its result, if it stores one,
or one of the operands that it writes: the first one of an assignment of any kind and of a
write of a field, and the second one of an assignment by reference. A name that none of these
operands mentions stays undefined over a run, and reads as null where it stands and within
every call of a handler on the way. -/
theorem variables_are_defined_by_writes_alone (verified : f.verify = .ok ()) :
    (∀ k p, m.runFor f k (m.start f s) = .running p →
      (∀ name, p.store.frame.Defines name → (m.step f p).store.frame.Defines name)
      ∧ (∀ name, ¬p.store.frame.Defines name → (m.step f p).store.frame.Defines name →
          m.MayDefine f p name)
      ∧ (∀ n name, p.store.frame.Defines name → (m.runFor f n p).store.frame.Defines name)
      ∧ (∀ n name, ¬p.store.frame.Defines name →
          (∀ instr ∈ m.fetched f n p, ¬instr.Mentions f.constants name) →
            ¬(m.runFor f n p).store.frame.Defines name
            ∧ (m.runFor f n p).store.ReadsNull f.constants name)
      ∧ ∀ instr (handler h : Handler) category c name, f.code[p.pc]? = some instr →
          instr.opcode.category? = some category →
          handler.Reaches ⟨instr, category, f.constants, m.options.negationOrder⟩
            ⟨p.store, none, none⟩ h c →
          ¬p.store.frame.Defines name → ¬instr.Writes f.constants name →
            c.store.ReadsNull f.constants name)
    ∧ (∀ name, s.frame.Defines name → (m.executeIn f s).2.2.frame.Defines name)
    ∧ ∀ name, ¬s.frame.Defines name →
        (∀ instr ∈ m.fetched f (budget m.options.maxInstructions) (m.start f s),
          ¬instr.Mentions f.constants name) →
        ¬(m.executeIn f s).2.2.frame.Defines name
        ∧ (m.executeIn f s).2.2.ReadsNull f.constants name := by
  have order := Function.verified_of_verify verified
  have prepared : (m.start f s).store.frame.Fits f := s.frame.fits_prepare f
  have undefined : ∀ {n p name}, p.store.frame.Fits f → ¬p.store.frame.Defines name →
      (∀ instr ∈ m.fetched f n p, ¬instr.Mentions f.constants name) →
        ¬(m.runFor f n p).store.frame.Defines name
        ∧ (m.runFor f n p).store.ReadsNull f.constants name := by
    intro n p name fits undefined unmentioned
    have still : ¬(m.runFor f n p).store.frame.Defines name := fun defined => by
      rcases (grows_runFor order n fits).only name defined with before | ⟨instr, mem, mentions⟩
      · exact undefined before
      · exact unmentioned instr mem mentions
    exact ⟨still, Store.readsNull_of_undefined still f.constants⟩
  refine ⟨fun k p reached => ?_, fun name defined => ?_, fun name absent unmentioned => ?_⟩
  · have fits : p.store.frame.Fits f := by
      have kept := (m.keeps_fits order).runFor order id k prepared
      rw [reached] at kept
      exact kept
    have one := grows_step (m := m) order fits
    refine ⟨one.kept, fun name absent defined => ?_,
      fun n => (grows_runFor order n fits).kept, fun n name => undefined fits, ?_⟩
    · exact (one.only name defined).resolve_left absent
    · intro instr handler h category c name found has reaches absent unwritten
      exact readsNull_of_reaches has reaches unwritten absent
  · rw [store_executeIn verified]
    exact (grows_runFor order _ prepared).kept name defined
  · rw [store_executeIn verified]
    exact undefined prepared absent unmentioned

/-- Reads a variable twice, compares it into another one, and adds to a third. -/
def naming : Function where
  name := "naming"
  code := #[
    ⟨.assign, .var 0, .dynamic 0, .unused, 0⟩,
    ⟨.comparison .identical, .dynamic 0, .var 0, .dynamic 1, 0⟩,
    ⟨.compound .add, .dynamic 2, .dynamic 0, .unused, 0⟩,
    ⟨.ret, .dynamic 2, .unused, .unused, 0⟩]
  constants := #[.str "a", .str "b", .str "c"]
  temporaries := 0
  variableNames := #["v"]

/-- The result of the comparison is defined by it and stays defined, and the variable that is
only read is undefined at the end. -/
theorem variables_are_defined_by_writes_alone_naming :
    let m := Machine.ofTable .standard (DispatchTable.empty.set (.compound .add) rfl (some raising))
    let start := m.start naming ⟨.empty, .ofSizes 0 0, #[]⟩
    (∃ p q, m.runFor naming 1 start = .running p ∧ m.runFor naming 2 start = .running q
        ∧ m.MayDefine naming p "b" ∧ (m.runFor naming 2 q).store.frame.Defines "b")
      ∧ ¬(m.runFor naming 4 start).store.frame.Defines "a"
      ∧ (m.runFor naming 4 start).store.ReadsNull naming.constants "a" := by
  intro m start
  have holds := (variables_are_defined_by_writes_alone (m := m) (f := naming)
    (s := ⟨.empty, .ofSizes 0 0, #[]⟩) rfl).1
  constructor
  · obtain ⟨-, anew, -⟩ := holds 1 _ rfl
    obtain ⟨-, -, stays, -⟩ := holds 2 _ rfl
    exact ⟨_, _, rfl, rfl, anew "b" (by decide) (by decide), stays 2 "b" (by decide)⟩
  · obtain ⟨-, -, -, unmentioned, -⟩ := holds 0 start rfl
    exact unmentioned 4 "a" (by decide) (by decide)

end Machine

end OverloadMachine
