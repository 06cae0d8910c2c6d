import Mathlib.Data.List.Basic
import OverloadMachine.Proofs.SharedTables

/-!
# Tables as they were registered

A builder is called again and again: an opcode is given a handler, or its handler is taken
away. A call for an opcode that is no operator is refused. What the table holds in the end is
what the last accepted call for each opcode left there, and nothing else of the calls shows.
Such a table may be laid out as one slot for each byte: what is found in the slots, how many
are taken and which opcodes they belong to is the same.
-/

namespace OverloadMachine

variable {α σ τ : Type}

/-! ## Calls -/

/-- A call of a builder. -/
inductive BuilderCall (α : Type) where
  /-- Give an opcode a handler, or none. -/
  | register (op : Opcode) (handler : Option α)
  /-- Give an opcode a handler. -/
  | set (op : Opcode) (handler : α)
  /-- Take the handler of an opcode away. -/
  | clear (op : Opcode)

namespace BuilderCall

/-- The opcode that a call is for. -/
def opcode : BuilderCall α → Opcode
  | register op _ | set op _ | clear op => op

/-- What a call leaves for its opcode: a handler, or none. -/
def handler? : BuilderCall α → Option α
  | register _ handler => handler
  | set _ handler => some handler
  | clear _ => none

/-- Whether a call is for an operator. -/
def accepted (call : BuilderCall α) : Bool := call.opcode.category?.isSome

/-- What a call is answered. -/
def answer (call : BuilderCall α) : Except RegistrationError Unit :=
  if call.accepted then .ok () else .error (.notOperator call.opcode)

/-- Make calls on what takes registrations, one after the other. -/
def performAll (register : σ → Opcode → Option α → Except RegistrationError Unit × σ) (s : σ) :
    List (BuilderCall α) → List (Except RegistrationError Unit) × σ
  | [] => ([], s)
  | call :: rest =>
    let made := register s call.opcode call.handler?
    let later := performAll register made.2 rest
    (made.1 :: later.1, later.2)

/-- What takes registrations in two forms that agree on each of them agrees on all calls. -/
theorem performAll_map {register : σ → Opcode → Option α → Except RegistrationError Unit × σ}
    {register' : τ → Opcode → Option α → Except RegistrationError Unit × τ} (form : σ → τ)
    (agrees : ∀ s op handler, register' (form s) op handler
      = ((register s op handler).1, form (register s op handler).2))
    (s : σ) (calls : List (BuilderCall α)) :
    performAll register' (form s) calls
      = ((performAll register s calls).1, form (performAll register s calls).2) := by
  induction calls generalizing s with
  | nil => rfl
  | cons call rest ih => simp only [performAll, agrees, ih]

/-! ## The last accepted call -/

/-- Whether a call leaves something for an opcode. -/
def settles (call : BuilderCall α) (op : Opcode) : Bool := call.accepted && call.opcode == op

/-- The last accepted call for an opcode. -/
def last? (calls : List (BuilderCall α)) (op : Opcode) : Option (BuilderCall α) :=
  (calls.filter (·.settles op)).getLast?

/-- What the last accepted call for an opcode leaves there; there is no handler if there was no
such call. -/
def lastHandler (calls : List (BuilderCall α)) (op : Opcode) : Option α :=
  (last? calls op).bind handler?

theorem last?_append (calls more : List (BuilderCall α)) (op : Opcode) :
    last? (calls ++ more) op = (last? more op).or (last? calls op) := by
  rw [last?, List.filter_append, List.getLast?_append]
  rfl

theorem last?_cons (call : BuilderCall α) (rest : List (BuilderCall α)) (op : Opcode) :
    last? (call :: rest) op
      = (last? rest op).or (if call.settles op then some call else none) := by
  rw [← List.singleton_append, last?_append]
  cases settles : call.settles op <;> simp [last?, settles]

/-- The last accepted call for an opcode is a call for it, and it is an operator. -/
theorem settles_of_last? {calls : List (BuilderCall α)} {op : Opcode} {call : BuilderCall α}
    (last : last? calls op = some call) : call ∈ calls ∧ call.settles op :=
  List.mem_filter.mp (List.mem_of_getLast? last)

/-- Where no call is for an opcode, none of them leaves something there. -/
theorem last?_of_forall_ne {calls : List (BuilderCall α)} {op : Opcode}
    (others : ∀ call ∈ calls, call.opcode ≠ op) : last? calls op = none := by
  rw [last?, List.getLast?_eq_none_iff, List.filter_eq_nil_iff]
  exact fun call mem settles => others call mem (eq_of_beq (Bool.and_eq_true_iff.mp settles).2)

/-- Calls for an opcode leave nothing for others. -/
theorem last?_filter (calls : List (BuilderCall α)) {op o : Opcode} (other : o ≠ op) :
    last? (calls.filter fun call => call.opcode != op) o = last? calls o := by
  rw [last?, last?, List.filter_filter]
  refine congrArg List.getLast? (List.filter_congr fun call _ => ?_)
  by_cases eq : call.opcode = o
  · simp [settles, eq, other]
  · simp [settles, eq]

/-- A handler that was taken away is gone, whatever was registered before. -/
theorem lastHandler_clear (calls : List (BuilderCall α)) {after : List (BuilderCall α)}
    {op : Opcode} (others : ∀ call ∈ after, call.opcode ≠ op) :
    lastHandler (calls ++ .clear op :: after) op = none := by
  rw [lastHandler, last?_append, last?_cons, last?_of_forall_ne others, Option.none_or]
  split
  · rfl
  -- If clearing is refused, then so was all that was asked for this opcode before.
  · rename_i refused
    cases last : last? calls op with
    | none => rfl
    | some call =>
      obtain ⟨accepted, same⟩ := Bool.and_eq_true_iff.mp (settles_of_last? last).2
      rw [BuilderCall.accepted, eq_of_beq same] at accepted
      exact absurd (Bool.and_eq_true_iff.mpr ⟨accepted, beq_self_eq_true op⟩) refused

end BuilderCall

/-! ## The table that calls leave -/

namespace Registrations

/-- What is found after a registration. -/
theorem last_register (r : Registrations α) (call : BuilderCall α) (op : Opcode) :
    (r.register call.opcode call.handler?).2.last op
      = if call.settles op then call.handler? else r.last op := by
  unfold register
  split
  · rename_i accepted
    have settles : call.settles op = (call.opcode == op) := by
      rw [BuilderCall.settles, BuilderCall.accepted, accepted, Bool.true_and]
    rw [settles, last, accept, List.find?_cons]
    cases call.opcode == op <;> rfl
  · rename_i refused
    have settles : call.settles op = false := by
      rw [BuilderCall.settles, BuilderCall.accepted, eq_false_of_ne_true refused, Bool.false_and]
    rw [settles]
    rfl

/-- Every call is answered by what its opcode is. -/
theorem performAll_answers (r : Registrations α) (calls : List (BuilderCall α)) :
    (BuilderCall.performAll register r calls).1 = calls.map BuilderCall.answer := by
  induction calls generalizing r with
  | nil => rfl
  | cons call rest ih =>
    have first : (r.register call.opcode call.handler?).1 = call.answer := by
      unfold register BuilderCall.answer BuilderCall.accepted
      split <;> rfl
    rw [BuilderCall.performAll, List.map_cons, ih, first]

/-- After calls the last accepted one for an opcode decides what is found, and without one it is
what was there before. -/
theorem last_performAll (r : Registrations α) (calls : List (BuilderCall α)) (op : Opcode) :
    (BuilderCall.performAll register r calls).2.last op
      = match BuilderCall.last? calls op with
        | some call => call.handler?
        | Option.none => r.last op := by
  induction calls generalizing r with
  | nil => rfl
  | cons call rest ih =>
    rw [BuilderCall.performAll, ih, r.last_register, BuilderCall.last?_cons]
    cases BuilderCall.last? rest op with
    | some later => rfl
    | none => cases call.settles op <;> rfl

end Registrations

namespace DispatchTable

/-- The table that calls leave of the empty one. -/
def ofCalls (calls : List (BuilderCall α)) : DispatchTable α :=
  (BuilderCall.performAll Builder.register .empty calls).2.freeze

/-- A builder makes the calls that are accepted. -/
theorem performAll_empty (calls : List (BuilderCall α)) :
    BuilderCall.performAll Builder.register .empty calls
      = (calls.map BuilderCall.answer,
        ⟨(BuilderCall.performAll Registrations.register .none calls).2.table⟩) := by
  have empty : (.empty : Builder α) = ⟨Registrations.none.table⟩ :=
    congrArg Builder.mk (ext_lookup fun op => rfl)
  have same : BuilderCall.performAll Builder.register _ calls = _ :=
    BuilderCall.performAll_map (fun r : Registrations α => (⟨r.table⟩ : Builder α))
      Registrations.register_table .none calls
  rw [empty, same, Registrations.performAll_answers]

/-- What is found in the end is what the last accepted call left. -/
theorem lookup_ofCalls (calls : List (BuilderCall α)) (op : Opcode) :
    (ofCalls calls).lookup op = BuilderCall.lastHandler calls op := by
  rw [ofCalls, performAll_empty, BuilderCall.lastHandler]
  refine (Registrations.last_performAll .none calls op).trans ?_
  cases BuilderCall.last? calls op <;> rfl

/-- Where the last accepted call for an opcode took its handler away, the table is as if there
had been no call for it. -/
theorem ofCalls_filter {calls : List (BuilderCall α)} {op : Opcode}
    (gone : BuilderCall.lastHandler calls op = none) :
    ofCalls (calls.filter fun call => call.opcode != op) = ofCalls calls := by
  refine ext_lookup fun o => ?_
  rw [lookup_ofCalls, lookup_ofCalls]
  by_cases same : o = op
  · have none : BuilderCall.last? (calls.filter fun call => call.opcode != op) op = Option.none :=
      BuilderCall.last?_of_forall_ne fun call mem => bne_iff_ne.mp (List.mem_filter.mp mem).2
    rw [same, gone, BuilderCall.lastHandler, none]
    rfl
  · rw [BuilderCall.lastHandler, BuilderCall.last?_filter calls same, BuilderCall.lastHandler]

/-- A handler that is taken away in the end leaves no trace: the table is as if there had been
no call for its opcode. -/
theorem ofCalls_clear (calls : List (BuilderCall α)) {after : List (BuilderCall α)} {op : Opcode}
    (others : ∀ call ∈ after, call.opcode ≠ op) :
    ofCalls (calls ++ .clear op :: after)
      = ofCalls ((calls ++ after).filter fun call => call.opcode != op) := by
  have clears : ((.clear op : BuilderCall α).opcode != op) = false := bne_self_eq_false op
  have rest : (calls ++ .clear op :: after).filter (fun call => call.opcode != op)
      = (calls ++ after).filter fun call => call.opcode != op := by
    rw [List.filter_append, List.filter_append, List.filter_cons, clears]
    rfl
  rw [← ofCalls_filter (BuilderCall.lastHandler_clear calls others), rest]

/-- The opcodes of a table are those with a handler. -/
theorem mem_opcodes (t : DispatchTable α) (op : Opcode) :
    op ∈ t.opcodes ↔ (t.lookup op).isSome := by
  rw [opcodes, List.mem_filter, and_iff_right op.mem_all]
  rfl

/-- They are listed in the order of their bytes, each of them once. -/
theorem pairwise_opcodes (t : DispatchTable α) :
    t.opcodes.Pairwise fun a b => a.byte < b.byte := by
  have all : Opcode.all.Pairwise fun a b => a.byte < b.byte := by decide
  exact all.filter _

end DispatchTable

/-! ## Slots -/

/-- A table that is laid out as one slot for each byte. -/
structure SlotTable (α : Type) where
  slots : Vector (Option α) 256

namespace SlotTable

/-- Every opcode has a slot. -/
theorem byte_lt (op : Opcode) : op.byte < 256 := by
  have key : ∀ x ∈ Opcode.all, x.byte < 256 := by decide
  exact key op op.mem_all

/-- All slots are free. -/
def empty : SlotTable α := ⟨Vector.replicate 256 none⟩

/-- Give an opcode a handler, or none; an opcode that is no operator is refused. -/
def register (t : SlotTable α) (op : Opcode) (handler : Option α) :
    Except RegistrationError Unit × SlotTable α :=
  if op.category?.isSome then (.ok (), ⟨t.slots.set op.byte handler (byte_lt op)⟩)
  else (.error (.notOperator op), t)

/-- What is in the slot of an opcode. -/
def lookup (t : SlotTable α) (op : Opcode) : Option α :=
  have := byte_lt op
  t.slots[op.byte]

/-- Number of slots that are taken. -/
def size (t : SlotTable α) : Nat := t.slots.toList.countP Option.isSome

/-- The opcodes of the slots that are taken, as far as their bytes encode one. -/
def opcodes (t : SlotTable α) : List Opcode :=
  (t.slots.toList.zipIdx.filter fun e => e.1.isSome).filterMap fun e => Opcode.ofByte? e.2

end SlotTable

namespace DispatchTable

/-- What is found for the opcode of a byte. -/
def atByte (t : DispatchTable α) (byte : Nat) : Option α := (Opcode.ofByte? byte).bind t.lookup

/-- A table laid out as slots. -/
def laidOut (t : DispatchTable α) : SlotTable α := ⟨Vector.ofFn fun byte => t.atByte byte⟩

/-- An opcode is found in its own slot. -/
theorem atByte_byte (t : DispatchTable α) (op : Opcode) : t.atByte op.byte = t.lookup op := by
  rw [atByte, Opcode.ofByte?_byte, Option.bind_some]

/-- The byte that an opcode is read from is the opcode's. -/
theorem byte_of_ofByte? {byte : Nat} {op : Opcode} (read : Opcode.ofByte? byte = some op) :
    op.byte = byte :=
  eq_of_beq (List.find?_some (p := fun op : Opcode => op.byte == byte) read)

/-- A registration changes the slot of its opcode alone. -/
theorem atByte_set (t : DispatchTable α) {op : Opcode} (h : op.category?.isSome)
    (handler : Option α) (byte : Nat) :
    (t.set op h handler).atByte byte = if op.byte = byte then handler else t.atByte byte := by
  by_cases same : op.byte = byte
  · rw [if_pos same, ← same, atByte_byte, lookup_set, if_pos rfl]
  · rw [if_neg same, atByte, atByte]
    cases read : Opcode.ofByte? byte with
    | none => rfl
    | some o =>
      have other : o ≠ op := fun eq => same (eq ▸ byte_of_ofByte? read)
      rw [Option.bind_some, Option.bind_some, lookup_set, if_neg other]

theorem laidOut_empty : (empty : DispatchTable α).laidOut = .empty := by
  refine congrArg SlotTable.mk (Vector.ext fun byte lt => ?_)
  rw [Vector.getElem_ofFn, Vector.getElem_replicate, atByte]
  cases Opcode.ofByte? byte <;> rfl

/-- Registrations in slots are those of the table. -/
theorem register_laidOut (b : Builder α) (op : Opcode) (handler : Option α) :
    b.table.laidOut.register op handler
      = ((b.register op handler).1, (b.register op handler).2.table.laidOut) := by
  unfold SlotTable.register Builder.register
  split
  · refine congrArg (fun slots => (_, SlotTable.mk slots)) (Vector.ext fun byte lt => ?_)
    rw [Vector.getElem_set, laidOut, Vector.getElem_ofFn, Vector.getElem_ofFn, atByte_set]
  · rfl

/-- The slots, in the order of the bytes. -/
theorem toList_laidOut (t : DispatchTable α) :
    t.laidOut.slots.toList = (List.range 256).map t.atByte := by
  exact List.ext_getElem (by simp) fun byte _ _ => by simp [laidOut]

theorem lookup_laidOut (t : DispatchTable α) (op : Opcode) :
    t.laidOut.lookup op = t.lookup op := by
  have lt := SlotTable.byte_lt op
  rw [SlotTable.lookup, laidOut, Vector.getElem_ofFn, atByte_byte]

/-- The bytes that encode an opcode, in their order, encode every opcode. -/
theorem filterMap_ofByte? : (List.range 256).filterMap Opcode.ofByte? = Opcode.all := by
  decide +kernel

/-- The opcodes with a handler are those of the bytes whose slots are taken. -/
theorem opcodes_eq_filterMap (t : DispatchTable α) :
    t.opcodes = ((List.range 256).filter fun byte => (t.atByte byte).isSome).filterMap
      Opcode.ofByte? := by
  rw [opcodes, ← filterMap_ofByte?, List.filter_filterMap, List.filterMap_filter]
  refine List.filterMap_congr fun byte _ => ?_
  rw [atByte]
  cases read : Opcode.ofByte? byte with
  | none => simp
  | some op =>
    rw [Option.filter_some]
    rfl

/-- The slots and their bytes. -/
theorem zipIdx_laidOut (t : DispatchTable α) :
    t.laidOut.slots.toList.zipIdx = (List.range 256).map fun byte => (t.atByte byte, byte) := by
  rw [toList_laidOut]
  exact List.ext_getElem (by simp) fun byte _ _ => by simp

/-- The taken slots are those of the opcodes with a handler. -/
theorem opcodes_laidOut (t : DispatchTable α) : t.laidOut.opcodes = t.opcodes := by
  rw [SlotTable.opcodes, zipIdx_laidOut, List.filter_map, List.filterMap_map,
    opcodes_eq_filterMap]
  rfl

/-- As many slots are taken as there are opcodes with a handler: no slot is taken whose byte
encodes no opcode. -/
theorem size_laidOut (t : DispatchTable α) : t.laidOut.size = t.opcodes.length := by
  rw [SlotTable.size, toList_laidOut, List.countP_map, opcodes_eq_filterMap,
    List.length_filterMap_eq_countP, List.countP_filter]
  refine List.countP_congr fun byte _ => ?_
  rw [Function.comp, atByte]
  cases Opcode.ofByte? byte <;> simp

/-- Calls on slots are answered and kept as those on a builder. -/
theorem performAll_slots (calls : List (BuilderCall α)) :
    BuilderCall.performAll SlotTable.register .empty calls
      = (calls.map BuilderCall.answer, (ofCalls calls).laidOut) := by
  have same : BuilderCall.performAll SlotTable.register _ calls = _ :=
    BuilderCall.performAll_map (fun b : Builder α => b.table.laidOut) register_laidOut .empty calls
  have empty : (Builder.empty : Builder α).table.laidOut = .empty := laidOut_empty
  rw [← empty, same, ofCalls, performAll_empty]
  rfl

/-- Whatever calls are made on a new builder, a call for what is no operator is refused and
changes nothing, and the table, under construction and frozen, holds for each opcode what the
last accepted call for it left. The opcodes with a handler are operators; they are listed in
the order of their bytes, each of them once, and their number is the size of the table. In a
table of one slot for each byte the same is found, listed and counted. A handler that is taken
away in the end leaves no trace: every function runs as if there had been no call for its
opcode. -/
theorem table_holds_the_last_accepted_calls (calls : List (BuilderCall Handler)) :
    let made := BuilderCall.performAll Builder.register .empty calls
    let t := made.2.freeze
    let laid := BuilderCall.performAll SlotTable.register .empty calls
    (∀ (b : Builder Handler) (call : BuilderCall Handler), call.accepted = false →
        b.register call.opcode call.handler? = (.error (.notOperator call.opcode), b))
      ∧ made.1 = calls.map BuilderCall.answer
      ∧ (∀ op, made.2.table.lookup op = BuilderCall.lastHandler calls op
        ∧ t.lookup op = BuilderCall.lastHandler calls op
        ∧ t.contains op = (BuilderCall.lastHandler calls op).isSome)
      ∧ (∀ op, op.category? = none → t.lookup op = none)
      ∧ (∀ op, op ∈ t.opcodes ↔ (t.lookup op).isSome)
      ∧ (t.opcodes.Pairwise fun a b => a.byte < b.byte)
      ∧ t.size = t.opcodes.length
      ∧ (laid.1 = made.1 ∧ (∀ op, laid.2.lookup op = t.lookup op)
        ∧ laid.2.opcodes = t.opcodes ∧ laid.2.size = t.size)
      ∧ ∀ (op : Opcode) (after : List (BuilderCall Handler)),
        (∀ call ∈ after, call.opcode ≠ op) →
        let cleared := ofCalls (calls ++ .clear op :: after)
        let never := ofCalls ((calls ++ after).filter fun call => call.opcode != op)
        cleared.lookup op = none
          ∧ ∀ (options : Options) (f : Function) (s : Store),
            (Machine.ofTable options cleared).executeIn f s
                = (Machine.ofTable options never).executeIn f s
              ∧ (Machine.ofTable options cleared).execute f s
                = (Machine.ofTable options never).execute f s := by
  intro made t laid
  have left : ∀ op, t.lookup op = BuilderCall.lastHandler calls op := lookup_ofCalls calls
  have slots : laid = (calls.map BuilderCall.answer, t.laidOut) := performAll_slots calls
  have answers : made.1 = calls.map BuilderCall.answer :=
    congrArg Prod.fst (performAll_empty calls)
  refine ⟨fun b call refused => ?_, answers,
    fun op => ⟨left op, left op, congrArg Option.isSome (left op)⟩, fun op none => ?_,
    t.mem_opcodes, t.pairwise_opcodes, rfl, ?_, fun op after others => ?_⟩
  · have no : ¬call.opcode.category?.isSome := ne_true_of_eq_false refused
    rw [Builder.register, dif_neg no]
  · refine Option.not_isSome_iff_eq_none.mp fun some => ?_
    have operator := t.operators op some
    rw [none] at operator
    cases operator
  · rw [slots, answers]
    exact ⟨rfl, t.lookup_laidOut, t.opcodes_laidOut, t.size_laidOut⟩
  · intro cleared never
    have gone : cleared.lookup op = none :=
      (lookup_ofCalls _ op).trans (BuilderCall.lastHandler_clear calls others)
    have same : cleared = never := ofCalls_clear calls others
    refine ⟨gone, fun options f s => ?_⟩
    rw [same]
    exact ⟨rfl, rfl⟩

/-- Calls for two operators, and one that is refused. -/
def engaging : List (BuilderCall Handler) := [
  .set (.compound .sub) (.answer .handled), .register .jmp (some (.answer .handled)),
  .register (.step .pre .up) (some (.answer .declined))]

/-- Takes a variable from itself. -/
def canceling : Function where
  name := "canceling"
  code := #[⟨.compound .sub, .var 0, .var 0, .unused, 0⟩, ⟨.ret, .var 0, .unused, .unused, 0⟩]
  constants := #[]
  temporaries := 0
  variableNames := #["a"]

/-- A store in which the variable is seven. -/
def seven : Store where
  heap := .empty
  frame := { Frame.ofSizes 0 0 with vars := #[.int 7] }
  notes := #[]

/-- With its handler taken away again the operator is the built-in one, although the handler of
the other operator stays. -/
theorem table_holds_the_last_accepted_calls_engaging :
    let cleared := ofCalls (engaging ++ [.clear (.compound .sub), .clear .jmp])
    (ofCalls engaging).opcodes = [.compound .sub, .step .pre .up]
      ∧ (∀ call ∈ [(.clear .jmp : BuilderCall Handler)], call.opcode ≠ .compound .sub)
      ∧ cleared.lookup (.compound .sub) = none
      ∧ ((Machine.ofTable .standard (ofCalls engaging)).executeIn canceling seven).1
        = .returned (.int 7)
      ∧ ((Machine.ofTable .standard cleared).executeIn canceling seven).1
        = .returned (.int 0) := by
  intro cleared
  have others : ∀ call ∈ [(.clear .jmp : BuilderCall Handler)],
      call.opcode ≠ .compound .sub := by decide
  obtain ⟨gone, runs⟩ := (table_holds_the_last_accepted_calls engaging).2.2.2.2.2.2.2.2
    (.compound .sub) [.clear .jmp] others
  refine ⟨rfl, others, gone, rfl, ?_⟩
  rw [(runs .standard canceling seven).1]
  rfl

end DispatchTable

end OverloadMachine
