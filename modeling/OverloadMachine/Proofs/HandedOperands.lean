import Mathlib
import OverloadMachine.Proofs.Counterparts

/-!
# Operands that a writer hands out

Calls of a writer come in any order, and each unary minus or plus in a negation order of its
own. No call takes back what an earlier one has added: constants, temporaries and variables
stay where they are, and an instruction changes in its target alone. So what a call hands out
still stands in the finished function for what the call asked for, temporaries are never handed
out twice, and a variable is found under its name. The indices fit 32 bits as long as there are
fewer calls than that.
-/

namespace OverloadMachine

/-- The position that a descriptor names fits 32 bits. -/
def Operand.FitsWord : Operand → Prop
  | .unused => True
  | .const i | .temp i | .var i | .dynamic i => i < UInt32.size

/-! ## Functions that grow -/

namespace Function

/-- A function has all of another one: its constants and its variables where they were, its
temporaries, and its instructions, possibly with other targets. -/
structure Extends (f base : Function) : Prop where
  constants : ∀ {i : Nat} {v : Value}, base.constants[i]? = some v → f.constants[i]? = some v
  temporaries : base.temporaries ≤ f.temporaries
  slots : ∀ {name : String} {i : Nat}, base.slot? name = some i → f.slot? name = some i
  code : ∀ {pc : Nat} {instr : Instruction}, base.code[pc]? = some instr →
    ∃ target, f.code[pc]? = some { instr with target := target }

namespace Extends

variable {f g h : Function}

theorem refl (f : Function) : f.Extends f :=
  ⟨id, Nat.le_refl _, id, fun {_ instr} found => ⟨instr.target, found⟩⟩

theorem trans (later : h.Extends g) (earlier : g.Extends f) : h.Extends f where
  constants found := later.constants (earlier.constants found)
  temporaries := Nat.le_trans earlier.temporaries later.temporaries
  slots found := later.slots (earlier.slots found)
  code found := by
    obtain ⟨_, found⟩ := earlier.code found
    obtain ⟨target, found⟩ := later.code found
    exact ⟨target, found⟩

end Extends

variable (f : Function)

theorem extends_constant (v : Value) :
    Extends { f with constants := f.constants.push v } f where
  constants {i _} found := by
    have older : i < f.constants.size := (Array.getElem?_eq_some_iff.mp found).1
    rw [Array.getElem?_push, if_neg (Nat.ne_of_lt older), found]
  temporaries := Nat.le_refl _
  slots := id
  code {_ instr} found := ⟨instr.target, found⟩

theorem extends_temporary : Extends { f with temporaries := f.temporaries + 1 } f :=
  ⟨id, Nat.le_succ _, id, fun {_ instr} found => ⟨instr.target, found⟩⟩

/-- A new variable is found under its name unless an older one has that name. -/
theorem slot?_variable (name other : String) :
    slot? { f with variableNames := f.variableNames.push other } name
      = (f.slot? name).or (if other == name then some f.variableNames.size else none) :=
  Array.findIdx?_push

/-- What is found under a name has that name. -/
theorem name_of_slot? {f : Function} {name : String} {i : Nat} (found : f.slot? name = some i) :
    f.variableNames[i]? = some name := by
  obtain ⟨inside, same, -⟩ := Array.findIdx?_eq_some_iff_getElem.mp found
  rw [Array.getElem?_eq_getElem inside, eq_of_beq same]

/-- A new variable is found under its own name. -/
theorem slot?_variable_self {f : Function} {name : String} (new : f.slot? name = none) :
    slot? { f with variableNames := f.variableNames.push name } name
      = some f.variableNames.size := by
  rw [slot?_variable, new, Option.none_or, if_pos (beq_self_eq_true name)]

theorem extends_variable (name : String) :
    Extends { f with variableNames := f.variableNames.push name } f where
  constants := id
  temporaries := Nat.le_refl _
  slots found := by rw [slot?_variable, found, Option.some_or]
  code {_ instr} found := ⟨instr.target, found⟩

theorem extends_push (instr : Instruction) : Extends { f with code := f.code.push instr } f where
  constants := id
  temporaries := Nat.le_refl _
  slots := id
  code {pc instr} found := by
    have older : pc < f.code.size := (Array.getElem?_eq_some_iff.mp found).1
    exact ⟨instr.target, by rw [Array.getElem?_push, if_neg (Nat.ne_of_lt older), found]⟩

theorem extends_patch (pos : Nat) (target : UInt32) :
    Extends { f with code := f.code.modify pos fun instr => { instr with target := target } }
      f where
  constants := id
  temporaries := Nat.le_refl _
  slots := id
  code {pc instr} found := by
    rw [Array.getElem?_modify]
    by_cases here : pos = pc
    · exact ⟨target, by rw [if_pos here, found, Option.map_some]⟩
    · exact ⟨instr.target, by rw [if_neg here, found]⟩

/-- Number of entries in the tables of a function. -/
def entries : Nat := f.constants.size + f.temporaries + f.variableNames.size

theorem entries_constant (v : Value) :
    entries { f with constants := f.constants.push v } = f.entries + 1 := by
  simp only [entries, Array.size_push]
  omega

theorem entries_temporary :
    entries { f with temporaries := f.temporaries + 1 } = f.entries + 1 := by
  simp only [entries]
  omega

theorem entries_variable (name : String) :
    entries { f with variableNames := f.variableNames.push name } = f.entries + 1 := by
  simp only [entries, Array.size_push]
  omega

/-- What a function has fits 32 bits if its tables do. -/
theorem fitsWord_of_within {f : Function} (few : f.entries < UInt32.size) {o : Operand}
    (inside : o.Within f) : o.FitsWord := by
  unfold entries at few
  have constants : f.constants.size < UInt32.size := by omega
  have temporaries : f.temporaries < UInt32.size := by omega
  have names : f.variableNames.size < UInt32.size := by omega
  cases o with
  | unused => trivial
  | const i => exact Nat.lt_trans inside constants
  | temp i => exact Nat.lt_trans inside temporaries
  | var i => exact Nat.lt_trans inside names
  | dynamic i =>
    obtain ⟨name, there⟩ := inside
    exact Nat.lt_trans (Array.getElem?_eq_some_iff.mp there).1 constants

end Function

/-- A sign that is recognised stays so with more constants, whatever the target. -/
theorem Function.Extends.sign? {f base : Function} (grown : f.Extends base)
    {order : NegationOrder} {instr : Instruction} {sign : Sign}
    (found : order.sign? base.constants instr = some sign) (target : UInt32) :
    order.sign? f.constants { instr with target := target } = some sign := by
  unfold NegationOrder.sign? at found ⊢
  split at found
  next product =>
    rw [if_pos product]
    have side : order.valueSide.other.select { instr with target := target }
        = order.valueSide.other.select instr := by cases order <;> rfl
    rw [side]
    split at found
    next i _ =>
      obtain ⟨v, there, factor⟩ := Option.bind_eq_some_iff.mp found
      exact Option.bind_eq_some_iff.mpr ⟨v, grown.constants there, factor⟩
    next => cases found
  next => cases found

namespace Writer

/-! ## Calls in their own orders -/

/-- A call that was made: the negation order, the call, and what it handed out. -/
structure Deal where
  order : NegationOrder
  call : Call
  handed : Handed

/-- Make calls one after the other, each in a negation order of its own. -/
def performEach (w : Writer) : List (NegationOrder × Call) → List Deal × Writer
  | [] => ([], w)
  | (order, call) :: rest =>
    let made := w.perform order call
    let later := made.2.performEach rest
    (⟨order, call, made.1⟩ :: later.1, later.2)

/-- What a call handed out stands in a function for what the call asked for: a constant has the
value, a temporary exists, a variable is found under the name, a dynamic variable has the name,
and a unary minus or plus is recognised in the order that it was written in, with its operand
and its result. Other calls hand out no operand. -/
def Deal.Honoured (f : Function) (d : Deal) : Prop :=
  match d.call with
  | .constant v => ∃ i, d.handed = .operand (.const i) ∧ f.constants[i]? = some v
  | .temporary => ∃ i, d.handed = .operand (.temp i) ∧ i < f.temporaries
  | .named name => ∃ i, d.handed = .operand (.var i)
    ∧ f.variableNames[i]? = some name ∧ f.slot? name = some i
  | .dynamic name => ∃ i, d.handed = .operand (.dynamic i) ∧ f.constants[i]? = some (.str name)
  | .sign sign value result => ∃ pos instr, d.handed = .position pos
    ∧ f.code[pos]? = some instr ∧ instr.opcode = .arithmetic .mul ∧ instr.result = result
    ∧ d.order.sign? f.constants instr = some sign ∧ d.order.valueSide.select instr = value
  | _ => ∀ o, d.handed ≠ .operand o

namespace Deal.Honoured

variable {f base : Function} {d e : Deal}

/-- What stands for something in a function still does in one that has all of it. -/
theorem extend (grown : f.Extends base) (honoured : d.Honoured base) : d.Honoured f := by
  obtain ⟨order, call, handed⟩ := d
  cases call with
  | constant v | dynamic name =>
    obtain ⟨i, out, there⟩ := honoured
    exact ⟨i, out, grown.constants there⟩
  | temporary =>
    obtain ⟨i, out, inside⟩ := honoured
    exact ⟨i, out, Nat.lt_of_lt_of_le inside grown.temporaries⟩
  | named name =>
    obtain ⟨i, out, -, found⟩ := honoured
    have found := grown.slots found
    exact ⟨i, out, Function.name_of_slot? found, found⟩
  | sign sign value result =>
    obtain ⟨pos, instr, out, there, product, writes, recognised, select⟩ := honoured
    obtain ⟨target, there⟩ := grown.code there
    refine ⟨pos, _, out, there, product, writes, grown.sign? recognised target, ?_⟩
    rw [← select]
    cases order <;> rfl
  | _ => exact honoured

/-- An operand that stands for something is there. -/
theorem within (honoured : d.Honoured f) {o : Operand} (out : d.handed = .operand o) :
    o.Within f := by
  obtain ⟨order, call, handed⟩ := d
  subst out
  cases call with
  | constant v =>
    obtain ⟨i, ⟨⟩, there⟩ := honoured
    exact (Array.getElem?_eq_some_iff.mp there).1
  | temporary =>
    obtain ⟨i, ⟨⟩, inside⟩ := honoured
    exact inside
  | named name =>
    obtain ⟨i, ⟨⟩, there, -⟩ := honoured
    exact (Array.getElem?_eq_some_iff.mp there).1
  | dynamic name =>
    obtain ⟨i, ⟨⟩, there⟩ := honoured
    exact ⟨name, there⟩
  | sign sign value result =>
    obtain ⟨_, _, out, -⟩ := honoured
    cases out
  | _ => exact absurd rfl (honoured o)

/-- Two variables are one exactly if they have one name. -/
theorem handed_eq_iff (one : d.Honoured f) (two : e.Honoured f) {name other : String}
    (first : d.call = .named name) (second : e.call = .named other) :
    d.handed = e.handed ↔ name = other := by
  rw [Honoured, first] at one
  rw [Honoured, second] at two
  obtain ⟨i, out, there, found⟩ := one
  obtain ⟨j, outs, also, finds⟩ := two
  rw [out, outs]
  constructor
  · rintro ⟨⟩
    exact Option.some.inj (there.symm.trans also)
  · rintro rfl
    rw [Option.some.inj (found.symm.trans finds)]

end Deal.Honoured

/-! ## One call -/

variable {w : Writer} {order : NegationOrder}

/-- A variable that is found under its name is handed out again. -/
theorem perform_named_of_found {name : String} {i : Nat}
    (found : w.function.slot? name = some i) :
    w.perform order (.named name) = (.operand (.var i), w) := by
  rw [perform, named, found]
  rfl

/-- A variable that is not found is added. -/
theorem perform_named_of_new {name : String} (new : w.function.slot? name = none) :
    w.perform order (.named name)
      = (.operand (.var w.function.variableNames.size),
        ⟨{ w.function with variableNames := w.function.variableNames.push name }⟩) := by
  rw [perform, named, new]
  rfl

/-- The product for a sign is recognised in the order that it is written in. -/
theorem honoured_emitSign (w : Writer) (order : NegationOrder) (sign : Sign)
    (value result : Operand) :
    Deal.Honoured (w.emitSign sign value result order).2.function
      ⟨order, .sign sign value result, .position w.position⟩ := by
  have factor : (w.function.constants.push sign.factor)[w.function.constants.size]?
      = some sign.factor := Array.getElem?_push_size
  have recognised := Option.bind_eq_some_iff.mpr ⟨sign.factor, factor, sign.ofFactor?_factor⟩
  cases order <;>
    exact ⟨w.position, _, rfl, Array.getElem?_push_size, rfl, rfl, recognised, rfl⟩

/-- What a call hands out stands for what it asked for at once. -/
theorem honoured_perform (w : Writer) (order : NegationOrder) (call : Call) :
    Deal.Honoured (w.perform order call).2.function ⟨order, call, (w.perform order call).1⟩ := by
  cases call with
  | constant v => exact ⟨_, rfl, Array.getElem?_push_size⟩
  | temporary => exact ⟨_, rfl, Nat.lt_succ_self _⟩
  | dynamic name => exact ⟨_, rfl, Array.getElem?_push_size⟩
  | named name =>
    cases found : w.function.slot? name with
    | some i =>
      rw [perform_named_of_found found]
      exact ⟨i, rfl, Function.name_of_slot? found, found⟩
    | none =>
      rw [perform_named_of_new found]
      exact ⟨_, rfl, Array.getElem?_push_size, Function.slot?_variable_self found⟩
  | sign sign value result => exact w.honoured_emitSign order sign value result
  | _ => nofun

/-- No call takes back what was written before it. -/
theorem extends_perform (w : Writer) (order : NegationOrder) (call : Call) :
    (w.perform order call).2.function.Extends w.function := by
  cases call with
  | constant v => exact w.function.extends_constant v
  | temporary => exact w.function.extends_temporary
  | dynamic name => exact w.function.extends_constant (.str name)
  | named name =>
    cases found : w.function.slot? name with
    | some i =>
      rw [perform_named_of_found found]
      exact .refl _
    | none =>
      rw [perform_named_of_new found]
      exact w.function.extends_variable name
  | sign sign value result =>
    exact (Function.extends_push _ _).trans (w.function.extends_constant sign.factor)
  | setField target key value => exact (Function.extends_push _ _).trans (w.function.extends_push _)
  | push _ | emit _ _ _ _ | ret _ | jump _ | jumpIfFalse _ _ => exact w.function.extends_push _
  | patch pos target => exact w.function.extends_patch pos _
  | position => exact .refl _

/-- A variable that is found after a call was found before it, unless the call asked for it. -/
theorem slot?_perform {call : Call} {name : String} {i : Nat}
    (found : (w.perform order call).2.function.slot? name = some i) :
    w.function.slot? name = some i
      ∨ call = .named name ∧ (w.perform order call).1 = .operand (.var i) := by
  cases call with
  | named other =>
    cases before : w.function.slot? other with
    | some j =>
      rw [perform_named_of_found before] at found
      exact .inl found
    | none =>
      rw [perform_named_of_new before] at found ⊢
      rw [Function.slot?_variable] at found
      rcases Option.or_eq_some_iff.mp found with older | ⟨-, new⟩
      · exact .inl older
      · obtain ⟨same, ⟨⟩⟩ := Option.ite_none_right_eq_some.mp new
        exact .inr ⟨congrArg Call.named (eq_of_beq same), rfl⟩
  | _ => exact .inl found

/-- A call adds one entry to the tables at most. -/
theorem entries_perform (w : Writer) (order : NegationOrder) (call : Call) :
    (w.perform order call).2.function.entries ≤ w.function.entries + 1 := by
  cases call with
  | constant v => exact Nat.le_of_eq (w.function.entries_constant v)
  | temporary => exact Nat.le_of_eq w.function.entries_temporary
  | dynamic name => exact Nat.le_of_eq (w.function.entries_constant (.str name))
  | named name =>
    cases found : w.function.slot? name with
    | some i =>
      rw [perform_named_of_found found]
      exact Nat.le_succ _
    | none =>
      rw [perform_named_of_new found]
      exact Nat.le_of_eq (w.function.entries_variable name)
  | sign sign value result => exact Nat.le_of_eq (w.function.entries_constant sign.factor)
  | _ => exact Nat.le_succ _

/-! ## Sequences of calls -/

/-- No sequence of calls takes back what was written before it. -/
theorem extends_performEach (w : Writer) (calls : List (NegationOrder × Call)) :
    (w.performEach calls).2.function.Extends w.function := by
  induction calls generalizing w with
  | nil => exact .refl _
  | cons head rest ih =>
    exact (ih (w.perform head.1 head.2).2).trans (w.extends_perform head.1 head.2)

/-- Every call of a sequence is among the calls that were made, in the order of the sequence. -/
theorem map_performEach (w : Writer) (calls : List (NegationOrder × Call)) :
    (w.performEach calls).1.map (fun d => (d.order, d.call)) = calls := by
  induction calls generalizing w with
  | nil => rfl
  | cons head rest ih => exact congrArg (head :: ·) (ih (w.perform head.1 head.2).2)

/-- In the end everything that was handed out still stands for what was asked for. -/
theorem honoured_performEach (w : Writer) (calls : List (NegationOrder × Call)) :
    ∀ d ∈ (w.performEach calls).1, d.Honoured (w.performEach calls).2.function := by
  induction calls generalizing w with
  | nil => exact fun d mem => absurd mem List.not_mem_nil
  | cons head rest ih =>
    intro d mem
    rcases List.mem_cons.mp mem with rfl | later
    · exact (w.honoured_perform head.1 head.2).extend (extends_performEach _ rest)
    · exact ih _ d later

/-- A sequence of calls adds one entry for each of them at most. -/
theorem entries_performEach (w : Writer) (calls : List (NegationOrder × Call)) :
    (w.performEach calls).2.function.entries ≤ w.function.entries + calls.length := by
  induction calls generalizing w with
  | nil => exact Nat.le_refl _
  | cons head rest ih =>
    calc ((w.performEach (head :: rest)).2.function.entries)
      _ ≤ (w.perform head.1 head.2).2.function.entries + rest.length := ih _
      _ ≤ w.function.entries + 1 + rest.length :=
        Nat.add_le_add_right (w.entries_perform head.1 head.2) _
      _ = w.function.entries + (head :: rest).length := by
        rw [List.length_cons, Nat.add_assoc, Nat.add_comm 1]

/-- Temporaries that are handed out are none of those that there were before. -/
theorem temporary_performEach (w : Writer) (calls : List (NegationOrder × Call)) :
    ∀ d ∈ (w.performEach calls).1, d.call = .temporary →
      ∃ i, d.handed = .operand (.temp i) ∧ w.function.temporaries ≤ i := by
  induction calls generalizing w with
  | nil => exact fun d mem => absurd mem List.not_mem_nil
  | cons head rest ih =>
    intro d mem asked
    rcases List.mem_cons.mp mem with rfl | later
    · have asked : head.2 = .temporary := asked
      refine ⟨w.function.temporaries, ?_, Nat.le_refl _⟩
      rw [asked]
      rfl
    · obtain ⟨i, out, fresh⟩ := ih _ d later asked
      exact ⟨i, out, Nat.le_trans (w.extends_perform head.1 head.2).temporaries fresh⟩

/-- No temporary is handed out twice. -/
theorem pairwise_performEach (w : Writer) (calls : List (NegationOrder × Call)) :
    (w.performEach calls).1.Pairwise fun d e =>
      d.call = .temporary → e.call = .temporary → d.handed ≠ e.handed := by
  induction calls generalizing w with
  | nil => exact .nil
  | cons head rest ih =>
    refine .cons (fun e later asked again same => ?_) (ih _)
    have asked : head.2 = .temporary := asked
    obtain ⟨i, out, fresh⟩ := temporary_performEach _ rest e later again
    rw [out, asked] at same
    cases same
    rw [asked] at fresh
    exact absurd fresh (Nat.not_succ_le_self _)

/-- A variable that is found after a sequence of calls was found before it, or some call asked
for it and was handed it. -/
theorem slot?_performEach {w : Writer} {calls : List (NegationOrder × Call)} {name : String}
    {i : Nat} (found : (w.performEach calls).2.function.slot? name = some i) :
    w.function.slot? name = some i
      ∨ ∃ d ∈ (w.performEach calls).1, d.call = .named name ∧ d.handed = .operand (.var i) := by
  induction calls generalizing w with
  | nil => exact .inl found
  | cons head rest ih =>
    rcases ih found with before | ⟨d, later, asked, out⟩
    · rcases slot?_perform before with older | ⟨asked, out⟩
      · exact .inl older
      · exact .inr ⟨_, List.mem_cons_self, asked, out⟩
    · exact .inr ⟨d, List.mem_cons_of_mem _ later, asked, out⟩

/-- Whatever calls of a writer follow each other, fewer than 32 bits can count, what every one
of them handed out stands in the finished function for what it asked for. In particular, an
operand that was handed out passes the check of descriptors at every position, and a unary
minus or plus is recognised in the order that it was written in. No temporary is handed out
twice. Two calls for variables are handed the same one exactly if they name the same one, and
a variable of the function is found under the names that were asked for and no others. -/
theorem handed_operands_stay_valid (title : String) (calls : List (NegationOrder × Call))
    (few : calls.length < UInt32.size) :
    let made := (start title).performEach calls
    let f := made.2.finish
    made.1.map (fun d => (d.order, d.call)) = calls
      ∧ (∀ d ∈ made.1, d.Honoured f)
      ∧ (∀ d ∈ made.1, ∀ o, d.handed = .operand o →
        o.FitsWord ∧ ∀ pc, f.checkReference pc o = .ok ())
      ∧ (made.1.Pairwise fun d e =>
        d.call = .temporary → e.call = .temporary → d.handed ≠ e.handed)
      ∧ (∀ d ∈ made.1, ∀ e ∈ made.1, ∀ name other,
        d.call = .named name → e.call = .named other → (d.handed = e.handed ↔ name = other))
      ∧ ∀ name i, f.slot? name = some i
        ↔ ∃ d ∈ made.1, d.call = .named name ∧ d.handed = .operand (.var i) := by
  intro made f
  have honoured : ∀ d ∈ made.1, d.Honoured f := honoured_performEach _ calls
  have fits : f.entries < UInt32.size := by
    have bound := entries_performEach (start title) calls
    rw [show (start title).function.entries = 0 from rfl, Nat.zero_add] at bound
    exact Nat.lt_of_le_of_lt bound few
  refine ⟨map_performEach _ calls, honoured, fun d mem o out => ?_, pairwise_performEach _ calls,
    fun d one e two name other => (honoured d one).handed_eq_iff (honoured e two),
    fun name i => ⟨fun found => ?_, ?_⟩⟩
  · have inside := (honoured d mem).within out
    exact ⟨Function.fitsWord_of_within fits inside,
      fun pc => Function.checkReference_eq_ok.mpr inside⟩
  · refine (slot?_performEach found).resolve_left fun before => ?_
    have new : (start title).function.slot? name = none := Array.findIdx?_empty
    rw [new] at before
    cases before
  · rintro ⟨d, mem, asked, out⟩
    have stands := honoured d mem
    rw [Deal.Honoured, asked] at stands
    obtain ⟨j, outs, -, found⟩ := stands
    cases outs.symm.trans out
    exact found

/-- Every kind of operand is asked for between products in both orders, one variable twice, and
the target of a product is changed afterwards. -/
def interleaving : List (NegationOrder × Call) := [
  (.valueFirst, .named "a"), (.valueFirst, .temporary),
  (.constantFirst, .sign .negate (.var 0) (.temp 0)), (.valueFirst, .dynamic "a"),
  (.valueFirst, .sign .plus (.dynamic 1) .unused), (.valueFirst, .constant (.int 7)),
  (.valueFirst, .named "b"), (.valueFirst, .named "a"), (.valueFirst, .temporary),
  (.valueFirst, .ret (.temp 1)), (.valueFirst, .patch 0 9)]

/-- The constant keeps its position behind the two factors and the name, the variable is handed
out again, and the product with a changed target is still recognised. -/
theorem handed_operands_stay_valid_interleaving :
    let f := ((start "main").performEach interleaving).2.finish
    interleaving.length < UInt32.size
      ∧ (∀ pc, f.checkReference pc (.const 3) = .ok ()) ∧ f.constants[3]? = some (.int 7)
      ∧ (∀ pc, f.checkReference pc (.dynamic 1) = .ok ()) ∧ f.slot? "a" = some 0
      ∧ ∃ instr, f.code[0]? = some instr
        ∧ NegationOrder.constantFirst.sign? f.constants instr = some .negate
        ∧ NegationOrder.constantFirst.valueSide.select instr = .var 0 := by
  intro f
  have few : interleaving.length < UInt32.size := by decide
  obtain ⟨-, honoured, checked, -, -, found⟩ := handed_operands_stay_valid "main" interleaving few
  have product : ⟨.constantFirst, .sign .negate (.var 0) (.temp 0), .position 0⟩
      ∈ ((start "main").performEach interleaving).1 := List.mem_of_getElem? (i := 2) (by cbv)
  have dynamic : ⟨.valueFirst, .dynamic "a", .operand (.dynamic 1)⟩
      ∈ ((start "main").performEach interleaving).1 := List.mem_of_getElem? (i := 3) (by cbv)
  have constant : ⟨.valueFirst, .constant (.int 7), .operand (.const 3)⟩
      ∈ ((start "main").performEach interleaving).1 := List.mem_of_getElem? (i := 5) (by cbv)
  have again : ⟨.valueFirst, .named "a", .operand (.var 0)⟩
      ∈ ((start "main").performEach interleaving).1 := List.mem_of_getElem? (i := 7) (by cbv)
  obtain ⟨_, ⟨⟩, there⟩ := honoured _ constant
  obtain ⟨_, instr, ⟨⟩, placed, -, -, recognised, select⟩ := honoured _ product
  exact ⟨few, (checked _ constant _ rfl).2, there, (checked _ dynamic _ rfl).2,
    (found "a" 0).mpr ⟨_, again, rfl, rfl⟩, instr, placed, recognised, select⟩

end Writer

end OverloadMachine
