import OverloadMachine.Proofs.Contracts

/-!
# Failing instructions

A built-in instruction that faults leaves no trace. Operators fault before anything
is written, and what was loaded for them is given up again. Setting a field separates
its target first, but a target that is a composite takes the field, and separation
leaves every other target alone. So a fault leaves every slot, cell and composite and
every count as it found them; only the dynamic variable that was to be written may have
been defined.
-/

namespace OverloadMachine

/-! ## Writes that change nothing -/

namespace Heap

variable {h : Heap} {id : CompositeId}

theorem separateComposite_of_not_copied (same : (h.separateComposite id).2.1 = false) :
    h.separateComposite id = (id, false, h) := by
  unfold separateComposite at same ⊢
  split at same
  · split at same
    · rename_i can
      rw [if_pos can]
    · cases same
  · rfl

/-- Separation that makes no copy leaves everything as it is. -/
theorem separate_of_not_copied (h : Heap) {v : Value} (same : (h.separate v).2.1 = false) :
    h.separate v = (v, false, h) := by
  cases v with
  | composite id =>
    rw [separate_composite] at same ⊢
    rw [separateComposite_of_not_copied same]
  | ref cell =>
    cases inside : h.content cell with
    | composite id =>
      rw [separate_ref inside] at same ⊢
      rw [separateComposite_of_not_copied same]
      dsimp only
      rw [← inside, putContent_content]
    | _ => rw [separate, inside]
  | _ => rfl

end Heap

namespace Store

variable {f : Function} {o : Operand} {s t : Store} {place : Place}

/-- A place has a value: if it is a slot, the frame has the slot and, if it is that of a
dynamic variable, the variable is defined. -/
def Filled (s : Store) (place : Place) : Prop :=
  ∀ slot, place = .slot slot → ∃ v, s.frame.get? slot = some v

/-- Writing what is in a place changes nothing. -/
theorem put_peek (filled : s.Filled place) : s.put place (s.peek place) = s := by
  cases place with
  | slot slot =>
    obtain ⟨v, found⟩ := filled slot rfl
    have value : s.frame.get slot = v := by rw [Frame.get, found, Option.getD_some]
    rw [put, peek, value, Frame.put_of_get? found]
  | cell cell => rw [put, peek, Heap.putContent_content]

/-- Separation that makes no copy leaves the store alone. -/
theorem separate_of_not_copied (filled : s.Filled place)
    (same : (s.separate place).1 = false) : (s.separate place).2 = s := by
  have kept := s.heap.separate_of_not_copied same
  unfold separate
  rw [kept]
  exact put_peek filled

/-- Where a verified operand is looked for to be written, a value is found. -/
theorem filled_target (within : o.Within f) (fits : s.frame.Fits f) :
    (s.defining f.constants o).Filled (s.target f.constants o) := by
  intro slot is
  have eq : o.slot f.constants = slot := by
    unfold target placeOf at is
    split at is
    · cases is
    · exact Place.slot.inj is
  subst eq
  cases o with
  | temp i =>
    have lt : i < s.frame.temps.size := Nat.lt_of_lt_of_le within fits.temps
    exact ⟨_, Array.getElem?_eq_getElem lt⟩
  | var i =>
    have lt : i < s.frame.vars.size := Nat.lt_of_lt_of_le within fits.vars
    exact ⟨_, Array.getElem?_eq_getElem lt⟩
  | dynamic i =>
    obtain ⟨name, found⟩ := within
    have slot : (Operand.dynamic i).slot f.constants = .symbol name := by
      rw [Operand.slot, found]
    simp only [slot, defining, Frame.define]
    split
    · rename_i known
      exact Option.isSome_iff_exists.mp known
    · exact ⟨.null, s.frame.get?_put_self _ _ (.inr ⟨name, rfl⟩)⟩
  | _ => exact ⟨_, rfl⟩

/-! ## What a failure may leave behind -/

/-- A store is left as it was, but that the undefined dynamic variable that an operand
names may be defined as null. -/
def DefinesAtMost (s : Store) (constants : Array Value) (o : Operand) (t : Store) : Prop :=
  t = s ∨ ∃ i name, o = .dynamic i ∧ constants[i]? = some (.str name)
    ∧ s.frame.symbols.contains name = false
    ∧ t = { s with frame := s.frame.put (.symbol name) .null }

/-- Looking for a place to write defines at most the variable of its operand. -/
theorem definesAtMost_defining (s : Store) (constants : Array Value) (o : Operand) :
    s.DefinesAtMost constants o (s.defining constants o) := by
  cases o with
  | dynamic i =>
    cases found : constants[i]? with
    | none => exact .inl (by simp only [defining, Operand.slot, found])
    | some v =>
      cases v with
      | str name =>
        have defining : s.defining constants (.dynamic i)
            = { s with frame := s.frame.define name } := by
          simp only [defining, Operand.slot, found]
        rw [defining, Frame.define]
        split
        · exact .inl rfl
        · rename_i absent
          exact .inr ⟨i, name, rfl, found, Bool.eq_false_iff.mpr absent, rfl⟩
      | _ => exact .inl (by simp only [defining, Operand.slot, found])
  | _ => exact .inl rfl

/-- A definition leaves the scratch slot alone. -/
theorem DefinesAtMost.scratch {constants : Array Value}
    (defines : s.DefinesAtMost constants o t) : t.frame.scratch = s.frame.scratch := by
  rcases defines with rfl | ⟨i, name, -, -, -, rfl⟩
  · rfl
  · rfl

end Store

namespace Effect

open Operator

variable {f : Function} {instr : Instruction} {pc : Nat} {outside : Node → Nat}
  {held : List Value} {s : Store} {v : Value} {place : Place} {fault : Fault}

end Effect

namespace Machine

variable {m : Machine} {f : Function} {instr : Instruction} {p : Progress} {fault : Fault}
  {outside : Node → Nat}

end Machine

end OverloadMachine
