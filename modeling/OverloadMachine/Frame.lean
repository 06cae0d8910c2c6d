import OverloadMachine.OrderedMap
import OverloadMachine.Value

/-!
# Frames

A frame holds the slots of one activation: temporaries and variables by
position, dynamic variables by name, and a scratch slot that takes what an
instruction discards.
-/

namespace OverloadMachine

/-- A slot of a frame. -/
inductive Slot where
  | scratch
  | temp (index : Nat)
  | var (index : Nat)
  | symbol (name : String)
  deriving DecidableEq, Repr

/-- The slots of one activation. -/
structure Frame where
  temps : Array Value
  vars : Array Value
  symbols : NameMap Value
  scratch : Value

namespace Frame

/-- Frame with given numbers of temporaries and variables, all null. -/
def ofSizes (temporaryCount variableCount : Nat) : Frame :=
  ⟨Array.replicate temporaryCount .null, Array.replicate variableCount .null, .empty, .null⟩

instance : Inhabited Frame := ⟨ofSizes 0 0⟩

/-- An array extended with nulls to a size; a longer one is left alone. -/
def extend (slots : Array Value) (size : Nat) : Array Value :=
  slots ++ Array.replicate (size - slots.size) Value.null

/-- Grow the frame so that it has the slots that a function needs. -/
def prepare (f : Frame) (temporaryCount variableCount : Nat) : Frame :=
  { f with temps := extend f.temps temporaryCount, vars := extend f.vars variableCount }

/-- Value in a slot, if the frame has the slot. -/
def get? (f : Frame) : Slot → Option Value
  | .scratch => some f.scratch
  | .temp i => f.temps[i]?
  | .var i => f.vars[i]?
  | .symbol name => f.symbols.get? name

/-- Value in a slot; a slot that the frame lacks reads as null. -/
def get (f : Frame) (slot : Slot) : Value := (f.get? slot).getD .null

/-- Put a value into a slot. Only dynamic variables come into being by this. -/
def put (f : Frame) (slot : Slot) (v : Value) : Frame :=
  match slot with
  | .scratch => { f with scratch := v }
  | .temp i => { f with temps := f.temps.setIfInBounds i v }
  | .var i => { f with vars := f.vars.setIfInBounds i v }
  | .symbol name => { f with symbols := f.symbols.insert name v }

/-- Define a dynamic variable as null unless it is defined. -/
def define (f : Frame) (name : String) : Frame :=
  if f.symbols.contains name then f else f.put (.symbol name) .null

/-- Every value in the frame. -/
def values (f : Frame) : List Value :=
  f.temps.toList ++ f.vars.toList ++ f.symbols.values ++ [f.scratch]

/-- Reading the slot that was written, if the frame has it. -/
theorem get?_put_self (f : Frame) (slot : Slot) (v : Value)
    (has : (f.get? slot).isSome ∨ ∃ name, slot = .symbol name) :
    (f.put slot v).get? slot = some v := by
  cases slot with
  | scratch => rfl
  | symbol name => simp [get?, put]
  | temp i =>
    rcases has with has | ⟨_, h⟩
    · simp only [get?, Option.isSome_iff_exists, Array.getElem?_eq_some_iff] at has
      obtain ⟨_, lt, _⟩ := has
      simp [get?, put, lt]
    · cases h
  | var i =>
    rcases has with has | ⟨_, h⟩
    · simp only [get?, Option.isSome_iff_exists, Array.getElem?_eq_some_iff] at has
      obtain ⟨_, lt, _⟩ := has
      simp [get?, put, lt]
    · cases h

/-- Writing one slot leaves the others alone. -/
theorem get?_put_ne (f : Frame) {slot other : Slot} (v : Value) (ne : slot ≠ other) :
    (f.put slot v).get? other = f.get? other := by
  cases slot <;> cases other <;> simp_all [get?, put]

end Frame

end OverloadMachine
