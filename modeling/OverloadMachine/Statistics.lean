import OverloadMachine.Opcode

/-!
# Statistics

How many instructions a machine has executed, and how many of them handlers have
handled or declined, by opcode. The counters are numbers without a bound; words of
64 bits hold them as long as fewer than `2 ^ 64` instructions have been fetched.
-/

namespace OverloadMachine

/-- A number for each opcode; opcodes that are not listed have zero. -/
structure Tally where
  counts : List (Opcode × Nat)

namespace Tally

/-- All zeros. -/
def empty : Tally := ⟨[]⟩

/-- Number under an opcode in a list. -/
def find (op : Opcode) : List (Opcode × Nat) → Nat
  | [] => 0
  | (o, n) :: rest => if o = op then n else find op rest

/-- Number of an opcode. -/
def get (t : Tally) (op : Opcode) : Nat := find op t.counts

/-- A list with one more under an opcode. -/
def increment (op : Opcode) : List (Opcode × Nat) → List (Opcode × Nat)
  | [] => [(op, 1)]
  | (o, n) :: rest => if o = op then (o, n + 1) :: rest else (o, n) :: increment op rest

/-- One more for an opcode. -/
def add (t : Tally) (op : Opcode) : Tally := ⟨increment op t.counts⟩

/-- Sum over all opcodes. -/
def total (t : Tally) : Nat := t.counts.foldr (fun entry n => entry.2 + n) 0

/-- Adding counts for its opcode only. -/
theorem get_add (t : Tally) (op o : Opcode) :
    (t.add op).get o = t.get o + if o = op then 1 else 0 := by
  obtain ⟨counts⟩ := t
  simp only [get, add]
  induction counts with
  | nil =>
    by_cases h : o = op
    · simp [increment, find, h]
    · simp [increment, find, h, Ne.symm h]
  | cons head rest ih =>
    obtain ⟨k, n⟩ := head
    by_cases hk : k = op
    · subst hk
      by_cases h : o = k
      · simp [increment, find, h]
      · simp [increment, find, h, Ne.symm h]
    · by_cases h : k = o
      · subst h
        simp [increment, find, hk]
      · simp [increment, find, hk, h, ih]

/-- Adding raises the sum by one. -/
theorem total_add (t : Tally) (op : Opcode) : (t.add op).total = t.total + 1 := by
  obtain ⟨counts⟩ := t
  simp only [total, add]
  induction counts with
  | nil => rfl
  | cons head rest ih =>
    obtain ⟨k, n⟩ := head
    by_cases hk : k = op
    · simp [increment, hk]; omega
    · simp [increment, hk, ih]; omega

end Tally

/-- Counters of a machine. -/
structure Statistics where
  /-- Instructions that were executed. -/
  instructions : Nat
  /-- Instructions that a handler has handled. -/
  handled : Tally
  /-- Instructions that a handler has declined. -/
  declined : Tally

/-- Counters of a new machine. -/
def Statistics.zero : Statistics := ⟨0, .empty, .empty⟩

/-- Every counter, and every sum of counters, is less than `2 ^ 64`. -/
structure Statistics.FitsWords (s : Statistics) : Prop where
  instructions : s.instructions < UInt64.size
  handled : ∀ op, s.handled.get op < UInt64.size
  declined : ∀ op, s.declined.get op < UInt64.size
  totals : s.handled.total + s.declined.total < UInt64.size

end OverloadMachine
