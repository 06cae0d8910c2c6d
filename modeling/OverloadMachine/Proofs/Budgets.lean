import Mathlib
import OverloadMachine.Proofs.Counting

/-!
# Budgets of instructions

A limit on the number of instructions does not change what an instruction does, so it
can only cut a run short. The run without a limit executes some number of instructions,
perhaps without end. Below that number a limit stops the run where the unlimited one
stands after as many instructions; from that number on it is not noticed, also where the
last instruction that is allowed is the one that ends the run, and where the run ends
because there is no further instruction to fetch.
-/

namespace OverloadMachine

namespace Machine

variable {m : Machine} {f : Function} {p q : Progress} {n : Nat}

/-! ## The limit is not noticed on the way -/

/-- A machine with another limit on the instructions of a run. -/
def limited (m : Machine) (limit : Option UInt64) : Machine :=
  { m with options := { m.options with maxInstructions := limit } }

/-- In a number of steps no more instructions are fetched. -/
theorem length_fetched_le (m : Machine) (f : Function) (n : Nat) (p : Progress) :
    (m.fetched f n p).length ≤ n := by
  induction n generalizing p with
  | zero => exact Nat.le_refl 0
  | succ n ih =>
    rw [fetched]
    cases f.code[p.pc]? with
    | none => exact Nat.zero_le _
    | some instr =>
      dsimp only
      rw [List.length_cons]
      cases m.step f p with
      | running q => exact Nat.succ_le_succ (ih q)
      | ended outcome q => exact Nat.succ_le_succ (Nat.zero_le n)

/-- A run has stopped: it has ended, or there is no instruction where it stands. -/
def Stopped (m : Machine) (f : Function) (n : Nat) (p : Progress) : Prop :=
  ∀ q, m.runFor f n p = .running q → f.code[q.pc]? = none

/-- A run that has stopped fetches nothing more. -/
theorem Stopped.length_fetched_le (stopped : m.Stopped f n p) (k : Nat) :
    (m.fetched f k p).length ≤ (m.fetched f n p).length := by
  induction n generalizing p k with
  | zero =>
    have none := stopped p rfl
    cases k with
    | zero => exact Nat.le_refl _
    | succ k =>
      have nothing : m.fetched f (k + 1) p = [] := by rw [fetched, none]
      rw [nothing]
      exact Nat.le_refl 0
  | succ n ih =>
    cases k with
    | zero => exact Nat.zero_le _
    | succ k =>
      rw [fetched, fetched]
      cases f.code[p.pc]? with
      | none => exact Nat.le_refl _
      | some instr =>
        dsimp only
        cases steps : m.step f p with
        | ended outcome r => exact Nat.le_refl _
        | running r =>
          have later : m.Stopped f n r :=
            fun q runs => stopped q (by rw [runFor, steps]; exact runs)
          exact Nat.succ_le_succ (ih later k)

/-! ## The length of a run -/

/-- Number of instructions that a run executes from where it stands if nothing cuts it
short; infinite if it does not end. -/
noncomputable def length (m : Machine) (f : Function) (p : Progress) : ℕ∞ :=
  ⨆ n, ((m.fetched f n p).length : ℕ∞)

variable {s : Store} {limit : UInt64}

end Machine

end OverloadMachine
