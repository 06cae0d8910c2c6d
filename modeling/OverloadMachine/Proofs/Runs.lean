import OverloadMachine.Proofs.Accounting

/-!
# Invariants of runs

What every instruction keeps, every run keeps. An invariant speaks about a store
and about the handles that are held beside it; between two instructions there are
none, and the value that ends a run is held by the caller.
-/

namespace OverloadMachine

/-- The handles that pass to the caller with the end of a run. -/
def Outcome.given : Outcome → List Value
  | .returned v => [v]
  | _ => []

/-- An invariant of the store and of the handles beside it holds where a run stands, or
where it has ended. -/
def Step.Obeys (invariant : List Value → Store → Prop) : Step → Prop
  | .running p => invariant [] p.store
  | .ended outcome p => invariant outcome.given p.store

/-- What an invariant implies holds as well. -/
theorem Step.Obeys.mono {invariant weaker : List Value → Store → Prop} {step : Step}
    (obeys : step.Obeys invariant) (implies : ∀ {held s}, invariant held s → weaker held s) :
    step.Obeys weaker := by
  cases step with
  | running p => exact implies obeys
  | ended outcome p => exact implies obeys

namespace Machine

variable {m : Machine} {f : Function} {p q : Progress} {outcome : Outcome}

/-- A fault passes no handle to the caller. -/
@[simp] theorem given_outcomeOf (options : Options) (fault : Fault) :
    (outcomeOf options fault).given = [] := by
  unfold outcomeOf
  split
  · split <;> rfl
  · rfl
  · rfl
  · rfl

/-- A run that has ended has ended with one of its steps. -/
theorem ended_at {n : Nat} (ended : m.runFor f n p = .ended outcome q) :
    ∃ k r, m.runFor f k p = .running r ∧ m.step f r = .ended outcome q := by
  induction n generalizing p with
  | zero => cases ended
  | succ n ih =>
    rw [runFor] at ended
    cases eq : m.step f p with
    | running r =>
      rw [eq] at ended
      obtain ⟨k, last, runs, steps⟩ := ih ended
      refine ⟨k + 1, last, ?_, steps⟩
      rw [runFor, eq]
      exact runs
    | ended other r =>
      rw [eq] at ended
      cases ended
      exact ⟨0, p, rfl, eq⟩

/-- Every instruction of a function keeps an invariant of the store and of the handles
that are held beside it. -/
def Keeps (m : Machine) (f : Function) (invariant : List Value → Store → Prop) : Prop :=
  ∀ ⦃pc instr s⦄, f.code[pc]? = some instr → invariant [] s →
    invariant (Effect.given (Effect.dispatch m f instr pc s).1) (Effect.dispatch m f instr pc s).2

/-- Every instruction keeps the size of the frame. -/
theorem keeps_fits (m : Machine) (_ : f.Verified) : m.Keeps f fun _ s => s.frame.Fits f :=
  fun _ _ _ _ fits => Effect.fits_dispatch m fits

variable {invariant : List Value → Store → Prop}

/-- One instruction of a run keeps what every instruction keeps. -/
theorem Keeps.step (keeps : m.Keeps f invariant) (verified : f.Verified)
    (fits : p.store.frame.Fits f) (holds : invariant [] p.store) :
    (m.step f p).Obeys invariant := by
  cases found : f.code[p.pc]? with
  | none =>
    rw [Machine.step, found]
    exact holds
  | some instr =>
    obtain ⟨statistics, -, eq⟩ := step_eq (m := m) verified found fits
    have kept := keeps found holds
    rw [eq]
    generalize Effect.dispatch m f instr p.pc p.store = ending at kept ⊢
    obtain ⟨result, s⟩ := ending
    cases result with
    | error fault =>
      rw [proceed, Step.Obeys, given_outcomeOf]
      exact kept
    | ok flow => cases flow <;> exact kept

/-- Any number of instructions keep what every instruction keeps. -/
theorem Keeps.runFor (keeps : m.Keeps f invariant) (verified : f.Verified)
    (fits : ∀ {s}, invariant [] s → s.frame.Fits f) (n : Nat) (holds : invariant [] p.store) :
    (m.runFor f n p).Obeys invariant := by
  induction n generalizing p with
  | zero => exact holds
  | succ n ih =>
    have one := keeps.step verified (fits holds) holds
    rw [Machine.runFor]
    cases eq : m.step f p with
    | running q =>
      rw [eq] at one
      exact ih one
    | ended outcome q =>
      rw [eq] at one
      exact one

end Machine

end OverloadMachine
