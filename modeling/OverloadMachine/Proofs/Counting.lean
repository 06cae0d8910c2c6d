import OverloadMachine.Proofs.Declining

/-!
# Counting declined calls

Where every handler declines whenever it is called, a run counts no instruction as
handled, and counts as declined exactly the fetched instructions whose opcode has a
handler, also the one that ends the run.
-/

namespace OverloadMachine

/-- Counters where a run stands or has ended. -/
def Step.statistics : Step → Statistics
  | .running p | .ended _ p => p.statistics

namespace Machine

/-- The instructions that a run fetches, one after the other. -/
def fetched (m : Machine) (f : Function) : Nat → Progress → List Instruction
  | 0, _ => []
  | n + 1, p =>
    match f.code[p.pc]? with
    | none => []
    | some instr =>
      instr :: match m.step f p with
        | .running q => fetched m f n q
        | .ended _ _ => []

/-- Every handler declines and leaves the store as it was, wherever the store is accounted
for, the scratch slot is empty and the heap is as assumed. -/
def DeclinesWhere (m : Machine) (f : Function) (outside : Node → Nat) (assumed : Heap → Prop) :
    Prop :=
  ∀ {pc : Nat} {instr handler category} {s : Store}, f.code[pc]? = some instr →
    m.table.lookup instr.opcode = some handler → instr.opcode.category? = some category →
    s.Accounted f outside [] → assumed s.heap →
    ∃ reply d, handler.run ⟨instr, category, f.constants, m.options.negationOrder⟩
        ⟨s, none, none⟩ = (some reply, d)
      ∧ reply.Declines ∧ d.Quiet s

variable {m : Machine} {f : Function} {outside : Node → Nat} {assumed : Heap → Prop}
  {p q : Progress} {instr : Instruction}

/-- Handlers that decline are transparent. -/
theorem DeclinesWhere.transparent (verified : f.Verified)
    (declines : m.DeclinesWhere f outside assumed) : m.TransparentWhere f outside assumed := by
  intro pc instr handler category s found look has acc scratch holds
  obtain ⟨reply, d, run, declined, quiet⟩ := declines found look has acc holds
  have checked := verified.checked found
  rw [Effect.calling, run]
  exact Effect.agrees_of_quiet checked has acc scratch declined quiet

/-- What a run with handlers that decline comes to is at rest, with the heap as assumed. -/
theorem rests_step_of_transparent (verified : f.Verified)
    (transparent : m.TransparentWhere f outside assumed)
    (keeps : m.plain.Keeps f fun _ s => assumed s.heap) (rests : p.Rests f outside)
    (holds : assumed p.store.heap) (steps : m.step f p = .running q) :
    q.Rests f outside ∧ assumed q.store.heap := by
  have one := agrees_step verified transparent ⟨.refl _, rfl, rfl⟩ rests holds
  have kept := keeps.step verified rests.accounted.fits holds
  rw [steps] at one
  cases eq : m.plain.step f p with
  | running r =>
    have later := rests_step verified rests eq
    rw [eq] at one kept
    obtain ⟨agrees⟩ := one
    refine ⟨⟨later.accounted.congr agrees.store.symm, ?_⟩, ?_⟩
    · rw [agrees.store.frame]
      exact later.scratch
    · rw [agrees.store.heap]
      exact kept
  | ended outcome r =>
    rw [eq] at one
    cases one

/-- An instruction is counted as declined if it has a handler, and as handled in no case. -/
theorem statistics_dispatch (verified : f.Verified)
    (declines : m.DeclinesWhere f outside assumed) (found : f.code[p.pc]? = some instr)
    (acc : p.store.Accounted f outside []) (holds : assumed p.store.heap) :
    (m.dispatch f instr p).2.2 = if m.table.contains instr.opcode then
        { p.statistics with declined := p.statistics.declined.add instr.opcode }
      else p.statistics := by
  unfold dispatch DispatchTable.contains
  cases look : m.table.lookup instr.opcode with
  | none => rfl
  | some handler =>
    obtain ⟨category, has⟩ := Option.isSome_iff_exists.mp
      (m.table.operators instr.opcode (by rw [look]; rfl))
    obtain ⟨reply, d, run, declined, quiet⟩ := declines found look has acc holds
    dsimp only
    rw [Action.invoke_eq (verified.checked found) has acc.fits, run,
      Effect.settle_of_declines f.constants instr declined quiet.violation]
    rfl

/-- The counters after one instruction. -/
theorem statistics_step (found : f.code[p.pc]? = some instr) :
    (m.step f p).statistics = (m.dispatch f instr p.counted).2.2 := by
  rw [step_eq_proceed found]
  generalize m.dispatch f instr p.counted = ending
  obtain ⟨result, store, statistics⟩ := ending
  cases result with
  | error fault => rfl
  | ok flow => cases flow <;> rfl

/-- One instruction with handlers that decline is counted as declined if it has a handler. -/
theorem count_step (verified : f.Verified) (declines : m.DeclinesWhere f outside assumed)
    (found : f.code[p.pc]? = some instr) (acc : p.store.Accounted f outside [])
    (holds : assumed p.store.heap) :
    (m.step f p).statistics.handled = p.statistics.handled
      ∧ ∀ op, (m.step f p).statistics.declined.get op = p.statistics.declined.get op
        + if instr.opcode == op && m.table.contains op then 1 else 0 := by
  rw [statistics_step found, statistics_dispatch (p := p.counted) verified declines found acc holds]
  by_cases has : m.table.contains instr.opcode = true
  · rw [if_pos has]
    refine ⟨rfl, fun op => (Tally.get_add p.statistics.declined instr.opcode op).trans ?_⟩
    by_cases same : op = instr.opcode
    · subst same
      simp [has]
    · simp [same, Ne.symm same]
  · rw [if_neg has]
    refine ⟨rfl, fun op => ?_⟩
    by_cases same : instr.opcode = op
    · subst same
      simp [has, Progress.counted]
    · simp [same, Progress.counted]

/-- A run with handlers that decline counts every fetched instruction that has a handler as
declined, and none as handled. -/
theorem statistics_runFor (verified : f.Verified)
    (declines : m.DeclinesWhere f outside assumed)
    (keeps : m.plain.Keeps f fun _ s => assumed s.heap) (n : Nat) (rests : p.Rests f outside)
    (holds : assumed p.store.heap) :
    (m.runFor f n p).statistics.handled = p.statistics.handled
      ∧ ∀ op, (m.runFor f n p).statistics.declined.get op = p.statistics.declined.get op
        + (m.fetched f n p).countP fun instr => instr.opcode == op && m.table.contains op := by
  induction n generalizing p with
  | zero => exact ⟨rfl, fun op => rfl⟩
  | succ n ih =>
    rw [runFor, fetched]
    cases found : f.code[p.pc]? with
    | none =>
      have ends : m.step f p = .ended (.failed (.code (.positionOutOfRange p.pc))) p := by
        rw [step, found]
      rw [ends]
      exact ⟨rfl, fun op => rfl⟩
    | some instr =>
      have one := count_step verified declines found rests.accounted holds
      dsimp only
      cases steps : m.step f p with
      | ended outcome q =>
        rw [steps] at one
        refine ⟨one.1, fun op => ?_⟩
        rw [List.countP_singleton]
        exact one.2 op
      | running q =>
        rw [steps] at one
        obtain ⟨rests', holds'⟩ := rests_step_of_transparent verified
          (declines.transparent verified) keeps rests holds steps
        obtain ⟨handled, declined⟩ := ih rests' holds'
        refine ⟨handled.trans one.1, fun op => ?_⟩
        have before := one.2 op
        dsimp only [Step.statistics] at before
        dsimp only
        rw [declined op, before, List.countP_cons]
        omega

/-- An execution with handlers that decline counts every fetched instruction that has a
handler as declined, and none as handled. -/
theorem statistics_executeIn {s : Store} (verified : f.verify = .ok ())
    (rest : s.AtRest f outside) (holds : assumed s.heap)
    (declines : m.DeclinesWhere f outside assumed)
    (keeps : m.plain.Keeps f fun _ s => assumed s.heap) :
    (m.executeIn f s).2.1.statistics.handled = m.statistics.handled
      ∧ ∀ op, (m.executeIn f s).2.1.statistics.declined.get op = m.statistics.declined.get op
        + (m.fetched f (budget m.options.maxInstructions) (m.start f s)).countP fun instr =>
          instr.opcode == op && m.table.contains op := by
  have counts := statistics_runFor (Function.verified_of_verify verified) declines keeps
    (budget m.options.maxInstructions) (m.rests_start rest) holds
  rw [executeIn_eq m verified]
  generalize m.runFor f (budget m.options.maxInstructions) (m.start f s) = ending at counts
  cases ending with
  | running p => exact counts
  | ended outcome p => exact counts

end Machine

end OverloadMachine
