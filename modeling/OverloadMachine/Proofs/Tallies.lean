import OverloadMachine.Proofs.Budgets

/-!
# What the statistics count

Counters are raised in two places: every instruction that is fetched is counted before it
is executed, and a handler's answer is counted between its call and the built-in
instruction. So they can be read off from the instructions that were fetched and from what
their calls ended in, whatever table, functions and outcomes there were: a call that faults
is not counted as handled or declined, and an instruction that faults after its handler
has declined is. A machine accumulates its counters until they are reset.
-/

namespace OverloadMachine

namespace Tally

/-- The sum of a tally is that of the numbers of all opcodes. -/
def IsSummed (t : Tally) : Prop := t.total = (Opcode.all.map t.get).sum

theorem isSummed_empty : empty.IsSummed := rfl

/-- One more for an opcode is one more in the sum, as the opcode is listed once. -/
theorem IsSummed.add {t : Tally} (summed : t.IsSummed) (op : Opcode) : (t.add op).IsSummed := by
  have once : ∀ o ∈ Opcode.all, (Opcode.all.map fun k => if k = o then 1 else 0).sum = 1 := by
    decide
  have each : (t.add op).get = fun o => t.get o + if o = op then 1 else 0 :=
    funext fun o => t.get_add op o
  rw [IsSummed, total_add, each, List.sum_map_add, once op op.mem_all, summed]

end Tally

/-- How a call of a handler ends. -/
inductive CallEnd where
  | handled
  | declined
  | faulted
  deriving DecidableEq

/-- How a call ends that ends with a decision or a fault. -/
def CallEnd.of : Except Fault Decision → CallEnd
  | .ok .handled => handled
  | .ok .declined => declined
  | .error _ => faulted

/-- An instruction that was fetched, and how it was executed. -/
structure Fetch where
  instr : Instruction
  /-- How the call of its handler ended, if it has one. -/
  call : Option CallEnd
  /-- Whether it ended in a fault. -/
  failed : Bool

namespace Fetch

/-- Whether the opcode is a given one. -/
def isOf (e : Fetch) (op : Opcode) : Bool := e.instr.opcode == op

/-- Whether the opcode is a given one and a handler was called, with a given end. -/
def isCalled (e : Fetch) (op : Opcode) (call : CallEnd) : Bool := e.isOf op && e.call == some call

/-- A call ends in one of three ways. -/
theorem countP_called (log : List Fetch) (op : Opcode) :
    (log.countP fun e => e.isOf op && e.call.isSome)
      = log.countP (·.isCalled op .handled) + log.countP (·.isCalled op .declined)
        + log.countP (·.isCalled op .faulted) := by
  induction log with
  | nil => rfl
  | cons e log ih =>
    have one : ∀ e : Fetch, (if (e.isOf op && e.call.isSome) = true then 1 else 0)
        = (if e.isCalled op .handled = true then 1 else 0)
          + (if e.isCalled op .declined = true then 1 else 0)
          + (if e.isCalled op .faulted = true then 1 else 0) := by
      rintro ⟨instr, _ | _ | _ | _, failed⟩ <;> cases is : instr.opcode == op
        <;> simp [isCalled, isOf, is]
    have head := one e
    simp only [List.countP_cons, ih]
    omega

/-- An instruction whose handler declined ends in a fault or does not. -/
theorem countP_failed (log : List Fetch) (op : Opcode) :
    log.countP (·.isCalled op .declined)
      = (log.countP fun e => e.isCalled op .declined && !e.failed)
        + log.countP fun e => e.isCalled op .declined && e.failed := by
  induction log with
  | nil => rfl
  | cons e log ih =>
    simp only [List.countP_cons, ih]
    cases e.failed <;> simp <;> omega

end Fetch

namespace Statistics

/-- The counters with one more instruction counted. -/
def counted (s : Statistics) : Statistics := { s with instructions := s.instructions + 1 }

/-- The counters with the call of a handler counted, if there was one. -/
def called (s : Statistics) (op : Opcode) : Option CallEnd → Statistics
  | some .handled => { s with handled := s.handled.add op }
  | some .declined => { s with declined := s.declined.add op }
  | some .faulted | none => s

variable (s : Statistics) (op o : Opcode) (call : Option CallEnd)

@[simp] theorem instructions_called : (s.called op call).instructions = s.instructions := by
  rcases call with _ | _ | _ | _ <;> rfl

/-- A call that handled its instruction is counted under the opcode, and no other call is. -/
theorem handled_called : (s.called op call).handled.get o
    = s.handled.get o + if (op == o && call == some .handled) = true then 1 else 0 := by
  rcases call with _ | _ | _ | _
  · simp [called]
  · refine (s.handled.get_add op o).trans ?_
    by_cases same : op = o
    · simp [same]
    · simp [same, Ne.symm same]
  · simp [called]
  · simp [called]

/-- A call that declined its instruction is counted under the opcode, and no other call is. -/
theorem declined_called : (s.called op call).declined.get o
    = s.declined.get o + if (op == o && call == some .declined) = true then 1 else 0 := by
  rcases call with _ | _ | _ | _
  · simp [called]
  · simp [called]
  · refine (s.declined.get_add op o).trans ?_
    by_cases same : op = o
    · simp [same]
    · simp [same, Ne.symm same]
  · simp [called]

/-- A call adds at most one to what is handled or declined. -/
theorem total_called_le : (s.called op call).handled.total + (s.called op call).declined.total
    ≤ s.handled.total + s.declined.total + 1 := by
  rcases call with _ | _ | _ | _
  · exact Nat.le_succ _
  · have more := s.handled.total_add op
    dsimp only [called]
    omega
  · have more := s.declined.total_add op
    dsimp only [called]
    omega
  · exact Nat.le_succ _

end Statistics

/-- Counters are those of a list of fetched instructions. -/
structure Statistics.Tallies (table : DispatchTable Handler) (log : List Fetch) (s : Statistics) :
    Prop where
  instructions : s.instructions = log.length
  handled : ∀ op, s.handled.get op = log.countP (·.isCalled op .handled)
  declined : ∀ op, s.declined.get op = log.countP (·.isCalled op .declined)
  summed : s.handled.IsSummed ∧ s.declined.IsSummed
  bounded : s.handled.total + s.declined.total ≤ s.instructions
  /-- Handlers are called if there are any. -/
  calls : ∀ e ∈ log, e.call.isSome = table.contains e.instr.opcode

namespace Statistics.Tallies

variable {table : DispatchTable Handler} {log : List Fetch} {s : Statistics}

/-- The counters of a new machine are those of no instruction. -/
theorem zero (table : DispatchTable Handler) : Statistics.zero.Tallies table [] where
  instructions := rfl
  handled _ := rfl
  declined _ := rfl
  summed := ⟨Tally.isSummed_empty, Tally.isSummed_empty⟩
  bounded := Nat.le_refl 0
  calls _ mem := absurd mem List.not_mem_nil

/-- One more instruction is counted, and then the call of its handler. -/
theorem fetch (tallies : s.Tallies table log) {e : Fetch}
    (called : e.call.isSome = table.contains e.instr.opcode) :
    (s.counted.called e.instr.opcode e.call).Tallies table (log ++ [e]) where
  instructions := by
    rw [instructions_called, List.length_append, ← tallies.instructions]
    rfl
  handled op := by
    rw [handled_called, List.countP_append, List.countP_singleton, ← tallies.handled op]
    rfl
  declined op := by
    rw [declined_called, List.countP_append, List.countP_singleton, ← tallies.declined op]
    rfl
  summed := by
    obtain ⟨handled, declined⟩ := tallies.summed
    rcases e.call with _ | _ | _ | _
    · exact ⟨handled, declined⟩
    · exact ⟨handled.add _, declined⟩
    · exact ⟨handled, declined.add _⟩
    · exact ⟨handled, declined⟩
  bounded := by
    have before := tallies.bounded
    have more := s.counted.total_called_le e.instr.opcode e.call
    rw [instructions_called]
    dsimp only [counted] at more ⊢
    omega
  calls d mem := by
    rcases List.mem_append.mp mem with old | new
    · exact tallies.calls d old
    · rwa [List.mem_singleton.mp new]

/-- The counters of fewer instructions than a word can count do not leave their words. -/
theorem fitsWords (tallies : s.Tallies table log) (few : log.length < UInt64.size) :
    s.FitsWords where
  instructions := tallies.instructions.trans_lt few
  handled op := (tallies.handled op).trans_lt (List.countP_le_length.trans_lt few)
  declined op := (tallies.declined op).trans_lt (List.countP_le_length.trans_lt few)
  totals := tallies.bounded.trans_lt (tallies.instructions.trans_lt few)

/-- The instructions whose opcode has a handler are those for which one is called. -/
theorem countP_contains (tallies : s.Tallies table log) (op : Opcode) :
    (log.countP fun e => e.isOf op && table.contains op)
      = log.countP (·.isCalled op .handled) + log.countP (·.isCalled op .declined)
        + log.countP (·.isCalled op .faulted) := by
  rw [← Fetch.countP_called]
  refine List.countP_congr fun e mem => ?_
  by_cases is : e.instr.opcode = op
  · have called := tallies.calls e mem
    rw [is] at called
    rw [called]
  · simp [Fetch.isOf, is]

end Statistics.Tallies

namespace Machine

variable {m : Machine} {f : Function} {p q : Progress} {n : Nat} {instr : Instruction}

/-! ## Fetched instructions -/

/-- An instruction that is fetched, and how it is executed. -/
def fetch (m : Machine) (f : Function) (instr : Instruction) (p : Progress) : Fetch where
  instr := instr
  call := (m.table.lookup instr.opcode).map fun handler =>
    .of (Action.invoke handler f.constants m.options.negationOrder instr p.store).1
  failed := match (m.dispatch f instr p).1 with
    | .ok _ => false
    | .error _ => true

/-- The instructions that a run fetches, one after the other, and how they are executed. -/
def journal (m : Machine) (f : Function) : Nat → Progress → List Fetch
  | 0, _ => []
  | n + 1, p =>
    match f.code[p.pc]? with
    | none => []
    | some instr =>
      m.fetch f instr p :: match m.step f p with
        | .running q => journal m f n q
        | .ended _ _ => []

/-- The journal tells what is fetched. -/
theorem map_instr_journal (m : Machine) (f : Function) (n : Nat) (p : Progress) :
    (m.journal f n p).map (·.instr) = m.fetched f n p := by
  induction n generalizing p with
  | zero => rfl
  | succ n ih =>
    rw [journal, fetched]
    cases f.code[p.pc]? with
    | none => rfl
    | some instr =>
      dsimp only
      cases m.step f p with
      | running q => rw [List.map_cons, ih]; rfl
      | ended outcome q => rfl

/-- The call of an instruction's handler is counted, if it has one. -/
theorem counts_dispatch (m : Machine) (f : Function) (instr : Instruction) (p : Progress) :
    (m.dispatch f instr p).2.2 = p.statistics.called instr.opcode (m.fetch f instr p).call := by
  unfold dispatch fetch
  cases m.table.lookup instr.opcode with
  | none => rfl
  | some handler =>
    dsimp only [Option.map_some]
    generalize Action.invoke handler f.constants m.options.negationOrder instr p.store = ending
    obtain ⟨result, s⟩ := ending
    cases result with
    | error fault => rfl
    | ok decision => cases decision <;> rfl

/-- One instruction is counted with the call of its handler. -/
theorem tallies_step {log : List Fetch} (found : f.code[p.pc]? = some instr)
    (tallies : p.statistics.Tallies m.table log) :
    (m.step f p).statistics.Tallies m.table (log ++ [m.fetch f instr p]) := by
  have called : (m.fetch f instr p).call.isSome = m.table.contains instr.opcode :=
    Option.isSome_map
  rw [statistics_step found, counts_dispatch]
  exact tallies.fetch called

/-- A run counts what it fetches, and how the calls end. -/
theorem tallies_runFor {log : List Fetch} (n : Nat) (tallies : p.statistics.Tallies m.table log) :
    (m.runFor f n p).statistics.Tallies m.table (log ++ m.journal f n p) := by
  induction n generalizing p log with
  | zero =>
    rw [journal, List.append_nil]
    exact tallies
  | succ n ih =>
    rw [runFor, journal]
    cases found : f.code[p.pc]? with
    | none =>
      have ends : m.step f p = .ended (.failed (.code (.positionOutOfRange p.pc))) p := by
        rw [step, found]
      rw [ends, List.append_nil]
      exact tallies
    | some instr =>
      have one := tallies_step found tallies
      dsimp only
      cases steps : m.step f p with
      | ended outcome q =>
        rw [steps] at one
        exact one
      | running q =>
        rw [steps] at one
        have later := ih (p := q) one
        rwa [List.append_assoc] at later

/-! ## Uses of a machine -/

/-- The instructions that the execution of a function fetches: as many as its run has, up to
the limit, and none if verification stops it before it starts. -/
def executed (m : Machine) (f : Function) (s : Store) : List Fetch :=
  match if m.options.verify then f.verify else .ok () with
  | .error _ => []
  | .ok () => m.journal f (budget m.options.maxInstructions) (m.start f s)

/-- No execution fetches more instructions than the limit allows. -/
theorem length_executed_le (m : Machine) (f : Function) (s : Store) :
    (m.executed f s).length ≤ budget m.options.maxInstructions := by
  unfold executed
  split
  · exact Nat.zero_le _
  · have fetched := m.length_fetched_le f (budget m.options.maxInstructions) (m.start f s)
    rwa [← map_instr_journal, List.length_map] at fetched

/-- An execution counts what it fetches, and changes the counters alone. -/
theorem tallies_executeIn {log : List Fetch} (f : Function) (s : Store)
    (tallies : m.statistics.Tallies m.table log) :
    (m.executeIn f s).2.1.table = m.table
      ∧ (m.executeIn f s).2.1.statistics.Tallies m.table (log ++ m.executed f s) := by
  unfold executed
  cases check : (if m.options.verify then f.verify else .ok ()) with
  | error defect =>
    rw [executeIn, check, List.append_nil]
    exact ⟨rfl, tallies⟩
  | ok done =>
    have counts := tallies_runFor (f := f) (p := m.start f s) (budget m.options.maxInstructions)
      tallies
    rw [executeIn_of_passes s check]
    refine ⟨rfl, ?_⟩
    unfold run start at *
    dsimp only at counts ⊢
    generalize m.runFor f _ _ = ending at counts ⊢
    cases ending <;> exact counts

/-- What a machine may be used for. -/
inductive Use where
  /-- Run a function in a frame of its own. -/
  | execute (f : Function) (s : Store)
  /-- Run a function in the frame of a store. -/
  | executeIn (f : Function) (s : Store)
  | reset

/-- A machine after it was used, and the instructions fetched since its counters were set to
zero. -/
def use (state : Machine × List Fetch) : Use → Machine × List Fetch
  | .execute f s =>
    ((state.1.execute f s).2.1, state.2 ++ state.1.executed f { s with frame := frameFor f })
  | .executeIn f s => ((state.1.executeIn f s).2.1, state.2 ++ state.1.executed f s)
  | .reset => (state.1.resetStatistics, [])

/-- Whatever a machine is used for, its counters are those of what was fetched since they were
set to zero. -/
theorem tallies_use {table : DispatchTable Handler} {state : Machine × List Fetch}
    (same : state.1.table = table) (tallies : state.1.statistics.Tallies table state.2)
    (u : Use) :
    (use state u).1.table = table ∧ (use state u).1.statistics.Tallies table (use state u).2 := by
  obtain ⟨m, log⟩ := state
  subst same
  cases u with
  | execute f s => exact tallies_executeIn f { s with frame := frameFor f } tallies
  | executeIn f s => exact tallies_executeIn f s tallies
  | reset => exact ⟨rfl, .zero m.table⟩

theorem tallies_foldl_use {table : DispatchTable Handler} (uses : List Use)
    {state : Machine × List Fetch} (same : state.1.table = table)
    (tallies : state.1.statistics.Tallies table state.2) :
    (uses.foldl use state).1.statistics.Tallies table (uses.foldl use state).2 := by
  induction uses generalizing state with
  | nil => exact tallies
  | cons u uses ih =>
    obtain ⟨same', tallies'⟩ := tallies_use same tallies u
    exact ih same' tallies'

/-- No use changes the options, and each adds no more instructions than the limit allows. -/
theorem length_use_le (state : Machine × List Fetch) (u : Use) :
    (use state u).1.options = state.1.options
      ∧ (use state u).2.length ≤ state.2.length + budget state.1.options.maxInstructions := by
  have options (f : Function) (s : Store) :
      (state.1.executeIn f s).2.1.options = state.1.options := by
    unfold executeIn
    split <;> rfl
  cases u with
  | execute f s =>
    refine ⟨options f _, ?_⟩
    rw [use, List.length_append]
    exact Nat.add_le_add_left (length_executed_le _ _ _) _
  | executeIn f s =>
    refine ⟨options f s, ?_⟩
    rw [use, List.length_append]
    exact Nat.add_le_add_left (length_executed_le _ _ _) _
  | reset => exact ⟨rfl, Nat.zero_le _⟩

/-- Uses fetch no more instructions than the limit allows to each of them. -/
theorem length_foldl_use_le (uses : List Use) (state : Machine × List Fetch) :
    (uses.foldl use state).2.length
      ≤ state.2.length + uses.length * budget state.1.options.maxInstructions := by
  induction uses generalizing state with
  | nil => simp
  | cons u uses ih =>
    obtain ⟨same, more⟩ := length_use_le state u
    have later := ih (use state u)
    rw [same] at later
    rw [List.foldl_cons, List.length_cons, Nat.add_mul, Nat.one_mul]
    omega

/-- No counter leaves its word before a machine has been used so often that all its limits
together pass `2 ^ 64`. -/
theorem fitsWords_of_few_uses (options : Options) (table : DispatchTable Handler)
    (uses : List Use) (few : uses.length * budget options.maxInstructions < UInt64.size) :
    (uses.foldl use (ofTable options table, [])).1.statistics.FitsWords := by
  have tallies := @tallies_foldl_use table uses (ofTable options table, []) rfl
    (Statistics.Tallies.zero table)
  have fetched := length_foldl_use_le uses (ofTable options table, [])
  rw [List.length_nil, Nat.zero_add] at fetched
  exact tallies.fitsWords (fetched.trans_lt few)

/-- The statistics account for every instruction that was fetched since they were reset, for
whatever a machine was used: under each opcode as many are handled and declined as have a
handler, without those whose calls have faulted; what has declined is counted whether or
not the built-in instruction fails; the totals are the sums over all opcodes, and together
they are no more than there are instructions. -/
theorem statistics_account_for_every_fetch (options : Options) (table : DispatchTable Handler)
    (uses : List Use) :
    let state := uses.foldl use (ofTable options table, [])
    let statistics := state.1.statistics
    let log := state.2
    statistics.instructions = log.length
      ∧ (∀ op, statistics.handled.get op + statistics.declined.get op
          + log.countP (·.isCalled op .faulted)
          = log.countP fun e => e.isOf op && table.contains op)
      ∧ (∀ op, statistics.handled.get op = log.countP (·.isCalled op .handled)
        ∧ statistics.declined.get op
          = (log.countP fun e => e.isCalled op .declined && !e.failed)
            + log.countP fun e => e.isCalled op .declined && e.failed)
      ∧ (∀ op, table.lookup op = none →
        statistics.handled.get op = 0 ∧ statistics.declined.get op = 0)
      ∧ statistics.handled.total = (Opcode.all.map statistics.handled.get).sum
      ∧ statistics.declined.total = (Opcode.all.map statistics.declined.get).sum
      ∧ statistics.handled.total + statistics.declined.total ≤ statistics.instructions := by
  intro state statistics log
  have tallies : statistics.Tallies table log :=
    tallies_foldl_use uses rfl (Statistics.Tallies.zero table)
  have handlers : ∀ op, (log.countP fun e => e.isOf op && table.contains op)
      = log.countP (·.isCalled op .handled) + log.countP (·.isCalled op .declined)
        + log.countP (·.isCalled op .faulted) := fun op => tallies.countP_contains op
  refine ⟨tallies.instructions, fun op => ?_, fun op => ⟨tallies.handled op, ?_⟩,
    fun op unhandled => ?_, tallies.summed.1, tallies.summed.2, tallies.bounded⟩
  · rw [handlers op, tallies.handled op, tallies.declined op]
  · rw [tallies.declined op]
    exact Fetch.countP_failed log op
  · have none : (log.countP fun e => e.isOf op && table.contains op) = 0 := by
      rw [DispatchTable.contains, unhandled]
      simp
    have sum := handlers op
    rw [← tallies.handled op, ← tallies.declined op, none] at sum
    omega

end Machine

end OverloadMachine
