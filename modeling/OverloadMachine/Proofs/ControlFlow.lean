import Mathlib.Logic.Relation
import Mathlib.Tactic.IntervalCases
import OverloadMachine.Proofs.Counting
import OverloadMachine.Proofs.Safety

/-!
# Control flow

The code of a function alone says where control may go from an instruction: to the
next one, to the target of a jump, and from a field write to what is behind its data.
A run of a verified function stands only where these ways lead. Verification asks for
a data instruction behind every field write, but it does not ask that there are no
others, nor that no jump goes to one. So a data instruction may be executed on its own,
and it is so only if control leads to it. Where every data instruction is behind a
field write and no jump has it as its target, control leads to none.
-/

namespace OverloadMachine

/-- Whether control passes to the next instruction from this one, unless it jumps. -/
def Opcode.fallsThrough (op : Opcode) : Bool :=
  !op.isTerminator && op != .setField && op != .opData

namespace Function

/-- Control may go from one position to another. -/
inductive Leads (f : Function) (pc : Nat) : Nat → Prop
  | next {instr : Instruction} (found : f.code[pc]? = some instr)
    (falls : instr.opcode.fallsThrough = true) : Leads f pc (pc + 1)
  | jump {instr : Instruction} (found : f.code[pc]? = some instr)
    (jumps : instr.opcode.isJump = true) : Leads f pc instr.target.toNat
  | beyond {instr : Instruction} (found : f.code[pc]? = some instr)
    (is : instr.opcode = .setField) : Leads f pc (pc + 2)

/-- Control may come to a position from the first one. -/
def IsReachable (f : Function) : Nat → Prop := Relation.ReflTransGen f.Leads 0

/-- Control leads to no data instruction. -/
def LeadsToNoData (f : Function) : Prop :=
  ∀ (pc : Nat) (instr : Instruction), f.IsReachable pc → f.code[pc]? = some instr →
    instr.opcode ≠ .opData

/-- Every data instruction is behind a field write and the target of no jump. -/
structure DataInPlace (f : Function) : Prop where
  behind : ∀ (pc : Nat) (data : Instruction), f.code[pc]? = some data → data.opcode = .opData →
    ∃ (before : Nat) (field : Instruction), pc = before + 1 ∧ f.code[before]? = some field
      ∧ field.opcode = .setField
  untargeted : ∀ (pc : Nat) (jump data : Instruction), f.code[pc]? = some jump →
    jump.opcode.isJump = true → f.code[jump.target.toNat]? = some data → data.opcode ≠ .opData

variable {f : Function}

/-- Control leads to no data instruction that is in its place. -/
theorem DataInPlace.leadsToNoData (inPlace : f.DataInPlace) (verified : f.Verified) :
    f.LeadsToNoData := by
  intro pc data reached found is
  obtain ⟨before, field, rfl, foundField, isField⟩ := inPlace.behind pc data found is
  generalize there : before + 1 = target at reached found
  cases reached with
  | refl => omega
  | tail _ last =>
    cases last with
    | next foundLast falls =>
      obtain rfl : before = _ := Nat.succ_injective there
      obtain rfl := Option.some.inj (foundField.symm.trans foundLast)
      rw [isField] at falls
      cases falls
    | jump foundLast jumps => exact inPlace.untargeted _ _ _ foundLast jumps found is
    | beyond foundLast isLast =>
      -- What stands before is the data of the field write passed over, and no field write.
      obtain ⟨-, data', behind, isData⟩ := (verified.checked foundLast).setField isLast
      obtain rfl : before = _ + 1 := Nat.succ_injective there
      obtain rfl := Option.some.inj (foundField.symm.trans behind)
      rw [isField] at isData
      cases isData

end Function

/-- Control goes where the code leads. -/
def Flow.Follows (f : Function) (pc : Nat) : Flow → Prop
  | .next => f.Leads pc (pc + 1)
  | .jump target => f.Leads pc target
  | .finish _ => True

namespace Effect

variable {f : Function} {instr : Instruction} {pc : Nat}

/-- A built-in instruction passes control on where the code leads. -/
theorem follows_of {s : Store} {flow : Flow} (found : f.code[pc]? = some instr)
    (flows : (Effect.of f instr pc s).1 = .ok flow) : flow.Follows f pc := by
  rcases flow_of flows with ⟨rfl, on⟩ | ⟨rfl, jumps⟩ | ⟨rfl, is⟩ | ⟨⟨v, rfl⟩, -⟩
  · -- Neither a field write nor a data instruction goes on to the next position.
    have noField : instr.opcode ≠ .setField := by
      intro is
      unfold Effect.of at flows
      rw [is] at flows
      dsimp only [setField] at flows
      split at flows
      · cases flows
      · split at flows <;> cases flows
    have noData : instr.opcode ≠ .opData := by
      intro is
      unfold Effect.of at flows
      rw [is] at flows
      cases flows
    exact .next found (by simp [Opcode.fallsThrough, on, noField, noData])
  · exact .jump found jumps
  · exact .beyond found is
  · trivial

/-- An instruction, by its handler or as built in, passes control on where the code leads. -/
theorem follows_dispatch (m : Machine) {s : Store} {flow : Flow}
    (found : f.code[pc]? = some instr) (flows : (dispatch m f instr pc s).1 = .ok flow) :
    flow.Follows f pc := by
  rcases dispatch_cases m f instr pc s with ⟨t, eq⟩ | ⟨operator, t, eq⟩ | ⟨fault, t, eq, -⟩
  · rw [eq, fst_finishing] at flows
    exact follows_of found flows
  · rw [eq] at flows
    cases flows
    refine .next found ?_
    cases is : instr.opcode
      <;> simp_all [Opcode.category?, Opcode.fallsThrough, Opcode.isTerminator]
  · rw [eq] at flows
    cases flows

/-- An instruction that is no data instruction does not fault at what verification checks. -/
theorem sound_dispatch (m : Machine) (verified : f.Verified) (found : f.code[pc]? = some instr)
    (s : Store) (noData : instr.opcode ≠ .opData) :
    Operator.Sound (dispatch m f instr pc s).1 := by
  rcases dispatch_cases m f instr pc s with ⟨t, eq⟩ | ⟨-, t, eq⟩ | ⟨fault, t, eq, may⟩
  · rw [eq, fst_finishing]
    exact sound_of verified found t noData
  · rw [eq]
    exact Operator.faults_ok _
  · rw [eq]
    exact Operator.faults_error may

end Effect

namespace Machine

variable {m : Machine} {f : Function} {p q : Progress} {n : Nat}

/-- One instruction takes a run where the code leads. -/
theorem leads_step (verified : f.Verified) (fits : p.store.frame.Fits f)
    (steps : m.step f p = .running q) : f.Leads p.pc q.pc := by
  cases found : f.code[p.pc]? with
  | none =>
    rw [step, found] at steps
    cases steps
  | some instr =>
    obtain ⟨statistics, -, eq⟩ := step_eq (m := m) verified found fits
    have follows : ∀ flow : Flow, (Effect.dispatch m f instr p.pc p.store).1 = .ok flow →
        flow.Follows f p.pc := fun flow flows => Effect.follows_dispatch m found flows
    rw [eq] at steps
    generalize Effect.dispatch m f instr p.pc p.store = ending at steps follows
    obtain ⟨result, t⟩ := ending
    cases result with
    | error fault => cases steps
    | ok flow => cases flow <;> cases steps <;> exact follows _ rfl

/-- A run stands only where control leads. -/
theorem reachable_runFor (verified : f.Verified) (inside : p.pc < f.code.size)
    (fits : p.store.frame.Fits f) (reached : f.IsReachable p.pc)
    (runs : m.runFor f n p = .running q) : f.IsReachable q.pc := by
  induction n generalizing p with
  | zero =>
    cases runs
    exact reached
  | succ n ih =>
    have kept := safe_step m verified inside fits
    rw [runFor] at runs
    cases steps : m.step f p with
    | ended outcome r =>
      rw [steps] at runs
      cases runs
    | running r =>
      rw [steps] at runs kept
      exact ih kept.1 kept.2 (reached.tail (leads_step verified fits steps)) runs

/-- What a run fetches stands where the run has been. -/
theorem running_of_mem_fetched {instr : Instruction} (mem : instr ∈ m.fetched f n p) :
    ∃ k q, m.runFor f k p = .running q ∧ f.code[q.pc]? = some instr := by
  induction n generalizing p with
  | zero => cases mem
  | succ n ih =>
    rw [fetched] at mem
    cases found : f.code[p.pc]? with
    | none =>
      rw [found] at mem
      cases mem
    | some first =>
      rw [found] at mem
      rcases List.mem_cons.mp mem with rfl | later
      · exact ⟨0, p, rfl, found⟩
      · cases steps : m.step f p with
        | ended outcome r =>
          rw [steps] at later
          cases later
        | running r =>
          rw [steps] at later
          obtain ⟨k, q, runs, there⟩ := ih later
          refine ⟨k + 1, q, ?_, there⟩
          rw [runFor, steps]
          exact runs

/-- An instruction that is no data instruction does not end a run of a verified function at
a fault of the code. -/
theorem sound_step (verified : f.Verified) (fits : p.store.frame.Fits f)
    {instr : Instruction} (found : f.code[p.pc]? = some instr) (noData : instr.opcode ≠ .opData)
    {cause : CodeFault} : m.step f p ≠ .ended (.failed (.code cause)) q := by
  intro ends
  obtain ⟨statistics, -, eq⟩ := step_eq (m := m) verified found fits
  have sound := Effect.sound_dispatch m verified found p.store noData
  rw [eq] at ends
  generalize Effect.dispatch m f instr p.pc p.store = ending at ends sound
  obtain ⟨result, t⟩ := ending
  cases result with
  | ok flow => cases flow <;> cases ends
  | error fault =>
    have reported : outcomeOf m.options fault = .failed (.code cause) := (Step.ended.inj ends).1
    refine sound fault rfl ?_
    cases fault with
    | contract violation =>
      unfold outcomeOf at reported
      dsimp only at reported
      split at reported <;> cases reported
    | _ => cases reported <;> trivial

/-- A run of a verified function stands only where control leads. If control leads to no
data instruction, then none is ever fetched and the run does not end at a fault of the
code, that of a data instruction on its own included. Control leads to none if each is
behind a field write and the target of no jump. -/
theorem data_is_fetched_only_where_control_leads {f : Function} (verified : f.verify = .ok ())
    (m : Machine) (s : Store) :
    (∀ n p, m.runFor f n (m.start f s) = .running p → f.IsReachable p.pc)
      ∧ (f.LeadsToNoData →
        (∀ n, ∀ instr ∈ m.fetched f n (m.start f s), instr.opcode ≠ .opData)
          ∧ ∀ cause, (m.executeIn f s).1 ≠ .failed (.code cause))
      ∧ (f.DataInPlace → f.LeadsToNoData) := by
  have order := Function.verified_of_verify verified
  have fits : (m.start f s).store.frame.Fits f := s.frame.fits_prepare f
  have reached : ∀ n p, m.runFor f n (m.start f s) = .running p → f.IsReachable p.pc :=
    fun n p runs => reachable_runFor (p := m.start f s) order order.nonempty fits .refl runs
  refine ⟨reached, fun none => ⟨fun n instr mem => ?_, fun cause ends => ?_⟩,
    fun inPlace => inPlace.leadsToNoData order⟩
  · obtain ⟨k, q, runs, found⟩ := running_of_mem_fetched mem
    exact none _ _ (reached k q runs) found
  · have safe := safe_runFor m order (p := m.start f s) (n := budget m.options.maxInstructions)
      order.nonempty fits
    rw [executeIn_eq m verified] at ends
    cases run : m.runFor f (budget m.options.maxInstructions) (m.start f s) with
    | running p =>
      rw [run] at ends safe
      dsimp only at ends
      unfold cutShort exhausted at ends
      rw [Array.getElem?_eq_getElem safe.1] at ends
      dsimp only at ends
      split at ends <;> cases ends
    | ended outcome p =>
      rw [run] at ends
      obtain rfl : outcome = .failed (.code cause) := ends
      obtain ⟨k, r, before, last⟩ := ended_at run
      have there := safe_runFor m order (p := m.start f s) (n := k) order.nonempty fits
      rw [before] at there
      have found : f.code[r.pc]? = some f.code[r.pc] := Array.getElem?_eq_getElem there.1
      exact sound_step order there.2 found (none _ _ (reached k r before) found) last

/-- Stores in a field, over and over, and counts how often. -/
def filling : Function where
  name := "filling"
  code := #[
    ⟨.newComposite, .const 0, .unused, .temp 0, 0⟩,
    ⟨.assign, .var 0, .temp 0, .unused, 0⟩,
    ⟨.setField, .var 0, .const 1, .unused, 0⟩,
    ⟨.opData, .var 1, .unused, .unused, 0⟩,
    ⟨.step .pre .up, .var 1, .unused, .unused, 0⟩,
    ⟨.comparison .smaller, .var 1, .const 2, .temp 0, 0⟩,
    ⟨.jmpIfFalse, .temp 0, .unused, .unused, 8⟩,
    ⟨.jmp, .unused, .unused, .unused, 2⟩,
    ⟨.ret, .var 0, .unused, .unused, 0⟩]
  constants := #[.str "Counter", .str "n", .int 3]
  temporaries := 1
  variableNames := #["c", "n"]

theorem dataInPlace_filling : filling.DataInPlace where
  behind pc data found is := by
    have inside : pc < 9 := (Array.getElem?_eq_some_iff.mp found).1
    interval_cases pc <;> cases found <;> cases is
    exact ⟨2, _, rfl, rfl, rfl⟩
  untargeted pc jump data found jumps there := by
    have inside : pc < 9 := (Array.getElem?_eq_some_iff.mp found).1
    -- Only the two jumps are left.
    interval_cases pc <;> cases found <;> cases jumps
    · cases there
      nofun
    · cases there
      nofun

/-- The data of a field that is stored in a loop is never fetched. -/
theorem filling_fetches_no_data :
    filling.verify = .ok () ∧ filling.DataInPlace
      ∧ (∀ n, ∀ instr ∈ (ofTable .standard .empty).fetched filling n
          ((ofTable .standard .empty).start filling default), instr.opcode ≠ .opData)
      ∧ ∀ cause, ((ofTable .standard .empty).executeIn filling default).1
        ≠ .failed (.code cause) := by
  obtain ⟨-, unfetched, inPlace⟩ :=
    data_is_fetched_only_where_control_leads (f := filling) rfl (ofTable .standard .empty) default
  obtain ⟨never, sound⟩ := unfetched (inPlace dataInPlace_filling)
  exact ⟨rfl, dataInPlace_filling, never, sound⟩

/-- Jumps behind a field write, to its data. -/
def trespassing : Function where
  name := "trespassing"
  code := #[
    ⟨.jmp, .unused, .unused, .unused, 2⟩,
    ⟨.setField, .var 0, .const 0, .unused, 0⟩,
    ⟨.opData, .const 0, .unused, .unused, 0⟩,
    ⟨.ret, .unused, .unused, .unused, 0⟩]
  constants := #[.str "k"]
  temporaries := 0
  variableNames := #["a"]

/-- Has data behind an instruction that is no field write. -/
def straying : Function where
  name := "straying"
  code := #[
    ⟨.nop, .unused, .unused, .unused, 0⟩,
    ⟨.opData, .const 0, .unused, .unused, 0⟩,
    ⟨.ret, .unused, .unused, .unused, 0⟩]
  constants := #[.int 1]
  temporaries := 0
  variableNames := #[]

/-- Verification does not keep control away from data instructions: one that is the target
of a jump, or behind another instruction than a field write, is fetched and ends the run. -/
theorem verified_code_may_fetch_data :
    (trespassing.verify = .ok ()
        ∧ (∃ p data, (ofTable .standard .empty).runFor trespassing 1
            ((ofTable .standard .empty).start trespassing default) = .running p
          ∧ trespassing.code[p.pc]? = some data ∧ data.opcode = .opData)
        ∧ ((ofTable .standard .empty).executeIn trespassing default).1
          = .failed (.code (.strayData 2)))
      ∧ straying.verify = .ok ()
        ∧ (∃ p data, (ofTable .standard .empty).runFor straying 1
            ((ofTable .standard .empty).start straying default) = .running p
          ∧ straying.code[p.pc]? = some data ∧ data.opcode = .opData)
        ∧ ((ofTable .standard .empty).executeIn straying default).1
          = .failed (.code (.strayData 1)) :=
  ⟨⟨rfl, ⟨_, _, rfl, rfl, rfl⟩, rfl⟩, rfl, ⟨_, _, rfl, rfl, rfl⟩, rfl⟩

end Machine

end OverloadMachine
