import OverloadMachine.DispatchTable
import OverloadMachine.Handler.Call
import OverloadMachine.Machine.Builtin
import OverloadMachine.Options
import OverloadMachine.Statistics

/-!
# The machine

A machine runs functions, one instruction after the other. An instruction whose
opcode has a handler is given to the handler first; what the handler declines,
and every other instruction, is built in. A run ends with a value, with a fault,
or by taking the process down: at a broken contract, if contracts are strict, at a cell
that is opened while it is open, and at a recursion over values that does not end.
-/

namespace OverloadMachine

/-- A machine between runs. -/
structure Machine where
  options : Options
  table : DispatchTable Handler
  statistics : Statistics

/-- How a run ends. -/
inductive Outcome where
  /-- With a value, whose handle passes to the caller. -/
  | returned (v : Value)
  | failed (fault : Fault)
  /-- By taking the process down. -/
  | aborted (cause : Abort)
  /-- Not before a 64-bit count of the instructions is full. -/
  | unended

/-- A run between two instructions. -/
structure Progress where
  store : Store
  statistics : Statistics
  /-- Position of the next instruction. -/
  pc : Nat

/-- What becomes of a run by one instruction. -/
inductive Step where
  | running (p : Progress)
  | ended (outcome : Outcome) (p : Progress)

namespace Machine

/-- New machine with a table of handlers. -/
def ofTable (options : Options) (table : DispatchTable Handler) : Machine :=
  ⟨options, table, .zero⟩

/-- New machine with the shared table of the process, which is frozen by this. -/
def ofShared (options : Options) (shared : SharedTable Handler) :
    Machine × SharedTable Handler :=
  let (table, shared) := shared.freeze
  (ofTable options table, shared)

/-- Set the counters to zero. -/
def resetStatistics (m : Machine) : Machine := { m with statistics := .zero }

/-- The built-in instruction, with the scratch slot emptied behind it unless it opens a
cell that is open. -/
def builtin (f : Function) (instr : Instruction) (pc : Nat) (s : Store) :
    Except Fault Flow × Store :=
  match Builtin.execute f instr pc s with
  | (.error .reentry, s) => (.error .reentry, s)
  | (result, s) => (result, s.overwrite (.slot .scratch) .null)

/-- Execute one instruction: by its handler if there is one that handles it, else
as built in. -/
def dispatch (m : Machine) (f : Function) (instr : Instruction) (p : Progress) :
    Except Fault Flow × Store × Statistics :=
  match m.table.lookup instr.opcode with
  | none =>
    let (result, s) := builtin f instr p.pc p.store
    (result, s, p.statistics)
  | some handler =>
    match Action.invoke handler f.constants m.options.negationOrder instr p.store with
    | (.error fault, s) => (.error fault, s, p.statistics)
    | (.ok .handled, s) =>
      (.ok .next, s, { p.statistics with handled := p.statistics.handled.add instr.opcode })
    | (.ok .declined, s) =>
      let (result, s) := builtin f instr p.pc s
      (result, s, { p.statistics with declined := p.statistics.declined.add instr.opcode })

/-- How a run ends that ends in a fault. -/
def outcomeOf (options : Options) (fault : Fault) : Outcome :=
  match fault with
  | .contract violation =>
    if options.strictContracts then .aborted (.contract violation) else .failed fault
  | .reentry => .aborted .reentry
  | .overflow => .aborted .overflow
  | _ => .failed fault

/-- Fetch and execute one instruction. -/
def step (m : Machine) (f : Function) (p : Progress) : Step :=
  match f.code[p.pc]? with
  | none => .ended (.failed (.code (.positionOutOfRange p.pc))) p
  | some instr =>
    let counted :=
      { p with statistics :=
        { p.statistics with instructions := p.statistics.instructions + 1 } }
    let (result, store, statistics) := m.dispatch f instr counted
    match result with
    | .ok .next => .running ⟨store, statistics, p.pc + 1⟩
    | .ok (.jump pc) => .running ⟨store, statistics, pc⟩
    | .ok (.finish v) => .ended (.returned v) ⟨store, statistics, p.pc⟩
    | .error fault => .ended (outcomeOf m.options fault) ⟨store, statistics, p.pc⟩

/-- Execute at most `fuel` instructions. -/
def runFor (m : Machine) (f : Function) : (fuel : Nat) → Progress → Step
  | 0, p => .running p
  | fuel + 1, p =>
    match m.step f p with
    | .running p => runFor m f fuel p
    | ended => ended

/-- The largest 64-bit count of instructions. No count exceeds it, so as a limit it does
not stop a run, and beyond it the counters of a run have no room. -/
def fullCount : UInt64 := 0xFFFFFFFFFFFFFFFF

/-- Number of instructions after which a run is cut short. -/
def budget (limit : Option UInt64) : Nat := (limit.getD fullCount).toNat

/-- How a run ends that has used up its instructions and would execute another one. -/
def exhausted (limit : Option UInt64) : Outcome :=
  if limit.getD fullCount = fullCount then .unended
  else .failed (.outOfInstructions (budget limit))

/-- End a run that has used up its instructions. That there is no instruction at
the position is noticed first. -/
def cutShort (f : Function) (limit : Option UInt64) (p : Progress) : Outcome :=
  match f.code[p.pc]? with
  | none => .failed (.code (.positionOutOfRange p.pc))
  | some _ => exhausted limit

/-- Run a function from its first instruction on. -/
def run (m : Machine) (f : Function) (s : Store) : Outcome × Progress :=
  match m.runFor f (budget m.options.maxInstructions) ⟨s, m.statistics, 0⟩ with
  | .ended outcome p => (outcome, p)
  | .running p => (cutShort f m.options.maxInstructions p, p)

/-- Run a function in a frame, which is grown to the function's needs. With
verification on, a function that is not in order does not start. -/
def executeIn (m : Machine) (f : Function) (s : Store) : Outcome × Machine × Store :=
  match if m.options.verify then f.verify else .ok () with
  | .error defect => (.failed (.unverified defect), m, s)
  | .ok () =>
    let frame := s.frame.prepare f.temporaries f.variableNames.size
    let (outcome, p) := m.run f { s with frame := frame }
    (outcome, { m with statistics := p.statistics }, p.store)

/-- Frame of the size that a function needs. -/
def frameFor (f : Function) : Frame := .ofSizes f.temporaries f.variableNames.size

/-- Run a function in a frame of its own, which is given up afterwards. -/
def execute (m : Machine) (f : Function) (s : Store) : Outcome × Machine × Store :=
  let (outcome, m, t) := m.executeIn f { s with frame := frameFor f }
  (outcome, m, { t with heap := t.heap.releaseAll t.frame.values, frame := s.frame })

/-- Listing of a machine. -/
def listing (m : Machine) : String :=
  "Vm \x7b options: " ++ m.options.listing ++ ", table: " ++ m.table.listing
    ++ ", instructions: " ++ toString m.statistics.instructions ++ " \x7d"

end Machine

end OverloadMachine
