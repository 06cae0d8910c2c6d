import OverloadMachine.Opcode

/-!
# Dispatch tables

A dispatch table gives operators their handlers. It is filled by a builder, which
refuses opcodes that are no operators, and is then frozen. A process has one
shared table, which takes registrations until it is first used.
-/

namespace OverloadMachine

variable {α : Type}

/-- At most one handler for each operator. -/
structure DispatchTable (α : Type) where
  /-- The handler of an opcode. -/
  lookup : Opcode → Option α
  /-- Only operators have handlers. -/
  operators : ∀ op, (lookup op).isSome → op.category?.isSome

/-- Why a handler is not registered. -/
inductive RegistrationError where
  | notOperator (opcode : Opcode)
  | frozen
  deriving DecidableEq, Repr

/-- Text of the reason. -/
def RegistrationError.message : RegistrationError → String
  | notOperator opcode => "opcode " ++ opcode.name ++ " cannot be intercepted"
  | frozen => "dispatch table is frozen"

namespace DispatchTable

/-- The table without handlers. -/
def empty : DispatchTable α := ⟨fun _ => none, fun _ h => by simp at h⟩

instance : Inhabited (DispatchTable α) := ⟨empty⟩

/-- Whether an opcode has a handler. -/
def contains (t : DispatchTable α) (op : Opcode) : Bool := (t.lookup op).isSome

/-- The opcodes with a handler, in the order of their bytes. -/
def opcodes (t : DispatchTable α) : List Opcode := Opcode.all.filter t.contains

/-- Number of handlers. -/
def size (t : DispatchTable α) : Nat := t.opcodes.length

/-- Give an operator a handler, or none. -/
def set (t : DispatchTable α) (op : Opcode) (h : op.category?.isSome) (handler : Option α) :
    DispatchTable α where
  lookup o := if o = op then handler else t.lookup o
  operators o ho := by
    by_cases eq : o = op
    · exact eq ▸ h
    · exact t.operators o (by simpa [eq] using ho)

/-- Listing of opcodes by their labels. -/
def listOpcodes (ops : List Opcode) : String :=
  "[" ++ ", ".intercalate (ops.map (·.label)) ++ "]"

/-- Listing of a table. -/
def listing (t : DispatchTable α) : String :=
  "DispatchTable \x7b count: " ++ toString t.size ++ ", opcodes: "
    ++ listOpcodes t.opcodes ++ " \x7d"

/-- What is found after a handler was set. -/
theorem lookup_set (t : DispatchTable α) {op : Opcode} (h : op.category?.isSome)
    (handler : Option α) (o : Opcode) :
    (t.set op h handler).lookup o = if o = op then handler else t.lookup o := rfl

/-- A table under construction. -/
structure Builder (α : Type) where
  table : DispatchTable α

namespace Builder

/-- Start with a table without handlers. -/
def empty : Builder α := ⟨.empty⟩

/-- Give an opcode a handler, or none; an opcode that is no operator is refused. -/
def register (b : Builder α) (op : Opcode) (handler : Option α) :
    Except RegistrationError Unit × Builder α :=
  if h : op.category?.isSome then (.ok (), ⟨b.table.set op h handler⟩)
  else (.error (.notOperator op), b)

/-- Give opcodes their handlers in order, up to the first that is refused. -/
def registerAll (b : Builder α) : List (Opcode × α) → Except RegistrationError Unit × Builder α
  | [] => (.ok (), b)
  | (op, handler) :: rest =>
    match b.register op (some handler) with
    | (.ok (), b) => b.registerAll rest
    | (.error e, b) => (.error e, b)

/-- End the construction. -/
def freeze (b : Builder α) : DispatchTable α := b.table

/-- Listing of a table under construction. -/
def listing (b : Builder α) : String :=
  "DispatchTableBuilder \x7b opcodes: " ++ listOpcodes b.table.opcodes ++ " \x7d"

end Builder

end DispatchTable

/-- The table that the machines of a process share. -/
inductive SharedTable (α : Type) where
  /-- Registrations are taken. -/
  | staging (builder : DispatchTable.Builder α)
  /-- The table is in use. -/
  | frozen (table : DispatchTable α)

namespace SharedTable

/-- The shared table of a new process. -/
def start : SharedTable α := staging .empty

/-- Let registrations act on the builder, if they are still taken. -/
def withBuilder (s : SharedTable α)
    (act : DispatchTable.Builder α → Except RegistrationError Unit × DispatchTable.Builder α) :
    Except RegistrationError Unit × SharedTable α :=
  match s with
  | staging builder =>
    let (result, builder) := act builder
    (result, staging builder)
  | frozen _ => (.error .frozen, s)

/-- Give an opcode a handler, or none. -/
def register (s : SharedTable α) (op : Opcode) (handler : Option α) :
    Except RegistrationError Unit × SharedTable α :=
  s.withBuilder fun b => b.register op handler

/-- Freeze the table, if it is not frozen, and give it. -/
def freeze (s : SharedTable α) : DispatchTable α × SharedTable α :=
  match s with
  | staging builder => (builder.freeze, frozen builder.freeze)
  | frozen table => (table, frozen table)

/-- The table, once it is frozen. -/
def table? : SharedTable α → Option (DispatchTable α)
  | staging _ => none
  | frozen table => some table

end SharedTable

end OverloadMachine
