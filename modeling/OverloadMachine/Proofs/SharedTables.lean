import OverloadMachine.Machine

/-!
# The life of the shared table

The shared table of a process is kept in two pieces: the builder that registrations act
on, and the table that is published. It is frozen by whoever first asks for it to be, or
makes a machine that uses it; the builder is taken away and its table is published.
However requests follow one another, one of the two pieces is there and the other is not.
What is published are the last registrations that were accepted before, and neither a
late registration nor a second freezing changes it.
-/

namespace OverloadMachine

variable {α β : Type}

/-- Tables in which the same is found are equal. -/
theorem DispatchTable.ext_lookup {t u : DispatchTable α} (same : ∀ op, t.lookup op = u.lookup op) :
    t = u := by
  obtain ⟨lookup, _⟩ := t
  obtain ⟨lookup', _⟩ := u
  obtain rfl : lookup = lookup' := funext same
  rfl

/-! ## Registrations -/

/-- Registrations that were accepted, the last one first. -/
structure Registrations (α : Type) where
  entries : List (Opcode × Option α)
  /-- Only operators are accepted. -/
  operators : ∀ e ∈ entries, e.1.category?.isSome

namespace Registrations

/-- No registrations. -/
def none : Registrations α := ⟨[], fun _ mem => absurd mem List.not_mem_nil⟩

/-- What the last registration of an opcode gave it: a handler, or none. -/
def last (r : Registrations α) (op : Opcode) : Option α :=
  (r.entries.find? fun e => e.1 == op).bind (·.2)

/-- The table of what was registered last. -/
def table (r : Registrations α) : DispatchTable α where
  lookup := r.last
  operators op has := by
    cases found : r.entries.find? fun e => e.1 == op with
    | none =>
      rw [last, found] at has
      cases has
    | some e =>
      have same : (e.1 == op) = true :=
        List.find?_some (p := fun e : Opcode × Option α => e.1 == op) found
      exact eq_of_beq same ▸ r.operators e (List.mem_of_find?_eq_some found)

/-- Registrations and another one, of an operator. -/
def accept (r : Registrations α) (op : Opcode) (h : op.category?.isSome) (handler : Option α) :
    Registrations α where
  entries := (op, handler) :: r.entries
  operators e mem := by
    rcases List.mem_cons.mp mem with rfl | old
    · exact h
    · exact r.operators e old

/-- What is registered last is found. -/
theorem table_accept (r : Registrations α) {op : Opcode} (h : op.category?.isSome)
    (handler : Option α) : (r.accept op h handler).table = r.table.set op h handler := by
  refine DispatchTable.ext_lookup fun o => ?_
  rw [DispatchTable.lookup_set]
  simp only [table, last, accept, List.find?_cons]
  by_cases eq : o = op
  · simp [eq]
  · have other : (op == o) = false := beq_false_of_ne (Ne.symm eq)
    rw [other, if_neg eq]

/-- Accept a registration, unless its opcode is no operator. -/
def register (r : Registrations α) (op : Opcode) (handler : Option α) :
    Except RegistrationError Unit × Registrations α :=
  if h : op.category?.isSome then (.ok (), r.accept op h handler)
  else (.error (.notOperator op), r)

/-- A builder registers what is accepted. -/
theorem register_table (r : Registrations α) (op : Opcode) (handler : Option α) :
    (⟨r.table⟩ : DispatchTable.Builder α).register op handler
      = ((r.register op handler).1, ⟨(r.register op handler).2.table⟩) := by
  unfold DispatchTable.Builder.register register
  split
  · rename_i h
    rw [table_accept]
  · rfl

end Registrations

/-- What is done with the builder while it is lent: handlers are registered and what is
registered is looked at, and a result is made of the answers. -/
inductive TableSession (α β : Type) where
  | done (result : β)
  | register (op : Opcode) (handler : Option α)
    (next : Except RegistrationError Unit → TableSession α β)
  | look (next : DispatchTable α → TableSession α β)

namespace TableSession

/-- What is done on a builder. -/
def run (b : DispatchTable.Builder α) : TableSession α β → β × DispatchTable.Builder α
  | done result => (result, b)
  | register op handler next =>
    let (answer, b) := b.register op handler
    run b (next answer)
  | look next => run b (next b.table)

/-- The result, and the registrations afterwards. -/
def log (r : Registrations α) : TableSession α β → β × Registrations α
  | done result => (result, r)
  | register op handler next => log (r.register op handler).2 (next (r.register op handler).1)
  | look next => log r (next r.table)

/-- On a builder the accepted registrations of a session are made. -/
theorem run_table (r : Registrations α) (session : TableSession α β) :
    session.run ⟨r.table⟩ = ((session.log r).1, ⟨(session.log r).2.table⟩) := by
  induction session generalizing r with
  | done result => rfl
  | register op handler next ih =>
    rw [run, r.register_table, log]
    exact ih _ _
  | look next ih => exact ih _ r

end TableSession

/-! ## Requests -/

/-- What may be asked of the shared table. -/
inductive TableRequest (β : Type) where
  | register (op : Opcode) (handler : Option Handler)
  | session (session : TableSession Handler β)
  | freeze
  | table
  /-- Make a machine that uses the table. -/
  | machine (options : Options)

/-- Whether a request freezes the table. -/
def TableRequest.freezes : TableRequest β → Bool
  | freeze | machine _ => true
  | register _ _ | session _ | table => false

/-- What is replied. -/
inductive TableReply (β : Type) where
  | registered (result : Except RegistrationError Unit)
  | session (result : Except RegistrationError β)
  | frozen (table : DispatchTable Handler)
  | table (table? : Option (DispatchTable Handler))
  | machine (m : Machine)

/-- Reply to requests, one after the other. -/
def answerAll {σ : Type} (answer : σ → TableRequest β → TableReply β × σ) (s : σ) :
    List (TableRequest β) → List (TableReply β) × σ
  | [] => ([], s)
  | request :: rest =>
    let later := answerAll answer (answer s request).2 rest
    ((answer s request).1 :: later.1, later.2)

/-- Reply while registrations are taken: they are made, and there is no table. -/
def Registrations.answer (r : Registrations Handler) :
    TableRequest β → TableReply β × Registrations Handler
  | .register op handler => (.registered (r.register op handler).1, (r.register op handler).2)
  | .session session => (.session (.ok (session.log r).1), (session.log r).2)
  | .freeze => (.frozen r.table, r)
  | .table => (.table Option.none, r)
  | .machine options => (.machine (.ofTable options r.table), r)

/-- What is replied when the table is frozen: registrations are refused, and whoever asks for
the table gets it. -/
def DispatchTable.reply (t : DispatchTable Handler) : TableRequest β → TableReply β
  | .register _ _ => .registered (.error .frozen)
  | .session _ => .session (.error .frozen)
  | .freeze => .frozen t
  | .table => .table (some t)
  | .machine options => .machine (.ofTable options t)

namespace SharedTable

/-- Lend the builder, if there is one. -/
def lend (s : SharedTable α) (act : DispatchTable.Builder α → β × DispatchTable.Builder α) :
    Except RegistrationError β × SharedTable α :=
  match s with
  | staging builder => (.ok (act builder).1, staging (act builder).2)
  | frozen _ => (.error .frozen, s)

/-- Reply to a request. -/
def answer (s : SharedTable Handler) : TableRequest β → TableReply β × SharedTable Handler
  | .register op handler => (.registered (s.register op handler).1, (s.register op handler).2)
  | .session session => (.session (s.lend session.run).1, (s.lend session.run).2)
  | .freeze => (.frozen s.freeze.1, s.freeze.2)
  | .table => (.table s.table?, s)
  | .machine options =>
    (.machine (Machine.ofShared options s).1, (Machine.ofShared options s).2)

/-- While registrations are taken a request that does not freeze the table acts on the
builder. -/
theorem answer_staging (r : Registrations Handler) {request : TableRequest β}
    (keeps : request.freezes = false) :
    (staging ⟨r.table⟩).answer request
      = ((r.answer request).1, staging ⟨(r.answer request).2.table⟩) := by
  cases request with
  | register op handler =>
    simp only [answer, register, withBuilder, r.register_table]
    rfl
  | session session =>
    simp only [answer, lend, session.run_table]
    rfl
  | table => rfl
  | freeze => cases keeps
  | machine options => cases keeps

/-- The request that freezes the table publishes what is registered. -/
theorem answer_staging_of_freezes (r : Registrations Handler) {request : TableRequest β}
    (freezes : request.freezes = true) :
    (staging ⟨r.table⟩).answer request = (r.table.reply request, frozen r.table) := by
  cases request with
  | freeze => rfl
  | machine options => rfl
  | register op handler => cases freezes
  | session session => cases freezes
  | table => cases freezes

/-- No request changes the table when it is frozen. -/
theorem answer_frozen (t : DispatchTable Handler) (request : TableRequest β) :
    (frozen t).answer request = (t.reply request, frozen t) := by
  cases request <;> rfl

theorem answerAll_frozen (t : DispatchTable Handler) (requests : List (TableRequest β)) :
    answerAll answer (frozen t) requests = (requests.map t.reply, frozen t) := by
  induction requests with
  | nil => rfl
  | cons request rest ih => rw [answerAll, answer_frozen, ih, List.map_cons]

/-- Requests act on one builder up to the first that freezes the table, and from there on get
the table that it publishes. -/
theorem answerAll_staging (r : Registrations Handler) (requests : List (TableRequest β)) :
    let later := requests.dropWhile fun request => !request.freezes
    let taken := answerAll Registrations.answer r
      (requests.takeWhile fun request => !request.freezes)
    answerAll answer (staging ⟨r.table⟩) requests
      = (taken.1 ++ later.map taken.2.table.reply,
        if later.isEmpty then staging ⟨taken.2.table⟩ else frozen taken.2.table) := by
  induction requests generalizing r with
  | nil => rfl
  | cons request rest ih =>
    intro later taken
    cases freezes : request.freezes with
    | true =>
      have all : later = request :: rest := by simp [later, freezes]
      have none : taken = ([], r) := by simp [taken, freezes, answerAll]
      rw [answerAll, answer_staging_of_freezes r freezes, answerAll_frozen, all, none]
      rfl
    | false =>
      have others : later = rest.dropWhile fun request => !request.freezes := by
        simp [later, freezes]
      have first : taken = ((r.answer request).1 :: (answerAll Registrations.answer
          (r.answer request).2 (rest.takeWhile fun request => !request.freezes)).1,
          (answerAll Registrations.answer (r.answer request).2
            (rest.takeWhile fun request => !request.freezes)).2) := by
        simp [taken, freezes, answerAll]
      rw [answerAll, answer_staging r freezes, ih, others, first]
      rfl

end SharedTable

/-! ## Two pieces -/

/-- The builder that registrations act on, while it is there, and the table that is
published, once it is. -/
structure Registry (α : Type) where
  staged : Option (DispatchTable.Builder α)
  published : Option (DispatchTable α)

namespace Registry

/-- A new process. -/
def start : Registry α := ⟨some .empty, none⟩

/-- Lend the builder, if it is there. -/
def lend (s : Registry α) (act : DispatchTable.Builder α → β × DispatchTable.Builder α) :
    Except RegistrationError β × Registry α :=
  match s.staged with
  | some builder => (.ok (act builder).1, { s with staged := some (act builder).2 })
  | none => (.error .frozen, s)

/-- Give an opcode a handler, or none. -/
def register (s : Registry α) (op : Opcode) (handler : Option α) :
    Except RegistrationError Unit × Registry α :=
  ((s.lend fun b => b.register op handler).1 >>= id, (s.lend fun b => b.register op handler).2)

/-- Give the published table. If none is published, then the builder is taken away, a new one
if it is not there, and its table is published. -/
def freeze (s : Registry α) : DispatchTable α × Registry α :=
  match s.published with
  | some table => (table, s)
  | none =>
    let builder := s.staged.getD .empty
    (builder.freeze, ⟨none, some builder.freeze⟩)

/-- Reply to a request. -/
def answer (s : Registry Handler) : TableRequest β → TableReply β × Registry Handler
  | .register op handler => (.registered (s.register op handler).1, (s.register op handler).2)
  | .session session => (.session (s.lend session.run).1, (s.lend session.run).2)
  | .freeze => (.frozen s.freeze.1, s.freeze.2)
  | .table => (.table s.published, s)
  | .machine options => (.machine (.ofTable options s.freeze.1), s.freeze.2)

end Registry

namespace SharedTable

/-- The two pieces of a shared table: one is there and the other is not. -/
def pieces : SharedTable α → Registry α
  | staging builder => ⟨some builder, none⟩
  | frozen table => ⟨none, some table⟩

/-- The two pieces are kept as the shared table is. -/
theorem answer_pieces (s : SharedTable Handler) (request : TableRequest β) :
    s.pieces.answer request = ((s.answer request).1, (s.answer request).2.pieces) := by
  cases s with
  | staging builder => cases request <;> rfl
  | frozen table => cases request <;> rfl

theorem answerAll_pieces (s : SharedTable Handler) (requests : List (TableRequest β)) :
    answerAll Registry.answer s.pieces requests
      = ((answerAll answer s requests).1, (answerAll answer s requests).2.pieces) := by
  induction requests generalizing s with
  | nil => rfl
  | cons request rest ih => rw [answerAll, answer_pieces, ih, answerAll]

/-- However requests follow one another, up to the first one that freezes the table there is
no table and every registration acts on one builder, which refuses what is no operator and
stays as it is; that request publishes the last registration of each opcode that was
accepted; and from then on every registration is refused, and everyone gets the table that
was published. The builder and the published table, kept apart, give the same replies, and
always one of them is there and the other is not. -/
theorem first_freezing_settles_the_shared_table (requests : List (TableRequest β)) :
    let before := requests.takeWhile fun request => !request.freezes
    let later := requests.dropWhile fun request => !request.freezes
    let taken := answerAll Registrations.answer .none before
    answerAll answer .start requests
        = (taken.1 ++ later.map taken.2.table.reply,
          if later.isEmpty then staging ⟨taken.2.table⟩ else frozen taken.2.table)
      ∧ (∀ op, taken.2.table.lookup op = taken.2.last op)
      ∧ answerAll Registry.answer .start requests
        = ((answerAll answer .start requests).1, (answerAll answer .start requests).2.pieces) := by
  have empty : (.start : SharedTable Handler) = staging ⟨Registrations.none.table⟩ :=
    congrArg (fun table => staging ⟨table⟩) (DispatchTable.ext_lookup fun op => rfl)
  refine ⟨?_, fun op => rfl, answerAll_pieces .start requests⟩
  rw [empty]
  exact answerAll_staging .none requests

/-- Of two registrations of one operator the second one takes the handler away, and what comes
behind the first machine is refused. -/
example :
    let requests : List (TableRequest Unit) := [
      .register (.arithmetic .sub) (some (.answer .handled)),
      .register (.arithmetic .mul) (some (.answer .handled)),
      .register (.arithmetic .mul) none, .register .jmp none, .machine .standard,
      .register (.arithmetic .add) (some (.answer .handled))]
    (answerAll answer .start requests).2.table?.map (·.opcodes) = some [.arithmetic .sub] := by
  decide

end SharedTable

end OverloadMachine
