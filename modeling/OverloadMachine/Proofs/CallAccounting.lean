import OverloadMachine.Proofs.Declining
import OverloadMachine.Proofs.Runs

/-!
# Accounts of calls

Whatever a handler does through its call, the accounts of the store stay even: a
value that it makes has a handle of its own, a write takes the handle over or gives
it up, and the result that is held back is the only handle that the call keeps. So
every instruction keeps the accounts, by whatever handler it is executed, and so
does every run.
-/

namespace OverloadMachine

/-- What a call shows of a store that is accounted for is alive. -/
theorem CallContext.Of.shows {f : Function} {pc : Nat} {ctx : CallContext} {outside : Node → Nat}
    {held : List Value} {s : Store} (call : ctx.Of f pc) (acc : s.Accounted f outside held) :
    (ctx.view s).Shows s.heap :=
  CallState.Quiet.shows (c := ⟨s, none, none⟩) ⟨.refl s, rfl⟩ call acc

namespace Draft

variable {view : CallView} {k : Heap} {outside : Node → Nat}

mutual

/-- Making a value gives its maker a handle. -/
theorem accounts_build (shows : view.Shows k) (closed : k.Closed) :
    ∀ (draft : Draft) {h : Heap} {held : List Value}, k.Remains h → h.Accounts held outside →
      (draft.build view h).2.Accounts ((draft.build view h).1 :: held) outside
  | .scalar v, h, held, _, accounts => by
    have scalar : (if v.isHandle then Value.null else v).node? = none := by cases v <;> rfl
    exact accounts.congr fun node => by
      unfold build
      rw [Node.uses_cons, node.usedBy_of_node?_eq_none scalar, Nat.zero_add]
  | .copy source, h, held, remains, accounts => by
    have alive := remains.alive (shows.alive_find closed source)
    exact accounts.acquire alive
  | .duplicate source, h, held, remains, accounts => by
    unfold build
    split
    · rename_i c there
      obtain ⟨id, -, found⟩ := Option.bind_eq_some_iff.mp there
      exact accounts.duplicate found
    · exact accounts.congr fun node => by rw [Node.uses_cons, Node.usedBy_null, Nat.zero_add]
  | .new className fields, h, held, remains, accounts => by
    have built := accounts_buildEach shows closed fields remains accounts
    exact built.createWith className
  | .cell content, h, held, remains, accounts => by
    have built := accounts_build shows closed content remains accounts
    exact built.createCell

/-- Making values gives their maker handles. -/
theorem accounts_buildEach (shows : view.Shows k) (closed : k.Closed) :
    ∀ (fields : List (String × Draft)) {h : Heap} {held : List Value}, k.Remains h →
      h.Accounts held outside →
      (buildEach view h fields).2.Accounts ((buildEach view h fields).1.map (·.2) ++ held) outside
  | [], _, _, _, accounts => accounts
  | (key, draft) :: rest, h, held, remains, accounts => by
    have kept := remains_build shows closed draft remains
    have first := accounts_build shows closed draft remains accounts
    have others := accounts_buildEach shows closed rest (remains.trans kept) first
    refine others.congr fun node => ?_
    simp only [buildEach, List.map_cons, List.cons_append, Node.uses_append, Node.uses_cons]
    omega

end

end Draft

namespace Mutation

variable {view : CallView} {k h : Heap} {held : List Value} {outside : Node → Nat}

/-- Making the values of a change gives their maker handles. -/
theorem accounts_build (shows : view.Shows k) (closed : k.Closed) (change : Mutation Draft)
    (remains : k.Remains h) (accounts : h.Accounts held outside) :
    (change.build view h).2.Accounts ((change.build view h).1.values ++ held) outside := by
  cases change with
  | setFields guarded fields => exact Draft.accounts_buildEach shows closed fields remains accounts
  | setContent content => exact content.accounts_build shows closed remains accounts
  | _ => exact accounts

/-- Giving up the values of a change takes the heap back to where it was before they were
made. -/
theorem releaseAll_build (shows : view.Shows k) (closed : k.Closed) (change : Mutation Draft)
    (remains : k.Remains h) :
    (change.build view h).2.releaseAll (change.build view h).1.values = h := by
  cases change with
  | setFields guarded fields => exact Draft.releaseAll_buildEach shows closed fields remains
  | setContent content => exact content.release_build shows closed remains
  | _ => rfl

/-- Making the values of a change leaves every node there. -/
theorem remains_build (shows : view.Shows k) (closed : k.Closed) (change : Mutation Draft)
    (remains : k.Remains h) : h.Remains (change.build view h).2 := by
  have less := Heap.remains_releaseAll (change.build view h).2 (change.build view h).1.values
  rwa [releaseAll_build shows closed change remains] at less

end Mutation

/-- A change takes over the values that were made for it, or gives them up. -/
theorem Heap.Accounts.change {h : Heap} {held : List Value} {outside : Node → Nat} {v : Value}
    {change : Mutation Value} (accounts : h.Accounts (change.values ++ held) outside)
    (alive : h.Alive v) : (h.change v change).2.Accounts held outside := by
  have refused : (h.releaseAll change.values).Accounts held outside := accounts.releaseAll
  cases v with
  | composite id =>
    cases change with
    | setFields guarded entries =>
      rw [Heap.change]
      split
      · exact accounts.setFields id
      · exact accounts.insertFields id
    | removeField guarded key =>
      rw [Heap.change]
      split
      · exact Accounts.eraseField accounts id key
      · exact accounts
    | setFlag flag => exact Accounts.setFlag accounts id flag
    | setContent content => exact refused
  | ref cell =>
    cases change with
    | setContent content =>
      obtain ⟨c, found, -⟩ := alive.cell?
      exact (Accounts.putContent accounts (found ▸ rfl)).release
    | _ => exact refused
  | _ => exact refused

/-! ## Calls -/

/-- The store of a call is accounted for, with the result that is held back. -/
def CallState.Accounted (c : CallState) (f : Function) (outside : Node → Nat) : Prop :=
  c.store.Accounted f outside c.pending.toList

namespace CallState

variable {f : Function} {pc : Nat} {ctx : CallContext} {outside : Node → Nat}
  {held : List Value} {c : CallState} {v : Value}

/-- A value that is made is held. -/
theorem accounted_build (call : ctx.Of f pc) (acc : c.store.Accounted f outside held)
    (draft : Draft) :
    (c.build ctx draft).2.store.Accounted f outside ((c.build ctx draft).1 :: held) where
  fits := acc.fits
  owns := by
    have built := draft.accounts_build (call.shows acc) (Heap.Accounts.closed acc.owns)
      (.refl _) acc.owns
    refine Heap.Accounts.congr built fun node => ?_
    simp only [build, Node.uses_append, Node.uses_cons]
    omega
  constants := acc.constants

/-- Values that are made are held. -/
theorem accounted_buildEach (call : ctx.Of f pc) (acc : c.store.Accounted f outside held)
    (fields : List (String × Draft)) :
    ({ c.store with heap := (Draft.buildEach (ctx.view c.store) c.store.heap fields).2 } :
        Store).Accounted f outside
      ((Draft.buildEach (ctx.view c.store) c.store.heap fields).1.map (·.2) ++ held) where
  fits := acc.fits
  owns := by
    have built := Draft.accounts_buildEach (call.shows acc) (Heap.Accounts.closed acc.owns)
      fields (.refl _) acc.owns
    refine Heap.Accounts.congr built fun node => ?_
    simp only [Node.uses_append]
    omega
  constants := acc.constants

/-- The place that a handler writes is there, and looking for it changes no account. -/
theorem target_cases (call : ctx.Of f pc) (acc : c.store.Accounted f outside held) :
    (∃ place d, c.target ctx = (.ok place, d) ∧ d.store.HasPlace place
        ∧ d.store.Accounted f outside held ∧ d.pending = c.pending)
      ∨ ∃ violation d, c.target ctx = (.error violation, d)
        ∧ d.store.Accounted f outside held ∧ d.pending = c.pending := by
  by_cases assigns : ctx.category.isAssignment = true
  · rw [call.target_eq assigns acc.fits]
    exact Or.inl ⟨_, _, rfl, acc.hasPlace_defining call.checked.op1 _, acc.defining _, rfl⟩
  · rw [CallState.target, if_neg assigns]
    exact Or.inr ⟨_, _, rfl, acc, rfl⟩

/-- Giving up the values of entries. -/
theorem accounted_foldl_release {entries : List (String × Value)}
    (acc : c.store.Accounted f outside (entries.map (·.2) ++ held)) :
    (entries.foldl (fun c e => c.release e.2) c).store.Accounted f outside held := by
  induction entries generalizing c with
  | nil => exact acc
  | cons e rest ih => exact ih (c := c.release e.2) (Store.Accounted.release acc)

/-- Giving up values leaves the result that is held back. -/
theorem pending_foldl_release (entries : List (String × Value)) (c : CallState) :
    (entries.foldl (fun c e => c.release e.2) c).pending = c.pending := by
  induction entries generalizing c with
  | nil => rfl
  | cons e rest ih => exact ih (c.release e.2)

namespace Accounted

theorem setResult (acc : c.Accounted f outside) (call : ctx.Of f pc) (draft : Draft) :
    (c.setResult ctx draft).2.Accounted f outside := by
  have built := accounted_build call acc draft
  unfold CallState.setResult
  dsimp only
  split
  · split
    · rename_i old there
      have kept : c.pending = some old := there
      rw [kept] at built
      refine Store.Accounted.release (v := old) ⟨built.fits, built.owns.congr fun node => ?_,
        built.constants⟩
      simp only [Option.toList_some, Node.uses_cons, Node.uses_nil]
      omega
    · rename_i none
      have kept : c.pending = .none := none
      rw [kept] at built
      exact built
  · exact Store.Accounted.release built

theorem write (acc : c.Accounted f outside) (call : ctx.Of f pc) (draft : Draft) :
    (c.write ctx draft).2.Accounted f outside := by
  have built := accounted_build call acc draft
  have targeted := target_cases (c := (c.build ctx draft).2) call built
  unfold CallState.write
  dsimp only
  rcases targeted with ⟨place, d, eq, has, kept, same⟩ | ⟨violation, d, eq, kept, same⟩
  · rw [eq, CallState.Accounted]
    dsimp only
    rw [same]
    exact kept.overwrite has
  · rw [eq, CallState.Accounted]
    dsimp only [CallState.release]
    rw [same]
    exact kept.release

theorem separate (acc : c.Accounted f outside) (call : ctx.Of f pc) :
    (c.separate ctx).2.Accounted f outside := by
  unfold CallState.separate
  rcases target_cases call acc with ⟨place, d, eq, has, kept, same⟩ | ⟨violation, d, eq, kept, same⟩
  · rw [eq]
    dsimp only
    split
    · rw [CallState.Accounted, same]
      exact kept
    · rw [CallState.Accounted]
      dsimp only
      rw [same]
      exact ⟨(d.store.fits_separate place f).mpr kept.fits, kept.owns.separate has,
        kept.constants⟩
  · rw [eq, CallState.Accounted]
    dsimp only
    rw [same]
    exact kept

theorem setFlag (acc : c.Accounted f outside) (call : ctx.Of f pc) (flag : Bool) :
    (c.setFlag ctx flag).2.Accounted f outside := by
  unfold CallState.setFlag
  rcases target_cases call acc with ⟨place, d, eq, has, kept, same⟩ | ⟨violation, d, eq, kept, same⟩
  · rw [eq]
    dsimp only
    split
    · rename_i id _
      rw [CallState.Accounted]
      dsimp only
      rw [same]
      exact ⟨kept.fits, Heap.Accounts.setFlag kept.owns id flag, kept.constants⟩
    · rw [CallState.Accounted, same]
      exact kept
  · rw [eq, CallState.Accounted]
    dsimp only
    rw [same]
    exact kept

theorem setFields (acc : c.Accounted f outside) (call : ctx.Of f pc) (guarded : Bool)
    (fields : List (String × Draft)) :
    (c.setFields ctx guarded fields).2.Accounted f outside := by
  have built := accounted_buildEach call acc fields
  unfold CallState.setFields
  dsimp only
  generalize Draft.buildEach (ctx.view c.store) c.store.heap fields = made at built ⊢
  obtain ⟨entries, heap⟩ := made
  have targeted := target_cases (c := { c with store := { c.store with heap := heap } }) call built
  dsimp only at targeted ⊢
  have released : ∀ d : CallState, d.store.Accounted f outside
      (entries.map (·.2) ++ c.pending.toList) → d.pending = c.pending →
      (entries.foldl (fun c e => c.release e.2) d).Accounted f outside := by
    intro d kept same
    rw [CallState.Accounted, pending_foldl_release, same]
    exact accounted_foldl_release kept
  rcases targeted with ⟨place, d, eq, has, kept, same⟩ | ⟨violation, d, eq, kept, same⟩
  · have first : d.store.heap.Accounts
        (entries.map (·.2) ++ (d.store.frame.values ++ c.pending.toList)) outside :=
      Heap.Accounts.congr kept.owns fun node => by
        simp only [Node.uses_append]
        omega
    rw [eq]
    dsimp only
    split
    · rename_i id _
      split
      · rw [CallState.Accounted]
        dsimp only
        rw [same]
        exact ⟨kept.fits, first.setFields id, kept.constants⟩
      · rw [CallState.Accounted]
        dsimp only
        rw [same]
        exact ⟨kept.fits, first.insertFields id, kept.constants⟩
    · exact released d kept same
  · rw [eq]
    exact released d kept same

theorem mutate (acc : c.Accounted f outside) (call : ctx.Of f pc) (source : Source)
    (change : Mutation Draft) : (c.mutate ctx source change).2.Accounted f outside := by
  have shows := call.shows acc
  have closed := Heap.Accounts.closed acc.owns
  have built := change.accounts_build shows closed (.refl _) acc.owns
  have kept := change.remains_build shows closed (.refl _)
  exact ⟨acc.fits, built.change (kept.alive (shows.alive_find closed source)), acc.constants⟩

/-- A step of a handler keeps the accounts even. -/
theorem advance (acc : c.Accounted f outside) (call : ctx.Of f pc) {h k : Handler}
    {d : CallState} (advances : h.advance ctx c = some (k, d)) : d.Accounted f outside := by
  cases h with
  | answer reply => cases advances
  | inspect next =>
    cases advances
    exact acc
  | note line next =>
    cases advances
    exact Store.Accounted.congr acc ⟨rfl, rfl⟩
  | setResult value next =>
    cases advances
    exact acc.setResult call value
  | write value next =>
    cases advances
    exact acc.write call value
  | separate next =>
    have kept := acc.separate call
    rw [Handler.advance] at advances
    split at advances
    · rename_i result e eq
      cases advances
      rw [eq] at kept
      exact kept
    · cases advances
  | setFields guarded fields next =>
    cases advances
    exact acc.setFields call guarded fields
  | setFlag flag next =>
    cases advances
    exact acc.setFlag call flag
  | mutate source change next =>
    cases advances
    exact acc.mutate call source change

/-- The run of a handler keeps the accounts even. -/
theorem run (acc : c.Accounted f outside) (call : ctx.Of f pc) (h : Handler) :
    (h.run ctx c).2.Accounted f outside :=
  Handler.run_keeps (fun c => c.Accounted f outside)
    (fun advances kept => kept.advance call advances) (fun kept => kept.separate call) h acc

end Accounted

end CallState

/-! ## Instructions and runs -/

namespace Effect

variable {f : Function} {instr : Instruction} {pc : Nat} {outside : Node → Nat} {s : Store}

/-- Giving up the result that was held back. -/
theorem dropPending_accounted {pending : Option Value} {held : List Value}
    (acc : s.Accounted f outside (pending.toList ++ held)) :
    (dropPending pending s).Accounted f outside held := by
  cases pending with
  | none => exact acc
  | some v => exact Store.Accounted.release acc

/-- The end of a handler's run keeps the accounts even. -/
theorem settle_accounted (checked : instr.Checked f pc) {ending : Option Answer × CallState}
    (acc : ending.2.Accounted f outside) :
    (settle f.constants instr ending).2.Accounted f outside [] := by
  obtain ⟨answer, c⟩ := ending
  dsimp only at acc
  have dropped : (dropPending c.pending c.store).Accounted f outside [] :=
    dropPending_accounted (by rw [List.append_nil]; exact acc)
  have cleared : ∀ {t : Store}, t.Accounted f outside [] →
      (t.overwrite (.slot .scratch) .null).Accounted f outside [] := fun {t} acc =>
    (acc.scalar rfl).overwrite (show t.HasPlace (.slot .scratch) from trivial)
  unfold settle
  dsimp only
  split
  · exact dropped
  · exact dropped
  · rename_i reply _
    cases reply with
    | handled =>
      refine cleared (Store.Accounted.vacateRead ?_ checked.op1 checked.op2)
      unfold storePending
      split
      · rename_i v there
        have held : c.store.Accounted f outside [v] := by
          rw [CallState.Accounted, there] at acc
          exact acc
        split
        · exact held.release
        · exact held.assign checked.result
      · rename_i none
        rw [CallState.Accounted, none] at acc
        exact acc
    | declined => exact cleared dropped
    | unsupported reason => exact cleared dropped
    | violated violation => exact dropped

/-- The call of a handler, and the built-in instruction if it declines, keep the
accounts even. -/
theorem calling_accounted (verified : f.Verified) (found : f.code[pc]? = some instr)
    {category : Category} (has : instr.opcode.category? = some category) (order : NegationOrder)
    (handler : Handler) (acc : s.Accounted f outside []) :
    (calling order f instr pc category handler s).2.Accounted f outside
      (given (calling order f instr pc category handler s).1) := by
  have checked := verified.checked found
  have call : CallContext.Of f pc ⟨instr, category, f.constants, order⟩ := ⟨checked, has, rfl⟩
  have start : CallState.Accounted ⟨s, none, none⟩ f outside := acc
  have settled := settle_accounted checked (start.run call handler)
  unfold calling
  generalize settle f.constants instr _ = ending at settled ⊢
  obtain ⟨result, t⟩ := ending
  cases result with
  | error fault => exact settled
  | ok decision =>
    cases decision with
    | handled => exact settled
    | declined =>
      have kept := finishing_accounted (of_accounted verified found settled)
      rw [deciding, fst_finishing]
      rw [List.append_nil] at kept
      exact kept

end Effect

/-- Every instruction keeps the accounts even, whatever handlers there are. -/
theorem Machine.keeps_accounts (m : Machine) {f : Function} (verified : f.Verified)
    (outside : Node → Nat) : m.Keeps f fun held s => s.Accounted f outside held := by
  intro pc instr s found acc
  unfold Effect.dispatch
  split
  · rename_i handler category _ has
    exact Effect.calling_accounted verified found has _ handler acc
  · have kept := Effect.finishing_accounted (Effect.of_accounted verified found acc)
    rw [Effect.fst_finishing]
    rw [List.append_nil] at kept
    exact kept

end OverloadMachine
