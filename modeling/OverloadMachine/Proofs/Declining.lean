import OverloadMachine.Proofs.Leftovers

/-!
# Handlers that decline

A handler that looks at its call, sets results and then declines leaves no trace.
The values that it makes come into being with handles of their own, and giving
one up takes the heap back to where it was before; so when the result that is held
back is given up, the store is the one from before the call. A table of such
handlers is transparent, and functions run with it as without handlers.
-/

namespace OverloadMachine

namespace Heap

/-! ## Values that are made and given up -/

/-- Giving up gathered fields gives up the values that were gathered. -/
theorem releaseAll_gather (h : Heap) (fields : NameMap Value) (key : String) (v : Value) :
    (h.gather fields key v).2.releaseAll (h.gather fields key v).1.values
      = h.releaseAll (v :: fields.values) := by
  have perm : ((fields.get? key).toList ++ (fields.insert key v).values).Perm
      (v :: fields.values) :=
    List.perm_append_comm.trans (fields.values_insert_perm key v)
  have same := releaseAll_perm perm h
  rw [← same, gather]
  cases fields.get? key <;> rfl

/-- Giving up the fields that a list of entries is gathered into. -/
theorem releaseAll_foldl_gather (entries : List (String × Value)) (fields : NameMap Value)
    (h : Heap) :
    let gathered := entries.foldl (fun (fields, h) e => h.gather fields e.1 e.2) (fields, h)
    gathered.2.releaseAll gathered.1.values
      = h.releaseAll (fields.values ++ entries.map (·.2)) := by
  induction entries generalizing fields h with
  | nil => simp
  | cons e rest ih =>
    have later := ih (h.gather fields e.1 e.2).1 (h.gather fields e.1 e.2).2
    have perm : (e.2 :: fields.values ++ rest.map (·.2)).Perm
        (fields.values ++ (e :: rest).map (·.2)) := by
      rw [List.map_cons, List.cons_append]
      exact List.perm_middle.symm
    calc _ = (h.gather fields e.1 e.2).2.releaseAll
          ((h.gather fields e.1 e.2).1.values ++ rest.map (·.2)) := later
      _ = h.releaseAll (e.2 :: fields.values ++ rest.map (·.2)) := by
        rw [releaseAll_append, releaseAll_gather, ← releaseAll_append]
      _ = h.releaseAll (fields.values ++ (e :: rest).map (·.2)) := releaseAll_perm perm h

/-- A composite that was made of entries is given up by giving up their values. -/
theorem release_createWith (h : Heap) (className : String) (entries : List (String × Value)) :
    (h.createWith className entries).2.release (.composite (h.createWith className entries).1)
      = h.releaseAll (entries.map (·.2)) := by
  have gathered := releaseAll_foldl_gather entries .empty h
  exact (release_create _ className _).trans gathered

/-- A copy is given up without a trace. -/
theorem release_duplicate {h : Heap} {c : Composite} (alive : ∀ v ∈ c.fields.values, h.Alive v) :
    (h.duplicate c).2.release (.composite (h.duplicate c).1) = h := by
  have undone := releaseAll_acquireAll alive
  exact (release_create _ c.className c.fields).trans undone

end Heap

/-- What a call shows was alive in a heap of which every node remains. -/
structure CallView.Shows (view : CallView) (k : Heap) : Prop where
  remains : k.Remains view.heap
  operand : ∀ side seen, view.operand side = some seen → k.Alive seen.value
  sign : ∀ seen, view.sign = some seen → k.Alive seen.operand.value

/-- Whatever a handler finds from its call is alive. -/
theorem CallView.Shows.alive_find {view : CallView} {k : Heap} (shows : view.Shows k)
    (closed : k.Closed) (source : Source) : k.Alive (view.find source) := by
  induction source with
  | operand side =>
    rw [find]
    cases seen : view.operand side with
    | none => exact k.alive_of_node?_eq_none rfl
    | some o => exact shows.operand side o seen
  | signOperand =>
    rw [find]
    cases seen : view.sign with
    | none => exact k.alive_of_node?_eq_none rfl
    | some o => exact shows.sign o seen
  | field source key ih =>
    rw [find]
    cases found : view.find source with
    | composite id =>
      rw [found] at ih
      have alive := closed.alive_field id key
      rw [← shows.remains.field? ih] at alive
      exact alive
    | _ => exact k.alive_of_node?_eq_none rfl
  | content source ih =>
    rw [find]
    cases found : view.find source with
    | ref cell =>
      rw [found] at ih
      dsimp only
      rw [shows.remains.content ih]
      exact closed.alive_content cell
    | _ => exact k.alive_of_node?_eq_none rfl
  | composite source ih =>
    rw [find]
    cases found : view.find source with
    | composite id =>
      rw [found] at ih
      exact ih
    | _ => exact k.alive_of_node?_eq_none rfl

namespace Draft

variable {view : CallView} {k : Heap}

mutual

/-- Giving up a value that was made takes the heap back. -/
theorem release_build (shows : view.Shows k) (closed : k.Closed) :
    ∀ (draft : Draft) {h : Heap}, k.Remains h →
      (draft.build view h).2.release (draft.build view h).1 = h
  | .scalar v, h, _ => by
    refine h.release_of_node?_eq_none ?_
    unfold build
    cases v <;> rfl
  | .copy source, h, remains => by
    have alive := remains.alive (shows.alive_find closed source)
    exact Heap.release_acquire alive
  | .duplicate source, h, remains => by
    unfold build
    cases found : view.find source with
    | composite id =>
      have alive := shows.alive_find closed source
      rw [found] at alive
      obtain ⟨c, there, -⟩ := alive.composite?
      obtain ⟨more, -, there'⟩ := remains.composite there
      have fields : ∀ v ∈ c.fields.values, h.Alive v := fun v mem =>
        remains.alive (closed.alive_value there mem)
      simp only [Value.composite?, Option.bind_eq_bind, Option.bind_some, there']
      exact Heap.release_duplicate (c := { c with count := more }) fields
    | _ => exact h.release_of_node?_eq_none rfl
  | .new className fields, h, remains => by
    have undone := releaseAll_buildEach shows closed fields remains
    exact (Heap.release_createWith _ className _).trans undone
  | .cell content, h, remains => by
    have undone := release_build shows closed content remains
    exact (Heap.release_createCell _ _).trans undone

/-- Giving up values that were made takes the heap back. -/
theorem releaseAll_buildEach (shows : view.Shows k) (closed : k.Closed) :
    ∀ (fields : List (String × Draft)) {h : Heap}, k.Remains h →
      (buildEach view h fields).2.releaseAll ((buildEach view h fields).1.map (·.2)) = h
  | [], _, _ => rfl
  | (key, draft) :: rest, h, remains => by
    have first := release_build shows closed draft remains
    have kept : h.Remains (draft.build view h).2 := by
      have less := Heap.remains_release (draft.build view h).2 (draft.build view h).1
      rwa [first] at less
    have others := releaseAll_buildEach shows closed rest (remains.trans kept)
    calc _ = ((buildEach view (draft.build view h).2 rest).2.release
            (draft.build view h).1).releaseAll
            ((buildEach view (draft.build view h).2 rest).1.map (·.2)) := rfl
      _ = ((buildEach view (draft.build view h).2 rest).2.releaseAll
            ((buildEach view (draft.build view h).2 rest).1.map (·.2))).release
            (draft.build view h).1 := Heap.releaseAll_release _ _ _
      _ = h := by rw [others, first]

end

/-- Making a value leaves every node there. -/
theorem remains_build (shows : view.Shows k) (closed : k.Closed) (draft : Draft) {h : Heap}
    (remains : k.Remains h) : h.Remains (draft.build view h).2 := by
  have less := Heap.remains_release (draft.build view h).2 (draft.build view h).1
  rwa [release_build shows closed draft remains] at less

end Draft

/-! ## Calls that decline -/

/-- An answer that leaves the instruction to the machine. -/
def Answer.Declines : Answer → Prop
  | .declined | .unsupported _ => True
  | .handled | .violated _ => False

/-- A handler only looks at its call, leaves notes, sets results if it is given one,
and declines in the end, whatever it sees. -/
def Handler.Declines (ctx : CallContext) : Handler → Prop
  | .answer reply => reply.Declines
  | .inspect next => ∀ s, (next (ctx.view s)).Declines ctx
  | .note _ next => next.Declines ctx
  | .setResult _ next => ctx.hasResult = true ∧ (next (.ok ())).Declines ctx
  | .write _ _ | .separate _ | .setFields _ _ _ | .setFlag _ _ | .mutate _ _ _ => False

/-- Without the result that is held back the call has left the store as it was, and
it has met no violation. -/
structure CallState.Quiet (c : CallState) (s : Store) : Prop where
  store : (Effect.dropPending c.pending c.store).Agrees s
  violation : c.violation = none

namespace CallState.Quiet

variable {f : Function} {pc : Nat} {ctx : CallContext} {outside : Node → Nat}
  {held : List Value} {s : Store} {c : CallState}

/-- A call has not changed the frame. -/
theorem frame (quiet : c.Quiet s) : c.store.frame = s.frame := by
  have same := quiet.store.frame
  cases pending : c.pending <;> rwa [pending] at same

/-- A call has not taken nodes or handles from the heap. -/
theorem remains (quiet : c.Quiet s) : s.heap.Remains c.store.heap := by
  have same := quiet.store.heap
  cases pending : c.pending with
  | none =>
    rw [pending] at same
    exact same ▸ .refl _
  | some v =>
    rw [pending] at same
    exact same ▸ Heap.remains_release c.store.heap v

/-- What an operand shows does not change during a call. -/
theorem alive_see (quiet : c.Quiet s) (call : ctx.Of f pc) (acc : s.Accounted f outside held)
    {o : Operand} (within : o.Within f) : s.heap.Alive (ctx.see c.store o).value := by
  have fits : c.store.frame.Fits f := quiet.frame ▸ acc.fits
  have same : c.store.held f.constants o = s.held f.constants o := by
    cases o <;> simp only [Store.held, quiet.frame]
  have alive := acc.alive_slot o
  rw [call.see_eq within fits, Store.shown, same]
  cases slot : s.held f.constants o with
  | ref cell =>
    rw [slot] at alive
    have kept := quiet.remains.content alive
    rw [Heap.lookThrough, kept]
    exact (Heap.Accounts.closed acc.owns).alive_content cell
  | _ =>
    rw [slot] at alive
    exact alive

/-- What a call shows is alive. -/
theorem shows (quiet : c.Quiet s) (call : ctx.Of f pc) (acc : s.Accounted f outside held) :
    (ctx.view c.store).Shows s.heap where
  remains := quiet.remains
  operand side seen eq := by
    cases side with
    | first =>
      cases eq
      exact quiet.alive_see call acc call.checked.op1
    | second =>
      simp only [CallView.operand, CallContext.view] at eq
      split at eq
      · cases eq
        exact quiet.alive_see call acc call.checked.op2
      · cases eq
  sign seen eq := by
    obtain ⟨sign, -, rfl⟩ := Option.map_eq_some_iff.mp eq
    cases ctx.order.valueSide with
    | first => exact quiet.alive_see call acc call.checked.op1
    | second => exact quiet.alive_see call acc call.checked.op2

/-- A result that is set leaves the store as it was when it is given up. -/
theorem setResult (quiet : c.Quiet s) (call : ctx.Of f pc) (acc : s.Accounted f outside held)
    (given : ctx.hasResult = true) (draft : Draft) :
    (c.setResult ctx draft).1 = .ok () ∧ (c.setResult ctx draft).2.Quiet s := by
  have closed : s.heap.Closed := Heap.Accounts.closed acc.owns
  have undone := Draft.release_build (quiet.shows call acc) closed draft quiet.remains
  obtain ⟨⟨heap, frame⟩, violation⟩ := quiet
  cases pending : c.pending with
  | none =>
    have eq : c.setResult ctx draft = (.ok (),
        { (c.build ctx draft).2 with pending := some (c.build ctx draft).1 }) := by
      have kept : (c.build ctx draft).2.pending = none := pending
      rw [CallState.setResult]
      dsimp only
      rw [if_pos given, kept]
    rw [pending] at heap frame
    rw [eq]
    exact ⟨rfl, ⟨undone.trans heap, frame⟩, violation⟩
  | some old =>
    have eq : c.setResult ctx draft = (.ok (),
        { (c.build ctx draft).2.release old with pending := some (c.build ctx draft).1 }) := by
      have kept : (c.build ctx draft).2.pending = some old := pending
      rw [CallState.setResult]
      dsimp only
      rw [if_pos given, kept]
    have both : ((c.build ctx draft).2.store.heap.release old).release (c.build ctx draft).1
        = s.heap := by
      rw [pending] at heap
      rw [Heap.release_comm]
      exact (congrArg (Heap.release · old) undone).trans heap
    rw [pending] at frame
    rw [eq]
    exact ⟨rfl, ⟨both, frame⟩, violation⟩

/-- A note leaves the heap and the frame alone. -/
theorem addNote (quiet : c.Quiet s) (line : Note) : (c.addNote line).Quiet s := by
  obtain ⟨store, pending, violation⟩ := c
  obtain ⟨⟨heap, frame⟩, none⟩ := quiet
  cases pending <;> exact ⟨⟨heap, frame⟩, none⟩

end CallState.Quiet

/-- A handler that declines comes to its answer, and leaves the store as it was. -/
theorem Handler.Declines.run {f : Function} {pc : Nat} {ctx : CallContext} {outside : Node → Nat}
    {held : List Value} {s : Store} (call : ctx.Of f pc) (acc : s.Accounted f outside held)
    {h : Handler} (declines : h.Declines ctx) {c : CallState} (quiet : c.Quiet s) :
    ∃ reply d, h.run ctx c = (some reply, d) ∧ reply.Declines ∧ d.Quiet s := by
  induction h generalizing c with
  | answer reply => exact ⟨reply, c, rfl, declines, quiet⟩
  | inspect next ih => exact ih _ (declines c.store) quiet
  | note line next ih => exact ih declines (quiet.addNote line)
  | setResult value next ih =>
    obtain ⟨given, later⟩ := declines
    obtain ⟨done, quiet'⟩ := quiet.setResult call acc given value
    have advances : (Handler.setResult value next).advance ctx c
        = some (next (.ok ()), (c.setResult ctx value).2) := by rw [advance, done]
    rw [run_of_advance advances]
    exact ih _ later quiet'
  | _ => exact declines.elim

namespace Effect

/-- After a call that was declined without a violation the result that is held back is given
up. -/
theorem settle_of_declines (constants : Array Value) (instr : Instruction) {reply : Answer}
    {d : CallState} (declined : reply.Declines) (none : d.violation = none) :
    settle constants instr (some reply, d)
      = (.ok .declined, (dropPending d.pending d.store).overwrite (.slot .scratch) .null) := by
  unfold settle
  dsimp only
  rw [none]
  cases reply with
  | declined => rfl
  | unsupported reason => rfl
  | handled => exact declined.elim
  | violated violation => exact declined.elim

/-- A call that was declined and has left the store as it was is followed by the
built-in operator, with the scratch slot emptied before it. -/
theorem agrees_of_quiet {f : Function} {instr : Instruction} {pc : Nat} {category : Category}
    {outside : Node → Nat} {s : Store} {reply : Answer} {d : CallState}
    (checked : instr.Checked f pc) (has : instr.opcode.category? = some category)
    (acc : s.Accounted f outside []) (scratch : s.frame.scratch.Plain)
    (declined : reply.Declines) (quiet : d.Quiet s) :
    Agrees (deciding f instr pc (settle f.constants instr (some reply, d)))
      (finishing (Effect.of f instr pc s)) := by
  have back : ((dropPending d.pending d.store).emptied .scratch).Agrees (s.emptied .scratch) := by
    rw [quiet.store.symm.eq_noting, Store.emptied, Store.overwrite_noting]
    exact (Store.agrees_noting _ _).symm
  rw [settle_of_declines f.constants instr declined quiet.violation,
    ← finishing_emptied checked has acc scratch]
  exact agrees_of instr f pc back

end Effect

namespace Machine

variable {m : Machine} {f : Function} {outside : Node → Nat} {s : Store}

/-- A table of handlers that decline whatever they are called for is transparent: a
verified function ends with it as without handlers, with the same outcome, heap and
frame. -/
theorem sameEnding_of_declining (verified : f.verify = .ok ()) (rest : s.AtRest f outside)
    (declining : ∀ {op handler}, m.table.lookup op = some handler → ∀ ctx : CallContext,
      ctx.instr.opcode = op → op.category? = some ctx.category → handler.Declines ctx) :
    SameEnding (m.executeIn f s) (m.plain.executeIn f s) := by
  refine sameEnding_of_transparent verified rest ?_
  intro pc instr handler category s found look has acc scratch
  have checked := (Function.verified_of_verify verified).checked found
  let ctx : CallContext := ⟨instr, category, f.constants, m.options.negationOrder⟩
  have call : ctx.Of f pc := ⟨checked, has, rfl⟩
  have declines : handler.Declines ctx := declining look ctx rfl has
  have start : CallState.Quiet ⟨s, none, none⟩ s := ⟨.refl s, rfl⟩
  obtain ⟨reply, d, run, declined, quiet⟩ := declines.run call acc start
  rw [Effect.calling, run]
  exact Effect.agrees_of_quiet checked has acc scratch declined quiet

/-- A handler that makes two composites out of its operands, one after the other, and
declines. -/
def hesitant : Handler :=
  .inspect fun view =>
    if view.hasResult then
      .setResult (.new "Pair" [("a", .copy (.operand .first)), ("b", .copy (.operand .second))])
        fun _ => .setResult (.duplicate (.operand .first)) fun _ => .answer .declined
    else .answer .declined

theorem declines_hesitant (ctx : CallContext) : hesitant.Declines ctx := by
  intro s
  have seen : (ctx.view s).hasResult = ctx.hasResult := rfl
  dsimp only
  rw [seen]
  by_cases given : ctx.hasResult = true
  · rw [if_pos given]
    exact ⟨given, given, trivial⟩
  · rw [if_neg given]
    trivial

/-- Says whether two variables are equal. -/
def equality : Function where
  name := "equality"
  code := #[
    ⟨.comparison .equal, .var 0, .var 1, .temp 0, 0⟩,
    ⟨.ret, .temp 0, .unused, .unused, 0⟩]
  constants := #[]
  temporaries := 1
  variableNames := #["a", "b"]

/-- A store in which two variables share a composite. -/
def sharing : Store where
  heap := (Heap.empty.create "Point" .empty).2.acquire (.composite ⟨0⟩)
  frame := { Frame.ofSizes 1 0 with vars := #[.composite ⟨0⟩, .composite ⟨0⟩] }
  notes := #[]

theorem atRest_sharing : sharing.AtRest equality fun _ => 0 where
  owns := by
    have nothing : Heap.empty.Accounts [] fun _ => 0 := fun node => by cases node <;> rfl
    have one : (Heap.empty.create "Point" .empty).2.Accounts [.composite ⟨0⟩] fun _ => 0 :=
      @Heap.Accounts.create _ [] _ .empty nothing "Point"
    exact (one.acquire (one.alive List.mem_cons_self)).congr fun node => by
      simp [sharing, Frame.values, Frame.ofSizes, OrderedMap.values, OrderedMap.empty]
  constants node := Nat.le_refl 0
  scratch := nofun

/-- A comparison of shared composites is not disturbed by a handler that declines. -/
theorem sameEnding_hesitant :
    let m := Machine.ofTable .standard
      (DispatchTable.empty.set (.comparison .equal) rfl (some hesitant))
    SameEnding (m.executeIn equality sharing) (m.plain.executeIn equality sharing) :=
  sameEnding_of_declining rfl atRest_sharing fun {op handler} look ctx _ _ => by
    by_cases same : op = .comparison .equal
    · have eq : some hesitant = some handler := by
        simpa [ofTable, DispatchTable.set, same] using look
      cases eq
      exact declines_hesitant ctx
    · simp [ofTable, DispatchTable.set, DispatchTable.empty, same] at look

/-- With a reference in the scratch slot a handler that declines is noticed: without it a sum
that is not used is written through the reference, and with it the reference is given up
before. -/
theorem declined_sum_spares_leftover :
    let m := Machine.ofTable .standard
      (DispatchTable.empty.set (.arithmetic .add) rfl (some (.answer .declined)))
    discardedSum.verify = .ok () ∧ leftover.Owns [] (fun _ => 0)
      ∧ (∀ node : Node, node.uses discardedSum.constants.toList ≤ 0)
      ∧ (∀ ctx, (Handler.answer .declined).Declines ctx)
      ∧ (m.executeIn discardedSum leftover).2.2.heap.content ⟨0⟩ = .int 1
      ∧ (m.plain.executeIn discardedSum leftover).2.2.heap.content ⟨0⟩ = .int 10 :=
  ⟨rfl, owns_leftover, uses_discardedSum, fun _ => trivial, rfl, rfl⟩

end Machine

end OverloadMachine
