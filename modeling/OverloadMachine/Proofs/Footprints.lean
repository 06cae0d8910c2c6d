import OverloadMachine.Proofs.Bodies

/-!
# Footprints of handlers

What a handler may change through its call is little: the place that the first operand
shows, the composites and cells that its call leads to, and nothing else that lives through
the call. Every step of a handler first adds nodes and handles, then changes what it
touches, and then gives handles up; so what it does not touch is the same before and behind
the step, and behind the run, unless it was destroyed on the way. What a handler touches is
given step by step, as a function of the step and of the state that the call is in.
-/

namespace OverloadMachine

/-! ## What a handler touches -/

namespace Handler

/-- What the next step of a handler changes, if it changes anything: a write the place of the
first operand, a separation that makes a copy the place that gets the copy, fields or a flag
that are set the composite that this operand shows, and any other change the composite or
the cell that it finds. -/
def touch? (ctx : CallContext) : Handler → CallState → Option Touch
  | .write _ _, c =>
    if ctx.category.isAssignment then some (c.store.target ctx.constants ctx.instr.op1).touch
    else none
  | .separate _, c =>
    match (c.separate ctx).1 with
    | some (.ok true) => some (c.store.separated ctx.constants ctx.instr.op1)
    | _ => none
  | .setFields guarded fields _, c =>
    match (c.setFields ctx guarded fields).1 with
    | .ok () => (c.store.peek (c.store.target ctx.constants ctx.instr.op1)).node?.map .node
    | .error _ => none
  | .setFlag _ _, c =>
    if ctx.category.isAssignment then
      (c.store.peek (c.store.target ctx.constants ctx.instr.op1)).composite?.map fun id =>
        .node (.composite id)
    else none
  | .mutate source change _, c =>
    match (c.mutate ctx source change).1 with
    | .ok () => ((ctx.view c.store).find source).node?.map .node
    | .error _ => none
  | _, _ => none

/-- A handler changes something at some step of its call. -/
def Touches (ctx : CallContext) (h : Handler) (c : CallState) (x : Touch) : Prop :=
  ∃ k d, Reaches ctx h c k d ∧ k.touch? ctx d = some x

/-- A node is at no point of a call destroyed: not while the handler runs, and not when the
call ends with a store. -/
def Outlives (ctx : CallContext) (h : Handler) (c : CallState) (t : Store) (node : Node) : Prop :=
  (∀ k d, Reaches ctx h c k d → (d.store.heap.body? node).isSome) ∧ (t.heap.body? node).isSome

end Handler

/-! ## Steps -/

namespace Draft

variable {view : CallView} {h k : Heap}

/-- Making values leaves every node there. -/
theorem remains_buildEach (shows : view.Shows k) (closed : k.Closed)
    (fields : List (String × Draft)) (remains : k.Remains h) :
    h.Remains (buildEach view h fields).2 := by
  have less := Heap.remains_releaseAll (buildEach view h fields).2
    ((buildEach view h fields).1.map (·.2))
  rwa [releaseAll_buildEach shows closed fields remains] at less

end Draft

namespace CallState

variable {f : Function} {pc : Nat} {ctx : CallContext} {outside : Node → Nat}
  {held : List Value} {c d : CallState} {touched : Option Touch}

/-- From one state of a call to another the slots are the same but for that of the first
operand, and everything is that is not touched. -/
structure Spares (ctx : CallContext) (touched : Option Touch) (c d : CallState) : Prop where
  others : ∀ slot, slot ≠ ctx.instr.op1.slot ctx.constants →
    d.store.frame.get? slot = c.store.frame.get? slot
  slot : ∀ slot, touched ≠ some (.slot slot) → d.store.frame.get slot = c.store.frame.get slot
  node : ∀ node, touched ≠ some (.node node) → Heap.Persists node c.store.heap d.store.heap

/-- A step that leaves the frame alone. -/
theorem spares_of_frame (frame : d.store.frame = c.store.frame)
    (nodes : ∀ node, touched ≠ some (.node node) → Heap.Persists node c.store.heap d.store.heap) :
    Spares ctx touched c d where
  others slot _ := by rw [frame]
  slot slot _ := by rw [frame]
  node := nodes

/-- A step that leaves the frame alone but for the definition of the first operand. -/
theorem spares_of_defining
    (frame : d.store.frame = (c.store.defining ctx.constants ctx.instr.op1).frame)
    (nodes : ∀ node, touched ≠ some (.node node) → Heap.Persists node c.store.heap d.store.heap) :
    Spares ctx touched c d where
  others slot ne := by rw [frame, c.store.get?_defining_ne ne]
  slot slot _ := by rw [frame, c.store.get_defining]
  node := nodes

/-- A value that is made leaves every node there. -/
theorem remains_build (call : ctx.Of f pc) (acc : c.store.Accounted f outside held)
    (draft : Draft) : c.store.heap.Remains (c.build ctx draft).2.store.heap :=
  draft.remains_build (call.shows acc) (Heap.Accounts.closed acc.owns) (.refl _)

theorem spares_setResult (call : ctx.Of f pc) (acc : c.store.Accounted f outside held)
    (draft : Draft) : Spares ctx touched c (c.setResult ctx draft).2 := by
  have made := remains_build call acc draft
  unfold setResult
  dsimp only
  split
  · split
    · exact spares_of_frame rfl fun node _ => .after made (.of_stems (.release node _ _))
    · exact spares_of_frame rfl fun node _ => .of_remains made
  · exact spares_of_frame rfl fun node _ => .after made (.of_stems (.release node _ _))

theorem spares_write (call : ctx.Of f pc) (acc : c.store.Accounted f outside held)
    (draft : Draft) (next : Except Violation Unit → Handler) :
    Spares ctx ((Handler.write draft next).touch? ctx c) c (c.write ctx draft).2 := by
  have made := remains_build call acc draft
  have built := accounted_build call acc draft
  unfold write
  dsimp only
  by_cases assigns : ctx.category.isAssignment = true
  · have targeted := call.target_eq assigns built.fits
    rw [← call.constants] at targeted
    simp only [Handler.touch?, assigns, if_true]
    rw [targeted]
    refine ⟨fun slot ne => ?_, fun slot ne => ?_, fun node ne => ?_⟩
    · exact (Store.get?_overwrite_ne _ (Store.target_ne_slot _ ne) _).trans
        (Store.get?_defining_ne _ ne)
    · have other : (c.build ctx draft).2.store.target ctx.constants ctx.instr.op1
          ≠ .slot slot := fun eq => ne (congrArg (some ∘ Place.touch) eq)
      have same := Store.get?_overwrite_ne ((c.build ctx draft).2.store.defining ctx.constants
        ctx.instr.op1) other (c.build ctx draft).1
      exact (congrArg (·.getD .null) same).trans (Store.get_defining _ _ _ slot)
    · have stems := Store.stems_overwrite ((c.build ctx draft).2.store.defining ctx.constants
        ctx.instr.op1) (fun eq => ne (congrArg some eq)) (c.build ctx draft).1
      rw [Store.heap_defining] at stems
      exact .after made (.of_stems stems)
  · have refused : (c.build ctx draft).2.target ctx
        = (.error (.notAssignable ctx.instr.opcode),
          (c.build ctx draft).2.refuse (.notAssignable ctx.instr.opcode)) := by
      rw [target, if_neg assigns]
    rw [refused]
    exact spares_of_frame rfl fun node _ => .after made (.of_stems (.release node _ _))

theorem spares_setFlag (call : ctx.Of f pc) (acc : c.store.Accounted f outside held)
    (flag : Bool) (next : Except Violation Unit → Handler) :
    Spares ctx ((Handler.setFlag flag next).touch? ctx c) c (c.setFlag ctx flag).2 := by
  unfold setFlag
  by_cases assigns : ctx.category.isAssignment = true
  · have targeted := call.target_eq assigns acc.fits
    rw [← call.constants] at targeted
    simp only [Handler.touch?, assigns, if_true]
    rw [targeted]
    dsimp only
    rw [Store.peek_defining]
    split
    · rename_i id shows
      refine spares_of_defining rfl fun node ne => ?_
      have other : node ≠ .composite id := by
        rintro rfl
        rw [shows] at ne
        exact ne rfl
      dsimp only
      rw [Store.heap_defining]
      exact .of_stems (.of_eq (Heap.body?_setFlag _ flag other))
    · refine spares_of_defining rfl fun node _ => ?_
      dsimp only
      rw [Store.heap_defining]
      exact .refl node _
  · rw [target, if_neg assigns]
    exact spares_of_frame rfl fun node _ => .refl node _

/-- What a separation comes to that is not refused. -/
def separation (ctx : CallContext) (c : CallState) : Bool × Store :=
  (c.store.defining ctx.constants ctx.instr.op1).separate
    (c.store.target ctx.constants ctx.instr.op1)

/-- A separation is refused, or it is not made because the operand is open, or it is made
in the place that the operand shows. -/
theorem separate_cases (call : ctx.Of f pc) (fits : c.store.frame.Fits f) :
    (∃ violation, c.separate ctx = (some (.error violation), c.refuse violation))
      ∨ (c.separate ctx).1 = none
      ∨ c.separate ctx = (some (.ok (c.separation ctx).1),
        { c with store := (c.separation ctx).2 }) := by
  unfold separate
  by_cases assigns : ctx.category.isAssignment = true
  · rw [call.target_eq assigns fits, ← call.constants]
    dsimp only
    split
    · exact .inr (.inl rfl)
    · exact .inr (.inr rfl)
  · rw [target, if_neg assigns]
    exact .inl ⟨_, rfl⟩

/-- A separation that makes no copy only looks for the place. -/
theorem separation_of_not_copied (call : ctx.Of f pc) (fits : c.store.frame.Fits f)
    (same : (c.separation ctx).1 = false) :
    (c.separation ctx).2 = c.store.defining ctx.constants ctx.instr.op1 := by
  have filled := Store.filled_target call.checked.op1 fits
  rw [← call.constants] at filled
  exact Store.separate_of_not_copied filled same

theorem spares_separate (call : ctx.Of f pc) (acc : c.store.Accounted f outside held)
    {result : Except Violation Bool} (separates : c.separate ctx = (some result, d))
    (next : Except Violation Bool → Handler) :
    Spares ctx ((Handler.separate next).touch? ctx c) c d := by
  rcases separate_cases call acc.fits with ⟨violation, eq⟩ | none | eq
  · rw [separates] at eq
    cases eq
    exact spares_of_frame rfl fun node _ => .refl node _
  · rw [separates] at none
    cases none
  · simp only [Handler.touch?, eq]
    rw [separates] at eq
    cases eq
    cases copied : (c.separation ctx).1 with
    | false =>
      have same := separation_of_not_copied call acc.fits copied
      refine spares_of_defining (congrArg Store.frame same) fun node _ => ?_
      dsimp only
      rw [same, Store.heap_defining]
      exact .refl node _
    | true =>
      have has := acc.hasPlace_defining call.checked.op1 ctx.instr.op1
      refine ⟨fun slot ne => ?_, fun slot ne => ?_, fun node ne => ?_⟩
      · exact (Store.get?_separate_ne _ (Store.target_ne_slot _ ne)).trans
          (Store.get?_defining_ne _ ne)
      · have other := Store.target_ne_of_separated fun eq => ne (congrArg some eq)
        have same := Store.get?_separate_ne (c.store.defining ctx.constants ctx.instr.op1) other
        exact (congrArg (·.getD .null) same).trans (Store.get_defining _ _ _ slot)
      · have defined := acc.defining ctx.instr.op1
        rw [← call.constants] at defined has
        have other : (c.store.defining ctx.constants ctx.instr.op1).separated ctx.constants
            ctx.instr.op1 ≠ .node node := by
          rw [Store.separated_defining]
          exact fun eq => ne (congrArg some eq)
        have persists := Store.persists_separate defined.owns (by rwa [Store.target_defining]) other
        rwa [Store.target_defining, Store.heap_defining] at persists

/-- Giving up the values of entries. -/
theorem heap_foldl_release (entries : List (String × Value)) (c : CallState) :
    (entries.foldl (fun c e => c.release e.2) c).store.heap
      = c.store.heap.releaseAll (entries.map (·.2)) := by
  induction entries generalizing c with
  | nil => rfl
  | cons e rest ih => exact ih (c.release e.2)

/-- The values of fields, made before the fields are set. -/
def made (ctx : CallContext) (c : CallState) (fields : List (String × Draft)) :
    List (String × Value) × Heap :=
  Draft.buildEach (ctx.view c.store) c.store.heap fields

/-- Making the values of fields leaves every node there. -/
theorem remains_made (call : ctx.Of f pc) (acc : c.store.Accounted f outside held)
    (fields : List (String × Draft)) : c.store.heap.Remains (c.made ctx fields).2 :=
  Draft.remains_buildEach (call.shows acc) (Heap.Accounts.closed acc.owns) fields (.refl _)

/-- Fields are set in the composite that the operand shows, or their values are given up. -/
theorem setFields_cases (call : ctx.Of f pc) (acc : c.store.Accounted f outside held)
    (guarded : Bool) (fields : List (String × Draft)) :
    (∃ id d, c.store.peek (c.store.target ctx.constants ctx.instr.op1) = .composite id
        ∧ c.setFields ctx guarded fields = (.ok (), d)
        ∧ d.store.frame = (c.store.defining ctx.constants ctx.instr.op1).frame
        ∧ d.store.heap = (c.made ctx fields).2.insertFields id (c.made ctx fields).1)
      ∨ ∃ refusal d, c.setFields ctx guarded fields = (.error refusal, d)
        ∧ d.pending = c.pending
        ∧ d.store.heap = (c.made ctx fields).2.releaseAll ((c.made ctx fields).1.map (·.2))
        ∧ (d.store.frame = c.store.frame
          ∨ ctx.category.isAssignment = true
            ∧ d.store.frame = (c.store.defining ctx.constants ctx.instr.op1).frame) := by
  have remains := remains_made call acc fields
  unfold setFields made at *
  generalize Draft.buildEach (ctx.view c.store) c.store.heap fields = built at remains ⊢
  obtain ⟨entries, heap⟩ := built
  have shows := Store.peek_of_remains (f := f) acc.owns remains ctx.instr.op1
  rw [← call.constants] at shows
  have defined := c.store.frame_defining_heap heap ctx.constants ctx.instr.op1
  dsimp only
  by_cases assigns : ctx.category.isAssignment = true
  · have targeted := call.target_eq (c := { c with store := { c.store with heap := heap } })
      assigns acc.fits
    rw [← call.constants] at targeted
    rw [targeted]
    dsimp only
    rw [Store.peek_defining, show ({ c.store with heap := heap } : Store).target ctx.constants
      ctx.instr.op1 = c.store.target ctx.constants ctx.instr.op1 from rfl, shows]
    cases c.store.peek (c.store.target ctx.constants ctx.instr.op1) with
    | composite id =>
      dsimp only
      split
      · rw [Store.heap_defining, Heap.setFields]
        cases heap.checkMutation id with
        | ok _ => exact .inl ⟨id, _, rfl, rfl, defined, rfl⟩
        | error violation => exact .inr ⟨_, _, rfl, rfl, rfl, .inr ⟨assigns, defined⟩⟩
      · exact .inl ⟨id, _, rfl, rfl, defined, by rw [Store.heap_defining]⟩
    | _ =>
      refine .inr ⟨_, _, rfl, pending_foldl_release entries _, ?_, .inr ⟨assigns, ?_⟩⟩
      · rw [heap_foldl_release, Store.heap_defining]
      · exact (frame_foldl_release entries _).trans defined
  · rw [target, if_neg assigns]
    exact .inr ⟨_, _, rfl, pending_foldl_release entries _, heap_foldl_release entries _,
      .inl (frame_foldl_release entries _)⟩

theorem spares_setFields (call : ctx.Of f pc) (acc : c.store.Accounted f outside held)
    (guarded : Bool) (fields : List (String × Draft)) (next : Except Refusal Unit → Handler) :
    Spares ctx ((Handler.setFields guarded fields next).touch? ctx c) c
      (c.setFields ctx guarded fields).2 := by
  have remains := remains_made call acc fields
  rcases setFields_cases call acc guarded fields with
    ⟨id, d, shows, eq, frame, heap⟩ | ⟨refusal, d, eq, -, heap, frame⟩
  · simp only [Handler.touch?, eq, shows, Value.node?, Option.map_some]
    refine spares_of_defining frame fun node ne => ?_
    have other : node ≠ .composite id := fun is => ne (by rw [is])
    rw [heap]
    exact .after remains (.of_stems (.insertFields other _ _))
  · simp only [Handler.touch?, eq]
    have nodes : ∀ node, Heap.Persists node c.store.heap d.store.heap := fun node => by
      rw [heap]
      exact .after remains (.of_stems (.of_remains (Heap.remains_releaseAll _ _)))
    rcases frame with frame | ⟨-, frame⟩
    · exact spares_of_frame frame fun node _ => nodes node
    · exact spares_of_defining frame fun node _ => nodes node

/-- A change is refused, and leaves the heap as it was, or it changes the node at its source and
no other one. -/
theorem mutate_cases (call : ctx.Of f pc) (acc : c.store.Accounted f outside held)
    (source : Source) (change : Mutation Draft) :
    (∃ refusal, (c.mutate ctx source change).1 = .error refusal
        ∧ (c.mutate ctx source change).2.store.heap = c.store.heap)
      ∨ ∃ node, ((ctx.view c.store).find source).node? = some node
        ∧ (c.mutate ctx source change).1 = .ok ()
        ∧ ∀ other, other ≠ node →
          Heap.Persists other c.store.heap (c.mutate ctx source change).2.store.heap := by
  have shows := call.shows acc
  have closed := Heap.Accounts.closed acc.owns
  have remains := change.remains_build shows closed (.refl _)
  have undone := change.releaseAll_build shows closed (.refl _)
  unfold mutate
  dsimp only
  generalize change.build (ctx.view c.store) c.store.heap = built at remains undone ⊢
  obtain ⟨made, heap⟩ := built
  rcases heap.change_cases ((ctx.view c.store).find source) made with
    ⟨refusal, eq⟩ | ⟨node, names, done, others⟩
  · exact .inl ⟨refusal, by rw [eq], by rw [eq]; exact undone⟩
  · exact .inr ⟨node, names, done, fun other ne => .after remains (.of_stems (others other ne))⟩

theorem spares_mutate (call : ctx.Of f pc) (acc : c.store.Accounted f outside held)
    (source : Source) (change : Mutation Draft) (next : Except Refusal Unit → Handler) :
    Spares ctx ((Handler.mutate source change next).touch? ctx c) c
      (c.mutate ctx source change).2 := by
  refine spares_of_frame rfl fun node ne => ?_
  rcases mutate_cases call acc source change with
    ⟨refusal, -, same⟩ | ⟨changed, names, done, others⟩
  · rw [same]
    exact .refl node _
  · refine others node fun is => ne ?_
    simp only [Handler.touch?, done, names, Option.map_some, is]

/-- A step of a handler changes nothing but what it touches. -/
theorem spares_advance (call : ctx.Of f pc) (acc : c.store.Accounted f outside held)
    {h k : Handler} (advances : h.advance ctx c = some (k, d)) :
    Spares ctx (h.touch? ctx c) c d := by
  cases h with
  | answer reply => cases advances
  | inspect next =>
    cases advances
    exact spares_of_frame rfl fun node _ => .refl node _
  | note line next =>
    cases advances
    exact spares_of_frame rfl fun node _ => .refl node _
  | setResult value next =>
    cases advances
    exact spares_setResult call acc value
  | write value next =>
    cases advances
    exact spares_write call acc value next
  | separate next =>
    rw [Handler.advance] at advances
    split at advances
    · rename_i result e eq
      cases advances
      exact spares_separate call acc eq next
    · cases advances
  | setFields guarded fields next =>
    cases advances
    exact spares_setFields call acc guarded fields next
  | setFlag flag next =>
    cases advances
    exact spares_setFlag call acc flag next
  | mutate source change next =>
    cases advances
    exact spares_mutate call acc source change next

end CallState

/-! ## Runs -/

/-- What is bound stays bound while a handler runs. -/
theorem CallState.Binds.reaches {f : Function} {ctx : CallContext} {slot : Slot}
    {cell : CellId} {h k : Handler} {c d : CallState} (bound : c.Binds f slot cell)
    (reaches : Handler.Reaches ctx h c k d) : d.Binds f slot cell := by
  induction reaches with
  | start => exact bound
  | step _ advances ih => exact ih.advance advances

namespace Store.Accounted

variable {f : Function} {outside : Node → Nat} {held : List Value} {s : Store} {slot : Slot}
  {node : Node}

/-- A node that a slot has a handle of is there. -/
theorem isSome_body?_of_get (acc : s.Accounted f outside held)
    (names : (s.frame.get slot).node? = some node) : (s.heap.body? node).isSome := by
  obtain ⟨count, -, live⟩ := acc.owns.alive_get slot node names
  rw [Heap.isSome_body?, live]
  rfl

/-- A node that has a handle outside is there. -/
theorem isSome_body?_of_outside (acc : s.Accounted f outside held) (counted : 0 < outside node) :
    (s.heap.body? node).isSome := by
  rw [Heap.isSome_body?, Heap.Accounts.live acc.owns (by omega)]
  rfl

/-- What a slot shows it goes on showing, if it keeps its value and nodes are only taken
away. -/
theorem peek_of_stems {t : Store} (acc : t.Accounted f outside held)
    (same : t.frame.get slot = s.frame.get slot)
    (stems : ∀ cell, s.Binds slot cell → Heap.Stems (.cell cell) s.heap t.heap) :
    t.peek (s.placeOf slot) = s.peek (s.placeOf slot) := by
  cases shows : s.placeOf slot with
  | slot other =>
    obtain ⟨rfl, -⟩ := Store.placeOf_eq_slot shows
    exact same
  | cell cell =>
    have binds : s.Binds slot cell := Store.placeOf_eq_cell.mp shows
    obtain ⟨body, there⟩ := Option.isSome_iff_exists.mp
      (acc.isSome_body?_of_get (congrArg Value.node? (same.trans binds)))
    refine Heap.content_congr ?_
    rw [there, stems cell binds body there]

end Store.Accounted

namespace Handler

variable {f : Function} {pc : Nat} {ctx : CallContext} {outside : Node → Nat}
  {h k l : Handler} {c d e : CallState} {node : Node} {b : Body} {slot : Slot}

/-- The states that a handler comes to are accounted for. -/
theorem Reaches.accounted (reaches : Reaches ctx h c k d) (call : ctx.Of f pc)
    (acc : c.Accounted f outside) : d.Accounted f outside := by
  induction reaches with
  | start => exact acc
  | step _ advances ih => exact ih.advance call advances

/-- While a handler runs the slots are as before, but for that of the first operand. -/
theorem Reaches.get?_eq (reaches : Reaches ctx h c k d) (call : ctx.Of f pc)
    (acc : c.Accounted f outside) (ne : slot ≠ ctx.instr.op1.slot ctx.constants) :
    d.store.frame.get? slot = c.store.frame.get? slot := by
  induction reaches with
  | start => rfl
  | step before advances ih =>
    have others := (CallState.spares_advance call (before.accounted call acc) advances).others
    exact (others slot ne).trans ih

/-- A slot that is not touched has its value while a handler runs. -/
theorem Reaches.get_eq (reaches : Reaches ctx h c k d) (call : ctx.Of f pc)
    (acc : c.Accounted f outside) (untouched : ¬h.Touches ctx c (.slot slot)) :
    d.store.frame.get slot = c.store.frame.get slot := by
  induction reaches with
  | start => rfl
  | step before advances ih =>
    have spares := CallState.spares_advance call (before.accounted call acc) advances
    exact (spares.slot slot fun touched => untouched ⟨_, _, before, touched⟩).trans ih

/-- A node that is not touched is what it was while a handler runs, if it is not destroyed. -/
theorem Reaches.body?_eq (reaches : Reaches ctx h c k d) (call : ctx.Of f pc)
    (acc : c.Accounted f outside)
    (lasts : ∀ k d, Reaches ctx h c k d → (d.store.heap.body? node).isSome)
    (untouched : ¬h.Touches ctx c (.node node)) (found : c.store.heap.body? node = some b) :
    d.store.heap.body? node = some b := by
  induction reaches with
  | start => exact found
  | step before advances ih =>
    have spares := CallState.spares_advance call (before.accounted call acc) advances
    have persists := spares.node node fun touched => untouched ⟨_, _, before, touched⟩
    exact persists.body? ih (lasts _ _ (before.step advances))

/-- A step may be put in front of what is reached from there. -/
theorem Reaches.head (advances : h.advance ctx c = some (k, d))
    (reaches : Reaches ctx k d l e) : Reaches ctx h c l e := by
  induction reaches with
  | start => exact .step .start advances
  | step _ next ih => exact ih.step next

/-- What is reached is the start, or it is reached from behind the first step. -/
theorem Reaches.cases_head (reaches : Reaches ctx h c l e) :
    h = l ∧ c = e ∨ ∃ k d, h.advance ctx c = some (k, d) ∧ Reaches ctx k d l e := by
  induction reaches with
  | start => exact .inl ⟨rfl, rfl⟩
  | step before advances ih =>
    rcases ih with ⟨rfl, rfl⟩ | ⟨k, d, first, rest⟩
    · exact .inr ⟨_, _, advances, .start⟩
    · exact .inr ⟨k, d, first, rest.step advances⟩

/-- The end of a run is reached where the answer is given. -/
theorem reaches_answer {reply : Answer} (runs : h.run ctx c = (some reply, d)) :
    Reaches ctx h c (.answer reply) d := by
  induction h generalizing c with
  | answer given =>
    cases runs
    exact .start
  | inspect next ih => exact (ih _ runs).head rfl
  | note line next ih => exact (ih runs).head rfl
  | setResult value next ih => exact (ih _ runs).head rfl
  | write value next ih => exact (ih _ runs).head rfl
  | separate next ih =>
    rw [run] at runs
    split at runs
    · rename_i result e eq
      have advances : (Handler.separate next).advance ctx c = some (next result, e) := by
        rw [advance, eq]
      exact (ih result runs).head advances
    · cases runs
  | setFields guarded fields next ih => exact (ih _ runs).head rfl
  | setFlag flag next ih => exact (ih _ runs).head rfl
  | mutate source change next ih => exact (ih _ runs).head rfl

/-- What a slot shows that is not touched, it shows while a handler runs: if the slot is bound
it stays bound. -/
theorem Reaches.peek_eq (reaches : Reaches ctx h c k d) (call : ctx.Of f pc)
    (acc : c.Accounted f outside)
    (untouched : ¬h.Touches ctx c (c.store.placeOf slot).touch) :
    d.store.placeOf slot = c.store.placeOf slot
      ∧ d.store.peek (c.store.placeOf slot) = c.store.peek (c.store.placeOf slot) := by
  cases shows : c.store.placeOf slot with
  | slot other =>
    obtain ⟨rfl, unbound⟩ := Store.placeOf_eq_slot shows
    rw [shows] at untouched
    have kept := reaches.get_eq call acc untouched
    refine ⟨?_, kept⟩
    rw [← shows, Store.placeOf, Store.placeOf, kept]
  | cell cell =>
    rw [shows] at untouched
    have binds : c.store.Binds slot cell := Store.placeOf_eq_cell.mp shows
    have bound : ∀ {l e}, Reaches ctx h c l e → e.store.Binds slot cell := fun reaches =>
      (CallState.Binds.reaches ⟨acc.fits, binds⟩ reaches).binds
    have there : ∀ l e, Reaches ctx h c l e → (e.store.heap.body? (.cell cell)).isSome :=
      fun l e reaches => (reaches.accounted call acc).isSome_body?_of_get
        (congrArg Value.node? (bound reaches))
    obtain ⟨body, was⟩ := Option.isSome_iff_exists.mp (there h c .start)
    refine ⟨Store.placeOf_eq_cell.mpr (bound reaches), Heap.content_congr ?_⟩
    rw [reaches.body?_eq call acc there untouched was, was]

variable {t : Store}

/-- A node outlives a call if a slot has a handle of it that is not that of the first
operand, and that is the same in the end. -/
theorem outlives_of_get (call : ctx.Of f pc) (acc : c.Accounted f outside)
    (acc' : t.Accounted f outside []) (ne : slot ≠ ctx.instr.op1.slot ctx.constants)
    (same : t.frame.get slot = c.store.frame.get slot)
    (names : (c.store.frame.get slot).node? = some node) : h.Outlives ctx c t node := by
  refine ⟨fun k d reaches => ?_, acc'.isSome_body?_of_get (same ▸ names)⟩
  have kept : d.store.frame.get slot = c.store.frame.get slot :=
    congrArg (·.getD .null) (reaches.get?_eq call acc ne)
  exact (reaches.accounted call acc).isSome_body?_of_get (kept ▸ names)

/-- A node outlives a call if there is a handle of it outside. -/
theorem outlives_of_outside (call : ctx.Of f pc) (acc : c.Accounted f outside)
    (acc' : t.Accounted f outside []) (counted : 0 < outside node) : h.Outlives ctx c t node :=
  ⟨fun _ _ reaches => (reaches.accounted call acc).isSome_body?_of_outside counted,
    acc'.isSome_body?_of_outside counted⟩

/-- A step that does not touch something, and a rest that does not. -/
theorem not_touches_of_advance {x : Touch} (untouched : h.touch? ctx c ≠ some x)
    (advances : h.advance ctx c = some (k, d)) (later : ¬k.Touches ctx d x) :
    ¬h.Touches ctx c x := by
  rintro ⟨l, e, reaches, touched⟩
  cases reaches.cases_head with
  | inl stays =>
    obtain ⟨rfl, rfl⟩ := stays
    exact untouched touched
  | inr goes =>
    obtain ⟨k', d', advances', rest⟩ := goes
    rw [advances] at advances'
    cases advances'
    exact later ⟨l, e, rest, touched⟩

end Handler

end OverloadMachine
