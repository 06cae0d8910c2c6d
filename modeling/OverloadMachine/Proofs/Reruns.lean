import OverloadMachine.Proofs.Literals
import OverloadMachine.Proofs.VectorTrees

/-!
# Running again

A function may be called any number of times, and callers may keep what the calls return.
Every call gets the same literals, because no call changes one, and a frame of its own. What
a run does can be told from the trees that its store shows, so a call that begins with the
same trees ends like the first one, however much its values are shared by then.
-/

namespace OverloadMachine

/-! ## What instructions do to trees -/

/-- What remains of a heap has no field with a float that is no number if the heap has none. -/
theorem Heap.NaNFree.remains {h k : Heap} (free : h.NaNFree) (remains : Remains k h) :
    k.NaNFree := by
  intro id c found
  obtain ⟨more, -, before⟩ := remains.composite found
  exact free id { c with count := more } before

/-- The second machine has the options and the table of the first one. -/
structure Machine.Alike (m m' : Machine) : Prop where
  options : m'.options = m.options
  table : m'.table = m.table

/-- A machine has no handlers, or has those of the operators of vectors. -/
def Machine.Standard (m : Machine) : Prop := m.table = .empty ∨ m.table = Vector2.table

/-- The handlers of such a machine are tame. -/
theorem Machine.Standard.tame {m : Machine} (standard : m.Standard) {op : Opcode}
    {handler : Handler} {category : Category} (look : m.table.lookup op = some handler)
    (has : op.category? = some category) : handler.Tame := by
  rcases standard with empty | vectors
  · rw [empty] at look
    cases look
  · rw [vectors] at look
    exact (Vector2.handlerFor_of_lookup look has).tame

namespace Effect

variable {m m' : Machine} {f : Function} {instr : Instruction} {pc : Nat} {outside : Node → Nat}
  {literals : Array Tree} {s : Store} {T : TreeStore}

/-- A handler that leaves what it finds leaves it to the built-in instruction. -/
theorem mirrors_calling_of_leaves (verified : f.Verified) (found : f.code[pc]? = some instr)
    (loose : instr.opcode ≠ .comparison .identical ∧ instr.opcode ≠ .comparison .notIdentical)
    {category : Category} {order : NegationOrder} {handler : Handler}
    (leaves : handler.Leaves ⟨instr, category, f.constants, order⟩ f literals T)
    (numbers : s.heap.NaNFree) (mirrors : s.Mirrors f outside literals [] T) :
    Mirrors f outside literals (calling order f instr pc category handler s)
      (Copying.of f literals instr pc T) := by
  obtain ⟨reason, ran⟩ := leaves outside s mirrors
  have cleared : (s.overwrite (.slot .scratch) .null).heap.NaNFree :=
    numbers.remains (Heap.remains_release s.heap _)
  rw [calling, ran]
  exact (mirrors_of verified found loose cleared mirrors.clear).finishing

/-- What an instruction does to trees can be told from the trees, with or without the handlers
of vectors. -/
theorem exists_mirrors_dispatch (verified : f.Verified) (found : f.code[pc]? = some instr)
    (loose : instr.opcode ≠ .comparison .identical ∧ instr.opcode ≠ .comparison .notIdentical)
    (standard : m.Standard) (literals : Array Tree) (T : TreeStore) :
    ∃ copying, ∀ m', m.Alike m' → ∀ outside s, s.heap.NaNFree →
      s.Mirrors f outside literals [] T →
      Mirrors f outside literals (dispatch m' f instr pc s) copying := by
  have builtIn : ∀ (outside : Node → Nat) (s : Store), s.heap.NaNFree →
      s.Mirrors f outside literals [] T →
      Mirrors f outside literals (finishing (Effect.of f instr pc s))
        (Copying.of f literals instr pc T) :=
    fun _ _ numbers mirrors => (mirrors_of verified found loose numbers mirrors).finishing
  cases look : m.table.lookup instr.opcode with
  | none =>
    refine ⟨Copying.of f literals instr pc T, fun m' alike outside s numbers mirrors => ?_⟩
    rw [dispatch, alike.table, look]
    exact builtIn outside s numbers mirrors
  | some handler =>
    cases has : instr.opcode.category? with
    | none =>
      refine ⟨Copying.of f literals instr pc T, fun m' alike outside s numbers mirrors => ?_⟩
      rw [dispatch, alike.table, look, has]
      exact builtIn outside s numbers mirrors
    | some category =>
      have call : CallContext.Of f pc ⟨instr, category, f.constants, m.options.negationOrder⟩ :=
        ⟨verified.checked found, has, rfl⟩
      have vectors : Vector2.HandlerFor category handler := by
        rcases standard with empty | vectors
        · rw [empty] at look
          cases look
        · rw [vectors] at look
          exact Vector2.handlerFor_of_lookup look has
      have called : ∀ m' : Machine, m.Alike m' → ∀ s, dispatch m' f instr pc s
          = calling m.options.negationOrder f instr pc category handler s := by
        intro m' alike s
        rw [dispatch, alike.table, alike.options, look, has]
      rcases vectors.decided call literals T with ⟨U, makes⟩ | leaves
      · refine ⟨(.ok .next, U), fun m' alike outside s numbers mirrors => ?_⟩
        obtain ⟨t, settled, made⟩ := makes outside s mirrors
        rw [called m' alike, calling, settled]
        exact .next made
      · refine ⟨Copying.of f literals instr pc T, fun m' alike outside s numbers mirrors => ?_⟩
        rw [called m' alike]
        exact mirrors_calling_of_leaves verified found loose leaves numbers mirrors

end Effect

/-- What becomes of a run by what an instruction comes to. -/
def Copying.proceed (pc : Nat) : Except Fault Copying.Flow × TreeStore → Copying.Step
  | (.ok .next, T) => .running ⟨T, pc + 1⟩
  | (.ok (.jump target), T) => .running ⟨T, target⟩
  | (.ok (.finish t), T) => .ended (.returned t) ⟨T, pc⟩
  | (.error fault, T) => .ended (.failed fault) ⟨T, pc⟩

namespace Machine

variable {m : Machine} {f : Function} {outside : Node → Nat} {literals : Array Tree}

theorem mirrors_proceed {ending : Except Fault Flow × Store}
    {copying : Except Fault Copying.Flow × TreeStore}
    (mirrors : Effect.Mirrors f outside literals ending copying) (options : Options) (pc : Nat)
    (statistics : Statistics) :
    Mirrors f outside literals (proceed options pc statistics ending)
      (Copying.proceed pc copying) := by
  cases mirrors with
  | next mirrors => exact .running rfl mirrors
  | jump mirrors => exact .running rfl mirrors
  | finish mirrors => exact .returned rfl mirrors
  | fault fails mirrors =>
    dsimp only [proceed]
    rw [fails]
    exact .failed rfl mirrors

/-- What becomes of a run by one instruction can be told from the trees. -/
theorem exists_mirrors_step (verified : f.Verified)
    (loose : ∀ instr ∈ f.code, instr.opcode ≠ .comparison .identical
      ∧ instr.opcode ≠ .comparison .notIdentical)
    (standard : m.Standard) (literals : Array Tree) (q : Copying.Progress) :
    ∃ copying, ∀ m', m.Alike m' → ∀ outside (p : Progress), p.pc = q.pc → p.store.heap.NaNFree →
      p.store.Mirrors f outside literals [] q.store →
      Mirrors f outside literals (m'.step f p) copying := by
  cases found : f.code[q.pc]? with
  | none =>
    refine ⟨.ended (.failed (.code (.positionOutOfRange q.pc))) q,
      fun m' _ outside p pc _ mirrors => ?_⟩
    rw [step, pc, found]
    exact .failed pc mirrors
  | some instr =>
    obtain ⟨copying, same⟩ := Effect.exists_mirrors_dispatch verified found
      (loose instr (Array.mem_of_getElem? found)) standard literals q.store
    refine ⟨Copying.proceed q.pc copying, fun m' alike outside p pc numbers mirrors => ?_⟩
    rw [← pc] at found same ⊢
    obtain ⟨statistics, -, eq⟩ := step_eq (m := m') verified found mirrors.accounted.fits
    rw [eq]
    exact mirrors_proceed (same m' alike outside p.store numbers mirrors) m'.options p.pc statistics

/-- What becomes of a run can be told from the trees, as long as no field holds a float that
is no number. -/
theorem exists_mirrors_runFor (verified : f.Verified)
    (loose : ∀ instr ∈ f.code, instr.opcode ≠ .comparison .identical
      ∧ instr.opcode ≠ .comparison .notIdentical)
    (standard : m.Standard) (literals : Array Tree) (n : Nat) (q : Copying.Progress) :
    ∃ copying, ∀ m', m.Alike m' → ∀ outside (p : Progress), p.pc = q.pc →
      (∀ k r, k < n → m'.runFor f k p = .running r → r.store.heap.NaNFree) →
      p.store.Mirrors f outside literals [] q.store →
      Mirrors f outside literals (m'.runFor f n p) copying := by
  induction n generalizing q with
  | zero => exact ⟨.running q, fun _ _ _ _ pc _ mirrors => .running pc mirrors⟩
  | succ n ih =>
    obtain ⟨copying, one⟩ := exists_mirrors_step verified loose standard literals q
    cases copying with
    | running q' =>
      obtain ⟨copying, more⟩ := ih q'
      refine ⟨copying, fun m' alike outside p pc numbers mirrors => ?_⟩
      have first := one m' alike outside p pc (numbers 0 p (Nat.succ_pos n) rfl) mirrors
      cases eq : m'.step f p with
      | ended outcome r =>
        rw [eq] at first
        cases first
      | running r =>
        rw [eq] at first
        cases first with
        | running pc mirrors =>
          rw [runFor, eq]
          refine more m' alike outside r pc (fun k t lt runs => ?_) mirrors
          exact numbers (k + 1) t (Nat.succ_lt_succ lt) (by rw [runFor, eq]; exact runs)
    | ended outcome q' =>
      refine ⟨.ended outcome q', fun m' alike outside p pc numbers mirrors => ?_⟩
      have first := one m' alike outside p pc (numbers 0 p (Nat.succ_pos n) rfl) mirrors
      cases eq : m'.step f p with
      | running r =>
        rw [eq] at first
        cases first
      | ended outcome r =>
        rw [eq] at first
        rw [runFor, eq]
        exact first

end Machine

/-! ## Outcomes -/

/-- Two calls end alike: with values that unfold into one tree, with one fault, or both by the
same way out. -/
inductive Outcome.Agrees (h k : Heap) : Outcome → Outcome → Prop
  | returned {v w : Value} {t : Tree} (holds : h.Holds t v) (holds' : k.Holds t w) :
    Agrees h k (.returned v) (.returned w)
  | failed (fault : Fault) : Agrees h k (.failed fault) (.failed fault)
  | aborted (cause : Abort) : Agrees h k (.aborted cause) (.aborted cause)
  | unended : Agrees h k .unended .unended

/-- The store in which a call runs: with a frame of the size that the function needs. -/
def Store.entered (s : Store) (f : Function) : Store := { s with frame := Machine.frameFor f }

/-- What a call leaves of a store in which it has run. -/
def Store.left (t s : Store) : Store :=
  { t with heap := t.heap.releaseAll t.frame.values, frame := s.frame }

/-- How a run of a function ends within a bound on its instructions. -/
def Step.outcome (f : Function) (limit : Option UInt64) : Step → Outcome
  | .ended outcome _ => outcome
  | .running p => Machine.cutShort f limit p

/-- Whether a run has come to its end. -/
def Step.isEnded : Step → Bool
  | .ended _ _ => true
  | .running _ => false

namespace Machine

variable {m m' : Machine} {f : Function} {outside other : Node → Nat} {literals : Array Tree}

/-- A call of a verified function is a run in a frame of its own, which is given up. -/
theorem execute_eq (m : Machine) (verified : f.verify = .ok ()) (s : Store) :
    let ending := m.runFor f (budget m.options.maxInstructions) (m.start f (s.entered f))
    (m.execute f s).1 = ending.outcome f m.options.maxInstructions
      ∧ (m.execute f s).2.2 = ending.store.left s := by
  unfold execute
  have run := executeIn_eq m verified (s.entered f)
  unfold Store.entered at run ⊢
  rw [run]
  dsimp only
  generalize m.runFor f _ _ = ending
  cases ending <;> exact ⟨rfl, rfl⟩

/-- A call leaves a machine its options and its table. -/
theorem alike_execute (m : Machine) (f : Function) (s : Store) : m.Alike (m.execute f s).2.1 := by
  have inside : ∀ t, m.Alike (m.executeIn f t).2.1 := by
    intro t
    unfold executeIn
    split <;> exact ⟨rfl, rfl⟩
  exact inside _

/-- What a run returns keeps its tree when the frame is given up. -/
theorem holds_left {s t : Store} {T : TreeStore} {v : Value} {tree : Tree}
    (mirrors : t.Mirrors f outside literals [(v, tree)] T) :
    (t.left s).heap.Holds tree v := by
  have accounts : (t.heap.releaseAll t.frame.values).Accounts [v] outside :=
    Heap.Accounts.releaseAll mirrors.accounted.owns
  have carries : t.heap.Carries (t.heap.releaseAll t.frame.values) :=
    .of_remains (Heap.remains_releaseAll _ _)
  exact (mirrors.held _ List.mem_cons_self).carries carries accounts.closed
    (accounts.alive List.mem_cons_self)

/-- Two runs that come to the same on trees end alike. -/
theorem agrees_of_mirrors {step step' : Step} {copying : Copying.Step}
    (mirrors : Mirrors f outside literals step copying)
    (mirrors' : Mirrors f other literals step' copying) (limit : Option UInt64) (s s' : Store) :
    (step.outcome f limit).Agrees (step.store.left s).heap (step'.store.left s').heap
      (step'.outcome f limit) := by
  cases mirrors with
  | running pc mirrors =>
    cases mirrors' with
    | running pc' mirrors' =>
      unfold Step.outcome cutShort exhausted
      dsimp only
      rw [pc, pc']
      split
      · exact .failed _
      · split
        · exact .unended
        · exact .failed _
  | returned pc mirrors =>
    cases mirrors' with
    | returned pc' mirrors' => exact .returned (holds_left mirrors) (holds_left mirrors')
  | failed pc mirrors =>
    cases mirrors' with
    | failed pc' mirrors' => exact .failed _

end Machine

/-! ## Heaps between calls -/

namespace Heap

variable {f : Function} {h k : Heap} {outside : Node → Nat} {kept rest : List Value}
  {id : CompositeId} {v : Value}

/-- A heap between calls of a function: the values that callers keep and the literals are
accounted for, no literal is bound to a cell, and composites contain no cell and no cycle
and carry no flag. Where nothing but the literals is there, this asks for no more than that
they are such composites. -/
structure Serves (f : Function) (outside : Node → Nat) (kept : List Value) (h : Heap) : Prop where
  accounts : h.Accounts kept outside
  constants : ∀ node : Node, node.uses f.constants.toList ≤ outside node
  literals : ∀ i : Nat, (f.constants[i]?.getD .null).Plain
  forest : h.IsForest

/-- A composite is in both heaps, with one class, the same fields and the same flag. -/
def Keeps (h k : Heap) (id : CompositeId) : Prop :=
  ∃ c count, h.composite? id = some c ∧ k.composite? id = some { c with count := count }

end Heap

namespace Frame

/-- The frame of a call is grown from one without slots. -/
theorem frameFor_eq (f : Function) :
    Machine.frameFor f = (ofSizes 0 0).prepare f.temporaries f.variableNames.size := by
  simp [Machine.frameFor, ofSizes, prepare, extend]

/-- The frame of a call shows nothing at first. -/
theorem get_frameFor (f : Function) (slot : Slot) : (Machine.frameFor f).get slot = .null := by
  rw [frameFor_eq, get_prepare]
  cases slot <;> rfl

/-- The frame of a call holds nothing at first. -/
theorem uses_frameFor (f : Function) (node : Node) :
    node.uses (Machine.frameFor f).values = 0 := by
  rw [frameFor_eq, Machine.uses_prepare]
  rfl

end Frame

namespace Heap.Serves

variable {f : Function} {h : Heap} {s : Store} {outside : Node → Nat} {kept rest : List Value}
  {v : Value}

/-- A call runs in a forest, whoever keeps what. -/
theorem isForest (serves : s.heap.Serves f outside kept) :
    (s.entered f).IsForest f (fun node => outside node + node.uses kept) where
  owns node := by
    have eq := serves.accounts node
    simp only [Store.entered, List.append_nil, Frame.uses_frameFor]
    omega
  constants node := Nat.le_trans (serves.constants node) (Nat.le_add_right _ _)
  literals := serves.literals
  cells := serves.forest.cells
  fields := serves.forest.fields
  bare slot cell _ := by
    rw [Store.entered, Frame.get_frameFor]
    exact nofun
  unflagged := serves.forest.unflagged
  acyclic := serves.forest.acyclic

/-- What callers keep may be listed in any order. -/
theorem perm (serves : h.Serves f outside kept) (perm : kept.Perm rest) :
    h.Serves f outside rest where
  accounts := serves.accounts.congr fun node => (node.uses_perm perm).symm
  constants := serves.constants
  literals := serves.literals
  forest := serves.forest

/-- A caller may give a value up. -/
theorem release (serves : h.Serves f outside (v :: kept)) : (h.release v).Serves f outside kept :=
  ⟨serves.accounts.release, serves.constants, serves.literals, serves.forest.release v⟩

/-- A caller may keep another handle of a value. -/
theorem acquire (serves : h.Serves f outside kept) (mem : v ∈ kept) :
    (h.acquire v).Serves f outside (v :: kept) :=
  ⟨serves.accounts.acquire (serves.accounts.alive mem), serves.constants, serves.literals,
    serves.forest.acquire v⟩

/-- Literals are there. -/
theorem alive (serves : h.Serves f outside kept) {id : CompositeId} (literal : h.Literal f id) :
    h.Alive (.composite id) := literal.alive serves.accounts serves.constants

/-- Literals are kept where they are what they were. -/
theorem keeps {k : Heap} (serves : h.Serves f outside kept) (fixes : Heap.Fixes f h k)
    {id : CompositeId} (literal : h.Literal f id) : h.Keeps k id := by
  obtain ⟨c, found, -⟩ := (serves.alive literal).composite?
  obtain ⟨d, there, same⟩ := Option.map_eq_some_iff.mp
    (fixes id _ literal (Heap.body?_of_composite found))
  obtain ⟨className, fields, flagged, count⟩ := d
  cases same
  exact ⟨c, count, found, there⟩

end Heap.Serves

/-! ## Calls -/

namespace Machine

variable {m m' : Machine} {f : Function} {outside : Node → Nat} {s t : Store}
  {kept rest : List Value} {base : Heap}

/-- At any point of a call the literals are what they were, and the store is a forest. -/
theorem fixed_runFor (verified : f.verify = .ok ()) (standard : m.Standard)
    (serves : s.heap.Serves f outside kept) (n : Nat) :
    (m.runFor f n (m.start f (s.entered f))).Obeys fun held t =>
      t.Fixed f s.heap (fun node => outside node + node.uses kept) held := by
  have order := Function.verified_of_verify verified
  refine (keeps_literals order (fun look has => standard.tame look has) s.heap _).runFor order
    (fun fixed => fixed.forested.accounted.fits) n ⟨serves.isForest.forested_start m, ?_⟩
  exact .refl f s.heap

/-- A run that has used up its instructions returns nothing. -/
theorem given_cutShort (limit : Option UInt64) (p : Progress) :
    (cutShort f limit p).given = [] := by
  unfold cutShort exhausted
  split
  · rfl
  · split <;> rfl

/-- What holds at the point to which a run has come holds with the handles that it returns. -/
theorem obeys_outcome {invariant : List Value → Store → Prop} {ending : Step}
    (obeys : ending.Obeys invariant) (limit : Option UInt64) :
    invariant (ending.outcome f limit).given ending.store := by
  cases ending with
  | running p =>
    rw [Step.outcome, given_cutShort]
    exact obeys
  | ended outcome p => exact obeys

/-- When the frame of a call is given up, callers keep what they kept and what was returned,
and the literals are what they were. -/
theorem serves_left {held : List Value}
    (fixed : t.Fixed f base (fun node => outside node + node.uses kept) held)
    (constants : ∀ node : Node, node.uses f.constants.toList ≤ outside node) (s : Store) :
    (t.left s).heap.Serves f outside (held ++ kept) ∧ Heap.Fixes f base (t.left s).heap := by
  have forested := fixed.forested
  have accounts : (t.left s).heap.Accounts held fun node => outside node + node.uses kept :=
    Heap.Accounts.releaseAll forested.accounted.owns
  refine ⟨⟨fun node => ?_, constants, forested.literals, forested.heap.releaseAll _⟩,
    fixed.fixes.trans (.of_persists accounts forested.accounted.constants fun _ _ =>
      .of_stems (.of_remains (Heap.remains_releaseAll _ _)))⟩
  have eq := accounts node
  dsimp only at eq
  rw [Node.uses_append]
  omega

/-- A call keeps what is between calls, and the literals. -/
theorem serves_execute (verified : f.verify = .ok ()) (standard : m.Standard)
    (serves : s.heap.Serves f outside kept) :
    (m.execute f s).2.2.heap.Serves f outside ((m.execute f s).1.given ++ kept)
      ∧ Heap.Fixes f s.heap (m.execute f s).2.2.heap := by
  obtain ⟨outcome, store⟩ := execute_eq m verified s
  have fixed := obeys_outcome (f := f) (fixed_runFor verified standard serves
    (budget m.options.maxInstructions)) m.options.maxInstructions
  rw [outcome, store]
  exact serves_left fixed serves.constants s

/-- What becomes of a store, and of the values that callers keep, by any number of calls of a
function, on machines with whatever options. Between calls, callers may give up what they
keep, or make another handle of it. -/
inductive Called (f : Function) (kept : List Value) (s : Store) : List Value → Store → Prop
  | start : Called f kept s kept s
  | call {rest : List Value} {t : Store} (before : Called f kept s rest t) (m : Machine)
    (standard : m.Standard) : Called f kept s ((m.execute f t).1.given ++ rest) (m.execute f t).2.2
  | release {v : Value} {rest others : List Value} {t : Store} (before : Called f kept s rest t)
    (perm : rest.Perm (v :: others)) : Called f kept s others (t.release v)
  | acquire {v : Value} {rest : List Value} {t : Store} (before : Called f kept s rest t)
    (mem : v ∈ rest) : Called f kept s (v :: rest) (t.acquire v)

/-- Calls keep what is between them, and the literals. -/
theorem Called.serves (called : Called f kept s rest t) (verified : f.verify = .ok ())
    (serves : s.heap.Serves f outside kept) :
    t.heap.Serves f outside rest ∧ Heap.Fixes f s.heap t.heap := by
  induction called with
  | start => exact ⟨serves, .refl f s.heap⟩
  | call before m standard ih =>
    obtain ⟨serves, fixes⟩ := ih
    obtain ⟨after, fixes'⟩ := serves_execute verified standard serves
    exact ⟨after, fixes.trans fixes'⟩
  | release before perm ih =>
    obtain ⟨serves, fixes⟩ := ih
    have after := (serves.perm perm).release
    exact ⟨after, fixes.trans (.of_persists after.accounts after.constants fun _ _ =>
      .of_stems (.release _ _ _))⟩
  | acquire before mem ih =>
    obtain ⟨serves, fixes⟩ := ih
    exact ⟨serves.acquire mem, fixes.trans fun _ b _ found =>
      (Heap.body?_acquire _ _ _).trans found⟩

end Machine

/-! ## Running again -/

namespace Heap

variable {f : Function} {h k : Heap}

mutual

/-- What unfolds and leads to literals only unfolds into the same tree where the literals are
what they were. -/
theorem Holds.fixes (fixes : Fixes f h k) : ∀ {t : Tree} {v : Value},
    (∀ id, v = .composite id → h.Literal f id) → h.Holds t v → k.Holds t v
  | .leaf w scalar, v, _, holds => holds
  | .node className fields, v, literal, holds => by
    obtain ⟨id, c, rfl, found, rfl, each⟩ := holds
    have root := literal id rfl
    obtain ⟨d, there, same⟩ :=
      Option.map_eq_some_iff.mp (fixes id _ root (body?_of_composite found))
    injection same with sameClass sameFields _
    refine ⟨id, d, rfl, there, sameClass, ?_⟩
    rw [sameFields]
    exact HoldsEach.fixes fixes (fun e mem other eq =>
      .field root ⟨c, found, eq ▸ List.mem_map.mpr ⟨e, mem, rfl⟩⟩) each

theorem HoldsEach.fixes (fixes : Fixes f h k) : ∀ {ts : List (String × Tree)}
    {entries : List (String × Value)},
    (∀ e ∈ entries, ∀ id, e.2 = .composite id → h.Literal f id) → h.HoldsEach ts entries →
    k.HoldsEach ts entries
  | [], entries, _, each => each
  | (key, t) :: rest, entries, literals, each => by
    obtain ⟨v, others, rfl, one, later⟩ := each
    exact ⟨v, others, rfl, Holds.fixes fixes (literals _ List.mem_cons_self) one,
      HoldsEach.fixes fixes (fun e mem => literals e (List.mem_cons_of_mem _ mem)) later⟩

end

end Heap

namespace Machine

variable {m m' : Machine} {f : Function} {outside : Node → Nat} {s t : Store}
  {kept rest : List Value}

/-- A call starts with a null in every slot. -/
theorem trees_entered (f : Function) (s : Store) : (s.entered f).trees
    = ⟨fun _ => .null, fun slot other => Place.slot slot == .slot other⟩ := by
  have place : ∀ slot, (s.entered f).placeOf slot = .slot slot := fun slot =>
    Store.placeOf_of_ne_ref fun cell => by
      rw [Store.entered, Frame.get_frameFor]
      exact nofun
  have shown : ∀ slot, (s.entered f).peek (.slot slot) = .null := fun slot =>
    Frame.get_frameFor f slot
  unfold Store.trees
  simp only [place, shown, (Heap.holds_null _).tree_eq]

/-- A literal has the tree that it had where the literals are what they were. -/
theorem tree_of_fixes (before : s.heap.Serves f outside kept)
    (fixes : Heap.Fixes f s.heap t.heap) {v : Value} (mem : v ∈ f.constants) :
    t.heap.tree v = s.heap.tree v := by
  obtain ⟨i, constant⟩ := Array.mem_iff_getElem?.mp mem
  have plain := before.literals i
  rw [constant, Option.getD_some] at plain
  have holds := Heap.holds_tree before.forest.acyclic before.accounts.closed before.forest.fields
    (Heap.alive_constant before.accounts before.constants constant) plain
  exact (holds.fixes fixes fun id eq => .root (eq ▸ constant)).tree_eq

/-- Calls that find the same literals start with the same trees. -/
theorem mirrors_entered (serves : t.heap.Serves f outside rest)
    (before : s.heap.Serves f outside kept) (fixes : Heap.Fixes f s.heap t.heap) (m' : Machine) :
    (m'.start f (t.entered f)).store.Mirrors f (fun node => outside node + node.uses rest)
      (f.constants.map s.heap.tree) [] (s.entered f).trees := by
  have mirrors := serves.isForest.mirrors_start m'
  have literals : f.constants.map t.heap.tree = f.constants.map s.heap.tree :=
    Array.map_congr_left fun v mem => tree_of_fixes before fixes mem
  have heap : (t.entered f).heap = t.heap := rfl
  rwa [trees_entered f t, ← trees_entered f s, heap, literals] at mirrors

/-- Calls that find the same literals end alike. -/
theorem agrees_of_fixes (verified : f.verify = .ok ()) (standard : m.Standard)
    (alike : m.Alike m')
    (loose : ∀ instr ∈ f.code, instr.opcode ≠ .comparison .identical
      ∧ instr.opcode ≠ .comparison .notIdentical)
    (before : s.heap.Serves f outside kept) (serves : t.heap.Serves f outside rest)
    (fixes : Heap.Fixes f s.heap t.heap)
    (numbers : ∀ n p, m.runFor f n (m.start f (s.entered f)) = .running p →
      p.store.heap.NaNFree)
    (numbers' : ∀ n p, m'.runFor f n (m'.start f (t.entered f)) = .running p →
      p.store.heap.NaNFree) :
    (m.execute f s).1.Agrees (m.execute f s).2.2.heap (m'.execute f t).2.2.heap
      (m'.execute f t).1 := by
  obtain ⟨outcome, store⟩ := execute_eq m verified s
  obtain ⟨outcome', store'⟩ := execute_eq m' verified t
  obtain ⟨copying, same⟩ := exists_mirrors_runFor (Function.verified_of_verify verified) loose
    standard (f.constants.map s.heap.tree) (budget m.options.maxInstructions)
    ⟨(s.entered f).trees, 0⟩
  have first := same m ⟨rfl, rfl⟩ _ _ rfl (fun n p _ eq => numbers n p eq)
    (mirrors_entered before before (.refl f s.heap) m)
  have again := same m' alike _ _ rfl (fun n p _ eq => numbers' n p eq)
    (mirrors_entered serves before fixes m')
  rw [outcome, store, outcome', store', alike.options]
  exact agrees_of_mirrors first again m.options.maxInstructions s t

/-- Literals are immutable, and functions can be run again. Between calls of a verified
function every handle is accounted for, no literal is bound to a cell, and composites
contain no cell and no cycle and carry no flag. Calls are made on machines without handlers
or with those of the operators of vectors, any number of them, whether they return or fail,
and callers may keep what was returned. Then the composites of the literals are what they
were, also at every point of the next call. And a call on a machine with the same options and
the same table as the first one has the same outcome, if the function does not ask for
identity and no field holds a float that is no number. -/
theorem literals_are_immutable (verified : f.verify = .ok ())
    (serves : s.heap.Serves f outside kept) (called : Called f kept s rest t) :
    (∀ id, s.heap.Literal f id → s.heap.Keeps t.heap id
        ∧ ∀ m : Machine, m.Standard → ∀ n,
          s.heap.Keeps (m.runFor f n (m.start f (t.entered f))).store.heap id)
      ∧ ∀ m m' : Machine, m.Standard → m.Alike m' →
        (∀ instr ∈ f.code, instr.opcode ≠ .comparison .identical
          ∧ instr.opcode ≠ .comparison .notIdentical) →
        (∀ n p, m.runFor f n (m.start f (s.entered f)) = .running p → p.store.heap.NaNFree) →
        (∀ n p, m'.runFor f n (m'.start f (t.entered f)) = .running p → p.store.heap.NaNFree) →
        (m.execute f s).1.Agrees (m.execute f s).2.2.heap (m'.execute f t).2.2.heap
          (m'.execute f t).1 := by
  obtain ⟨after, fixes⟩ := called.serves verified serves
  refine ⟨fun id literal => ⟨serves.keeps fixes literal, fun m standard n => ?_⟩,
    fun m m' standard alike loose numbers numbers' =>
      agrees_of_fixes verified standard alike loose serves after fixes numbers numbers'⟩
  have fixed := obeys_outcome (f := f) (fixed_runFor verified standard after n) none
  exact serves.keeps (fixes.trans fixed.fixes) literal

/-- Loads a literal pair, steps the vector that it has on both sides, and puts the vector back
on one side. -/
def stepping : Function where
  name := "stepping"
  code := #[
    ⟨.assign, .var 0, .const 0, .unused, 0⟩,
    ⟨.getField, .var 0, .const 1, .var 1, 0⟩,
    ⟨.step .pre .up, .var 1, .unused, .unused, 0⟩,
    ⟨.setField, .var 0, .const 2, .unused, 0⟩,
    ⟨.opData, .var 1, .unused, .unused, 0⟩,
    ⟨.ret, .var 0, .unused, .unused, 0⟩]
  constants := #[.composite ⟨1⟩, .str "left", .str "right"]
  temporaries := 0
  variableNames := #["pair", "vector"]

/-- A literal vector, and a literal pair that has it on both sides. -/
def vectorPair : Store where
  heap := (((Heap.empty.create "Vector" (.ofList [("x", .int 1), ("y", .int 2)])).2.acquire
    (.composite ⟨0⟩)).create "Pair"
      (.ofList [("left", .composite ⟨0⟩), ("right", .composite ⟨0⟩)])).2
  frame := .ofSizes 0 0
  notes := #[]

theorem serves_vectorPair :
    vectorPair.heap.Serves stepping (fun node => node.usedBy (.composite ⟨1⟩)) [] := by
  have nothing : Heap.empty.Accounts ((OrderedMap.ofList [("x", .int 1), ("y", .int 2)] :
      NameMap Value).values ++ []) fun _ => 0 := fun node => by cases node <;> rfl
  have one := nothing.create "Vector"
  have two : Heap.Accounts _ ((OrderedMap.ofList [("left", .composite ⟨0⟩),
      ("right", .composite ⟨0⟩)] : NameMap Value).values ++ []) fun _ => 0 :=
    one.acquire (one.alive List.mem_cons_self)
  have three : vectorPair.heap.Accounts [.composite ⟨1⟩] fun _ => 0 := two.create "Pair"
  refine ⟨fun node => ?_, fun node => Nat.le_refl _, fun i cell eq => ?_, ?_⟩
  · have eq := three node
    rw [Node.uses_cons, Node.uses_nil] at eq
    rw [Node.uses_nil]
    omega
  · rcases i with _ | _ | _ | i <;> cases eq
  · have vector := Heap.IsForest.empty.create nothing
      (show ∀ v ∈ [Value.int 1, .int 2], v.Plain by simp [Value.Plain]) "Vector"
    exact (vector.acquire (.composite ⟨0⟩)).create two
      (show ∀ v ∈ [Value.composite ⟨0⟩, .composite ⟨0⟩], v.Plain by simp [Value.Plain]) "Pair"

/-- No field holds a float that is no number in a run that ends, if none does before the end. -/
theorem nanFree_of_isEnded {p : Progress} {n : Nat} (ends : (m.runFor f n p).isEnded = true)
    (before : ∀ k < n, (m.runFor f k p).store.heap.NaNFree) (k : Nat) (r : Progress)
    (runs : m.runFor f k p = .running r) : r.store.heap.NaNFree := by
  rcases Nat.lt_or_ge k n with lt | ge
  · have free := before k lt
    rwa [runs] at free
  · cases eq : m.runFor f n p with
    | running q =>
      rw [eq] at ends
      cases ends
    | ended outcome q =>
      rw [runFor_of_ended eq ge] at runs
      cases runs

/-- The step separates the vector from the literal pair, so the pair is what it was when the
machine is called again, while the pair that was returned first is kept. -/
theorem literals_are_immutable_stepping :
    let m := ofTable .standard Vector2.table
    let first := m.execute stepping vectorPair
    let second := first.2.1.execute stepping first.2.2
    stepping.verify = .ok () ∧ vectorPair.heap.Keeps first.2.2.heap ⟨0⟩
      ∧ first.1.Agrees first.2.2.heap second.2.2.heap second.1 := by
  intro m
  dsimp only
  have verified : stepping.verify = .ok () := rfl
  have pair : vectorPair.heap.Literal stepping ⟨1⟩ := @Heap.Literal.root _ _ 0 _ rfl
  have vector : vectorPair.heap.Literal stepping ⟨0⟩ :=
    pair.field ⟨_, rfl, List.mem_cons_self⟩
  have called : Called stepping [] vectorPair _ _ := .call .start m (.inr rfl)
  obtain ⟨keeps, again⟩ := literals_are_immutable verified serves_vectorPair called
  have alike := m.alike_execute stepping vectorPair
  exact ⟨verified, (keeps ⟨0⟩ vector).1, again m _ (.inr rfl) alike (by decide)
    (@nanFree_of_isEnded _ _ _ 6 (by decide +kernel) (by decide +kernel))
    (@nanFree_of_isEnded _ _ _ 6 (by decide +kernel) (by decide +kernel))⟩

end Machine

end OverloadMachine
