import OverloadMachine.Proofs.ForestRecursions
import OverloadMachine.Proofs.VectorCalls

/-!
# Calls in forests

A handler is tame if it makes no cells, never touches a flag, and sets fields under
guard only. Whatever a tame handler does with its call, it finds a forest and leaves
one: all that it can copy is plain, and the guard lets it set a field only where no
other composite holds the one that it changes. The operators of vectors are tame, so
no run with them leaves the forest, and the recursions over values always end.
-/

namespace OverloadMachine

/-! ## What handlers make -/

/-- A call shows a forest, and plain operands. -/
structure CallView.Plain (view : CallView) : Prop where
  heap : view.heap.IsForest
  operand : ∀ side seen, view.operand side = some seen → seen.value.Plain
  sign : ∀ seen, view.sign = some seen → seen.operand.value.Plain

/-- Whatever a handler finds from a call that shows a forest is plain. -/
theorem CallView.Plain.find {view : CallView} (plain : view.Plain) (source : Source) :
    (view.find source).Plain := by
  have null : Value.null.Plain := Value.plain_of_scalar rfl
  induction source with
  | operand side =>
    rw [CallView.find]
    cases seen : view.operand side with
    | none => exact null
    | some o => exact plain.operand side o seen
  | signOperand =>
    rw [CallView.find]
    cases seen : view.sign with
    | none => exact null
    | some o => exact plain.sign o seen
  | field source key ih =>
    rw [CallView.find]
    cases view.find source with
    | composite id => exact plain.heap.plain_field id key
    | _ => exact null
  | content source ih =>
    rw [CallView.find]
    split
    · exact plain.heap.cells _
    · exact null
  | composite source ih =>
    rw [CallView.find]
    cases view.find source with
    | composite id => exact Value.plain_composite id
    | _ => exact null

/-- A call in a forest shows it. -/
theorem CallContext.plain_view {f : Function} {ctx : CallContext} {outside : Node → Nat}
    {held : List Value} {s : Store} (forested : s.Forested f outside held) :
    (ctx.view s).Plain := by
  have sees : ∀ o, (ctx.see s o).value.Plain := by
    intro o
    unfold see
    split
    · rename_i v indirect shown
      unfold Store.view at shown
      cases resolved : s.resolve ctx.constants o with
      | error fault =>
        rw [resolved] at shown
        cases shown
      | ok w =>
        have plain := forested.heap.plain_lookThrough w
        rw [resolved] at shown
        rwa [Except.ok.inj shown] at plain
    · exact Value.plain_of_scalar rfl
  refine ⟨forested.heap, fun side seen found => ?_, fun seen found => ?_⟩
  · cases side with
    | first =>
      cases found
      exact sees _
    | second =>
      rw [CallView.operand, view] at found
      dsimp only at found
      split at found
      · cases found
        exact sees _
      · cases found
  · obtain ⟨sign, -, rfl⟩ := Option.map_eq_some_iff.mp found
    exact sees _

namespace Heap.IsForest

variable {h : Heap} {held : List Value} {outside : Node → Nat}

/-- Plain values are gathered. -/
theorem foldl_gather (entries : List (String × Value)) (fields : NameMap Value)
    (forest : h.IsForest) (plain : ∀ v ∈ fields.values, v.Plain)
    (values : ∀ e ∈ entries, e.2.Plain) :
    let gathered := entries.foldl (fun (fields, h) e => h.gather fields e.1 e.2) (fields, h)
    gathered.2.IsForest ∧ ∀ v ∈ gathered.1.values, v.Plain := by
  induction entries generalizing fields h with
  | nil => exact ⟨forest, plain⟩
  | cons e rest ih =>
    refine ih (fields.insert e.1 e.2) ?_ (fun v mem => ?_) fun d mem =>
      values d (List.mem_cons_of_mem e mem)
    · split
      · exact forest.release _
      · exact forest
    · rcases OrderedMap.mem_values_insert mem with rfl | before
      · exact values e List.mem_cons_self
      · exact plain v before

theorem createWith {entries : List (String × Value)} (forest : h.IsForest)
    (accounts : h.Accounts (entries.map (·.2) ++ held) outside)
    (values : ∀ e ∈ entries, e.2.Plain) (className : String) :
    (h.createWith className entries).2.IsForest := by
  obtain ⟨gathered, plain⟩ := forest.foldl_gather entries .empty nofun values
  exact gathered.create (Heap.Accounts.foldl_gather entries .empty accounts) plain className

end Heap.IsForest

namespace Draft

mutual

/-- A value is made without new cells. -/
def MakesNoCell : Draft → Prop
  | .cell _ => False
  | .new _ fields => EachMakesNoCell fields
  | _ => True

/-- Values are made without new cells. -/
def EachMakesNoCell : List (String × Draft) → Prop
  | [] => True
  | (_, draft) :: rest => draft.MakesNoCell ∧ EachMakesNoCell rest

end

/-- Scalars are made without new cells. -/
theorem eachMakesNoCell_scalars (entries : List (String × Value)) :
    EachMakesNoCell (entries.map fun e => (e.1, .scalar e.2)) := by
  induction entries with
  | nil => trivial
  | cons e rest ih => exact ⟨trivial, ih⟩

variable {view : CallView} {k : Heap} {outside : Node → Nat}

mutual

/-- A value that is made without new cells is plain, and leaves a forest. -/
theorem forest_build (plain : view.Plain) (shows : view.Shows k) (closed : k.Closed) :
    ∀ (draft : Draft) {h : Heap} {held : List Value}, draft.MakesNoCell → k.Remains h →
      h.Accounts held outside → h.IsForest →
      (draft.build view h).2.IsForest ∧ (draft.build view h).1.Plain
  | .scalar v, h, held, _, _, _, forest => by
    have scalar : (if v.isHandle then Value.null else v).node? = none := by cases v <;> rfl
    exact ⟨forest, Value.plain_of_scalar scalar⟩
  | .copy source, h, held, _, _, _, forest => ⟨forest.acquire _, plain.find source⟩
  | .duplicate source, h, held, _, _, accounts, forest => by
    unfold build
    split
    · rename_i c there
      obtain ⟨id, -, found⟩ := Option.bind_eq_some_iff.mp there
      exact ⟨forest.duplicate accounts found, Value.plain_composite _⟩
    · exact ⟨forest, Value.plain_of_scalar rfl⟩
  | .new className fields, h, held, noCell, remains, accounts, forest => by
    obtain ⟨built, values⟩ := forest_buildEach plain shows closed fields noCell remains accounts
      forest
    have accounts := accounts_buildEach shows closed fields remains accounts
    exact ⟨built.createWith accounts values className, Value.plain_composite _⟩

/-- Values that are made without new cells are plain, and leave a forest. -/
theorem forest_buildEach (plain : view.Plain) (shows : view.Shows k) (closed : k.Closed) :
    ∀ (fields : List (String × Draft)) {h : Heap} {held : List Value}, EachMakesNoCell fields →
      k.Remains h → h.Accounts held outside → h.IsForest →
      (buildEach view h fields).2.IsForest ∧ ∀ e ∈ (buildEach view h fields).1, e.2.Plain
  | [], h, held, _, _, _, forest => ⟨forest, nofun⟩
  | (key, draft) :: rest, h, held, noCell, remains, accounts, forest => by
    obtain ⟨built, value⟩ := forest_build plain shows closed draft noCell.1 remains accounts forest
    have kept := remains_build shows closed draft remains
    have first := accounts_build shows closed draft remains accounts
    obtain ⟨others, values⟩ := forest_buildEach plain shows closed rest noCell.2
      (remains.trans kept) first built
    exact ⟨others, List.forall_mem_cons.mpr ⟨value, values⟩⟩

end

end Draft

/-! ## Calls -/

/-- A handler makes no cells, touches no flag, sets fields under guard only, and changes nothing
else that it is shown. -/
def Handler.Tame : Handler → Prop
  | .answer _ => True
  | .inspect next => ∀ view, (next view).Tame
  | .note _ next => next.Tame
  | .setResult value next => value.MakesNoCell ∧ ∀ result, (next result).Tame
  | .write value next => value.MakesNoCell ∧ ∀ result, (next result).Tame
  | .separate next => ∀ result, (next result).Tame
  | .setFields guarded fields next =>
    guarded = true ∧ Draft.EachMakesNoCell fields ∧ ∀ result, (next result).Tame
  | .setFlag _ _ | .mutate _ _ _ => False

/-- The store of a call is forested, and so is the result that is held back. -/
def CallState.Forested (c : CallState) (f : Function) (outside : Node → Nat) : Prop :=
  c.store.Forested f outside c.pending.toList

namespace CallState

variable {f : Function} {pc : Nat} {ctx : CallContext} {outside : Node → Nat}
  {held : List Value} {c : CallState}

/-- A value that is made is held. -/
theorem forested_build (call : ctx.Of f pc) (forested : c.store.Forested f outside held)
    {draft : Draft} (noCell : draft.MakesNoCell) :
    (c.build ctx draft).2.store.Forested f outside ((c.build ctx draft).1 :: held) := by
  have acc := forested.accounted
  obtain ⟨built, plain⟩ := draft.forest_build (CallContext.plain_view forested) (call.shows acc)
    (Heap.Accounts.closed acc.owns) noCell (.refl _) acc.owns forested.heap
  exact ⟨accounted_build call acc draft, built, List.forall_mem_cons.mpr ⟨plain, forested.held⟩,
    forested.literals, forested.bare⟩

/-- Values that are made are held. -/
theorem forested_buildEach (call : ctx.Of f pc) (forested : c.store.Forested f outside held)
    {fields : List (String × Draft)} (noCell : Draft.EachMakesNoCell fields) :
    ({ c.store with heap := (Draft.buildEach (ctx.view c.store) c.store.heap fields).2 } :
        Store).Forested f outside
      ((Draft.buildEach (ctx.view c.store) c.store.heap fields).1.map (·.2) ++ held) := by
  have acc := forested.accounted
  obtain ⟨built, values⟩ := Draft.forest_buildEach (CallContext.plain_view forested)
    (call.shows acc) (Heap.Accounts.closed acc.owns) fields noCell (.refl _) acc.owns forested.heap
  refine ⟨accounted_buildEach call acc fields, built, fun v mem => ?_, forested.literals,
    forested.bare⟩
  rcases List.mem_append.mp mem with made | old
  · obtain ⟨e, there, rfl⟩ := List.mem_map.mp made
    exact values e there
  · exact forested.held v old

/-- The place that a handler writes is there and holds what is plain, and looking for it
leaves the forest. -/
theorem forested_target (call : ctx.Of f pc) (forested : c.store.Forested f outside held) :
    (∃ place d, c.target ctx = (.ok place, d) ∧ d.store.HasPlace place
        ∧ (d.store.peek place).Plain ∧ d.store.Forested f outside held ∧ d.pending = c.pending)
      ∨ ∃ violation d, c.target ctx = (.error violation, d)
        ∧ d.store.Forested f outside held ∧ d.pending = c.pending := by
  by_cases assigns : ctx.category.isAssignment = true
  · have plain := forested.plain_peek (ctx.instr.op1.slot f.constants)
    rw [call.target_eq assigns forested.accounted.fits]
    refine Or.inl ⟨_, _, rfl, forested.accounted.hasPlace_defining call.checked.op1 _, ?_,
      forested.defining _, rfl⟩
    rw [Store.peek_defining]
    exact plain
  · rw [CallState.target, if_neg assigns]
    exact Or.inr ⟨_, _, rfl, forested, rfl⟩

/-- Giving up the values of entries leaves the forest. -/
theorem forested_foldl_release {entries : List (String × Value)}
    (forested : c.store.Forested f outside (entries.map (·.2) ++ held)) :
    (entries.foldl (fun c e => c.release e.2) c).store.Forested f outside held := by
  induction entries generalizing c with
  | nil => exact forested
  | cons e rest ih => exact ih (c := c.release e.2) (Store.Forested.release forested)

namespace Forested

theorem setResult (forested : c.Forested f outside) (call : ctx.Of f pc) {draft : Draft}
    (noCell : draft.MakesNoCell) : (c.setResult ctx draft).2.Forested f outside := by
  have built := forested_build call forested noCell
  unfold CallState.setResult
  dsimp only
  split
  · split
    · rename_i old there
      have kept : c.pending = some old := there
      rw [kept] at built
      exact Store.Forested.release (v := old) (built.perm (List.Perm.swap _ _ []))
    · rename_i none
      have kept : c.pending = .none := none
      rw [kept] at built
      exact built
  · exact Store.Forested.release built

theorem write (forested : c.Forested f outside) (call : ctx.Of f pc) {draft : Draft}
    (noCell : draft.MakesNoCell) : (c.write ctx draft).2.Forested f outside := by
  have built := forested_build call forested noCell
  have targeted := forested_target (c := (c.build ctx draft).2) call built
  unfold CallState.write
  dsimp only
  rcases targeted with ⟨place, d, eq, has, -, kept, same⟩ | ⟨violation, d, eq, kept, same⟩
  · rw [eq, CallState.Forested]
    dsimp only
    rw [same]
    exact kept.overwrite has
  · rw [eq, CallState.Forested]
    dsimp only [CallState.release]
    rw [same]
    exact kept.release

theorem separate (forested : c.Forested f outside) (call : ctx.Of f pc) :
    (c.separate ctx).2.Forested f outside := by
  unfold CallState.separate
  rcases forested_target call forested with
    ⟨place, d, eq, has, plain, kept, same⟩ | ⟨violation, d, eq, kept, same⟩
  · rw [eq]
    dsimp only
    split
    · rw [CallState.Forested, same]
      exact kept
    · rw [CallState.Forested]
      dsimp only
      rw [same]
      exact kept.separate has plain
  · rw [eq, CallState.Forested]
    dsimp only
    rw [same]
    exact kept

theorem setFields (forested : c.Forested f outside) (call : ctx.Of f pc)
    {fields : List (String × Draft)} (noCell : Draft.EachMakesNoCell fields) :
    (c.setFields ctx true fields).2.Forested f outside := by
  have built := forested_buildEach call forested noCell
  unfold CallState.setFields
  dsimp only
  generalize Draft.buildEach (ctx.view c.store) c.store.heap fields = made at built ⊢
  obtain ⟨entries, heap⟩ := made
  have targeted := forested_target (c := { c with store := { c.store with heap := heap } }) call
    built
  dsimp only at targeted ⊢
  have released : ∀ d : CallState, d.store.Forested f outside
      (entries.map (·.2) ++ c.pending.toList) → d.pending = c.pending →
      (entries.foldl (fun c e => c.release e.2) d).Forested f outside := by
    intro d kept same
    rw [CallState.Forested, pending_foldl_release, same]
    exact forested_foldl_release kept
  rcases targeted with ⟨place, d, eq, has, -, kept, same⟩ | ⟨violation, d, eq, kept, same⟩
  · rw [eq]
    dsimp only
    split
    · rename_i id there
      rw [if_pos rfl, CallState.Forested]
      dsimp only
      rw [same]
      exact kept.setFields has there
    · exact released d kept same
  · rw [eq]
    exact released d kept same

end Forested

end CallState

/-- The run of a tame handler leaves the forest. -/
theorem Handler.Tame.run {f : Function} {pc : Nat} {ctx : CallContext} {outside : Node → Nat}
    {h : Handler} {c : CallState} (tame : h.Tame) (call : ctx.Of f pc)
    (forested : c.Forested f outside) : (h.run ctx c).2.Forested f outside := by
  induction h generalizing c with
  | answer reply => exact forested
  | inspect next ih => exact ih _ (tame _) forested
  | note line next ih =>
    have noted : (c.addNote line).Forested f outside :=
      ⟨forested.accounted.congr ⟨rfl, rfl⟩, forested.heap, forested.held, forested.literals,
        forested.bare⟩
    exact ih tame noted
  | setResult value next ih => exact ih _ (tame.2 _) (forested.setResult call tame.1)
  | write value next ih => exact ih _ (tame.2 _) (forested.write call tame.1)
  | separate next ih =>
    have kept := forested.separate call
    rw [Handler.run]
    split
    · rename_i result d eq
      rw [eq] at kept
      exact ih result (tame result) kept
    · rename_i d eq
      rw [eq] at kept
      exact kept
  | setFields guarded fields next ih =>
    obtain ⟨rfl, noCell, later⟩ := tame
    exact ih _ (later _) (forested.setFields call noCell)
  | setFlag flag next => exact tame.elim
  | mutate source change next => exact tame.elim

/-! ## Instructions and runs -/

namespace Effect

variable {f : Function} {instr : Instruction} {pc : Nat} {outside : Node → Nat} {s : Store}

/-- The end of a handler's run leaves the forest. -/
theorem forested_settle (checked : instr.Checked f pc) {ending : Option Answer × CallState}
    (forested : ending.2.Forested f outside) :
    (settle f.constants instr ending).2.Forested f outside [] := by
  obtain ⟨answer, c⟩ := ending
  dsimp only at forested
  have dropped : (dropPending c.pending c.store).Forested f outside [] := by
    unfold dropPending
    unfold CallState.Forested at forested
    cases pending : c.pending with
    | none =>
      rw [pending] at forested
      exact forested
    | some v =>
      rw [pending] at forested
      exact forested.release
  have cleared : ∀ {t : Store}, t.Forested f outside [] →
      (t.overwrite (.slot .scratch) .null).Forested f outside [] := fun {t} forested =>
    (forested.scalar rfl).overwrite (show t.HasPlace (.slot .scratch) from trivial)
  unfold settle
  dsimp only
  split
  · exact dropped
  · exact dropped
  · rename_i reply _
    cases reply with
    | handled =>
      refine cleared (Store.Forested.vacateRead ?_ checked.op1 checked.op2)
      unfold storePending
      unfold CallState.Forested at forested
      split
      · rename_i v there
        rw [there] at forested
        split
        · exact forested.release
        · exact forested.assign checked.result
      · rename_i none
        rw [none] at forested
        exact forested
    | declined => exact cleared dropped
    | unsupported reason => exact cleared dropped
    | violated violation => exact dropped

/-- The call of a tame handler, and the built-in instruction if it declines, leave the
forest. -/
theorem forested_calling (verified : f.Verified) (found : f.code[pc]? = some instr)
    {category : Category} (has : instr.opcode.category? = some category) (order : NegationOrder)
    {handler : Handler} (tame : handler.Tame) (forested : s.Forested f outside []) :
    (calling order f instr pc category handler s).2.Forested f outside
      (given (calling order f instr pc category handler s).1) := by
  have checked := verified.checked found
  have call : CallContext.Of f pc ⟨instr, category, f.constants, order⟩ := ⟨checked, has, rfl⟩
  have start : CallState.Forested ⟨s, none, none⟩ f outside := forested
  have settled := forested_settle checked (tame.run call start)
  unfold calling
  generalize settle f.constants instr _ = ending at settled ⊢
  obtain ⟨result, t⟩ := ending
  cases result with
  | error fault => exact settled
  | ok decision =>
    cases decision with
    | handled => exact settled
    | declined =>
      have kept := forested_finishing (forested_of verified found settled)
      rw [deciding, fst_finishing]
      exact kept

end Effect

namespace Vector2

/-- Whoever declines changes nothing. -/
theorem tame_orDecline {α : Type} {next : α → Handler} (tame : ∀ a, (next a).Tame)
    (found : Except Unsupported α) : (orDecline next found).Tame := by
  cases found with
  | ok a => exact tame a
  | error reason => trivial

/-- A vector is made without new cells. -/
theorem makesNoCell_draft (v : Vector2) : v.draft.MakesNoCell :=
  Draft.eachMakesNoCell_scalars v.entries

theorem tame_yield {result : Draft} (noCell : result.MakesNoCell) : (yield result).Tame := by
  refine ⟨noCell, fun result => ?_⟩
  cases result <;> trivial

theorem tame_replace (v : Vector2) {next : Except Refusal Unit → Handler}
    (tame : ∀ result, (next result).Tame) : (v.replace next).Tame := by
  intro result
  cases result with
  | ok copied => exact ⟨rfl, Draft.eachMakesNoCell_scalars v.entries, tame⟩
  | error violation => trivial

theorem tame_updateInPlace (v : Vector2) : (updateInPlace v).Tame := by
  refine tame_replace v fun result => ?_
  cases result with
  | error refusal => trivial
  | ok done =>
    intro view
    dsimp only
    split
    · exact tame_yield trivial
    · trivial

/-- The handlers of vectors are tame. -/
theorem HandlerFor.tame {category : Category} {handler : Handler}
    (is : HandlerFor category handler) : handler.Tame := by
  cases is with
  | onVectors g yields =>
    refine fun view => tame_orDecline (fun ⟨a, b⟩ => tame_yield ?_) _
    rcases yields a b with ⟨v, eq⟩ | ⟨v, eq⟩
    · rw [eq]
      exact makesNoCell_draft v
    · rw [eq]
      trivial
  | multiply =>
    intro view
    dsimp only
    split
    · rename_i seen _
      refine tame_orDecline (fun v => ?_) _
      cases seen.sign with
      | negate => exact tame_yield (makesNoCell_draft _)
      | plus => exact tame_yield trivial
    · exact tame_orDecline (fun v => tame_yield (makesNoCell_draft v)) _
  | assignVectors g => exact fun view => tame_orDecline (fun _ => tame_updateInPlace _) _
  | assignProduct => exact fun view => tame_orDecline (fun _ => tame_updateInPlace _) _
  | stepBefore direction => exact fun view => tame_orDecline (fun _ => tame_updateInPlace _) _
  | stepAfter direction =>
    refine fun view => tame_orDecline (fun v => tame_replace _ fun result => ?_) _
    split
    · trivial
    · exact tame_yield (makesNoCell_draft v)

end Vector2

namespace Machine

variable {m : Machine} {f : Function} {outside : Node → Nat} {s : Store}

/-- Every instruction leaves a forest where it finds one, if all handlers are tame. -/
theorem keeps_forests (verified : f.Verified)
    (tame : ∀ {op handler category}, m.table.lookup op = some handler →
      op.category? = some category → handler.Tame) (outside : Node → Nat) :
    m.Keeps f fun held s => s.Forested f outside held := by
  intro pc instr s found forested
  unfold Effect.dispatch
  split
  · rename_i handler category look has
    exact Effect.forested_calling verified found has _ (tame look has) forested
  · have kept := Effect.forested_finishing (Effect.forested_of verified found forested)
    rw [Effect.fst_finishing]
    exact kept

/-- No references leak. A verified function is run with the empty table or with that of the
operators of vectors, in a store that is a forest: no literal, no cell, no field and no
slot but those of variables is bound to a cell, no composite carries its flag, and
composites contain no cycle. Then the store is a forest after any number of
instructions, and when the run has ended, with the value that it returns counted among
the handles outside. So truth, texts and loose order end at every value that is alive
at any time. -/
theorem no_leak_across_references (verified : f.verify = .ok ()) (forest : s.IsForest f outside)
    (tables : m.table = .empty ∨ m.table = Vector2.table) (n : Nat) :
    (m.runFor f n (m.start f s)).Obeys fun held t =>
      t.IsForest f (fun node => outside node + node.uses held) ∧ (∀ v ∈ held, v.Plain)
        ∧ (∀ v ∈ held, t.heap.Alive v) ∧ t.heap.RecursionsEnd := by
  have order := Function.verified_of_verify verified
  have tame : ∀ {op handler category}, m.table.lookup op = some handler →
      op.category? = some category → handler.Tame := by
    intro op handler category look has
    rcases tables with empty | vectors
    · rw [empty] at look
      cases look
    · rw [vectors] at look
      exact (Vector2.handlerFor_of_lookup look has).tame
  have kept := (keeps_forests order tame outside).runFor order
    (fun forested => forested.accounted.fits) n (forest.forested_start m)
  exact kept.mono fun forested =>
    ⟨forested.isForest, forested.held, fun v mem => forested.accounted.alive_held mem,
      forested.heap.recursionsEnd (Heap.Accounts.closed forested.accounted.owns)⟩

/-- A list that is stored in itself through a variable makes no cycle. -/
theorem no_leak_across_references_nesting :
    let m := Machine.ofTable .standard Vector2.table
    nesting.verify = .ok () ∧ ∀ n, (m.runFor nesting n (m.start nesting lists)).Obeys
      fun held t => t.IsForest nesting (fun node => 0 + node.uses held)
        ∧ (∀ v ∈ held, v.Plain) ∧ (∀ v ∈ held, t.heap.Alive v) ∧ t.heap.RecursionsEnd :=
  ⟨rfl, fun n => no_leak_across_references rfl forest_lists (Or.inr rfl) n⟩

end Machine

end OverloadMachine
