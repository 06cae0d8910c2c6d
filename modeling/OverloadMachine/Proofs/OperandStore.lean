import OverloadMachine.Proofs.DeclinedCalls
import OverloadMachine.Proofs.OperandChecks

/-!
# Operands as a store with aliases

What is stored through an operand is loaded through every operand that names the same slot, and
through every operand whose slot is bound to the same cell; every other operand loads what it
loaded before. For a value that is no handle of a cell no binding changes. So of two stores the
second one stands, and storing what was loaded leaves everything as it was. A dynamic variable
comes into being only by being written.
-/

namespace OverloadMachine

/-- Of two new contents of a cell the second one stands. -/
theorem Heap.putContent_putContent (h : Heap) (cell : CellId) (v w : Value) :
    (h.putContent cell v).putContent cell w = h.putContent cell w := by
  apply ext_nodes
  · intro id
    simp only [composite?_putContent]
  · intro id
    simp only [cell?_putContent]
    split
    · cases h.cell? id <;> rfl
    · rfl

/-- Frames that suffice for the same functions have equally many slots. -/
theorem Frame.sizes_of_fits {one two : Frame} (same : ∀ f, one.Fits f ↔ two.Fits f) :
    one.temps.size = two.temps.size ∧ one.vars.size = two.vars.size := by
  have forth := (same (one.sized #[])).mp (one.fits_sized #[])
  have back := (same (two.sized #[])).mpr (two.fits_sized #[])
  have vars : (one.sized #[]).variableNames.size = one.vars.size := Array.size_replicate
  have vars' : (two.sized #[]).variableNames.size = two.vars.size := Array.size_replicate
  exact ⟨Nat.le_antisymm forth.temps back.temps,
    Nat.le_antisymm (vars ▸ forth.vars) (vars' ▸ back.vars)⟩

namespace Operand

variable {f : Function} {o : Operand}

/-- What can be written is no literal. -/
theorem isLiteral_of_isWritable (writable : o.isWritable = true) : o.isLiteral = false := by
  cases o <;> first | rfl | cases writable

end Operand

namespace Store

variable {f : Function} {constants : Array Value} {outside : Node → Nat} {held : List Value}
  {s t u : Store} {slot : Slot} {place : Place} {o p : Operand} {v w : Value}

/-! ## What operands read -/

/-- Of two writes to one place the second one stands. -/
theorem put_put (s : Store) (place : Place) (v w : Value) :
    (s.put place v).put place w = s.put place w := by
  cases place with
  | slot slot => exact ext_parts rfl (s.frame.put_put slot v w) rfl
  | cell cell => exact ext_parts (s.heap.putContent_putContent cell v w) rfl rfl

theorem release_defining (s : Store) (constants : Array Value) (o : Operand) (v : Value) :
    (s.release v).defining constants o = (s.defining constants o).release v := by
  unfold defining
  split <;> rfl

/-- A dynamic variable has a slot and resolves to what is in it, unless its name is no text. -/
theorem resolve_dynamic (constants : Array Value) (i : Nat) :
    (∃ name, (Operand.dynamic i).slot constants = .symbol name
        ∧ ∀ s : Store, s.resolve constants (.dynamic i) = .ok (s.frame.get (.symbol name)))
      ∨ (Operand.dynamic i).slot constants = .scratch
        ∧ ∀ s : Store, s.resolve constants (.dynamic i) = .error (.code (.nameNotText i)) := by
  by_cases text : ∃ name, constants[i]? = some (.str name)
  · obtain ⟨name, found⟩ := text
    refine .inl ⟨name, by rw [Operand.slot, found], fun s => ?_⟩
    rw [resolve, variableName, found]
    rfl
  · have unnamed : variableName constants i = .error (.code (.nameNotText i)) := by
      unfold variableName
      split
      · rename_i name found
        exact absurd ⟨name, found⟩ text
      · rfl
    refine .inr ⟨?_, fun s => by rw [resolve, unnamed]; rfl⟩
    rw [Operand.slot]
    split
    · rename_i name found
      exact absurd ⟨name, found⟩ text
    · rfl

/-- An operand with a slot of its own resolves to what the slot holds. -/
theorem resolve_of_has (named : p.slot constants ≠ .scratch)
    (has : s.frame.Has (p.slot constants)) :
    s.resolve constants p = .ok (s.frame.get (p.slot constants)) := by
  cases p with
  | unused => exact absurd rfl named
  | const i => exact absurd rfl named
  | temp i =>
    have lt : i < s.frame.temps.size := has
    simp [resolve, Operand.slot, Frame.get, Frame.get?, lt]
  | var i =>
    have lt : i < s.frame.vars.size := has
    simp [resolve, Operand.slot, Frame.get, Frame.get?, lt]
  | dynamic i =>
    rcases resolve_dynamic constants i with ⟨name, slot, resolves⟩ | ⟨slot, -⟩
    · rw [slot, resolves]
    · exact absurd slot named

/-- What an operand resolves to depends on its slot and on the numbers of slots. -/
theorem resolve_congr
    (sizes : t.frame.temps.size = s.frame.temps.size ∧ t.frame.vars.size = s.frame.vars.size)
    (same : t.frame.get? (p.slot constants) = s.frame.get? (p.slot constants)) :
    t.resolve constants p = s.resolve constants p := by
  cases p with
  | unused => rfl
  | const i => rfl
  | temp i =>
    have temp : t.frame.temps[i]? = s.frame.temps[i]? := same
    simp only [resolve, temp, sizes.1]
  | var i =>
    have var : t.frame.vars[i]? = s.frame.vars[i]? := same
    simp only [resolve, var, sizes.2]
  | dynamic i =>
    rcases resolve_dynamic constants i with ⟨name, slot, resolves⟩ | ⟨-, resolves⟩
    · rw [slot] at same
      rw [resolves, resolves, Frame.get, Frame.get, same]
    · rw [resolves, resolves]

/-- What an operand resolves to is what it holds. -/
theorem held_of_resolve (resolves : s.resolve constants p = .ok v) : s.held constants p = v := by
  have eq := resolve_eq (within_of_resolve resolves) (s.frame.fits_sized constants)
  exact Except.ok.inj (eq.symm.trans resolves)

/-- A load answers what its operand shows, or why the operand does not resolve, and it leaves the
frame alone. -/
theorem load_eq_resolve (s : Store) (constants : Array Value) (p : Operand) :
    (Action.load constants p s).1
        = (s.resolve constants p).map (fun v => (s.heap.lookThrough v).1)
      ∧ (Action.load constants p s).2.frame = s.frame := by
  unfold Action.load Action.look
  rw [Action.run_bind, Action.run_bind_ok (Action.run_get s), view]
  cases s.resolve constants p with
  | error fault => exact ⟨rfl, rfl⟩
  | ok v => exact ⟨rfl, rfl⟩

/-! ## What an assignment changes -/

/-- Two operands name one slot, or their slots are bound to one cell. The slot of a dynamic
variable is that of its name, whichever constant the name is. -/
def Aliases (s : Store) (constants : Array Value) (o p : Operand) : Prop :=
  p.slot constants = o.slot constants
    ∨ ∃ cell, s.resolve constants o = .ok (.ref cell) ∧ s.resolve constants p = .ok (.ref cell)

/-- Between two stores a value has been stored through an operand. -/
structure Stored (s : Store) (constants : Array Value) (o : Operand) (v : Value) (t : Store) :
    Prop where
  aliased : ∀ p, s.Aliases constants o p → (Action.load constants p t).1 = .ok v
  others : ∀ p, ¬s.Aliases constants o p →
    (Action.load constants p t).1 = (Action.load constants p s).1
  bindings : ∀ slot cell, t.Binds slot cell ↔ s.Binds slot cell

/-- What is stored second through an operand is stored as if nothing had been before. -/
theorem Stored.trans (first : s.Stored constants o v t) (second : t.Stored constants o w u)
    (same : ∀ p, t.Aliases constants o p ↔ s.Aliases constants o p) :
    s.Stored constants o w u where
  aliased p aliases := second.aliased p ((same p).mpr aliases)
  others p differ := (second.others p fun aliases => differ ((same p).mp aliases)).trans
    (first.others p differ)
  bindings slot cell := (second.bindings slot cell).trans (first.bindings slot cell)

namespace Accounted

/-- After an assignment, what is in a place that has survived it. -/
theorem peek_assign (acc : s.Accounted f outside (v :: held)) (within : o.Within f)
    (place : Place) (alive : ∀ cell, place = .cell cell →
      (s.assign f.constants o v).heap.Alive (.ref cell)) :
    (s.assign f.constants o v).peek place
      = if s.target f.constants o = place then v else s.peek place := by
  have has := acc.hasPlace_defining within o
  rw [assign_eq] at alive ⊢
  rw [peek_release _ _ alive, peek_put has, peek_defining]

/-- If what is assigned is no handle of a cell, every slot shows the place that it showed. -/
theorem placeOf_assign (acc : s.Accounted f outside (v :: held)) (within : o.Within f)
    (plain : ∀ cell, v ≠ .ref cell) (slot : Slot) :
    (s.assign f.constants o v).placeOf slot = s.placeOf slot := by
  have has := acc.hasPlace_defining within o
  rw [← target_defining s f.constants o o] at has
  have kept := placeOf_put has plain slot
  rwa [← target, target_defining, placeOf_defining] at kept

/-- The place of an operand has what is assigned to the operand. -/
theorem peek_target_assign (acc : s.Accounted f outside (v :: held)) (within : o.Within f)
    (plain : ∀ cell, v ≠ .ref cell) :
    (s.assign f.constants o v).peek (s.target f.constants o) = v := by
  have alive : ∀ cell, s.target f.constants o = .cell cell →
      (s.assign f.constants o v).heap.Alive (.ref cell) := fun cell shows =>
    (acc.assign within).alive_cell ((acc.placeOf_assign within plain _).trans shows)
  rw [acc.peek_assign within _ alive, if_pos rfl]

/-- Slots stay bound to what they are bound to if no handle of a cell is assigned. -/
theorem binds_assign (acc : s.Accounted f outside (v :: held)) (within : o.Within f)
    (plain : ∀ cell, v ≠ .ref cell) (slot : Slot) (cell : CellId) :
    (s.assign f.constants o v).Binds slot cell ↔ s.Binds slot cell := by
  rw [Binds, Binds, ← placeOf_eq_cell, ← placeOf_eq_cell, acc.placeOf_assign within plain]

/-- What names another slot than the one that is assigned to resolves to what it did. -/
theorem resolve_assign (ne : p.slot constants ≠ o.slot constants) (v : Value) :
    (s.assign constants o v).resolve constants p = s.resolve constants p :=
  resolve_congr (Frame.sizes_of_fits (s.fits_assign constants o v))
    ((get?_overwrite_ne _ (s.target_ne_slot ne) v).trans (s.get?_defining_ne ne))

/-- What is assigned to an operand is loaded through its aliases. -/
theorem load_assign_of_aliases (acc : s.Accounted f outside (v :: held)) (within : o.Within f)
    (writable : o.isWritable = true) (plain : ∀ cell, v ≠ .ref cell)
    (aliases : s.Aliases f.constants o p) :
    (Action.load f.constants p (s.assign f.constants o v)).1 = .ok v := by
  have there := acc.peek_target_assign within plain
  rw [(load_eq_resolve _ _ _).1]
  by_cases same : p.slot f.constants = o.slot f.constants
  · have named := within.slot_ne_scratch writable
    have has := within.has_slot (acc.assign within).fits
    rw [target, ← acc.placeOf_assign within plain, peek_placeOf] at there
    rw [← same] at named has there
    rw [resolve_of_has named has, Except.map, there]
  · obtain ⟨cell, one, two⟩ := aliases.resolve_left same
    rw [resolve_eq within acc.fits, held_of_isWritable writable] at one
    have shows : s.target f.constants o = .cell cell := placeOf_eq_cell.mpr (Except.ok.inj one)
    rw [shows] at there
    rw [resolve_assign same, two, Except.map]
    exact congrArg Except.ok there

/-- What is assigned to an operand is not seen through the operands that are no aliases. -/
theorem load_assign_of_not_aliases (acc : s.Accounted f outside (v :: held))
    (within : o.Within f) (writable : o.isWritable = true)
    (differ : ¬s.Aliases f.constants o p) :
    (Action.load f.constants p (s.assign f.constants o v)).1
      = (Action.load f.constants p s).1 := by
  have kept := resolve_assign (s := s) (fun same => differ (.inl same)) v
  rw [(load_eq_resolve _ _ _).1, (load_eq_resolve _ _ _).1, kept]
  cases resolves : s.resolve f.constants p with
  | error fault => rfl
  | ok held =>
    rw [Except.map, Except.map]
    cases held with
    | ref cell =>
      have other : s.target f.constants o ≠ .cell cell := by
        intro shows
        have binds := placeOf_eq_cell.mp shows
        refine differ (.inr ⟨cell, ?_, resolves⟩)
        rw [resolve_eq within acc.fits, held_of_isWritable writable, binds]
      have alive := (acc.assign within).alive_slot p
      rw [held_of_resolve (kept.trans resolves)] at alive
      have content := acc.peek_assign within (.cell cell) fun _ is => by
        cases is
        exact alive
      rw [if_neg other] at content
      exact congrArg Except.ok content
    | _ => rfl

/-- A handle may be given up before an assignment or afterwards. -/
theorem assign_release (acc : s.Accounted f outside (v :: held)) (within : o.Within f)
    (w : Value) :
    (s.release v).assign f.constants o w = (s.assign f.constants o w).release v := by
  have same : (s.release v).target f.constants o = s.target f.constants o := rfl
  have kept := peek_release_of_has (acc.release.hasPlace within)
  have has := acc.release.hasPlace_defining within o
  rw [release_defining] at has
  rw [assign_eq, assign_eq, kept, release_defining, put_release has, release_comm, same]

/-- Of two values that are assigned to an operand the second one stands. -/
theorem assign_assign (acc : s.Accounted f outside (v :: w :: held)) (within : o.Within f)
    (plain : ∀ cell, v ≠ .ref cell) :
    (s.assign f.constants o v).assign f.constants o w = (s.release v).assign f.constants o w := by
  have has := (acc.assign within).hasPlace within
  have target : (s.assign f.constants o v).target f.constants o = s.target f.constants o :=
    acc.placeOf_assign within plain _
  have defined : (s.assign f.constants o v).defining f.constants o = s.assign f.constants o v := by
    rw [Store.assign, defining_overwrite, defining_defining]
  have there := acc.peek_target_assign within plain
  rw [target] at has
  rw [acc.assign_release within, assign_eq _ _ _ w, defined, target, there]
  rw [assign_eq] at has ⊢
  rw [put_release has, put_put, ← assign_eq]

/-- Assigning what was loaded from an operand gives the handle back. -/
theorem assign_shown (acc : s.Accounted f outside held) (within : o.Within f)
    (writable : o.isWritable = true) :
    (s.acquire (s.shown f.constants o)).assign f.constants o (s.shown f.constants o)
      = s.defining f.constants o := by
  have there : s.peek (s.target f.constants o) = s.shown f.constants o :=
    s.peek_target_of_isWritable writable
  have loaded := acc.acquire (acc.alive_shown o)
  have same : (s.acquire (s.shown f.constants o)).target f.constants o
      = s.target f.constants o := rfl
  have back := put_peek (filled_target within loaded.fits)
  rw [peek_defining, same, peek_acquire, there] at back
  rw [assign_eq, same, peek_acquire, there, back]
  exact release_defining_acquire (acc.alive_shown o) f.constants o

/-- Operands stay aliases of the one that is assigned to. -/
theorem aliases_assign (acc : s.Accounted f outside (v :: held)) (within : o.Within f)
    (writable : o.isWritable = true) (plain : ∀ cell, v ≠ .ref cell) :
    (s.assign f.constants o v).Aliases f.constants o p ↔ s.Aliases f.constants o p := by
  by_cases same : p.slot f.constants = o.slot f.constants
  · exact ⟨fun _ => .inl same, fun _ => .inl same⟩
  · have bound : ∀ cell, (s.assign f.constants o v).resolve f.constants o = .ok (.ref cell)
        ↔ s.resolve f.constants o = .ok (.ref cell) := by
      intro cell
      rw [resolve_eq within acc.fits, resolve_eq within (acc.assign within).fits,
        held_of_isWritable writable, held_of_isWritable writable, Except.ok.injEq, Except.ok.injEq]
      exact acc.binds_assign within plain _ cell
    simp only [Aliases, same, bound, resolve_assign same]

theorem stored (acc : s.Accounted f outside (v :: held)) (within : o.Within f)
    (writable : o.isWritable = true) (plain : ∀ cell, v ≠ .ref cell) :
    s.Stored f.constants o v (s.assign f.constants o v) where
  aliased _ aliases := acc.load_assign_of_aliases within writable plain aliases
  others _ differ := acc.load_assign_of_not_aliases within writable differ
  bindings := acc.binds_assign within plain

end Accounted

end Store

namespace Action

variable {constants : Array Value} {outside : Node → Nat} {held : List Value} {s : Store}
  {o : Operand} {v : Value}

/-- A value that is no handle of a cell is stored through an operand that can be written and is in
range: each of its aliases loads the value, every other operand, whatever it is, loads what it
loaded before, and every slot stays bound to what it was bound to. If a second value is stored, it
stands, and the store is the one it would be if the first value had only been given up. Storing
what was loaded leaves nothing behind but, at most, the definition of the operand's dynamic
variable, and reading alone does not even define that. -/
theorem operands_are_a_store {before : Value} (writable : o.isWritable = true)
    (resolves : s.resolve constants o = .ok before) (owns : s.Owns (v :: held) outside)
    (literals : ∀ node : Node, node.uses constants.toList ≤ outside node)
    (plain : ∀ cell, v ≠ .ref cell) :
    (∃ t, storeOperand constants o v s = (.ok ⟨⟩, t) ∧ s.Stored constants o v t)
      ∧ (∀ w rest, s.Owns (v :: w :: rest) outside → (∀ cell, w ≠ .ref cell) →
        ∃ t, (do storeOperand constants o v; storeOperand constants o w : Action Unit) s
            = (.ok ⟨⟩, t)
          ∧ s.Stored constants o w t ∧ storeOperand constants o w (s.release v) = (.ok ⟨⟩, t))
      ∧ (∃ t, (do storeOperand constants o (← load constants o) : Action Unit) s = (.ok ⟨⟩, t)
          ∧ s.DefinesAtMost constants o t)
      ∧ ∀ p, (look constants p s).2 = s ∧ (load constants p s).2.frame = s.frame := by
  obtain ⟨f, rfl, fits, within⟩ : ∃ f : Function, f.constants = constants ∧ s.frame.Fits f
      ∧ o.Within f := ⟨_, rfl, s.frame.fits_sized constants, Store.within_of_resolve resolves⟩
  have storable := Operand.isLiteral_of_isWritable writable
  have acc : s.Accounted f outside (v :: held) := ⟨fits, owns, literals⟩
  refine ⟨⟨_, storeOperand_eq within storable fits v, acc.stored within writable plain⟩, ?_, ?_, ?_⟩
  · intro w rest owns plain'
    have both : s.Accounted f outside (v :: w :: rest) := ⟨fits, owns, literals⟩
    have first := both.stored within writable plain
    have second := (both.assign within).stored within writable plain'
    refine ⟨_, ?_, first.trans second fun p => both.aliases_assign within writable plain, ?_⟩
    · rw [run_bind_ok (storeOperand_eq within storable fits v)]
      exact storeOperand_eq within storable (both.assign within).fits w
    · rw [both.assign_assign within plain]
      exact storeOperand_eq within storable both.release.fits w
  · refine ⟨_, ?_, s.definesAtMost_defining f.constants o⟩
    rw [run_bind_ok (load_eq within fits)]
    have loaded := acc.acquire (acc.alive_shown o)
    rw [storeOperand_eq within storable loaded.fits, acc.assign_shown within writable]
  · intro p
    refine ⟨?_, (s.load_eq_resolve f.constants p).2⟩
    rw [look, run_bind_ok (run_get s)]
    cases s.view f.constants p with
    | error fault => rfl
    | ok shown => rfl

/-- Two constants have one text, and the dynamic variable of that name is bound to one cell
together with the first of two variables. -/
def twinned : Store where
  heap := (Heap.empty.createCell (.int 1)).2.acquire (.ref ⟨0⟩)
  frame := { Frame.ofSizes 0 0 with
    vars := #[.ref ⟨0⟩, .int 3], symbols := OrderedMap.empty.insert "a" (.ref ⟨0⟩) }
  notes := #[]

/-- What is stored under one constant is loaded under the other one and through the variable that
is bound to the same cell. The other variable keeps its value. -/
theorem operands_are_a_store_twinned :
    let constants := #[Value.str "a", .str "a"]
    (∃ t, storeOperand constants (.dynamic 0) (.int 9) twinned = (.ok ⟨⟩, t)
        ∧ t.Binds (.symbol "a") ⟨0⟩
        ∧ (load constants (.dynamic 1) t).1 = .ok (.int 9)
        ∧ (load constants (.var 0) t).1 = .ok (.int 9)
        ∧ (load constants (.var 1) t).1 = .ok (.int 3))
      ∧ ∃ t, (do storeOperand constants (.dynamic 0) (.int 9)
                 storeOperand constants (.dynamic 0) (.int 5) : Action Unit) twinned = (.ok ⟨⟩, t)
        ∧ (load constants (.var 0) t).1 = .ok (.int 5) := by
  intro constants
  have number : Heap.empty.Accounts [.int 1] fun _ => 0 := fun node => by cases node <;> rfl
  have one : (Heap.empty.createCell (.int 1)).2.Accounts [.ref ⟨0⟩] fun _ => 0 :=
    number.createCell
  have two := one.acquire (one.alive List.mem_cons_self)
  have owns : twinned.Owns [.int 9, .int 5] fun _ => 0 := fun node => by
    have slots : node.uses (twinned.frame.values ++ [.int 9, .int 5])
        = node.uses [.ref ⟨0⟩, .ref ⟨0⟩] := by
      change node.uses [.ref ⟨0⟩, .int 3, .ref ⟨0⟩, .null, .int 9, .int 5] = _
      simp [Node.usedBy, Value.node?]
    exact slots ▸ two node
  have literals : ∀ node : Node, node.uses constants.toList ≤ 0 := fun node => by
    cases node <;> exact Nat.le_refl 0
  have resolves : twinned.resolve constants (.dynamic 0) = .ok (.ref ⟨0⟩) := rfl
  obtain ⟨⟨t, stores, stored⟩, twice, -⟩ := operands_are_a_store rfl resolves owns literals
    (Value.ne_ref_of_scalar rfl)
  obtain ⟨u, again, stands, -⟩ := twice (.int 5) [] owns (Value.ne_ref_of_scalar rfl)
  have cell : twinned.Aliases constants (.dynamic 0) (.var 0) := .inr ⟨⟨0⟩, rfl, rfl⟩
  have apart : ¬twinned.Aliases constants (.dynamic 0) (.var 1) := by
    rintro (same | ⟨cell, -, bound⟩)
    · cases same
    · cases bound
  exact ⟨⟨t, stores, (stored.bindings _ _).mpr rfl, stored.aliased _ (.inl rfl),
    stored.aliased _ cell, (stored.others _ apart).trans rfl⟩, u, again, stands.aliased _ cell⟩

end Action

end OverloadMachine
