import Mathlib.Data.List.ProdSigma
import Mathlib.Data.List.Perm.Subperm
import OverloadMachine.Proofs.Recursions

/-!
# Recursions that end at all

Truth, plain texts and the loose order are given within a bound on nested calls. Below a call
that needs some number of nested calls there is one that needs exactly one less, so a
recursion that ends has a descent of as many calls as it needs, and no two of them are about
the same values. Where every handle is alive there are no more such calls than the bound
allows. So an answer is found within the bound if it is found within any number of calls, and
a value without an answer is one at which the recursion goes on without end. Therefore the
answers do not depend on nodes that are no longer there.
-/

namespace OverloadMachine

/-- A value names a node that no other value names. -/
theorem Value.eq_of_node? {v w : Value} {node : Node} (names : v.node? = some node)
    (names' : w.node? = some node) : v = w := by
  cases v <;> cases w <;> cases names <;> cases names' <;> rfl

/-! ## Descents -/

section Descents

variable {α γ : Type} {Ends : Nat → α → Prop} {Below : α → α → Prop} {n : Nat} {a : α}

/-- A recursion that ends within a number of nested calls ends within more, and below a call
that needs a number of calls there is one that needs one less. -/
structure Descending (Ends : Nat → α → Prop) (Below : α → α → Prop) : Prop where
  mono : ∀ {n a}, Ends n a → Ends (n + 1) a
  trans : ∀ {a b c}, Below a b → Below b c → Below a c
  next : ∀ {n a}, Ends (n + 2) a → ¬Ends (n + 1) a → ∃ b, Below a b ∧ Ends (n + 1) b ∧ ¬Ends n b

namespace Descending

theorem of_le (descending : Descending Ends Below) {m : Nat} (ends : Ends n a) (le : n ≤ m) :
    Ends m a := by
  induction le with
  | refl => exact ends
  | step _ ih => exact descending.mono ih

/-- A recursion that needs a number of nested calls goes down through as many calls, all of
them different. -/
theorem exists_descent (descending : Descending Ends Below) (now : Ends (n + 1) a)
    (before : ¬Ends n a) :
    ∃ rest : List α, rest.length = n ∧ (∀ b ∈ rest, Below a b ∧ Ends n b)
      ∧ (a :: rest).Pairwise fun b c => Below b c ∧ b ≠ c := by
  induction n generalizing a with
  | zero => exact ⟨[], rfl, nofun, List.pairwise_singleton _ _⟩
  | succ n ih =>
    obtain ⟨b, below, ends, least⟩ := descending.next now before
    obtain ⟨rest, length, each, distinct⟩ := ih ends least
    have all : ∀ c ∈ b :: rest, Below a c ∧ Ends (n + 1) c :=
      List.forall_mem_cons.mpr ⟨⟨below, ends⟩, fun c mem =>
        ⟨descending.trans below (each c mem).1, descending.mono (each c mem).2⟩⟩
    refine ⟨b :: rest, by rw [List.length_cons, length], all, List.pairwise_cons.mpr ⟨?_, distinct⟩⟩
    rintro c mem
    refine ⟨(all c mem).1, ?_⟩
    rintro rfl
    exact before (all _ mem).2

/-- A recursion that ends needs no more calls than there are marks to tell its calls apart by. -/
theorem ends_of_ends (descending : Descending Ends Below) (mark : α → γ)
    (apart : ∀ {a b}, Below a b → mark a = mark b → a = b) {marks : List γ}
    (first : mark a ∈ marks) (later : ∀ b, Below a b → mark b ∈ marks) (ends : Ends n a) :
    Ends marks.length a := by
  induction n with
  | zero => exact descending.of_le ends (Nat.zero_le _)
  | succ n ih =>
    by_cases earlier : Ends n a
    · exact ih earlier
    obtain ⟨rest, length, each, distinct⟩ := descending.exists_descent ends earlier
    have nodup : ((a :: rest).map mark).Nodup := by
      refine List.pairwise_map.mpr (distinct.imp ?_)
      exact fun ⟨below, ne⟩ same => ne (apart below same)
    have among : (a :: rest).map mark ⊆ marks := by
      intro c mem
      obtain ⟨b, there, rfl⟩ := List.mem_map.mp mem
      rcases List.mem_cons.mp there with rfl | there
      · exact first
      · exact later b (each b there).1
    have most := (List.subperm_of_subset nodup among).length_le
    rw [List.length_map, List.length_cons, length] at most
    exact descending.of_le ends most

end Descending

end Descents

namespace Heap

variable {h k : Heap} {v w u : Value} {n : Nat}

/-! ## Values on the way down -/

/-- The nodes that are there. -/
def nodes (h : Heap) : List Node :=
  h.composites.keys.map (fun key => .composite ⟨key⟩) ++ h.cells.keys.map fun key => .cell ⟨key⟩

theorem length_nodes (h : Heap) : h.nodes.length = h.size := by
  simp [nodes, size, OrderedMap.keys, OrderedMap.size]

theorem mem_nodes {node : Node} {count : Nat} (live : h.handles? node = some count) :
    node ∈ h.nodes := by
  have key : ∀ {α : Type} {m : OrderedMap Nat α} {i : Nat} {a : α}, m.get? i = some a →
      i ∈ m.keys := fun found =>
    List.mem_map.mpr ⟨_, OrderedMap.mem_of_lookup found, rfl⟩
  cases node with
  | composite id =>
    obtain ⟨c, found, -⟩ := Option.map_eq_some_iff.mp live
    exact List.mem_append_left _ (List.mem_map.mpr ⟨id.index, key found, rfl⟩)
  | cell id =>
    obtain ⟨c, found, -⟩ := Option.map_eq_some_iff.mp live
    exact List.mem_append_right _ (List.mem_map.mpr ⟨id.index, key found, rfl⟩)

/-- What a value is told apart by on a way down: its node, if it names one. -/
def marks (h : Heap) : List (Option Node) := none :: h.nodes.map some

theorem length_marks (h : Heap) : h.marks.length = h.size + 1 := by
  rw [marks, List.length_cons, List.length_map, length_nodes]

theorem mem_marks (alive : h.Alive v) : v.node? ∈ h.marks := by
  cases names : v.node? with
  | none => exact List.mem_cons_self
  | some node =>
    obtain ⟨count, -, live⟩ := alive node names
    exact List.mem_cons_of_mem _ (List.mem_map.mpr ⟨node, mem_nodes live, rfl⟩)

/-- A value that a way down may come to from another one: the same value if that names no
node, and one that is alive if that is. -/
structure Onward (h : Heap) (v w : Value) : Prop where
  stays : v.node? = none → w = v
  alive : h.Alive v → h.Alive w

theorem Onward.refl (h : Heap) (v : Value) : h.Onward v v := ⟨fun _ => rfl, id⟩

theorem Onward.trans (first : h.Onward v w) (second : h.Onward w u) : h.Onward v u where
  stays scalar := by
    obtain rfl := first.stays scalar
    exact second.stays scalar
  alive := second.alive ∘ first.alive

/-- Values on one way down are told apart by their nodes. -/
theorem Onward.eq_of_node? (onward : h.Onward v w) (same : v.node? = w.node?) : v = w := by
  cases names : v.node? with
  | none => exact (onward.stays names).symm
  | some node => exact Value.eq_of_node? names (same ▸ names)

theorem onward_content (closed : h.Closed) (cell : CellId) :
    h.Onward (.ref cell) (h.content cell) :=
  ⟨nofun, fun _ => closed.alive_content cell⟩

theorem onward_field (closed : h.Closed) {id : CompositeId} {c : Composite}
    (found : h.composite? id = some c) {e : String × Value} (mem : e ∈ c.fields.entries) :
    h.Onward (.composite id) e.2 := by
  refine ⟨nofun, fun _ => closed _ _ (handles?_of_composite? found) _ ?_⟩
  rw [contents, found]
  exact List.mem_map.mpr ⟨e, mem, rfl⟩

/-! ## Truth and texts -/

/-- An answer within a bound is the answer within every larger one. -/
theorem truthWithin_mono {truthy : Bool} (found : h.truthWithin n v = some truthy) :
    h.truthWithin (n + 1) v = some truthy := by
  induction n generalizing v with
  | zero => cases v <;> first | exact found | cases found
  | succ n ih =>
    cases v with
    | ref cell => exact @ih (h.content cell) found
    | _ => exact found

theorem truthWithin_of_le {m : Nat} {truthy : Bool} (found : h.truthWithin n v = some truthy)
    (le : n ≤ m) : h.truthWithin m v = some truthy := by
  induction le with
  | refl => exact found
  | step _ ih => exact truthWithin_mono ih

theorem descending_truth (closed : h.Closed) :
    Descending (fun n v => (h.truthWithin n v).isSome) h.Onward where
  mono ends := by
    obtain ⟨truthy, found⟩ := Option.isSome_iff_exists.mp ends
    rw [truthWithin_mono found]
    rfl
  trans := Onward.trans
  next {n v} now before := by
    cases v with
    | ref cell => exact ⟨_, onward_content closed cell, now, before⟩
    | _ => exact absurd rfl before

/-- Truth is found if it is found within any number of calls. -/
theorem truth?_eq_some_iff (closed : h.Closed) (alive : h.Alive v) {truthy : Bool} :
    h.truth? v = some truthy ↔ ∃ n, h.truthWithin n v = some truthy := by
  refine ⟨fun found => ⟨_, found⟩, fun ⟨n, found⟩ => ?_⟩
  have ends : (h.truthWithin h.marks.length v).isSome :=
    (descending_truth closed).ends_of_ends Value.node? Onward.eq_of_node? (mem_marks alive)
      (fun w onward => mem_marks (onward.alive alive)) (Option.isSome_iff_exists.mpr ⟨_, found⟩)
  rw [length_marks] at ends
  obtain ⟨other, within⟩ := Option.isSome_iff_exists.mp ends
  have one := truthWithin_of_le within (Nat.le_max_left _ n)
  have two := truthWithin_of_le found (Nat.le_max_right (h.size + 1) n)
  rw [truth?, within, ← one, two]

/-! ## The loose order -/

/-- A comparison of fields that is found stays if more is found below. -/
theorem compareFields_mono {below more : Value → Value → Option (Option Ordering)}
    (each : ∀ v w order, below v w = some order → more v w = some order)
    {entries others : List (String × Value)} {order : Option Ordering}
    (found : Operator.compareFields below entries others = some order) :
    Operator.compareFields more entries others = some order := by
  induction entries generalizing others with
  | nil => exact found
  | cons e rest ih =>
    cases others with
    | nil => exact found
    | cons d behind =>
      rw [Operator.compareFields] at found ⊢
      by_cases same : e.1 = d.1
      · rw [if_pos same] at found ⊢
        cases one : below e.2 d.2 with
        | none =>
          rw [one] at found
          cases found
        | some first =>
          rw [one] at found
          rw [each _ _ _ one]
          rcases first with _ | (_ | _ | _)
          case some.eq => exact ih found
          all_goals exact found
      · rw [if_neg same] at found ⊢
        exact found

theorem compareStep_mono {below more : Value → Value → Option (Option Ordering)}
    (each : ∀ v w order, below v w = some order → more v w = some order)
    {order : Option Ordering} (found : h.compareStep below v w = some order) :
    h.compareStep more v w = some order := by
  rcases h.compareStep_cases v w with ⟨order, settled⟩ | ⟨cell, -, asks⟩ | ⟨cell, -, asks⟩
    | ⟨i, j, c, d, -, -, -, -, asks⟩
  · rw [settled] at found ⊢
    exact found
  · rw [asks] at found ⊢
    exact each _ _ _ found
  · rw [asks] at found ⊢
    exact each _ _ _ found
  · rw [asks] at found ⊢
    exact compareFields_mono each found

theorem compareWithin_succ (h : Heap) (n : Nat) :
    Operator.compareWithin h (n + 1) = h.compareStep (Operator.compareWithin h n) := by
  rw [compareWithin_eq, Function.iterate_succ_apply', ← compareWithin_eq]

/-- An order within a bound is the order within every larger one. -/
theorem compareWithin_mono {order : Option Ordering}
    (found : Operator.compareWithin h n v w = some order) :
    Operator.compareWithin h (n + 1) v w = some order := by
  induction n generalizing v w order with
  | zero => cases found
  | succ n ih =>
    rw [compareWithin_succ] at found ⊢
    exact compareStep_mono (fun v w order found => ih found) found

theorem compareWithin_of_le {m : Nat} {order : Option Ordering}
    (found : Operator.compareWithin h n v w = some order) (le : n ≤ m) :
    Operator.compareWithin h m v w = some order := by
  induction le with
  | refl => exact found
  | step _ ih => exact compareWithin_mono ih

/-- Fields whose order is found only with more calls hold two values for which this is so. -/
theorem exists_of_compareFields {below more : Value → Value → Option (Option Ordering)}
    (each : ∀ v w order, below v w = some order → more v w = some order)
    {entries others : List (String × Value)}
    (now : (Operator.compareFields more entries others).isSome)
    (before : ¬(Operator.compareFields below entries others).isSome) :
    ∃ e ∈ entries, ∃ d ∈ others, (more e.2 d.2).isSome ∧ ¬(below e.2 d.2).isSome := by
  induction entries generalizing others with
  | nil => exact absurd rfl before
  | cons e rest ih =>
    cases others with
    | nil => exact absurd rfl before
    | cons d behind =>
      rw [Operator.compareFields] at now before
      by_cases same : e.1 = d.1
      · rw [if_pos same] at now before
        cases first : below e.2 d.2 with
        | none =>
          refine ⟨e, List.mem_cons_self, d, List.mem_cons_self, ?_,
            Bool.eq_false_iff.mp (congrArg Option.isSome first)⟩
          cases one : more e.2 d.2 with
          | none =>
            rw [one] at now
            cases now
          | some order => rfl
        | some order =>
          rw [first] at before
          rw [each _ _ _ first] at now
          rcases order with _ | (_ | _ | _)
          case some.eq =>
            obtain ⟨e', mem, d', mem', found⟩ := ih now before
            exact ⟨e', List.mem_cons_of_mem e mem, d', List.mem_cons_of_mem d mem', found⟩
          all_goals exact absurd rfl before
      · rw [if_neg same] at before
        exact absurd rfl before

/-- Below a comparison that needs some number of nested calls there is one that needs one
less. -/
theorem exists_compareWithin (closed : h.Closed)
    (now : (Operator.compareWithin h (n + 2) v w).isSome)
    (before : ¬(Operator.compareWithin h (n + 1) v w).isSome) :
    ∃ v' w', (h.Onward v v' ∧ h.Onward w w') ∧ (Operator.compareWithin h (n + 1) v' w').isSome
      ∧ ¬(Operator.compareWithin h n v' w').isSome := by
  rw [compareWithin_succ] at now before
  rcases h.compareStep_cases v w with ⟨order, settled⟩ | ⟨cell, rfl, asks⟩ | ⟨cell, rfl, asks⟩
    | ⟨i, j, c, d, rfl, rfl, found, found', asks⟩
  · rw [settled] at before
    exact absurd rfl before
  · rw [asks] at now before
    exact ⟨_, _, ⟨onward_content closed cell, .refl h w⟩, now, before⟩
  · rw [asks] at now before
    exact ⟨_, _, ⟨.refl h v, onward_content closed cell⟩, now, before⟩
  · rw [asks] at now before
    obtain ⟨e, mem, d, mem', now, before⟩ :=
      exists_of_compareFields (fun v w order found => compareWithin_mono found) now before
    exact ⟨_, _, ⟨onward_field closed found mem, onward_field closed found' mem'⟩, now, before⟩

theorem descending_compare (closed : h.Closed) :
    Descending (fun n (p : Value × Value) => (Operator.compareWithin h n p.1 p.2).isSome)
      (fun p q => h.Onward p.1 q.1 ∧ h.Onward p.2 q.2) where
  mono ends := by
    obtain ⟨order, found⟩ := Option.isSome_iff_exists.mp ends
    rw [compareWithin_mono found]
    rfl
  trans first second := ⟨first.1.trans second.1, first.2.trans second.2⟩
  next now before := by
    obtain ⟨v, w, onward, found⟩ := exists_compareWithin closed now before
    exact ⟨(v, w), onward, found⟩

/-- The loose order is found if it is found within any number of calls. -/
theorem compare?_eq_some_iff (closed : h.Closed) (alive : h.Alive v) (alive' : h.Alive w)
    {order : Option Ordering} : Operator.compare? h v w = some order
      ↔ ∃ n, Operator.compareWithin h n v w = some order := by
  refine ⟨fun found => ⟨_, found⟩, fun ⟨n, found⟩ => ?_⟩
  have ends : (Operator.compareWithin h (h.marks ×ˢ h.marks).length v w).isSome :=
    (descending_compare closed).ends_of_ends (a := (v, w)) (fun p => (p.1.node?, p.2.node?))
      (fun onward same => Prod.ext (onward.1.eq_of_node? (congrArg Prod.fst same))
        (onward.2.eq_of_node? (congrArg Prod.snd same)))
      (List.mem_product.mpr ⟨mem_marks alive, mem_marks alive'⟩)
      (fun p onward => List.mem_product.mpr
        ⟨mem_marks (onward.1.alive alive), mem_marks (onward.2.alive alive')⟩)
      (Option.isSome_iff_exists.mpr ⟨_, found⟩)
  rw [List.length_product, length_marks] at ends
  obtain ⟨other, within⟩ := Option.isSome_iff_exists.mp ends
  have one := compareWithin_of_le within (Nat.le_max_left _ n)
  have two := compareWithin_of_le found (Nat.le_max_right ((h.size + 1) * (h.size + 1)) n)
  rw [Operator.compare?, within, ← one, two]

/-! ## Heaps that lack nodes -/

theorem Remains.truthWithin_eq (remains : Remains k h) (closed : k.Closed) (alive : k.Alive v) :
    k.truthWithin n v = h.truthWithin n v := by
  induction n generalizing v with
  | zero => cases v <;> rfl
  | succ n ih =>
    cases v with
    | ref cell =>
      exact (ih (closed.alive_content cell)).trans
        (congrArg (h.truthWithin n) (remains.content alive).symm)
    | _ => rfl

/-- Nodes that are no longer there do not matter for the truth of what is alive. -/
theorem Remains.truth?_eq (remains : Remains k h) (closed : k.Closed) (closed' : h.Closed)
    (alive : k.Alive v) : k.truth? v = h.truth? v := by
  refine Option.ext fun truthy => ?_
  rw [truth?_eq_some_iff closed alive, truth?_eq_some_iff closed' (remains.alive alive)]
  simp only [remains.truthWithin_eq closed alive]

/-- Values that are no cells are compared without a look at the heap. -/
theorem compareScalars_heap (h k : Heap) (plain : v.Plain) (plain' : w.Plain) :
    Operator.compareScalars k v w = Operator.compareScalars h v w := by
  cases v with
  | ref cell => exact absurd rfl (plain cell)
  | str s =>
    cases w with
    | ref cell => exact absurd rfl (plain' cell)
    | composite id =>
      dsimp only [Operator.compareScalars]
      cases Number.parse? s <;> rfl
    | _ => rfl
  | _ =>
    cases w with
    | ref cell => exact absurd rfl (plain' cell)
    | _ => rfl

theorem Remains.compareWithin_eq (remains : Remains k h) (closed : k.Closed) (alive : k.Alive v)
    (alive' : k.Alive w) : Operator.compareWithin k n v w = Operator.compareWithin h n v w := by
  induction n generalizing v w with
  | zero => rfl
  | succ n ih =>
    have right : ∀ cell, k.Alive (.ref cell) → Operator.compareWithin k n v (k.content cell)
        = Operator.compareWithin h n v (h.content cell) := fun cell there =>
      (ih alive (closed.alive_content cell)).trans
        (congrArg (Operator.compareWithin h n v) (remains.content there).symm)
    cases v with
    | ref cell =>
      exact (ih (closed.alive_content cell) alive').trans
        (congrArg (Operator.compareWithin h n · w) (remains.content alive).symm)
    | composite i =>
      cases w with
      | ref cell => exact right cell alive'
      | composite j =>
        obtain ⟨c, found, -⟩ := alive.composite?
        obtain ⟨d, found', -⟩ := alive'.composite?
        obtain ⟨_, -, there⟩ := remains.composite found
        obtain ⟨_, -, there'⟩ := remains.composite found'
        have fields := compareFields_congr fun e mem e' mem' =>
          ih ((onward_field closed found mem).alive alive)
            ((onward_field closed found' mem').alive alive')
        rw [Operator.compareWithin, Operator.compareWithin, found, found', there, there']
        dsimp only
        rw [fields]
      | _ => exact congrArg some (compareScalars_heap h k nofun nofun)
    | _ =>
      cases w with
      | ref cell => exact right cell alive'
      | _ => exact congrArg some (compareScalars_heap h k nofun nofun)

/-- Nodes that are no longer there do not matter for the order of what is alive. -/
theorem Remains.compare?_eq (remains : Remains k h) (closed : k.Closed) (closed' : h.Closed)
    (alive : k.Alive v) (alive' : k.Alive w) :
    Operator.compare? k v w = Operator.compare? h v w := by
  refine Option.ext fun order => ?_
  rw [compare?_eq_some_iff closed alive alive',
    compare?_eq_some_iff closed' (remains.alive alive) (remains.alive alive')]
  simp only [remains.compareWithin_eq closed alive alive']

theorem Remains.comparison?_eq (remains : Remains k h) (closed : k.Closed) (closed' : h.Closed)
    (alive : k.Alive v) (alive' : k.Alive w) (op : ComparisonOp) :
    Operator.comparison? k op v w = Operator.comparison? h op v w := by
  have order := remains.compare?_eq closed closed' alive alive'
  have same : Operator.comparison k op v w = Operator.comparison h op v w := by
    unfold Operator.comparison Operator.compare
    rw [order]
  unfold Operator.comparison?
  rw [order, same]

theorem Remains.boolXor_eq (remains : Remains k h) (closed : k.Closed) (closed' : h.Closed)
    (alive : k.Alive v) (alive' : k.Alive w) : Operator.boolXor k v w = Operator.boolXor h v w := by
  unfold Operator.boolXor
  rw [remains.truth?_eq closed closed' alive, remains.truth?_eq closed closed' alive']

theorem Remains.unary_eq (remains : Remains k h) (closed : k.Closed) (closed' : h.Closed)
    (alive : k.Alive v) (op : UnaryOp) : Operator.unary k op v = Operator.unary h op v := by
  cases op with
  | boolNot => rw [Operator.unary, Operator.unary, remains.truth?_eq closed closed' alive]
  | bitNot => rfl

/-- Arithmetic does not look at the heap. -/
theorem arithmetic_heap (h k : Heap) (op : ArithmeticOp) (v w : Value) :
    Operator.arithmetic k op v w = Operator.arithmetic h op v w := by
  have text : ∀ {u : Value}, u.isHandle = false → k.plainText u = h.plainText u := by
    intro u plain
    cases u <;> first | rfl | cases plain
  unfold Operator.arithmetic
  dsimp only
  split
  · rfl
  · rename_i handles
    obtain ⟨left, right⟩ := Bool.or_eq_false_iff.mp (eq_false_of_ne_true handles)
    cases op with
    | concat => rw [text left, text right]
    | _ => rfl

end Heap

end OverloadMachine
