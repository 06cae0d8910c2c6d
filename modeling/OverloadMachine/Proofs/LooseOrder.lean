import OverloadMachine.Proofs.Grounded
import OverloadMachine.Proofs.TreeOperators

/-!
# The loose order

The order of two values does not depend on which of them is asked first: the other way round
it is the reverse, and values that are uncomparable one way are so the other way, so the
comparison operators agree with each other. Identical values are equal. All of it rests on the
order of floats, where the other way round is the reverse too, and where only a float that is
no number is not equal to itself.
-/

namespace OverloadMachine

/-! ## Floats -/

section Floats

open Float.Model

/-- The order of two unpacked floats the other way round. -/
theorem compare_unpacked_swap (a b : UnpackedFloat) :
    b.compare a = (a.compare b).map Ordering.swap := by
  cases a with
  | notANumber => cases b <;> rfl
  | infinity s =>
    cases b with
    | infinity t => cases s <;> cases t <;> rfl
    | finite t _ _ _ => cases s <;> cases t <;> rfl
    | _ => cases s <;> rfl
  | zero s =>
    cases b with
    | infinity t => cases t <;> rfl
    | finite t _ _ _ => cases t <;> rfl
    | _ => rfl
  | finite s m e _ =>
    cases b with
    | infinity t => cases s <;> cases t <;> rfl
    | finite t n f _ =>
      have magnitudes : (compare f e).then (compare n m)
          = ((compare e f).then (compare m n)).swap := by
        rw [Ordering.swap_then, ← Std.OrientedOrd.eq_swap, ← Std.OrientedOrd.eq_swap]
      cases s with
      | positive =>
        cases t with
        | positive => exact congrArg some magnitudes
        | negative => rfl
      | negative =>
        cases t with
        | positive => rfl
        | negative => exact congrArg (fun order => some order.swap) magnitudes
    | _ => cases s <;> rfl

/-- The order of two floats is that of what they unpack into. -/
theorem compareFloat_eq (x y : Float) :
    compareFloat x y = x.toModel.unpack.compare y.toModel.unpack := by
  have less : ∀ a b : Float, a < b ↔ a.toModel.unpack.compare b.toModel.unpack = some .lt := by
    intro a b
    change decide ((a.toModel.unpack.compare b.toModel.unpack == some .lt) = true) = true ↔ _
    rw [decide_eq_true_iff, beq_iff_eq]
  have equal : (x == y) = true ↔ x.toModel.unpack.compare y.toModel.unpack = some .eq := by
    change (x.toModel.unpack.compare y.toModel.unpack == some .eq) = true ↔ _
    rw [beq_iff_eq]
  have back := compare_unpacked_swap x.toModel.unpack y.toModel.unpack
  simp only [compareFloat, less, equal, back]
  cases x.toModel.unpack.compare y.toModel.unpack with
  | none => rfl
  | some order => cases order <;> rfl

/-- The order of two floats the other way round. -/
theorem compareFloat_swap (x y : Float) :
    compareFloat y x = (compareFloat x y).map Ordering.swap := by
  rw [compareFloat_eq, compareFloat_eq, compare_unpacked_swap]

/-- Floats are equal in the order if they are equal as numbers. -/
theorem compareFloat_eq_iff {x y : Float} : compareFloat x y = some .eq ↔ (x == y) = true := by
  rw [compareFloat_eq]
  exact (beq_iff_eq (α := Option Ordering)).symm

/-- A float that is no number is not comparable. -/
theorem compareFloat_of_isNaN {x : Float} (none : x.isNaN = true) (y : Float) :
    compareFloat x y = Option.none := by
  have kind : x.toModel.unpack.isNaN = true := none
  rw [compareFloat_eq]
  cases unpacked : x.toModel.unpack with
  | notANumber => rfl
  | _ =>
    rw [unpacked] at kind
    cases kind

end Floats

/-! ## The order the other way round -/

namespace Number

theorem compare_swap (x y : Number) : y.compare x = (x.compare y).map Ordering.swap := by
  cases x with
  | int i =>
    cases y with
    | int j => exact congrArg some Std.OrientedOrd.eq_swap
    | float y => exact compareFloat_swap _ _
  | float x => cases y <;> exact compareFloat_swap _ _

end Number

namespace Operator

theorem compareBool_swap (a b : Bool) : compareBool b a = (compareBool a b).swap :=
  Std.OrientedOrd.eq_swap

theorem compareText_swap (s t : String) :
    compareText t s = (compareText s t).map Ordering.swap := by
  unfold compareText
  cases Number.parse? s with
  | none => cases Number.parse? t <;> exact congrArg some Std.OrientedOrd.eq_swap
  | some x =>
    cases Number.parse? t with
    | none => exact congrArg some Std.OrientedOrd.eq_swap
    | some y => exact x.compare_swap y

/-- What is the reverse of another order is reversed by it. -/
theorem swap_of_swap {order back : Option Ordering} (reverse : back = order.map Ordering.swap) :
    order = back.map Ordering.swap := by
  subst reverse
  cases order with
  | none => rfl
  | some order => exact congrArg some order.swap_swap.symm

/-- Texts and numbers are compared alike on both sides. -/
theorem compareScalars_str_swap (h : Heap) (s : String) {v : Value} {x : Number}
    (number : Number.ofValue? v = some x) :
    compareScalars h v (.str s) = (compareScalars h (.str s) v).map Ordering.swap := by
  cases v with
  | int _ | float _ =>
    cases parsed : Number.parse? s with
    | none =>
      simp only [compareScalars, parsed, Number.ofValue?]
      exact congrArg some Std.OrientedOrd.eq_swap
    | some y =>
      simp only [compareScalars, parsed, Number.ofValue?]
      exact y.compare_swap _
  | _ => cases number

/-- Texts and handles are not comparable. -/
theorem compareScalars_str_of_node (h : Heap) (s : String) {v : Value} {node : Node}
    (handle : v.node? = some node) : compareScalars h (.str s) v = none := by
  cases v with
  | ref _ | composite _ =>
    cases parsed : Number.parse? s <;> simp [compareScalars, parsed, Number.ofValue?]
  | _ => cases handle

/-- Two numbers are compared as numbers. -/
theorem compareScalars_numbers (h : Heap) {v w : Value} {x y : Number}
    (left : Number.ofValue? v = some x) (right : Number.ofValue? w = some y) :
    compareScalars h v w = x.compare y := by
  cases v with
  | int _ | float _ =>
    cases left
    cases w with
    | int _ | float _ =>
      cases right
      rfl
    | _ => cases right
  | _ => cases left

theorem compareScalars_swap (h : Heap) (v w : Value) :
    compareScalars h w v = (compareScalars h v w).map Ordering.swap := by
  have truth : ∀ a b, some (compareBool (h.isTruthy b) (h.isTruthy a))
      = (some (compareBool (h.isTruthy a) (h.isTruthy b))).map Ordering.swap :=
    fun a b => congrArg some (compareBool_swap _ _)
  cases v with
  | null =>
    cases w with
    | str s => exact congrArg some Std.OrientedOrd.eq_swap
    | _ => exact truth _ _
  | bool b => cases w <;> exact truth _ _
  | str s =>
    cases w with
    | null => exact congrArg some Std.OrientedOrd.eq_swap
    | bool b => exact truth _ _
    | str t => exact compareText_swap s t
    | int _ | float _ => exact compareScalars_str_swap h s rfl
    | ref _ | composite _ =>
      rw [compareScalars_str_of_node h s rfl]
      rfl
  | int _ | float _ =>
    cases w with
    | null | bool _ => exact truth _ _
    | str s => exact swap_of_swap (compareScalars_str_swap h s rfl)
    | int _ | float _ =>
      rw [compareScalars_numbers h rfl rfl, compareScalars_numbers h rfl rfl]
      exact Number.compare_swap _ _
    | _ => rfl
  | ref _ | composite _ =>
    cases w with
    | null | bool _ => exact truth _ _
    | str s =>
      rw [compareScalars_str_of_node h s rfl]
      rfl
    | _ => rfl

/-- The order of fields the other way round, if that of values is the reverse. -/
theorem compareFields_swap {below : Value → Value → Option (Option Ordering)}
    (each : ∀ v w, below w v = (below v w).map (Option.map Ordering.swap))
    (entries others : List (String × Value)) :
    compareFields below others entries
      = (compareFields below entries others).map (Option.map Ordering.swap) := by
  induction entries generalizing others with
  | nil => cases others <;> rfl
  | cons e rest ih =>
    cases others with
    | nil => rfl
    | cons d behind =>
      obtain ⟨j, v⟩ := e
      obtain ⟨k, w⟩ := d
      rw [compareFields, compareFields, each v w]
      by_cases same : j = k
      · rw [if_pos same, if_pos same.symm]
        rcases below v w with _ | _ | (_ | _ | _)
        case some.some.eq => exact ih behind
        all_goals rfl
      · rw [if_neg same, if_neg (Ne.symm same)]
        rfl

/-- A cell on the right is looked through as well, in one call. -/
theorem compareWithin_ref_right (h : Heap) (fuel : Nat) (v : Value) (cell : CellId) :
    compareWithin h (fuel + 1) v (.ref cell) = compareWithin h fuel v (h.content cell) := by
  induction fuel generalizing v with
  | zero => cases v <;> rfl
  | succ fuel ih =>
    cases v with
    | ref id => exact ih (h.content id)
    | _ => rfl

/-- Within every bound the order the other way round is the reverse. -/
theorem compareWithin_swap (h : Heap) (fuel : Nat) (v w : Value) :
    compareWithin h fuel w v = (compareWithin h fuel v w).map (Option.map Ordering.swap) := by
  induction fuel generalizing v w with
  | zero => rfl
  | succ fuel ih =>
    cases v with
    | ref cell => exact (compareWithin_ref_right h fuel w cell).trans (ih (h.content cell) w)
    | composite i =>
      cases w with
      | ref cell => exact ih (.composite i) (h.content cell)
      | composite j =>
        rw [compareWithin, compareWithin]
        by_cases same : i = j
        · rw [if_pos same, if_pos same.symm]
          rfl
        · rw [if_neg same, if_neg (Ne.symm same)]
          cases h.composite? i with
          | none => cases h.composite? j <;> rfl
          | some c =>
            cases h.composite? j with
            | none => rfl
            | some d =>
              dsimp only
              by_cases classes : c.className = d.className
              · rw [if_neg (not_not_intro classes), if_neg (not_not_intro classes.symm)]
                by_cases sizes : c.fields.size = d.fields.size
                · rw [if_neg (not_not_intro sizes), if_neg (not_not_intro sizes.symm)]
                  exact compareFields_swap ih c.fields.entries d.fields.entries
                · rw [if_pos sizes, if_pos (Ne.symm sizes)]
                  exact congrArg (fun order => some (some order)) Std.OrientedOrd.eq_swap
              · rw [if_pos classes, if_pos (Ne.symm classes)]
                rfl
      | _ => exact congrArg some (compareScalars_swap h _ _)
    | _ =>
      cases w with
      | ref cell => exact ih _ (h.content cell)
      | _ => exact congrArg some (compareScalars_swap h _ _)

/-- The loose order the other way round is the reverse, if there is one. -/
theorem compare?_swap (h : Heap) (v w : Value) :
    compare? h w v = (compare? h v w).map (Option.map Ordering.swap) :=
  compareWithin_swap h _ v w

theorem compare_swap (h : Heap) (v w : Value) :
    compare h w v = (compare h v w).map Ordering.swap := by
  rw [compare, compare, compare?_swap]
  rcases compare? h v w with _ | _ | order <;> rfl

/-- Equality goes both ways. -/
theorem compare_eq_comm (h : Heap) (v w : Value) :
    compare h v w = some .eq ↔ compare h w v = some .eq := by
  rw [compare_swap h v w]
  rcases compare h v w with _ | (_ | _ | _) <;> simp

/-! ## Operators on one order -/

/-- Two values that are not comparable, as programs see it. -/
structure Uncomparable (h : Heap) (v w : Value) : Prop where
  smaller : comparison h .smaller v w = .bool false
  smallerOrEqual : comparison h .smallerOrEqual v w = .bool false
  equal : comparison h .equal v w = .bool false
  notEqual : comparison h .notEqual v w = .bool true
  last : comparison h .spaceship v w = .int 1

/-- Two values that are equal, as programs see it. -/
structure LooselyEqual (h : Heap) (v w : Value) : Prop where
  equal : comparison h .equal v w = .bool true
  notEqual : comparison h .notEqual v w = .bool false
  smaller : comparison h .smaller v w = .bool false
  smallerOrEqual : comparison h .smallerOrEqual v w = .bool true
  notGreater : comparison h .smallerOrEqual w v = .bool true
  same : comparison h .spaceship v w = .int 0

/-- The loose order of two values and the operators built on it, read from both sides. -/
structure Antisymmetric (h : Heap) (v w : Value) : Prop where
  reverse : compare h w v = (compare h v w).map Ordering.swap
  equal : comparison h .equal v w = .bool true ↔ comparison h .equal w v = .bool true
  smaller : comparison h .smaller v w = .bool true
    ↔ (compare h v w).isSome ∧ comparison h .spaceship w v = .int 1
  smallerOrEqual : comparison h .smallerOrEqual v w = .bool true
    ↔ comparison h .smaller v w = .bool true ∨ comparison h .equal v w = .bool true
  asymmetric : ¬(comparison h .smaller v w = .bool true ∧ comparison h .smaller w v = .bool true)
  opposite : (compare h v w).isSome →
    ∃ i, comparison h .spaceship v w = .int i ∧ comparison h .spaceship w v = .int (-i)
  uncomparable : compare h v w = none → Uncomparable h v w ∧ Uncomparable h w v

variable {h : Heap} {v w : Value}

theorem uncomparable_of_order (order : compare h v w = none) : Uncomparable h v w := by
  constructor <;> simp [comparison, order]

theorem looselyEqual_of_order (order : compare h v w = some .eq) : LooselyEqual h v w := by
  have back := compare_swap h v w
  rw [order] at back
  constructor <;> simp [comparison, order, back]

theorem comparison_equal_iff :
    comparison h .equal v w = .bool true ↔ compare h v w = some .eq := by
  simp [comparison]

theorem comparison_smaller_iff :
    comparison h .smaller v w = .bool true ↔ compare h v w = some .lt := by
  simp [comparison]

theorem comparison_smallerOrEqual_iff : comparison h .smallerOrEqual v w = .bool true
    ↔ compare h v w = some .lt ∨ compare h v w = some .eq := by
  simp [comparison]

/-- The operators go by the order, and the order the other way round is the reverse. -/
theorem antisymmetric (h : Heap) (v w : Value) : Antisymmetric h v w where
  reverse := compare_swap h v w
  equal := by
    rw [comparison_equal_iff, comparison_equal_iff]
    exact compare_eq_comm h v w
  smaller := by
    rw [comparison_smaller_iff, comparison, compare_swap h v w]
    rcases compare h v w with _ | (_ | _ | _) <;> simp
  smallerOrEqual := by
    rw [comparison_smallerOrEqual_iff, comparison_smaller_iff, comparison_equal_iff]
  asymmetric := by
    rw [comparison_smaller_iff, comparison_smaller_iff, compare_swap h v w]
    rcases compare h v w with _ | (_ | _ | _) <;> simp
  opposite comparable := by
    obtain ⟨order, found⟩ := Option.isSome_iff_exists.mp comparable
    rw [comparison, comparison, compare_swap h v w, found]
    cases order with
    | lt => exact ⟨-1, rfl, rfl⟩
    | eq => exact ⟨0, rfl, rfl⟩
    | gt => exact ⟨1, rfl, rfl⟩
  uncomparable none := by
    have back := compare_swap h v w
    rw [none] at back
    exact ⟨uncomparable_of_order none, uncomparable_of_order back⟩

/-- The loose order of grounded values is found, and is what one call makes of the orders of what
they hold; the other way round it is the reverse, and the operators built on it agree with each
other. -/
theorem loose_order_is_antisymmetric (left : h.Grounded v) (right : h.Grounded w) :
    compare? h v w = some (compare h v w) ∧ compare? h v w = h.compareStep (compare? h) v w
      ∧ Antisymmetric h v w :=
  ⟨left.compare?_eq_some right, left.compare?_eq right, antisymmetric h v w⟩

/-- Two pairs, one of them in a cell and the other one with a cell in a field. -/
def twoPairs : Heap :=
  let h := (Heap.empty.createWith "Pair" [("left", .int 1), ("right", .str "2")]).2
  let h := (h.createCell (.composite ⟨0⟩)).2
  let h := (h.createCell (.bool true)).2
  (h.createWith "Pair" [("left", .ref ⟨1⟩), ("right", .int 10)]).2

theorem loose_order_is_antisymmetric_twoPairs :
    (twoPairs.Grounded (.ref ⟨0⟩) ∧ twoPairs.Grounded (.composite ⟨1⟩)) ∧
    Antisymmetric twoPairs (.ref ⟨0⟩) (.composite ⟨1⟩)
    ∧ comparison twoPairs .smaller (.ref ⟨0⟩) (.composite ⟨1⟩) = .bool true
    ∧ comparison twoPairs .spaceship (.composite ⟨1⟩) (.ref ⟨0⟩) = .int 1 := by
  have pair : twoPairs.Grounded (.composite ⟨0⟩) := by
    refine .composite rfl ?_
    exact List.forall_mem_cons.mpr ⟨.scalar rfl, List.forall_mem_singleton.mpr (.scalar rfl)⟩
  have flag : twoPairs.Grounded (.ref ⟨1⟩) := .cell rfl (.scalar rfl)
  have left : twoPairs.Grounded (.ref ⟨0⟩) := .cell rfl pair
  have right : twoPairs.Grounded (.composite ⟨1⟩) := by
    refine .composite rfl ?_
    exact List.forall_mem_cons.mpr ⟨flag, List.forall_mem_singleton.mpr (.scalar rfl)⟩
  obtain ⟨-, -, orders⟩ := loose_order_is_antisymmetric left right
  have smaller : comparison twoPairs .smaller (.ref ⟨0⟩) (.composite ⟨1⟩) = .bool true := by
    exact comparison_smaller_iff.mpr (by decide +kernel)
  exact ⟨⟨left, right⟩, orders, smaller, (orders.smaller.mp smaller).2⟩

/-! ## Identity -/

/-- Identical values are the same value, floats apart. -/
theorem eq_of_identical (same : v.identical w = true) (number : ∀ x, v ≠ .float x) : v = w := by
  cases v <;> cases w <;> simp_all [Value.identical]

/-- A value that is a number if it is a float is identical to itself. -/
theorem identical_self (number : ∀ x, v = .float x → x.isNaN = false) : v.identical v = true := by
  cases v with
  | float x => exact compareFloat_eq_iff.mp (compareFloat_self (number x rfl))
  | _ => simp [Value.identical]

/-- Identical values that are no cells are equal: a text spells the same number as itself, and a
composite is not looked into. -/
theorem compareWithin_of_identical (plain : v.Plain) (same : v.identical w = true) (fuel : Nat) :
    compareWithin h (fuel + 1) v w = some (some .eq) := by
  cases v with
  | ref cell => exact absurd rfl (plain cell)
  | composite id =>
    obtain rfl := eq_of_identical same fun x float => by cases float
    rw [compareWithin, if_pos rfl]
  | float x =>
    cases w with
    | float y => exact congrArg some (compareFloat_eq_iff.mpr same)
    | _ => cases same
  | _ =>
    obtain rfl := eq_of_identical same fun x float => by cases float
    exact congrArg some (compareScalars_self h rfl fun x float => by cases float)

theorem compare_of_identical (plain : v.Plain) (same : v.identical w = true) :
    compare h v w = some .eq := by
  have bound : ∃ fuel, (h.size + 1) * (h.size + 1) = fuel + 1 :=
    Nat.exists_eq_succ_of_ne_zero (Nat.mul_ne_zero (Nat.succ_ne_zero _) (Nat.succ_ne_zero _))
  obtain ⟨fuel, enough⟩ := bound
  rw [compare, compare?, enough, compareWithin_of_identical plain same fuel]
  rfl

/-- A cell and its content are equal to themselves and to each other, if the content is neither a
cell nor a float that is no number. -/
theorem looselyEqual_of_cell {cell : CellId} (alive : h.Alive (.ref cell))
    (plain : (h.content cell).Plain) (same : (h.content cell).identical (h.content cell) = true) :
    ∀ a ∈ [.ref cell, h.content cell], ∀ b ∈ [.ref cell, h.content cell], LooselyEqual h a b := by
  have right : ∀ fuel, ∀ b ∈ [.ref cell, h.content cell],
      compareWithin h (fuel + 2) (h.content cell) b = some (some .eq) := by
    intro fuel
    refine List.forall_mem_cons.mpr ⟨?_, List.forall_mem_singleton.mpr ?_⟩
    · rw [compareWithin_ref_right]
      exact compareWithin_of_identical plain same fuel
    · exact compareWithin_of_identical plain same (fuel + 1)
  have bound : ∃ fuel, (h.size + 1) * (h.size + 1) = fuel + 3 := by
    obtain ⟨c, found, -⟩ := alive.cell?
    have smaller := OrderedMap.size_erase_of_get? (m := h.cells) found
    have one : 2 * 2 ≤ (h.size + 1) * (h.size + 1) :=
      Nat.mul_le_mul (by rw [Heap.size]; omega) (by rw [Heap.size]; omega)
    exact ⟨(h.size + 1) * (h.size + 1) - 3, by omega⟩
  obtain ⟨fuel, enough⟩ := bound
  refine List.forall_mem_cons.mpr ⟨?_, List.forall_mem_singleton.mpr ?_⟩
  · intro b mem
    refine looselyEqual_of_order ?_
    rw [compare, compare?, enough]
    exact congrArg Option.join (right fuel b mem)
  · intro b mem
    refine looselyEqual_of_order ?_
    rw [compare, compare?, enough]
    exact congrArg Option.join (right (fuel + 1) b mem)

/-- A value that shows neither a cell nor a float that is no number is equal to itself and to
what it shows. -/
theorem looselyEqual_shown (alive : h.Alive v) (plain : (h.lookThrough v).1.Plain)
    (number : ∀ x, (h.lookThrough v).1 = .float x → x.isNaN = false) :
    ∀ a ∈ [v, (h.lookThrough v).1], ∀ b ∈ [v, (h.lookThrough v).1], LooselyEqual h a b := by
  have same := identical_self number
  cases v with
  | ref cell => exact looselyEqual_of_cell alive plain same
  | _ =>
    have self : LooselyEqual h _ _ := looselyEqual_of_order (compare_of_identical plain same)
    have each := List.forall_mem_cons.mpr ⟨self, List.forall_mem_singleton.mpr self⟩
    exact List.forall_mem_cons.mpr ⟨each, List.forall_mem_singleton.mpr each⟩

/-- Identical values that are no cells are equal. So a value that shows neither a cell nor a float
that is no number is equal to itself and to what it shows, however many clones there are. -/
theorem identity_implies_equality (h : Heap) :
    (∀ v w : Value, v.Plain → comparison h .identical v w = .bool true → LooselyEqual h v w)
    ∧ ∀ v : Value, h.Alive v → (h.lookThrough v).1.Plain →
      (∀ x, (h.lookThrough v).1 = .float x → x.isNaN = false) →
      ∀ clones : List Value, ∀ a ∈ [v, (h.lookThrough v).1], ∀ b ∈ [v, (h.lookThrough v).1],
        LooselyEqual (h.acquireAll clones) a b := by
  constructor
  · intro v w plain same
    exact looselyEqual_of_order (compare_of_identical plain (by simpa [comparison] using same))
  · intro v alive plain number clones
    have shows := h.lookThrough_acquireAll clones v
    have equal := looselyEqual_shown (alive.acquireAll clones)
    rw [shows] at equal
    exact equal plain number

/-- A text that spells a number is equal to itself, and a cell to the pair in it, of which there
are more handles by then. -/
theorem identity_implies_equality_twoPairs :
    (comparison twoPairs .identical (.str " 1e2") (.str " 1e2") = .bool true
      ∧ LooselyEqual twoPairs (.str " 1e2") (.str " 1e2"))
    ∧ LooselyEqual (twoPairs.acquireAll [.ref ⟨0⟩, .composite ⟨0⟩]) (.ref ⟨0⟩)
      (.composite ⟨0⟩) := by
  obtain ⟨identical, shown⟩ := identity_implies_equality twoPairs
  have same : comparison twoPairs .identical (.str " 1e2") (.str " 1e2") = .bool true := rfl
  have alive : twoPairs.Alive (.ref ⟨0⟩) := by
    intro node names
    cases names
    exact ⟨1, Nat.one_pos, rfl⟩
  have clones := shown (.ref ⟨0⟩) alive (fun _ => nofun) nofun [.ref ⟨0⟩, .composite ⟨0⟩]
  exact ⟨⟨same, identical _ _ (fun _ => nofun) same⟩,
    clones (.ref ⟨0⟩) List.mem_cons_self (.composite ⟨0⟩)
      (List.mem_cons_of_mem _ List.mem_cons_self)⟩

end Operator

end OverloadMachine
