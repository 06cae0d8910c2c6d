import OverloadMachine.Heap.Text
import OverloadMachine.Number

/-!
# Built-in comparison

The loose order of values, and the comparison operators. Two values may be
uncomparable; then no operator that asks for an order or for equality holds of
them, and the three-way comparison puts the first one last. Among nodes that hold
each other in a cycle a comparison may have no end, and then no answer.
-/

namespace OverloadMachine.Operator

/-- Order of two truth values; false comes first. -/
def compareBool (a b : Bool) : Ordering := Ord.compare a.toNat b.toNat

/-- Order of two texts: as numbers if both spell one, otherwise letter by letter. -/
def compareText (s t : String) : Option Ordering :=
  match Number.parse? s, Number.parse? t with
  | some x, some y => x.compare y
  | _, _ => some (Ord.compare s t)

/-- Order of the fields of two composites of one size. A difference in names makes
them uncomparable; the first pair of values that is not equal decides. -/
def compareFields (compareValues : Value → Value → Option (Option Ordering)) :
    List (String × Value) → List (String × Value) → Option (Option Ordering)
  | (j, a) :: as, (k, b) :: bs =>
    if j = k then
      match compareValues a b with
      | some (some .eq) => compareFields compareValues as bs
      | order => order
    else some none
  | _, _ => some (some .eq)

/-- Order of two values that are neither cells nor composites. -/
def compareScalars (h : Heap) (a b : Value) : Option Ordering :=
  match a, b with
  | .null, .str s => some (Ord.compare "" s)
  | .str s, .null => some (Ord.compare s "")
  | .null, _ | .bool _, _ | _, .null | _, .bool _ =>
    some (compareBool (h.isTruthy a) (h.isTruthy b))
  | .str s, .str t => compareText s t
  | .str s, _ =>
    match Number.parse? s, Number.ofValue? b with
    | some x, some y => x.compare y
    | none, some _ => some (Ord.compare s (h.plainText b))
    | _, none => none
  | _, .str t =>
    match Number.ofValue? a, Number.parse? t with
    | some x, some y => x.compare y
    | some _, none => some (Ord.compare (h.plainText a) t)
    | none, _ => none
  | _, _ =>
    match Number.ofValue? a, Number.ofValue? b with
    | some x, some y => x.compare y
    | _, _ => none

/-- Loose order, if it is found within a bound on the number of nested calls. -/
def compareWithin (h : Heap) : (fuel : Nat) → Value → Value → Option (Option Ordering)
  | 0, _, _ => none
  | fuel + 1, .ref cell, b => compareWithin h fuel (h.content cell) b
  | fuel + 1, a, .ref cell => compareWithin h fuel a (h.content cell)
  | fuel + 1, .composite i, .composite j =>
    if i = j then some (some .eq)
    else match h.composite? i, h.composite? j with
      | some c, some d =>
        if c.className ≠ d.className then some none
        else if c.fields.size ≠ d.fields.size then
          some (some (Ord.compare c.fields.size d.fields.size))
        else compareFields (compareWithin h fuel) c.fields.entries d.fields.entries
      | _, _ => some none
  | _ + 1, a, b => some (compareScalars h a b)

/-- Loose order of two values, if it is found: null and booleans by truth, numbers
and texts that spell numbers by size, other texts letter by letter, and composites of
one class by their number of fields and then field by field. Cells are looked through.
A comparison that ends meets no pair of values twice on its way down, and each
side meets at most one value besides the nodes, hence the bound. -/
def compare? (h : Heap) (a b : Value) : Option (Option Ordering) :=
  compareWithin h ((h.size + 1) * (h.size + 1)) a b

/-- Loose order of two values whose comparison ends. -/
def compare (h : Heap) (a b : Value) : Option Ordering := (compare? h a b).join

theorem compare_eq_some_iff {h : Heap} {a b : Value} {order : Ordering} :
    compare h a b = some order ↔ compare? h a b = some (some order) :=
  Option.join_eq_some_iff

/-- Value of a comparison that ends. -/
def comparison (h : Heap) (op : ComparisonOp) (a b : Value) : Value :=
  match op with
  | .identical => .bool (a.identical b)
  | .notIdentical => .bool (!a.identical b)
  | .equal => .bool (compare h a b == some .eq)
  | .notEqual => .bool (compare h a b != some .eq)
  | .smaller => .bool (compare h a b == some .lt)
  | .smallerOrEqual => .bool (compare h a b == some .lt || compare h a b == some .eq)
  | .spaceship =>
    match compare h a b with
    | some .lt => .int (-1)
    | some .eq => .int 0
    | _ => .int 1

/-- Value of a comparison, if it ends. Identity is settled at once. -/
def comparison? (h : Heap) (op : ComparisonOp) (a b : Value) : Option Value :=
  match op with
  | .identical | .notIdentical => some (comparison h op a b)
  | _ => (compare? h a b).map fun _ => comparison h op a b

theorem comparison?_of_compare? {h : Heap} {a b : Value} {order : Option Ordering}
    (op : ComparisonOp) (found : compare? h a b = some order) :
    comparison? h op a b = some (comparison h op a b) := by
  unfold comparison?
  rw [found]
  cases op <;> rfl

theorem comparison_of_comparison? {h : Heap} {op : ComparisonOp} {a b v : Value}
    (found : comparison? h op a b = some v) : comparison h op a b = v := by
  unfold comparison? at found
  split at found
  · exact Option.some.inj found
  · exact Option.some.inj found
  · obtain ⟨order, -, eq⟩ := Option.map_eq_some_iff.mp found
    exact eq

end OverloadMachine.Operator
