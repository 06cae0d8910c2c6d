import OverloadMachine.Machine.Builtin
import OverloadMachine.Proofs.NumericTexts
import OverloadMachine.Proofs.Trees

/-!
# Operators on trees

Operators do not find out whether composites are shared: arithmetic sees only that
an operand is a composite, and the loose order goes by classes and fields. Hence
the operators may be given trees in place of values. The loose order of machine
values ends early at one and the same composite, which is right as long as no
field is a float that is no number, since a tree is then equal to itself.
-/

namespace OverloadMachine

/-! ## Floats that are numbers -/

section Floats

open Float.Model

/-- A float that is a number is equal to itself. -/
theorem compareFloat_self {x : Float} (number : x.isNaN = false) :
    compareFloat x x = some .eq := by
  have same : x.toModel.unpack.compare x.toModel.unpack = some .eq := by
    have kind : x.toModel.unpack.isNaN = false := number
    cases unpacked : x.toModel.unpack with
    | notANumber =>
      rw [unpacked] at kind
      cases kind
    | infinity sign => cases sign <;> rfl
    | zero sign => rfl
    | finite sign mantissa exponent pos =>
      have exponents : compare exponent exponent = .eq := Std.ReflOrd.compare_self
      have mantissas : compare mantissa mantissa = .eq := Std.ReflOrd.compare_self
      cases sign with
      | positive =>
        change some ((compare exponent exponent).then (compare mantissa mantissa)) = some .eq
        rw [exponents, mantissas]
        rfl
      | negative =>
        change some ((compare exponent exponent).then (compare mantissa mantissa)).swap = some .eq
        rw [exponents, mantissas]
        rfl
  have less : x.lt x = false := by
    change decide ((x.toModel.unpack.compare x.toModel.unpack == some .lt) = true) = false
    rw [same]
    rfl
  have equal : (x == x) = true := by
    change (x.toModel.unpack.compare x.toModel.unpack == some .eq) = true
    rw [same]
    rfl
  have irreflexive : ¬x < x := by
    intro lt
    have holds : x.lt x = true := lt
    rw [less] at holds
    cases holds
  rw [compareFloat, if_neg irreflexive, if_neg irreflexive, if_pos equal]

/-- Words are numbers unless the exponent says otherwise. -/
theorem isNaN_unpack {b : BitVec Format.binary64.numBits}
    (exponent : UnpackedFloat.unpackExponent b ≠ -1#_ ∨ UnpackedFloat.unpackMantissa b = 0#_) :
    (UnpackedFloat.unpack Format.binary64 b).isNaN = false := by
  unfold UnpackedFloat.unpack
  dsimp only
  by_cases ones : UnpackedFloat.unpackExponent b = -1#_
  · rcases exponent with ne | zero
    · exact absurd ones ne
    · rw [if_pos ones, if_pos zero]
      rfl
  · rw [if_neg ones]
    by_cases subnormal : UnpackedFloat.unpackExponent b = 0#_
    · rw [if_pos subnormal]
      by_cases zero : UnpackedFloat.unpackMantissa b = 0#_
      · rw [dif_pos zero]
        rfl
      · rw [dif_neg zero]
        rfl
    · rw [if_neg subnormal]
      rfl

/-- What is packed and unpacked stays a number. -/
theorem isNaN_unpack_pack {u : UnpackedFloat} (number : u.isNaN = false) :
    (UnpackedFloat.unpack Format.binary64 (u.pack Format.binary64)).isNaN = false := by
  fun_cases UnpackedFloat.pack with
  | case1 => cases number
  | case2 s => cases s <;> rfl
  | case3 s => cases s <;> rfl
  | case4 s m e pos biased h => cases s <;> rfl
  | case5 s m e pos bits biased h₁ h₂ =>
    have small : biased + 1 < 2048 := Nat.not_le.mp h₁
    refine isNaN_unpack (Or.inl ?_)
    rw [UnpackedFloat.unpackExponent_packComponents]
    intro eq
    have nat : biased % 2048 = 2047 := congrArg BitVec.toNat eq
    omega
  | case6 s m e pos bits biased h₁ h₂ =>
    refine isNaN_unpack (Or.inl ?_)
    rw [UnpackedFloat.unpackExponent_packComponents]
    decide

/-- Words up to that of infinity are numbers. -/
theorem isNaN_floatOfWord (negative : Bool) {word : Nat} (le : word ≤ Binary64.infinityWord) :
    (floatOfWord negative word).isNaN = false := by
  have bound : word ≤ 0x7ff0000000000000 := le
  refine isNaN_unpack_pack (isNaN_unpack ?_)
  generalize bits :
    (UInt64.ofNat (if negative then Binary64.signBit + word else word)).toBitVec = b
  have nat : b.toNat = if negative then 0x8000000000000000 + word else word := by
    rw [← bits]
    cases negative <;> simp [Binary64.signBit] <;> omega
  have exponent : (@UnpackedFloat.unpackExponent Format.binary64 b).toNat = word / 2 ^ 52 := by
    simp [UnpackedFloat.unpackExponent, BitVec.extractLsb_toNat, nat]
    cases negative <;> simp <;> omega
  have mantissa : (@UnpackedFloat.unpackMantissa Format.binary64 b).toNat = word % 2 ^ 52 := by
    simp [UnpackedFloat.unpackMantissa, nat]
    cases negative with
    | false => simp
    | true =>
      simp
      omega
  by_cases ones : word / 2 ^ 52 = 2047
  · right
    apply BitVec.eq_of_toNat_eq
    rw [mantissa]
    simp
    omega
  · left
    intro eq
    apply ones
    rw [← exponent, eq]
    rfl

/-- A decimal number is rounded to no more than infinity. -/
theorem ofDecimal_le (d : Binary64.Decimal) : Binary64.ofDecimal d ≤ Binary64.infinityWord := by
  unfold Binary64.ofDecimal
  dsimp only
  split
  · exact Nat.zero_le _
  · split
    · exact Nat.le_refl _
    · split <;> exact Nat.min_le_right _ _

/-- The float of a text is a number. -/
theorem isNaN_of_readFloat {cs : List Char} {x : Float} (read : Number.readFloat? cs = some x) :
    x.isNaN = false := by
  unfold Number.readFloat? at read
  dsimp only at read
  -- The text may have a point or not, and then digits or not.
  split at read
  · split at read
    · cases read
    · obtain ⟨exponent, -, rfl⟩ := Option.map_eq_some_iff.mp read
      exact isNaN_floatOfWord _ (ofDecimal_le _)
  · split at read
    · cases read
    · obtain ⟨exponent, -, rfl⟩ := Option.map_eq_some_iff.mp read
      exact isNaN_floatOfWord _ (ofDecimal_le _)

end Floats

namespace Number

/-- The number of a text is equal to itself. -/
theorem compare_self_of_parse {s : String} {x : Number} (parsed : parse? s = some x) :
    x.compare x = some .eq := by
  cases x with
  | int i => exact congrArg some Std.ReflOrd.compare_self
  | float x =>
    rw [parse?_eq] at parsed
    split at parsed
    · cases parsed
    · obtain ⟨y, read, eq⟩ := Option.map_eq_some_iff.mp parsed
      cases eq
      exact compareFloat_self (isNaN_of_readFloat read)

end Number

namespace Operator

/-- A scalar that is a number if it is a float is equal to itself. -/
theorem compareScalars_self (h : Heap) {v : Value} (scalar : v.node? = none)
    (number : ∀ x, v = .float x → x.isNaN = false) : compareScalars h v v = some .eq := by
  cases v with
  | null => rfl
  | bool b => exact congrArg some Std.ReflOrd.compare_self
  | int i => exact congrArg some Std.ReflOrd.compare_self
  | float x => exact compareFloat_self (number x rfl)
  | str s =>
    change compareText s s = some .eq
    unfold compareText
    cases parsed : Number.parse? s with
    | none => exact congrArg some Std.ReflOrd.compare_self
    | some x => exact Number.compare_self_of_parse parsed
  | ref cell => cases scalar
  | composite id => cases scalar

end Operator

/-! ## What operators see of a tree -/

namespace Tree

/-- What operators see that do not look at fields: a scalar itself, and of a
composite that it is one. -/
def surface : Tree → Value
  | .leaf v _ => v
  | .node _ _ => .composite ⟨0⟩

/-- Kind of the root. -/
def kind (t : Tree) : Kind := t.surface.kind

/-- Whether a tree counts as true. -/
def isTruthy (t : Tree) : Bool := Heap.empty.isTruthy t.surface

mutual

/-- Loose order of two trees: that of their scalars, and nodes of one class by their
number of fields and then field by field. -/
def compare : Tree → Tree → Option Ordering
  | .node c fields, .node d others =>
    if c ≠ d then none
    else if fields.length ≠ others.length then
      some (Ord.compare fields.length others.length)
    else compareEach fields others
  | .leaf v _, u => Operator.compareScalars .empty v u.surface
  | .node _ _, .leaf w _ => Operator.compareScalars .empty (.composite ⟨0⟩) w

/-- Order of the fields of two nodes of one size; the first pair of values that is
not equal decides. -/
def compareEach : List (String × Tree) → List (String × Tree) → Option Ordering
  | (j, t) :: ts, (k, u) :: us =>
    if j = k then
      match t.compare u with
      | some .eq => compareEach ts us
      | order => order
    else none
  | _, _ => some .eq

end

end Tree

namespace Operator

/-- Value of a comparison that finds an order and whether the values are identical. -/
def ofOrder (op : ComparisonOp) (same : Bool) (order : Option Ordering) : Value :=
  match op with
  | .identical => .bool same
  | .notIdentical => .bool !same
  | .equal => .bool (order == some .eq)
  | .notEqual => .bool (order != some .eq)
  | .smaller => .bool (order == some .lt)
  | .smallerOrEqual => .bool (order == some .lt || order == some .eq)
  | .spaceship =>
    match order with
    | some .lt => .int (-1)
    | some .eq => .int 0
    | _ => .int 1

/-- A comparison goes by the order alone unless it asks for identity. -/
theorem comparison_eq_ofOrder (h : Heap) {op : ComparisonOp} (loose : op ≠ .identical)
    (loose' : op ≠ .notIdentical) (a b : Value) (same : Bool) :
    comparison h op a b = ofOrder op same (compare h a b) := by
  cases op with
  | identical => exact absurd rfl loose
  | notIdentical => exact absurd rfl loose'
  | _ => rfl

end Operator

namespace Heap

variable {h : Heap} {t u : Tree} {v w : Value}

/-- The truth of a scalar is found, and is the same in every heap. -/
theorem truth?_of_scalar (h k : Heap) (scalar : v.node? = none) :
    h.truth? v = some (k.isTruthy v) := by
  cases v <;> first | rfl | cases scalar

/-- What is seen of a tree counts as true or not. -/
theorem truth?_surface (t : Tree) : Heap.empty.truth? t.surface = some t.isTruthy := by
  cases t with
  | leaf a scalar => exact truth?_of_scalar .empty .empty scalar
  | node className fields => rfl

/-- The plain text of a scalar is the same in every heap. -/
theorem plainText_of_scalar (h k : Heap) (scalar : v.node? = none) :
    h.plainText v = k.plainText v := by
  cases v <;> first | rfl | cases scalar

theorem Holds.kind (holds : h.Holds t v) : v.kind = t.kind := by
  cases t with
  | leaf a scalar => exact congrArg Value.kind holds
  | node className fields =>
    obtain ⟨id, c, rfl, -⟩ := holds
    rfl

theorem Holds.truth? (holds : h.Holds t v) : h.truth? v = some t.isTruthy := by
  cases t with
  | leaf a scalar =>
    obtain rfl : v = a := holds
    exact truth?_of_scalar h .empty scalar
  | node className fields =>
    obtain ⟨id, c, rfl, -⟩ := holds
    rfl

theorem Holds.isTruthy (holds : h.Holds t v) : h.isTruthy v = t.isTruthy := by
  rw [Heap.isTruthy, holds.truth?]
  rfl

theorem Holds.fieldName (holds : h.Holds t v) :
    Builtin.fieldName v = Builtin.fieldName t.surface := by
  cases t with
  | leaf a scalar => exact congrArg Builtin.fieldName holds
  | node className fields =>
    obtain ⟨id, c, rfl, -⟩ := holds
    rfl

theorem Holds.arithmetic (left : h.Holds t v) (right : h.Holds u w) (op : ArithmeticOp) :
    Operator.arithmetic h op v w = Operator.arithmetic .empty op t.surface u.surface := by
  cases t with
  | leaf a scalar =>
    obtain rfl : v = a := left
    cases u with
    | leaf b scalar' =>
      obtain rfl : w = b := right
      have first := plainText_of_scalar h .empty scalar
      have second := plainText_of_scalar h .empty scalar'
      cases op with
      | concat =>
        unfold Operator.arithmetic
        rw [first, second]
        rfl
      | _ => rfl
    | node className fields =>
      obtain ⟨id, c, rfl, -⟩ := right
      cases v <;> rfl
  | node className fields =>
    obtain ⟨id, c, rfl, -⟩ := left
    have kinds := right.kind
    unfold Operator.arithmetic
    simp only [Value.isHandle, Tree.surface, Bool.true_or, if_true, kinds]
    rfl

theorem Holds.boolXor (left : h.Holds t v) (right : h.Holds u w) :
    Operator.boolXor h v w = .ok (.bool (t.isTruthy != u.isTruthy)) := by
  rw [Operator.boolXor, left.truth?, right.truth?]
  rfl

theorem Holds.unary (holds : h.Holds t v) (op : UnaryOp) :
    Operator.unary h op v = Operator.unary .empty op t.surface := by
  cases op with
  | boolNot =>
    rw [Operator.unary, Operator.unary, holds.truth?, truth?_surface]
  | bitNot =>
    cases t with
    | leaf a scalar =>
      obtain rfl : v = a := holds
      rfl
    | node className fields =>
      obtain ⟨id, c, rfl, -⟩ := holds
      rfl

theorem Holds.step (holds : h.Holds t v) (time : StepTime) (direction : StepDirection) :
    Operator.step time direction v = Operator.step time direction t.surface := by
  cases t with
  | leaf a scalar => exact congrArg (Operator.step time direction) holds
  | node className fields =>
    obtain ⟨id, c, rfl, -⟩ := holds
    rfl

/-! ## Comparison -/

/-- Scalars compare alike in every heap. -/
theorem compareScalars_of_scalar (h k : Heap) (scalar : v.node? = none)
    (scalar' : w.node? = none) :
    Operator.compareScalars h v w = Operator.compareScalars k v w := by
  cases v with
  | ref cell => cases scalar
  | composite id => cases scalar
  | _ => cases w <;> first | rfl | cases scalar'

/-- No field of a composite is a float that is no number. -/
def NaNFree (h : Heap) : Prop :=
  ∀ id c, h.composite? id = some c → ∀ x, Value.float x ∈ c.fields.values → x.isNaN = false

/-- Whether fields are free of floats that are no numbers is found by looking at each. -/
instance (h : Heap) : Decidable h.NaNFree :=
  let isNumber : Value → Bool
    | .float x => !x.isNaN
    | _ => true
  decidable_of_iff (∀ e ∈ h.composites.entries, ∀ v ∈ e.2.fields.values, isNumber v = true) <| by
    constructor
    · intro all id c found x mem
      have number := all _ (OrderedMap.mem_of_lookup found) _ mem
      simpa [isNumber] using number
    · intro free e there v mem
      cases v with
      | float x =>
        have found : h.composite? ⟨e.1⟩ = some e.2 :=
          OrderedMap.lookup_of_mem h.composites.increasing there
        simpa [isNumber] using free _ e.2 found x mem
      | _ => rfl

mutual

/-- A tree without floats that are no numbers is equal to itself. -/
theorem Holds.compare_self (numbers : h.NaNFree) : ∀ {t : Tree} {v : Value}, h.Holds t v →
    (∀ x, v = .float x → x.isNaN = false) → t.compare t = some .eq
  | .leaf a scalar, v, holds, number => by
    obtain rfl : v = a := holds
    exact Operator.compareScalars_self .empty scalar number
  | .node className fields, v, holds, _ => by
    obtain ⟨id, c, rfl, found, rfl, each⟩ := holds
    have fields := each.compareEach_self numbers (numbers id c found)
    rw [Tree.compare, if_neg (not_not_intro rfl), if_neg (not_not_intro rfl)]
    exact fields

/-- Fields without floats that are no numbers are equal to themselves. -/
theorem HoldsEach.compareEach_self (numbers : h.NaNFree) : ∀ {ts : List (String × Tree)}
    {entries : List (String × Value)}, h.HoldsEach ts entries →
      (∀ x, Value.float x ∈ entries.map (·.2) → x.isNaN = false) →
      Tree.compareEach ts ts = some .eq
  | [], entries, _, _ => rfl
  | (key, t) :: rest, entries, each, number => by
    obtain ⟨v, others, rfl, one, later⟩ := each
    have first := one.compare_self numbers fun x eq =>
      number x (eq ▸ List.mem_cons_self)
    have behind := later.compareEach_self numbers fun x mem =>
      number x (List.mem_cons_of_mem v mem)
    rw [Tree.compareEach, if_pos rfl, first]
    exact behind

end

/-- A scalar and a composite compare alike in every heap. -/
theorem compareScalars_composite (h : Heap) (scalar : v.node? = none) (id : CompositeId) :
    Operator.compareScalars h v (.composite id)
        = Operator.compareScalars .empty v (.composite ⟨0⟩)
      ∧ Operator.compareScalars h (.composite id) v
        = Operator.compareScalars .empty (.composite ⟨0⟩) v := by
  cases v with
  | ref cell => cases scalar
  | composite id => cases scalar
  | str s =>
    cases parsed : Number.parse? s with
    | none => simp [Operator.compareScalars, parsed, Number.ofValue?]
    | some x => simp [Operator.compareScalars, parsed, Number.ofValue?]
  | _ => exact ⟨rfl, rfl⟩

/-- Values of which one is a scalar compare like what is seen of them. -/
theorem compareWithin_of_scalar {fuel : Nat} (plain : ∀ cell, v ≠ .ref cell)
    (plain' : ∀ cell, w ≠ .ref cell) (scalar : v.node? = none ∨ w.node? = none) :
    Operator.compareWithin h (fuel + 1) v w = some (Operator.compareScalars h v w) := by
  cases v with
  | ref cell => exact absurd rfl (plain cell)
  | composite id =>
    cases w with
    | ref cell => exact absurd rfl (plain' cell)
    | composite other => rcases scalar with eq | eq <;> cases eq
    | _ => rfl
  | _ =>
    cases w with
    | ref cell => exact absurd rfl (plain' cell)
    | _ => rfl

mutual

/-- Values compare like their trees: where a composite is found equal because it is
the same, the trees are equal as well. -/
theorem Holds.compareWithin_eq (numbers : h.NaNFree) : ∀ {t u : Tree} {v w : Value} {fuel : Nat},
    h.Holds t v → h.Holds u w → t.height < fuel →
      Operator.compareWithin h fuel v w = some (t.compare u)
  | .leaf a scalar, u, v, w, fuel + 1, left, right, _ => by
    have plain := left.ne_ref
    obtain rfl : v = a := left
    rw [compareWithin_of_scalar plain right.ne_ref (Or.inl scalar), Tree.compare]
    cases u with
    | leaf b scalar' =>
      obtain rfl : w = b := right
      exact congrArg some (compareScalars_of_scalar h .empty scalar scalar')
    | node d others =>
      obtain ⟨id, c, rfl, -⟩ := right
      exact congrArg some (compareScalars_composite h scalar id).1
  | .node c fields, .leaf b scalar, v, w, fuel + 1, left, right, _ => by
    have plain := right.ne_ref
    obtain rfl : w = b := right
    rw [compareWithin_of_scalar left.ne_ref plain (Or.inr scalar), Tree.compare]
    obtain ⟨id, c, rfl, -⟩ := left
    exact congrArg some (compareScalars_composite h scalar id).2
  | .node c fields, .node d others, v, w, fuel + 1, left, right, enough => by
    have whole := left
    have whole' := right
    obtain ⟨i, one, rfl, found, class1, each⟩ := left
    obtain ⟨j, two, rfl, found', class2, each'⟩ := right
    rw [Operator.compareWithin]
    by_cases same : i = j
    · subst same
      rw [if_pos rfl, ← whole.unique whole', whole.compare_self numbers nofun]
    · rw [Tree.height] at enough
      have length : fields.length = one.fields.size := each.length
      have length' : others.length = two.fields.size := each'.length
      have below := each.compareFields_eq numbers each' (by omega : Tree.heightEach fields < fuel)
      rw [if_neg same, found, found', Tree.compare, ← class1, ← class2, length, length']
      dsimp only
      rw [below, apply_ite some, apply_ite some]

/-- Fields compare like their trees. -/
theorem HoldsEach.compareFields_eq (numbers : h.NaNFree) : ∀ {ts us : List (String × Tree)}
    {entries others : List (String × Value)} {fuel : Nat}, h.HoldsEach ts entries →
      h.HoldsEach us others → Tree.heightEach ts < fuel →
      Operator.compareFields (Operator.compareWithin h fuel) entries others
        = some (Tree.compareEach ts us)
  | [], us, entries, others, fuel, left, right, _ => by
    obtain rfl : entries = [] := left
    rfl
  | (j, t) :: ts, [], entries, others, fuel, left, right, _ => by
    obtain ⟨v, rest, rfl, -⟩ := left
    obtain rfl : others = [] := right
    rfl
  | (j, t) :: ts, (k, u) :: us, entries, others, fuel, left, right, enough => by
    obtain ⟨v, rest, rfl, first, behind⟩ := left
    obtain ⟨w, rest', rfl, first', behind'⟩ := right
    rw [Tree.heightEach] at enough
    have one := first.compareWithin_eq numbers first' (by omega : t.height < fuel)
    have all := behind.compareFields_eq numbers behind' (by omega : Tree.heightEach ts < fuel)
    rw [Operator.compareFields, one, all, Tree.compareEach]
    by_cases same : j = k
    · rw [if_pos same, if_pos same]
      cases t.compare u with
      | none => rfl
      | some order => cases order <;> rfl
    · rw [if_neg same, if_neg same]

end

/-- Values compare like their trees. -/
theorem Holds.compare?_eq (numbers : h.NaNFree) (left : h.Holds t v) (right : h.Holds u w) :
    Operator.compare? h v w = some (t.compare u) := by
  have low := left.height_le
  have square : h.size + 1 ≤ (h.size + 1) * (h.size + 1) := Nat.le_mul_self _
  refine left.compareWithin_eq numbers right ?_
  rw [size] at square ⊢
  omega

/-- Values compare like their trees. -/
theorem Holds.compare_eq (numbers : h.NaNFree) (left : h.Holds t v) (right : h.Holds u w) :
    Operator.compare h v w = t.compare u := by
  rw [Operator.compare, left.compare?_eq numbers right]
  rfl

end Heap

end OverloadMachine
