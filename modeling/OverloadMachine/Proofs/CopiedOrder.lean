import OverloadMachine.Proofs.LooseOrder
import OverloadMachine.Proofs.Mirrors

/-!
# The loose order of copies

A composite and a copy of it have the same fields, so whatever they are compared with goes
through the same fields in the same way. Only at one of the two themselves the ways part: a
composite is equal to itself without a look at its fields, while with its copy it is compared
field by field, each field with itself. Such a comparison of a value with itself fails only at
a float that is no number. Hence a copy is told apart from its original just by comparing one
of them with a value that leads to one of them, and only if a field leads to such a float.
-/

namespace OverloadMachine

namespace Heap

/-! ## Where cells lead -/

/-- Cells looked through one after another, a value leads to one that is no cell. -/
inductive LeadsTo (h : Heap) : Value → Value → Prop where
  | here {v : Value} (plain : v.Plain) : LeadsTo h v v
  | cell {id : CellId} {v : Value} (content : LeadsTo h (h.content id) v) : LeadsTo h (.ref id) v

variable {h : Heap} {v w u : Value}

theorem LeadsTo.plain (leads : h.LeadsTo v w) : w.Plain := by
  induction leads with
  | here plain => exact plain
  | cell _ ih => exact ih

/-- A value that is no cell leads to itself only. -/
theorem LeadsTo.eq_of_plain (leads : h.LeadsTo v w) (plain : v.Plain) : w = v := by
  cases leads with
  | here _ => rfl
  | cell _ => exact absurd rfl (plain _)

/-- A value leads to one value only. -/
theorem LeadsTo.unique (first : h.LeadsTo v w) (second : h.LeadsTo v u) : w = u := by
  induction first with
  | here plain => exact (second.eq_of_plain plain).symm
  | cell _ ih =>
    cases second with
    | here plain => exact absurd rfl (plain _)
    | cell content => exact ih content

/-- A grounded value leads to a grounded one. -/
theorem Grounded.exists_leadsTo (grounded : h.Grounded v) :
    ∃ w, h.LeadsTo v w ∧ h.Grounded w := by
  induction grounded with
  | @scalar v scalar => exact ⟨v, .here (Value.plain_of_scalar scalar), .scalar scalar⟩
  | @handle v node count names live below ih =>
    cases v with
    | ref id =>
      cases names
      obtain ⟨w, leads, grounded⟩ := ih _ (List.mem_singleton.mpr rfl)
      exact ⟨w, .cell leads, grounded⟩
    | composite id => exact ⟨_, .here (Value.plain_composite id), .handle names live below⟩
    | _ => cases names

/-- A value that leads to a grounded value other than null is grounded: the cells on the way are
there. -/
theorem LeadsTo.grounded (leads : h.LeadsTo v w) (something : w ≠ .null)
    (grounded : h.Grounded w) : h.Grounded v := by
  induction leads with
  | here _ => exact grounded
  | @cell id w content ih =>
    cases found : h.cell? id with
    | none =>
      rw [Heap.content, found] at content
      exact absurd (content.eq_of_plain (Value.plain_of_scalar rfl)) something
    | some c =>
      refine .cell found ?_
      rw [Heap.content, found] at ih
      exact ih something grounded

/-- A value compares like the one it leads to. -/
theorem LeadsTo.compare?_eq (leads : h.LeadsTo v w) (left : h.Grounded v) (right : h.Grounded u) :
    Operator.compare? h v u = Operator.compare? h w u := by
  induction leads with
  | here _ => rfl
  | @cell id w _ ih =>
    rw [left.compare?_eq right]
    exact ih left.content

theorem LeadsTo.compare?_eq_right (leads : h.LeadsTo v w) (left : h.Grounded v)
    (right : h.Grounded u) : Operator.compare? h u v = Operator.compare? h u w := by
  rw [Operator.compare?_swap h v u, leads.compare?_eq left right, ← Operator.compare?_swap]

/-! ## Comparison of a value with itself -/

/-- Fields are equal to themselves if each of their values is. -/
theorem compareFields_self_iff {below : Value → Value → Option (Option Ordering)}
    {entries : List (String × Value)} :
    Operator.compareFields below entries entries = some (some .eq)
      ↔ ∀ v ∈ entries.map (·.2), below v v = some (some .eq) := by
  induction entries with
  | nil => simp [Operator.compareFields]
  | cons e rest ih =>
    rw [List.map_cons, List.forall_mem_cons, ← ih, Operator.compareFields, if_pos rfl]
    rcases below e.2 e.2 with _ | _ | (_ | _ | _) <;> simp

/-- A value that is no cell is equal to itself unless it is a float that is no number. -/
theorem compare_self_iff_of_plain (plain : v.Plain) :
    Operator.compare h v v = some .eq ↔ ∀ x, v = .float x → x.isNaN = false := by
  constructor
  · rintro equal x rfl
    have floats : Operator.compare? h (.float x) (.float x) = some (compareFloat x x) :=
      Grounded.compare?_eq (.scalar rfl) (.scalar rfl)
    cases number : x.isNaN with
    | false => rfl
    | true =>
      rw [Operator.compare_eq_some_iff, floats, compareFloat_of_isNaN number] at equal
      cases equal
  · intro number
    exact Operator.compare_of_identical plain (Operator.identical_self number)

/-- A grounded value is equal to itself unless it leads to a float that is no number. -/
theorem Grounded.compare_self_iff (grounded : h.Grounded v) : Operator.compare h v v = some .eq
    ↔ ∀ x, h.LeadsTo v (.float x) → x.isNaN = false := by
  obtain ⟨w, leads, grounded'⟩ := grounded.exists_leadsTo
  rw [Operator.compare_eq_some_iff, leads.compare?_eq grounded grounded,
    leads.compare?_eq_right grounded grounded', ← Operator.compare_eq_some_iff,
    compare_self_iff_of_plain leads.plain]
  constructor
  · intro number x leads'
    exact number x (leads.unique leads')
  · rintro number x rfl
    exact number x leads

/-! ## A composite and its copy -/

/-- Programs do not tell two values apart by comparing them with a third one, on either side. -/
structure Alike (h : Heap) (v w u : Value) : Prop where
  left : Operator.compare? h v u = Operator.compare? h w u
  right : Operator.compare? h u v = Operator.compare? h u w
  operators : ∀ op, op ≠ .identical → op ≠ .notIdentical →
    Operator.comparison h op v u = Operator.comparison h op w u
      ∧ Operator.comparison h op u v = Operator.comparison h op u w

/-- The order on one side decides. -/
theorem alike_iff : h.Alike v w u ↔ Operator.compare? h v u = Operator.compare? h w u := by
  refine ⟨Alike.left, fun left => ?_⟩
  have right : Operator.compare? h u v = Operator.compare? h u w := by
    rw [Operator.compare?_swap h v u, Operator.compare?_swap h w u, left]
  have order : Operator.compare h v u = Operator.compare h w u := congrArg Option.join left
  have back : Operator.compare h u v = Operator.compare h u w := congrArg Option.join right
  refine ⟨left, right, fun op loose loose' => ?_⟩
  rw [Operator.comparison_eq_ofOrder h loose loose' v u false,
    Operator.comparison_eq_ofOrder h loose loose' u v false, order, back]
  rw [Operator.comparison_eq_ofOrder h loose loose' w u false,
    Operator.comparison_eq_ofOrder h loose loose' u w false]
  exact ⟨rfl, rfl⟩

section Copies

variable {i j : CompositeId} {c d : Composite}

/-- Composites with the same fields compare alike with a value that leads to neither. -/
theorem compareWithin_copy (one : h.composite? i = some c) (other : h.composite? j = some d)
    (classes : c.className = d.className) (fields : c.fields = d.fields)
    (apart : ¬h.LeadsTo u (.composite i)) (apart' : ¬h.LeadsTo u (.composite j)) (fuel : Nat) :
    Operator.compareWithin h fuel (.composite i) u
      = Operator.compareWithin h fuel (.composite j) u := by
  induction fuel generalizing u with
  | zero => rfl
  | succ fuel ih =>
    cases u with
    | ref cell => exact ih (fun leads => apart (.cell leads)) fun leads => apart' (.cell leads)
    | composite k =>
      have ne : i ≠ k := by
        rintro rfl
        exact apart (.here (Value.plain_composite i))
      have ne' : j ≠ k := by
        rintro rfl
        exact apart' (.here (Value.plain_composite j))
      rw [Operator.compareWithin, Operator.compareWithin, if_neg ne, if_neg ne', one, other]
      cases h.composite? k with
      | none => rfl
      | some e =>
        dsimp only
        rw [classes, fields]
    | _ =>
      refine congrArg some
        ((compareScalars_composite h ?_ i).2.trans (compareScalars_composite h ?_ j).2.symm)
      · rfl
      · rfl

/-- A composite and another one with the same fields are equal unless a field leads to a float
that is no number. -/
theorem compare_copy_iff (one : h.composite? i = some c) (other : h.composite? j = some d)
    (classes : c.className = d.className) (fields : c.fields = d.fields) (ne : i ≠ j)
    (left : h.Grounded (.composite i)) (right : h.Grounded (.composite j)) :
    Operator.compare h (.composite i) (.composite j) = some .eq
      ↔ ∀ w ∈ c.fields.values, ∀ x, h.LeadsTo w (.float x) → x.isNaN = false := by
  rw [Operator.compare_eq_some_iff, left.compare?_eq right, compareStep, if_neg ne, one, other]
  dsimp only
  rw [if_neg (not_not_intro classes), ← fields, if_neg (not_not_intro rfl), compareFields_self_iff]
  refine forall₂_congr fun w mem => ?_
  rw [← Operator.compare_eq_some_iff]
  exact (left.fields one w mem).compare_self_iff

/-- Composites with the same fields are told apart only by a value that leads to one of them, and
only if a field leads to a float that is no number. -/
theorem alike_copy_iff (one : h.composite? i = some c) (other : h.composite? j = some d)
    (classes : c.className = d.className) (fields : c.fields = d.fields) (ne : i ≠ j)
    (left : h.Grounded (.composite i)) (right : h.Grounded (.composite j)) (u : Value) :
    h.Alike (.composite j) (.composite i) u
      ↔ (h.LeadsTo u (.composite i) ∨ h.LeadsTo u (.composite j) →
        ∀ w ∈ c.fields.values, ∀ x, h.LeadsTo w (.float x) → x.isNaN = false) := by
  have same : ∀ k : CompositeId,
      Operator.compare? h (.composite k) (.composite k) = some (some .eq) :=
    fun k => Operator.compare_eq_some_iff.mp
      ((compare_self_iff_of_plain (Value.plain_composite k)).mpr fun x float => by cases float)
  have something : ∀ k : CompositeId, Value.composite k ≠ .null := fun k none => by cases none
  have equal := compare_copy_iff one other classes fields ne left right
  rw [Operator.compare_eq_some_iff] at equal
  have comm : Operator.compare? h (.composite j) (.composite i) = some (some .eq)
      ↔ Operator.compare? h (.composite i) (.composite j) = some (some .eq) := by
    rw [← Operator.compare_eq_some_iff, Operator.compare_eq_comm, Operator.compare_eq_some_iff]
  rw [alike_iff]
  -- At one of the two themselves the order is that of the two, and at any other value the same.
  by_cases leads : h.LeadsTo u (.composite i)
  · have grounded := leads.grounded (something i) left
    rw [leads.compare?_eq_right grounded right, leads.compare?_eq_right grounded left, same i,
      comm, equal]
    exact ⟨fun numbers _ => numbers, fun numbers => numbers (Or.inl leads)⟩
  by_cases leads' : h.LeadsTo u (.composite j)
  · have grounded := leads'.grounded (something j) right
    rw [leads'.compare?_eq_right grounded right, leads'.compare?_eq_right grounded left, same j,
      eq_comm, equal]
    exact ⟨fun numbers _ => numbers, fun numbers => numbers (Or.inr leads')⟩
  · have alike : Operator.compare? h (.composite j) u = Operator.compare? h (.composite i) u :=
      (compareWithin_copy one other classes fields leads leads' _).symm
    exact ⟨fun _ leading => (leading.elim leads leads').elim, fun _ => alike⟩

end Copies

/-! ## Duplicates -/

/-- A duplicate is a new composite with the class and the fields of the original, which is left
as it was but for its handles. -/
theorem composite?_duplicate {k : Heap} {id copy : CompositeId} {c : Composite}
    (found : h.composite? id = some c) (made : h.duplicate c = (copy, k)) :
    id ≠ copy ∧ k.composite? copy = some ⟨c.className, c.fields, false, 1⟩
      ∧ ∃ count, k.composite? id = some { c with count := count } := by
  have kept := (Grows.duplicate h c).composite found
  obtain ⟨count, there⟩ := (Grows.acquireAll h c.fields.values).composite found
  have fresh := ne_next_of_live (handles?_of_composite? there)
  cases made
  refine ⟨fun eq => fresh (congrArg Node.composite eq.symm), ?_, kept⟩
  exact (composite?_putComposite _ _ _ _).trans (if_pos rfl)

/-- A duplicate and its original are compared alike with every value, except with one that leads
to either of them when a field leads to a float that is no number. -/
theorem duplicate_is_compared_alike_iff {k : Heap} {id copy : CompositeId} {c : Composite}
    (found : h.composite? id = some c) (made : h.duplicate c = (copy, k))
    (grounded : h.Grounded (.composite id)) (u : Value) :
    k.Alike (.composite copy) (.composite id) u
      ↔ (k.LeadsTo u (.composite id) ∨ k.LeadsTo u (.composite copy) →
        ∀ w ∈ c.fields.values, ∀ x, k.LeadsTo w (.float x) → x.isNaN = false) := by
  obtain ⟨ne, new, count, old⟩ := composite?_duplicate found made
  have kept : k = (h.duplicate c).2 := (congrArg Prod.snd made).symm
  have left : k.Grounded (.composite id) := by
    rw [kept]
    exact grounded.extend (fun node count live => ⟨_, handles?_duplicate live c⟩)
      fun node count live => contents_duplicate live c
  have right : k.Grounded (.composite copy) := .composite new fun w mem => left.fields old w mem
  exact alike_copy_iff old new rfl rfl ne left right u

/-- A composite whose only field is a float that is no number. -/
def lost : Composite :=
  ⟨"Reading", OrderedMap.empty.insert "value" (.float (Float.ofBits 0x7ff8000000000000)), false, 1⟩

/-- A composite whose only field is the lost reading, so that is one level further down. -/
def series : Composite := ⟨"Series", OrderedMap.empty.insert "first" (.composite ⟨0⟩), false, 1⟩

/-- The lost reading in a series. -/
def readings : Heap := (Heap.empty.putComposite ⟨0⟩ lost).putComposite ⟨1⟩ series

/-- A reading is equal to itself, although it is lost, and not to its duplicate. -/
theorem duplicate_of_lost_is_told_apart :
    readings.composite? ⟨0⟩ = some lost ∧ (readings.duplicate lost).1 = ⟨2⟩
    ∧ Operator.comparison (readings.duplicate lost).2 .equal (.composite ⟨0⟩) (.composite ⟨0⟩)
      = .bool true
    ∧ Operator.comparison (readings.duplicate lost).2 .equal (.composite ⟨2⟩) (.composite ⟨0⟩)
      = .bool false := by
  refine ⟨rfl, rfl, rfl, ?_⟩
  rfl

/-- The series is compared alike with its duplicate, since what it holds stays the same
composite. -/
theorem duplicate_is_compared_alike_series :
    readings.composite? ⟨1⟩ = some series ∧ readings.Grounded (.composite ⟨1⟩)
    ∧ (readings.duplicate series).2.Alike (.composite ⟨2⟩) (.composite ⟨1⟩) (.composite ⟨1⟩) := by
  have reading : readings.Grounded (.composite ⟨0⟩) := by
    refine .composite rfl ?_
    exact List.forall_mem_singleton.mpr (.scalar rfl)
  have grounded : readings.Grounded (.composite ⟨1⟩) := by
    refine .composite rfl ?_
    exact List.forall_mem_singleton.mpr reading
  have found : readings.composite? ⟨1⟩ = some series := rfl
  refine ⟨found, grounded, (duplicate_is_compared_alike_iff found rfl grounded _).mpr fun _ => ?_⟩
  refine List.forall_mem_singleton.mpr fun x leads => ?_
  cases leads.eq_of_plain (Value.plain_composite _)

end Heap

end OverloadMachine
