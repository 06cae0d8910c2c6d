import OverloadMachine.Proofs.IntegerOperators
import OverloadMachine.Proofs.UnitProducts
import OverloadMachine.Proofs.VectorArithmetic

/-!
# Literal ones as factors

A product of a vector with a literal one or minus one is taken for a unary plus or minus if the
literal stands on the side of constants. The sign of the literal is all that is left of it then. The
components are those of the product with any other factor of that value, but for one case: integer
components stay integers even if the literal is a float.
-/

namespace OverloadMachine

/-! ## Numbers with a sign -/

namespace Number

variable {convert : Int64 → Float} {k : Number} {sign : Sign}

/-- Whether a number is a float. -/
def isFloat : Number → Bool
  | int _ => false
  | float _ => true

-- Nothing can be proved about the built-in way to turn integers into floats, so that it is a
-- parameter here.
/-- Product of two numbers, with a way to turn integers into floats. -/
def mulWith (convert : Int64 → Float) : Number → Number → Number
  | int a, int b =>
    match fitInt64 (a.toInt * b.toInt) with
    | some r => int r
    | none => float (convert a * convert b)
  | int a, float y => float (convert a * y)
  | float x, int b => float (x * convert b)
  | float x, float y => float (x * y)

theorem mulWith_toFloat (a b : Number) : a.mulWith Int64.toFloat b = a.mul b := by
  cases a <;> cases b <;> rfl

/-- A number behind a unary minus or plus. -/
def signedWith (convert : Int64 → Float) (n : Number) : Sign → Number
  | .negate => n.mulWith convert (.int (-1))
  | .plus => n

/-- The literals that stand for a sign are one and minus one, as integers and as floats. -/
theorem eq_of_ofFactor? (is : Sign.ofFactor? k.toValue = some sign) :
    k = .int (if sign = .negate then -1 else 1)
      ∨ k = .float (if sign = .negate then -1.0 else 1.0) := by
  cases k with
  | int i =>
    refine .inl (congrArg int ?_)
    rw [toValue, Sign.ofFactor?] at is
    split at is
    · rename_i minus
      cases is
      exact minus
    · split at is
      · rename_i one
        cases is
        exact one
      · cases is
  | float x =>
    refine .inr (congrArg float ?_)
    rw [toValue, Sign.ofFactor?] at is
    split at is
    · rename_i minus
      cases is
      exact eq_of_beqFloat minus rfl
    · split at is
      · rename_i one
        cases is
        exact eq_of_beqFloat one rfl
      · cases is

/-- A sign does to a number what the product with its literal does, unless the literal is a float
and the number stays an integer. -/
theorem signedWith_eq_mulWith_iff (is : Sign.ofFactor? k.toValue = some sign)
    (one : convert 1 = 1.0) (minus : convert (-1) = -1.0) (n : Number) :
    n.signedWith convert sign = n.mulWith convert k
      ↔ (k.isFloat = true → (n.signedWith convert sign).isFloat = true) := by
  have fits : ∀ i : Int64, fitInt64 i.toInt = some i := fun i => fitInt64_eq_some_iff.mpr rfl
  rcases eq_of_ofFactor? is with rfl | rfl
  · refine iff_of_true ?_ nofun
    cases sign with
    | negate => rfl
    | plus =>
      cases n with
      | int i => simp [signedWith, mulWith, fits]
      | float x => simp [signedWith, mulWith, one, mulFloat_one]
  · cases n with
    | float x =>
      refine iff_of_true ?_ fun _ => by cases sign <;> rfl
      cases sign with
      | negate => simp [signedWith, mulWith, minus]
      | plus => simp [signedWith, mulWith, mulFloat_one]
    | int i =>
      cases sign with
      | plus => exact iff_of_false nofun fun all => Bool.false_ne_true (all rfl)
      | negate =>
        simp only [signedWith, mulWith, minus, reduceIte]
        -- Of the integers, only the least one has no negative.
        cases fitInt64 (i.toInt * (-1 : Int64).toInt) with
        | some r => exact iff_of_false nofun fun all => Bool.false_ne_true (all rfl)
        | none => exact iff_of_true rfl fun _ => rfl

end Number

namespace Vector2

/-- A vector behind a unary minus or plus. -/
def signedWith (convert : Int64 → Float) (a : Vector2) (sign : Sign) : Vector2 :=
  ⟨a.x.signedWith convert sign, a.y.signedWith convert sign⟩

/-- Product of the components with a number, with a way to turn integers into floats. -/
def scaleWith (convert : Int64 → Float) (a : Vector2) (k : Number) : Vector2 :=
  ⟨a.x.mulWith convert k, a.y.mulWith convert k⟩

theorem scaleWith_toFloat (a : Vector2) (k : Number) : a.scaleWith Int64.toFloat k = a.scale k := by
  rw [scaleWith, a.x.mulWith_toFloat, a.y.mulWith_toFloat, scale, Component.mul_eq,
    Component.mul_eq]

theorem signedWith_toFloat_negate (a : Vector2) : a.signedWith Int64.toFloat .negate = a.negate :=
  a.scaleWith_toFloat (.int (-1))

variable {convert : Int64 → Float} {k : Number} {sign : Sign}

/-- The vector behind a sign is the one with the literal as a factor exactly if the literal is an
integer or all components come out as floats. -/
theorem signedWith_eq_scaleWith_iff (is : Sign.ofFactor? k.toValue = some sign)
    (one : convert 1 = 1.0) (minus : convert (-1) = -1.0) (a : Vector2) :
    a.signedWith convert sign = a.scaleWith convert k ↔ (k.isFloat = true →
      (a.signedWith convert sign).x.isFloat = true
        ∧ (a.signedWith convert sign).y.isFloat = true) := by
  rw [signedWith, scaleWith, Vector2.mk.injEq, Number.signedWith_eq_mulWith_iff is one minus,
    Number.signedWith_eq_mulWith_iff is one minus]
  exact forall_and.symm

end Vector2

/-! ## Calls -/

namespace Vector2

variable {f : Function} {pc : Nat} {ctx : CallContext} {outside : Node → Nat} {s : Store}
  {sign : Sign} {a : Vector2}

/-- A product that is taken for a sign is handled as a sign of the vector on the side of values. -/
theorem run_multiply_of_sign (call : ctx.Of f pc) (fits : s.frame.Fits f)
    (is : ctx.order.sign? ctx.constants ctx.instr = some sign)
    (vector : s.heap.IsVector (s.shown f.constants (ctx.order.valueSide.select ctx.instr)) a) :
    multiply.run ctx ⟨s, none, none⟩ = (signed sign a).run ctx ⟨s, none, none⟩ := by
  have seen : (ctx.view s).sign = some ⟨sign, ctx.order.valueSide,
      ctx.see s (ctx.order.valueSide.select ctx.instr)⟩ := by
    rw [CallContext.view, is]
    rfl
  have found : ofValue (ctx.view s).heap (ctx.see s (ctx.order.valueSide.select ctx.instr)).value
      = .ok a := by
    rw [call.see_eq (call.within_select _) fits]
    exact ofValue_eq_ok.mpr vector
  rw [multiply, Handler.run, seen]
  dsimp only
  rw [found]
  cases sign <;> rfl

/-- The result of a sign is a new vector for a minus, and another handle of the vector for a
plus. -/
theorem exists_signed (call : ctx.Of f pc) (given : ctx.hasResult = true)
    (acc : s.Accounted f outside []) (is : ctx.order.sign? ctx.constants ctx.instr = some sign)
    (vector : s.heap.IsVector (s.shown f.constants (ctx.order.valueSide.select ctx.instr)) a) :
    ∃ t, Effect.settle f.constants ctx.instr ((signed sign a).run ctx ⟨s, none, none⟩)
        = (.ok .handled, t)
      ∧ (ctx.instr.result.isUnused = false → t.heap.IsVector
        (t.shown f.constants ctx.instr.result) (a.signedWith Int64.toFloat sign)) := by
  cases sign with
  | negate =>
    obtain ⟨t, settles, yields⟩ := exists_yields call given acc a.negate
    rw [signedWith_toFloat_negate]
    exact ⟨t, settles, yields.isVector⟩
  | plus =>
    obtain ⟨id, c, shows, found, made⟩ := vector
    have copied : (Draft.copy .signOperand).build (ctx.view s) s.heap
        = (.composite id, s.heap.acquire (.composite id)) := by
      have seen : (ctx.view s).find .signOperand = .composite id := by
        rw [CallView.find, CallContext.view, is, ← shows,
          ← call.see_eq (call.within_select _) acc.fits]
        rfl
      rw [Draft.build, seen]
    obtain ⟨t, settles, -, sheds, delivers⟩ := exists_delivered call given acc copied
    refine ⟨t, settles, fun used => ?_⟩
    obtain ⟨shows, -, d, lasts, -⟩ := delivers used
    obtain ⟨count, held⟩ := (Heap.Grows.acquire s.heap (.composite id)).composite found
    obtain ⟨left, there⟩ := sheds.retains held (by rw [lasts]; rfl)
    exact ⟨id, _, shows, there, made.className, made.x, made.y⟩

/-- A product of a vector and a number that stands for no sign yields the vector with the number as
a factor, on whichever sides they stand. -/
theorem exists_scaled (call : ctx.Of f pc) (given : ctx.hasResult = true)
    (takes : ctx.category.hasSecondOperand = true) (acc : s.Accounted f outside [])
    (unsigned : ctx.order.sign? ctx.constants ctx.instr = none) {side : Side} {k : Number}
    (vector : s.heap.IsVector (s.shown f.constants (side.select ctx.instr)) a)
    (number : s.shown f.constants (side.other.select ctx.instr) = k.toValue) :
    ∃ t, Effect.settle f.constants ctx.instr (multiply.run ctx ⟨s, none, none⟩)
        = (.ok .handled, t)
      ∧ (ctx.instr.result.isUnused = false → t.heap.IsVector
        (t.shown f.constants ctx.instr.result) (a.scale k)) := by
  have sides : ArithmeticOp.mul.Joins s.heap (s.shown f.constants ctx.instr.op1)
        (s.shown f.constants ctx.instr.op2)
      ∧ ArithmeticOp.mul.Makes s.heap (s.shown f.constants ctx.instr.op1)
        (s.shown f.constants ctx.instr.op2) (a.scale k) := by
    cases side with
    | first =>
      have right : s.shown f.constants ctx.instr.op2 = k.toValue := number
      rw [right]
      exact ⟨.inl ⟨⟨a, vector⟩, k, rfl⟩, ArithmeticOp.makes_scale vector⟩
    | second =>
      have left : s.shown f.constants ctx.instr.op1 = k.toValue := number
      rw [left]
      exact ⟨.inr ⟨⟨k, rfl⟩, a, vector⟩, ArithmeticOp.makes_scale_left vector⟩
  rw [run_multiply_of_unsigned unsigned]
  rcases product_cases call acc.fits takes with ⟨w, -, makes, product⟩ | ⟨no, -⟩
  · obtain rfl : w = a.scale k := makes.unique sides.2
    obtain ⟨t, settles, yields⟩ := exists_yields call given acc (a.scale k)
    rw [product]
    exact ⟨t, settles, yields.isVector⟩
  · exact absurd sides.1 no

end Vector2

/-- A verified function stands at an instruction, in a store in which every handle is accounted
for. -/
structure Progress.StandsAt (p : Progress) (f : Function) (instr : Instruction) : Prop where
  verified : f.verify = .ok ()
  found : f.code[p.pc]? = some instr
  accounted : ∃ outside, p.store.Accounted f outside []

/-- A product is a call of a binary operator. -/
theorem Progress.StandsAt.call {p : Progress} {f : Function} {instr : Instruction}
    (stands : p.StandsAt f instr) (opcode : instr.opcode = .arithmetic .mul)
    (order : NegationOrder) : CallContext.Of f p.pc ⟨instr, .binary, f.constants, order⟩ :=
  ⟨(Function.verified_of_verify stands.verified).checked stands.found, by rw [opcode]; rfl, rfl⟩

namespace Machine

variable {m : Machine} {f g : Function} {instr other : Instruction} {p q : Progress} {i : Nat}
  {side : Side} {sign : Sign} {k : Number} {a : Vector2}

/-- A product that the operator of vectors handles. -/
theorem dispatch_product (registered : Vector2.RegisteredIn m.table) (stands : p.StandsAt f instr)
    (opcode : instr.opcode = .arithmetic .mul) {t : Store}
    (handles : Effect.settle f.constants instr (Vector2.multiply.run
      ⟨instr, .binary, f.constants, m.options.negationOrder⟩ ⟨p.store, none, none⟩)
        = (.ok .handled, t)) :
    m.dispatch f instr p = (.ok .next, t,
      { p.statistics with handled := p.statistics.handled.add instr.opcode }) := by
  have among : (Opcode.arithmetic .mul, Vector2.multiply) ∈ Vector2.operators := by
    simp [Vector2.operators]
  have look : m.table.lookup instr.opcode = some Vector2.multiply := by
    rw [opcode]
    exact registered _ among
  obtain ⟨outside, acc⟩ := stands.accounted
  exact dispatch_of_handled (Function.verified_of_verify stands.verified) stands.found acc.fits look
    (by rw [opcode]; rfl) handles

/-- A product of a vector with a literal one or minus one on the side of constants is handled as a
sign, and the product with the same number in any other operand by scaling. The results show the
vector behind the sign and the vector with the factor. These are the same, in the types and values
of their components, exactly if the literal is an integer or all components behind the sign are
floats. Of how integers are turned into floats, only what one and minus one become matters. -/
theorem recognised_factor_scales_alike_iff (registered : Vector2.RegisteredIn m.table)
    (stands : p.StandsAt f instr) (opcode : instr.opcode = .arithmetic .mul)
    (literal : m.options.negationOrder.valueSide.other.select instr = .const i)
    (factor : f.constants[i]? = some k.toValue) (is : Sign.ofFactor? k.toValue = some sign)
    (vector : p.store.heap.IsVector
      (p.store.shown f.constants (m.options.negationOrder.valueSide.select instr)) a)
    (stands' : q.StandsAt g other) (opcode' : other.opcode = .arithmetic .mul)
    (unsigned : m.options.negationOrder.sign? g.constants other = none)
    (vector' : q.store.heap.IsVector (q.store.shown g.constants (side.select other)) a)
    (number : q.store.shown g.constants (side.other.select other) = k.toValue) :
    ∃ t u, m.dispatch f instr p = (.ok .next, t,
        { p.statistics with handled := p.statistics.handled.add instr.opcode })
      ∧ m.dispatch g other q = (.ok .next, u,
        { q.statistics with handled := q.statistics.handled.add other.opcode })
      ∧ (instr.result.isUnused = false → t.heap.IsVector (t.shown f.constants instr.result)
        (a.signedWith Int64.toFloat sign))
      ∧ (other.result.isUnused = false → u.heap.IsVector (u.shown g.constants other.result)
        (a.scaleWith Int64.toFloat k))
      ∧ ∀ convert : Int64 → Float, convert 1 = 1.0 → convert (-1) = -1.0 →
        (a.signedWith convert sign = a.scaleWith convert k ↔ (k.isFloat = true →
          (a.signedWith convert sign).x.isFloat = true
            ∧ (a.signedWith convert sign).y.isFloat = true)) := by
  have signed : m.options.negationOrder.sign? f.constants instr = some sign := by
    simp only [NegationOrder.sign?, opcode, literal, factor, reduceIte]
    exact is
  obtain ⟨outside, acc⟩ := stands.accounted
  obtain ⟨outside', acc'⟩ := stands'.accounted
  have call := stands.call opcode m.options.negationOrder
  have call' := stands'.call opcode' m.options.negationOrder
  obtain ⟨t, settles, shows⟩ := Vector2.exists_signed call rfl acc signed vector
  obtain ⟨u, settles', shows'⟩ := Vector2.exists_scaled call' rfl rfl acc' unsigned vector' number
  rw [← Vector2.run_multiply_of_sign call acc.fits signed vector] at settles
  rw [← a.scaleWith_toFloat k] at shows'
  exact ⟨t, u, dispatch_product registered stands opcode settles,
    dispatch_product registered stands' opcode' settles', shows, shows',
    fun _ one minus => a.signedWith_eq_scaleWith_iff is one minus⟩

/-- Multiplies a vector by a literal minus one and by a variable. -/
def mirroring : Function where
  name := "mirroring"
  code := #[
    ⟨.arithmetic .mul, .var 0, .const 0, .temp 0, 0⟩,
    ⟨.arithmetic .mul, .var 0, .var 1, .temp 1, 0⟩,
    ⟨.ret, .temp 1, .unused, .unused, 0⟩]
  constants := #[.float (-1.0)]
  temporaries := 2
  variableNames := #["a", "k"]

/-- A store in which one variable has a vector and another one has a number. -/
def weighed (a : Vector2) (k : Number) : Store where
  heap := (Heap.empty.createWith Vector2.className a.entries).2
  frame := { Frame.ofSizes 2 0 with vars := #[.composite ⟨0⟩, k.toValue] }
  notes := #[]

theorem accounted_weighed (a : Vector2) (k : Number) :
    (weighed a k).Accounted mirroring (fun _ => 0) [] := by
  have one : (weighed a k).heap.Accounts [.composite ⟨0⟩] fun _ => 0 :=
    a.accounts_entries.createWith Vector2.className
  have number : ∀ node : Node, node.usedBy k.toValue = 0 := fun node => by
    cases k <;> cases node <;> rfl
  refine ⟨⟨Nat.le_refl _, Nat.le_refl _⟩, one.congr fun node => ?_, fun node => ?_⟩
  · simp [weighed, Frame.values, Frame.ofSizes, OrderedMap.values, OrderedMap.empty, number]
  · cases node <;> exact Nat.le_refl 0

/-- A vector of floats is the same with a literal minus one and with one in a variable. -/
theorem recognised_factor_scales_alike_iff_mirroring :
    let m := Machine.ofTable .standard Vector2.table
    let a : Vector2 := ⟨.float 1.5, .float 2.0⟩
    let s := weighed a (.float (-1.0))
    let t := (m.dispatch mirroring mirroring.code[0] ⟨s, .zero, 0⟩).2.1
    let u := (m.dispatch mirroring mirroring.code[1] ⟨s, .zero, 1⟩).2.1
    let convert (i : Int64) : Float := .ofModel (.ofInt64 i)
    t.heap.IsVector (t.shown mirroring.constants (.temp 0)) (a.signedWith Int64.toFloat .negate)
      ∧ u.heap.IsVector (u.shown mirroring.constants (.temp 1))
        (a.scaleWith Int64.toFloat (.float (-1.0)))
      ∧ a.signedWith convert .negate = a.scaleWith convert (.float (-1.0)) := by
  intro m a s t u convert
  have vector : s.heap.IsVector (.composite ⟨0⟩) a :=
    ⟨⟨0⟩, _, rfl, rfl, a.isVector_writeInto false 1⟩
  have first : (⟨s, .zero, 0⟩ : Progress).StandsAt mirroring mirroring.code[0] :=
    ⟨rfl, rfl, _, accounted_weighed _ _⟩
  have second : (⟨s, .zero, 1⟩ : Progress).StandsAt mirroring mirroring.code[1] :=
    ⟨rfl, rfl, _, accounted_weighed _ _⟩
  have vector' : s.heap.IsVector
      (s.shown mirroring.constants (Side.first.select mirroring.code[1])) a := vector
  have is : Sign.ofFactor? (Number.float (-1.0)).toValue = some .negate := rfl
  obtain ⟨t', u', ends, ends', signed, scaled, same⟩ := recognised_factor_scales_alike_iff (m := m)
    Vector2.registeredIn_table first rfl rfl rfl is vector second rfl rfl vector' rfl
  have one : t = t' := congrArg (·.2.1) ends
  have other : u = u' := congrArg (·.2.1) ends'
  rw [one, other]
  exact ⟨signed rfl, scaled rfl, (same convert rfl rfl).mpr fun _ => ⟨rfl, rfl⟩⟩

/-- Integers behind the literal stay integers, and with the same number in a variable they become
floats. -/
theorem recognised_factor_keeps_integers :
    let m := Machine.ofTable .standard Vector2.table
    let s := weighed ⟨.int 1, .int 2⟩ (.float (-1.0))
    let t := (m.dispatch mirroring mirroring.code[0] ⟨s, .zero, 0⟩).2.1
    let u := (m.dispatch mirroring mirroring.code[1] ⟨s, .zero, 1⟩).2.1
    mirroring.verify = .ok ()
      ∧ s.shown mirroring.constants (.const 0) = s.shown mirroring.constants (.var 1)
      ∧ (∃ id, t.shown mirroring.constants (.temp 0) = .composite id
        ∧ t.heap.field? id "x" = some (.int (-1)) ∧ t.heap.field? id "y" = some (.int (-2)))
      ∧ ∃ id x y, u.shown mirroring.constants (.temp 1) = .composite id
        ∧ u.heap.field? id "x" = some (.float x) ∧ u.heap.field? id "y" = some (.float y) := by
  intro m s t u
  exact ⟨rfl, rfl, ⟨⟨1⟩, rfl, rfl, rfl⟩, ⟨1⟩, _, _, rfl, rfl, rfl⟩

end Machine

end OverloadMachine
