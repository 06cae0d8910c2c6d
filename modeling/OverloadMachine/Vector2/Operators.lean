import OverloadMachine.Handler.Basic
import OverloadMachine.Vector2.Basic

/-!
# Operators of vectors

Handlers that give the operators a meaning on vectors. They decline every other
operand before they change anything, so a program without vectors runs as if
they were not there. An update changes the vector's own composite, after its
holder is separated from the others.
-/

namespace OverloadMachine.Vector2

/-- The vector as a new composite. -/
def draft (v : Vector2) : Draft :=
  .new className (v.entries.map fun e => (e.1, .scalar e.2))

/-- Go on with what was found in the operands, or decline. -/
def orDecline {α : Type} (next : α → Handler) : Except Unsupported α → Handler
  | .ok a => next a
  | .error reason => .answer (.unsupported reason)

/-- Set the result and answer that the instruction is handled. -/
def yield (result : Draft) : Handler :=
  .setResult result (Handler.orViolated fun _ => .answer .handled)

/-- Value that the second operand shows. -/
def second (view : CallView) : Except Unsupported Value :=
  match view.op2 with
  | some seen => .ok seen.value
  | none => .error ⟨"second operand", "none"⟩

/-- The vectors that the two operands show. -/
def both (view : CallView) : Except Unsupported (Vector2 × Vector2) := do
  let a ← ofValue view.heap view.op1.value
  let b ← ofValue view.heap (← second view)
  return (a, b)

/-- The number that a value is. -/
def factor (v : Value) : Except Unsupported Number :=
  match Number.ofValue? v with
  | some n => .ok n
  | none => .error ⟨"number", v.kind.name⟩

/-- An operator on two vectors. -/
def onVectors (f : Vector2 → Vector2 → Draft) : Handler :=
  .inspect fun view => orDecline (fun (a, b) => yield (f a b)) (both view)

/-- The product of a vector and a number, in either order. -/
def product (view : CallView) : Except Unsupported Vector2 := do
  let lhs := view.op1.value
  let rhs ← second view
  match ofValue view.heap lhs, ofValue view.heap rhs with
  | .ok v, .error _ => return v.scale (← factor rhs)
  | .error _, .ok v => return v.scale (← factor lhs)
  | .ok _, .ok _ => throw ⟨"scalar", "vector"⟩
  | .error reason, .error _ => throw reason

/-- Unary minus and plus, and the products of vectors and numbers. -/
def multiply : Handler :=
  .inspect fun view =>
    match view.sign with
    | some seen =>
      orDecline
        (fun v => match seen.sign with
          | .negate => yield v.negate.draft
          | .plus => yield (.copy .signOperand))
        (ofValue view.heap seen.operand.value)
    | none => orDecline (fun v => yield v.draft) (product view)

/-- Replace the components of the first operand's vector, after its holder is
separated. -/
def replace (v : Vector2) (next : Except Refusal Unit → Handler) : Handler :=
  .separate (Handler.orViolated fun _ =>
    .setFields true (v.entries.map fun e => (e.1, .scalar e.2)) next)

/-- Replace the components of the first operand's vector; a result is another
handle of the same composite. -/
def updateInPlace (v : Vector2) : Handler :=
  v.replace (Handler.orRefused fun _ =>
    .inspect fun view =>
      if view.hasResult then yield (.copy (.operand .first)) else .answer .handled)

/-- Compound assignment with a vector. -/
def assignVectors (f : Vector2 → Vector2 → Vector2) : Handler :=
  .inspect fun view => orDecline (fun (a, b) => updateInPlace (f a b)) (both view)

/-- Compound assignment of a product. -/
def assignProduct : Handler :=
  .inspect fun view =>
    orDecline (fun v => updateInPlace v) do
      let a ← ofValue view.heap view.op1.value
      let k ← factor (← second view)
      return a.scale k

/-- Distance of a step. -/
def stepDelta : StepDirection → Int64
  | .up => 1
  | .down => -1

/-- Step every component; the result is the updated vector. -/
def stepBefore (direction : StepDirection) : Handler :=
  .inspect fun view =>
    orDecline (fun v => updateInPlace (v.step (stepDelta direction)))
      (ofValue view.heap view.op1.value)

/-- Step every component; the result is a new vector with the components before. -/
def stepAfter (direction : StepDirection) : Handler :=
  .inspect fun view =>
    orDecline
      (fun v => (v.step (stepDelta direction)).replace fun
        | .error (.violated violation) => .answer (.violated violation)
        | _ => yield v.draft)
      (ofValue view.heap view.op1.value)

/-- The three-way comparison of two vectors by length; what cannot be compared
comes last. -/
def spaceship (a b : Vector2) : Value :=
  match a.compareMagnitude b with
  | some .lt => .int (-1)
  | some .eq => .int 0
  | _ => .int 1

/-- The operators with a meaning on vectors, and their handlers. -/
def operators : List (Opcode × Handler) :=
  [(.arithmetic .add, onVectors fun a b => (a.add b).draft),
    (.arithmetic .sub, onVectors fun a b => (a.sub b).draft),
    (.arithmetic .mul, multiply),
    (.comparison .equal, onVectors fun a b => .scalar (.bool (a.same b))),
    (.comparison .notEqual, onVectors fun a b => .scalar (.bool (!a.same b))),
    (.comparison .spaceship, onVectors fun a b => .scalar (spaceship a b)),
    (.compound .add, assignVectors add),
    (.compound .sub, assignVectors sub),
    (.compound .mul, assignProduct),
    (.step .pre .up, stepBefore .up),
    (.step .pre .down, stepBefore .down),
    (.step .post .up, stepAfter .up),
    (.step .post .down, stepAfter .down)]

end OverloadMachine.Vector2
