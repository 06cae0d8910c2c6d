import OverloadMachine.Handler.Basic

/-!
# Scripted handlers

Handlers written down as data: a list of steps that are taken in order until one
of them answers. A script that runs to its end has handled its instruction.
-/

namespace OverloadMachine

namespace Script

/-- An expression over what a call shows. -/
inductive Expr where
  | literal (v : Value)
  /-- The value that an operand shows; null if it is absent. -/
  | operand (side : Side)
  /-- The composite that an operand shows; null if it shows none. -/
  | composite (side : Side)
  /-- A copy of the composite that an operand shows; null if it shows none. -/
  | duplicate (side : Side)
  /-- A field of the composite that an operand shows; null if it is absent. -/
  | field (side : Side) (key : String)
  /-- The operand of the recognised unary operator; null if there is none. -/
  | signOperand
  /-- Sum of two integers, reduced to 64 bits; what is no integer counts as zero. -/
  | sum (a b : Expr)
  /-- The plain texts of some expressions, one behind the other. -/
  | text (parts : List Expr)
  /-- A new composite. -/
  | new (className : String) (fields : List (String × Expr))

/-- A condition on what a call shows. An absent operand meets none. -/
inductive Condition where
  | isKind (side : Side) (kind : String)
  | hasClass (side : Side) (className : String)
  | isIndirect (side : Side)
  | isSign
  | hasResult
  | not (c : Condition)

/-- A step of a script. The steps that try go on after a refusal and note it; the
others pass it on as the answer. -/
inductive Step where
  | observe
  | setResult (e : Expr)
  | trySetResult (e : Expr)
  | write (e : Expr)
  | tryWrite (e : Expr)
  | separate
  | setField (guarded : Bool) (key : String) (e : Expr)
  | setFlag (flag : Bool)
  | when (c : Condition) (steps : List Step)
  | handled
  | decline
  | unsupported
  | violate (count : Nat)

namespace Expr

/-- The integer that an expression counts as in a sum. -/
def toInteger (view : CallView) : Expr → Int64
  | literal v => v.int?.getD 0
  | operand side => (view.find (.operand side)).int?.getD 0
  | field side key => (view.find (.field (.operand side) key)).int?.getD 0
  | signOperand => (view.find .signOperand).int?.getD 0
  | sum a b => a.toInteger view + b.toInteger view
  | composite _ | duplicate _ | text _ | new _ _ => 0

mutual

/-- The plain text of an expression. -/
def plainText (view : CallView) : Expr → String
  | literal v => view.heap.plainText v
  | operand side => view.heap.plainText (view.find (.operand side))
  | composite side | duplicate side => view.heap.plainText (view.find (.composite (.operand side)))
  | field side key => view.heap.plainText (view.find (.field (.operand side) key))
  | signOperand => view.heap.plainText (view.find .signOperand)
  | sum a b => intText ((sum a b).toInteger view)
  | text parts => plainTexts view parts
  | new className _ => className

/-- The plain texts of some expressions, one behind the other. -/
def plainTexts (view : CallView) : List Expr → String
  | [] => ""
  | e :: rest => plainText view e ++ plainTexts view rest

end

mutual

/-- The value of an expression, as a handler makes it. -/
def draft (view : CallView) : Expr → Draft
  | literal v => .scalar v
  | operand side => .copy (.operand side)
  | composite side => .copy (.composite (.operand side))
  | duplicate side => .duplicate (.operand side)
  | field side key => .copy (.field (.operand side) key)
  | signOperand => .copy .signOperand
  | sum a b => .scalar (.int ((sum a b).toInteger view))
  | text parts => .scalar (.str (plainTexts view parts))
  | new className fields => .new className (drafts view fields)

/-- The values of named expressions, as a handler makes them. -/
def drafts (view : CallView) :
    List (String × Expr) → List (String × Draft)
  | [] => []
  | (key, e) :: rest => (key, draft view e) :: drafts view rest

end

end Expr

namespace Condition

/-- Whether a call meets a condition. -/
def holds (view : CallView) : Condition → Bool
  | isKind side kind => (view.operand side).any fun seen => seen.value.kind.name == kind
  | hasClass side className =>
    (view.operand side).any fun seen =>
      (seen.value.composite? >>= view.heap.composite?).any fun c => c.className == className
  | isIndirect side => (view.operand side).any (·.indirect)
  | isSign => view.sign.isSome
  | hasResult => view.hasResult
  | not c => !c.holds view

end Condition

end Script

namespace CallView

/-- An operand as a note shows it. -/
def shown (view : CallView) (seen : Seen) : Shown :=
  ⟨view.heap.listing seen.value, seen.indirect⟩

/-- The call as a note shows it. -/
def toNote (view : CallView) : CallNote where
  instr := view.instr
  category := view.category
  hasResult := view.hasResult
  op1 := view.shown view.op1
  op2 := view.op2.map view.shown
  sign := view.sign.map fun s => (s.sign, s.side, view.heap.listing s.operand.value)
  order := view.order

end CallView

namespace Script

/-- Why a script that declines for its operand does so. -/
def reason (view : CallView) : Unsupported := ⟨"composite", view.op1.value.kind.name⟩

/-- The violation of a refused step, for a note. -/
def refusedBy? {α : Type} : Except Violation α → Option Violation
  | .ok _ => none
  | .error violation => some violation

mutual

/-- The handler that takes one step and then goes on as `rest`. -/
def Step.handler (rest : Handler) : Step → Handler
  | .observe => .inspect fun view => .note (.call view.toNote) rest
  | .setResult e =>
    .inspect fun view => .setResult (e.draft view) (Handler.orViolated fun _ => rest)
  | .trySetResult e =>
    .inspect fun view =>
      .setResult (e.draft view) fun r => .note (.outcome (refusedBy? r)) rest
  | .write e =>
    .inspect fun view => .write (e.draft view) (Handler.orViolated fun _ => rest)
  | .tryWrite e =>
    .inspect fun view =>
      .write (e.draft view) fun r => .note (.outcome (refusedBy? r)) rest
  | .separate => .separate (Handler.orViolated fun copied => .note (.separated copied) rest)
  | .setField guarded key e =>
    .inspect fun view =>
      .setFields guarded [(key, e.draft view)] (Handler.orRefused fun _ => rest)
  | .setFlag flag => .setFlag flag (Handler.orViolated fun _ => rest)
  | .when c steps =>
    .inspect fun view => if c.holds view then handlerOf rest steps else rest
  | .handled => .answer .handled
  | .decline => .answer .declined
  | .unsupported =>
    .inspect fun view =>
      .note (.unsupported (reason view)) (.answer (.unsupported (reason view)))
  | .violate count => .answer (.violated (.sharedMutation count))

/-- The handler that takes steps in order and then goes on as `rest`. -/
def handlerOf (rest : Handler) : List Step → Handler
  | [] => rest
  | step :: steps => Step.handler (handlerOf rest steps) step

end

/-- The handler that a script describes. -/
def handler (steps : List Step) : Handler := handlerOf (.answer .handled) steps

end Script

end OverloadMachine
