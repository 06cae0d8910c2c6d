/-!
# Opcodes

The instruction set of the register machine. Operators come in families, and
a family's members are a type of their own, so that an opcode of a family is
the family's constructor applied to a member: `ADD` is `arithmetic add` and
`ASSIGN_ADD` is `compound add`. Every opcode has a byte, a mnemonic for
listings of code and a label for listings of tables.
-/

namespace OverloadMachine

/-- Operators that take two operands and also exist as compound assignments. -/
inductive ArithmeticOp where
  | add | sub | mul | div | mod | pow | concat
  | shl | shr | bitAnd | bitOr | bitXor
  deriving DecidableEq, Repr, Inhabited

namespace ArithmeticOp

/-- Every arithmetic operator, in the order of the opcode bytes. -/
def all : List ArithmeticOp :=
  [add, sub, mul, div, mod, pow, concat, shl, shr, bitAnd, bitOr, bitXor]

/-- Position of the operator within its family. -/
def offset : ArithmeticOp → Nat
  | add => 0 | sub => 1 | mul => 2 | div => 3 | mod => 4 | pow => 5 | concat => 6
  | shl => 7 | shr => 8 | bitAnd => 9 | bitOr => 10 | bitXor => 11

/-- Mnemonic of the plain operator. -/
def name : ArithmeticOp → String
  | add => "ADD" | sub => "SUB" | mul => "MUL" | div => "DIV" | mod => "MOD" | pow => "POW"
  | concat => "CONCAT" | shl => "SL" | shr => "SR"
  | bitAnd => "BW_AND" | bitOr => "BW_OR" | bitXor => "BW_XOR"

/-- Label of the plain operator. -/
def label : ArithmeticOp → String
  | add => "Add" | sub => "Sub" | mul => "Mul" | div => "Div" | mod => "Mod" | pow => "Pow"
  | concat => "Concat" | shl => "Shl" | shr => "Shr"
  | bitAnd => "BitAnd" | bitOr => "BitOr" | bitXor => "BitXor"

end ArithmeticOp

/-- Operators that compare two operands. -/
inductive ComparisonOp where
  | identical | notIdentical | equal | notEqual | smaller | smallerOrEqual | spaceship
  deriving DecidableEq, Repr, Inhabited

namespace ComparisonOp

/-- Every comparison operator, in the order of the opcode bytes. -/
def all : List ComparisonOp :=
  [identical, notIdentical, equal, notEqual, smaller, smallerOrEqual, spaceship]

/-- Position of the operator within its family. -/
def offset : ComparisonOp → Nat
  | identical => 0 | notIdentical => 1 | equal => 2 | notEqual => 3
  | smaller => 4 | smallerOrEqual => 5 | spaceship => 6

/-- Mnemonic of the operator. -/
def name : ComparisonOp → String
  | identical => "IS_IDENTICAL" | notIdentical => "IS_NOT_IDENTICAL"
  | equal => "IS_EQUAL" | notEqual => "IS_NOT_EQUAL"
  | smaller => "IS_SMALLER" | smallerOrEqual => "IS_SMALLER_OR_EQUAL" | spaceship => "SPACESHIP"

/-- Label of the operator. -/
def label : ComparisonOp → String
  | identical => "IsIdentical" | notIdentical => "IsNotIdentical"
  | equal => "IsEqual" | notEqual => "IsNotEqual"
  | smaller => "IsSmaller" | smallerOrEqual => "IsSmallerOrEqual" | spaceship => "Spaceship"

end ComparisonOp

/-- Operators of one operand that leave it alone. -/
inductive UnaryOp where
  | bitNot | boolNot
  deriving DecidableEq, Repr, Inhabited

/-- Which value of a stepped variable is the instruction's result. -/
inductive StepTime where
  /-- The result is the new value. -/
  | pre
  /-- The result is the old value. -/
  | post
  deriving DecidableEq, Repr, Inhabited

/-- Direction of an increment or decrement. -/
inductive StepDirection where
  | up | down
  deriving DecidableEq, Repr, Inhabited

/-- One opcode. In the comments `A`, `B` and `R` are the first operand, the
second operand and the result of the instruction. -/
inductive Opcode where
  /-- Do nothing. -/
  | nop
  /-- `A = B`, and `R = A` if there is a result. -/
  | assign
  /-- Bind `A` and `B` to one reference cell. -/
  | assignRef
  /-- `R` is a new composite of class `A`. -/
  | newComposite
  /-- Set field `B` of `A` to the operand of the data instruction that follows. -/
  | setField
  /-- Carries the value of the field write before it. -/
  | opData
  /-- `R` is field `B` of `A`. -/
  | getField
  /-- Empty temporary `A`. -/
  | free
  /-- Jump to the instruction's target. -/
  | jmp
  /-- Jump to the instruction's target if `A` is falsy. -/
  | jmpIfFalse
  /-- End the run with `A`. -/
  | ret
  /-- `R = A op B`. -/
  | arithmetic (op : ArithmeticOp)
  /-- `R` says whether exactly one of `A` and `B` is truthy. -/
  | boolXor
  /-- `R = A op B`. -/
  | comparison (op : ComparisonOp)
  /-- `A = A op B`, and `R = A` if there is a result. -/
  | compound (op : ArithmeticOp)
  /-- `R = op A`. -/
  | unary (op : UnaryOp)
  /-- Increment or decrement `A`. -/
  | step (time : StepTime) (direction : StepDirection)
  deriving DecidableEq, Repr, Inhabited

namespace Opcode

/-- Every opcode, in the order of the bytes. -/
def all : List Opcode :=
  [nop, assign, assignRef, newComposite, setField, opData, getField, free, jmp, jmpIfFalse, ret]
    ++ ArithmeticOp.all.map arithmetic ++ [boolXor]
    ++ ComparisonOp.all.map comparison
    ++ ArithmeticOp.all.map compound
    ++ [unary .bitNot, unary .boolNot,
        step .pre .up, step .pre .down, step .post .up, step .post .down]

/-- Byte that encodes the opcode. Families start at multiples of sixteen. -/
def byte : Opcode → Nat
  | nop => 0x00 | assign => 0x01 | assignRef => 0x02 | newComposite => 0x03
  | setField => 0x04 | opData => 0x05 | getField => 0x06 | free => 0x07
  | jmp => 0x08 | jmpIfFalse => 0x09 | ret => 0x0A
  | arithmetic op => 0x10 + op.offset
  | boolXor => 0x1C
  | comparison op => 0x20 + op.offset
  | compound op => 0x30 + op.offset
  | unary .bitNot => 0x40 | unary .boolNot => 0x41
  | step .pre .up => 0x42 | step .pre .down => 0x43
  | step .post .up => 0x44 | step .post .down => 0x45

/-- Opcode encoded by a byte, if it encodes one. -/
def ofByte? (b : Nat) : Option Opcode := all.find? fun op => op.byte == b

/-- Mnemonic, as shown in listings of code and in messages. -/
def name : Opcode → String
  | nop => "NOP" | assign => "ASSIGN" | assignRef => "ASSIGN_REF"
  | newComposite => "NEW_COMPOSITE" | setField => "SET_FIELD" | opData => "OP_DATA"
  | getField => "GET_FIELD" | free => "FREE" | jmp => "JMP" | jmpIfFalse => "JMP_IF_FALSE"
  | ret => "RETURN"
  | arithmetic op => op.name
  | boolXor => "BOOL_XOR"
  | comparison op => op.name
  | compound op => "ASSIGN_" ++ op.name
  | unary .bitNot => "BW_NOT" | unary .boolNot => "BOOL_NOT"
  | step .pre .up => "PRE_INC" | step .pre .down => "PRE_DEC"
  | step .post .up => "POST_INC" | step .post .down => "POST_DEC"

/-- Opcode with a given mnemonic, if there is one. -/
def ofName? (s : String) : Option Opcode := all.find? fun op => op.name == s

/-- Label, as shown in listings of dispatch tables. -/
def label : Opcode → String
  | nop => "Nop" | assign => "Assign" | assignRef => "AssignRef"
  | newComposite => "NewComposite" | setField => "SetField" | opData => "OpData"
  | getField => "GetField" | free => "Free" | jmp => "Jmp" | jmpIfFalse => "JmpIfFalse"
  | ret => "Return"
  | arithmetic op => op.label
  | boolXor => "BoolXor"
  | comparison op => op.label
  | compound op => "Assign" ++ op.label
  | unary .bitNot => "BitNot" | unary .boolNot => "BoolNot"
  | step .pre .up => "PreInc" | step .pre .down => "PreDec"
  | step .post .up => "PostInc" | step .post .down => "PostDec"

/-- The plain operator that a compound assignment applies. -/
def compoundBase? : Opcode → Option Opcode
  | compound op => some (arithmetic op)
  | _ => none

/-- Whether the instruction has a jump target. -/
def isJump : Opcode → Bool
  | jmp | jmpIfFalse => true
  | _ => false

/-- Whether control never passes to the next instruction. -/
def isTerminator : Opcode → Bool
  | jmp | ret => true
  | _ => false

end Opcode

/-- What a handler of an operator may rely on. -/
inductive Category where
  /-- `R = A op B`. -/
  | binary
  /-- `A = A op B`, with an optional result. -/
  | binaryAssign
  /-- `R = op A`. -/
  | unary
  /-- Change `A`; an optional result receives the new value. -/
  | unaryAssignPre
  /-- Change `A`; the result receives the old value. -/
  | unaryAssignPost
  deriving DecidableEq, Repr, Inhabited

namespace Category

/-- Whether the first operand is written. -/
def isAssignment : Category → Bool
  | binaryAssign | unaryAssignPre | unaryAssignPost => true
  | binary | unary => false

/-- Whether a handler is given a result even if the instruction discards it. -/
def alwaysYields : Category → Bool
  | binary | unary | unaryAssignPost => true
  | binaryAssign | unaryAssignPre => false

/-- Whether the second operand is read. -/
def hasSecondOperand : Category → Bool
  | binary | binaryAssign => true
  | unary | unaryAssignPre | unaryAssignPost => false

/-- Name of the category. -/
def name : Category → String
  | binary => "Binary" | binaryAssign => "BinaryAssign" | unary => "Unary"
  | unaryAssignPre => "UnaryAssignPre" | unaryAssignPost => "UnaryAssignPost"

end Category

/-- Category of an operator; the other opcodes cannot be intercepted. -/
def Opcode.category? : Opcode → Option Category
  | arithmetic _ | boolXor | comparison _ => some .binary
  | compound _ => some .binaryAssign
  | unary _ => some .unary
  | step .pre _ => some .unaryAssignPre
  | step .post _ => some .unaryAssignPost
  | nop | assign | assignRef | newComposite | setField | opData | getField | free
  | jmp | jmpIfFalse | ret => none

namespace Opcode

/-- Every opcode is listed. -/
theorem mem_all (op : Opcode) : op ∈ all := by
  cases op with
  | arithmetic op => cases op <;> decide
  | comparison op => cases op <;> decide
  | compound op => cases op <;> decide
  | unary op => cases op <;> decide
  | step time direction => cases time <;> cases direction <;> decide
  | _ => decide

/-- No byte encodes two opcodes. -/
theorem byte_inj {a b : Opcode} (h : a.byte = b.byte) : a = b := by
  have key : ∀ x ∈ all, ∀ y ∈ all, x.byte = y.byte → x = y := by decide
  exact key a (mem_all a) b (mem_all b) h

/-- Decoding the byte of an opcode gives the opcode back. -/
theorem ofByte?_byte (op : Opcode) : ofByte? op.byte = some op := by
  have key : ∀ x ∈ all, ofByte? x.byte = some x := by decide
  exact key op (mem_all op)

/-- The operators are the opcodes from byte sixteen on. -/
theorem category?_isSome_iff (op : Opcode) : op.category?.isSome ↔ 0x10 ≤ op.byte := by
  have key : ∀ x ∈ all, (x.category?.isSome ↔ 0x10 ≤ x.byte) := by decide
  exact key op (mem_all op)

end Opcode

end OverloadMachine
