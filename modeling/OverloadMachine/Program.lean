import OverloadMachine.Instruction
import OverloadMachine.Value

/-!
# Functions

A function is code over a table of constants, with the number of temporaries
and the names of the variables that the code may use.
-/

namespace OverloadMachine

/-- A function of the machine. -/
structure Function where
  name : String
  code : Array Instruction
  constants : Array Value
  /-- Number of temporaries. -/
  temporaries : Nat
  /-- Names of the variables that are named by position. -/
  variableNames : Array String
  deriving Inhabited

namespace Function

/-- Position of the variable with a given name, if there is one. -/
def slot? (f : Function) (name : String) : Option Nat :=
  f.variableNames.findIdx? (· == name)

/-- A number padded with zeros on the left to four digits. -/
def fourDigits (n : Nat) : String :=
  let digits := Nat.toDigits 10 n
  String.ofList (List.replicate (4 - digits.length) '0' ++ digits)

/-- Listing of the code, one numbered instruction a line. -/
def disassemble (f : Function) : String :=
  let lines := f.code.toList.zipIdx.map fun (instr, pc) =>
    "  " ++ fourDigits pc ++ " " ++ instr.render ++ "\n"
  "function " ++ f.name ++ ":\n" ++ String.join lines

end Function

end OverloadMachine
