import OverloadMachine.Toml.Document
import OverloadMachine.Toml.Format

/-!
# The format of settings documents

Settings are written as entries, one on each line. Names are written bare and texts between
double quotes without escapes, so both must be free of what would need them.
-/

namespace OverloadMachine.Toml

/-! ## Writing -/

/-- A value as it is written. Numbers are signed and have 64 bits. -/
def Setting.render? : Setting → Option String
  | .case s | .text s => some ("\"" ++ s ++ "\"")
  | .unsigned n => if n.toNat < 0x8000000000000000 then some (toString n.toNat) else none
  | .flag b => some (toString b)

/-- The lines of some settings. -/
def write : List (String × Setting) → Option String
  | [] => some ""
  | (name, setting) :: rest => do
    return name ++ " = " ++ (← setting.render?) ++ "\n" ++ (← write rest)

/-! ## Items as values -/

namespace Item

/-- Whether an item is an empty list or table. -/
def isHollow : Item → Bool
  | .list items => items.isEmpty
  | .table _ entries => entries.isEmpty
  | _ => false

/-- A case is named by a text, or by a table whose only entry has the name and no content. -/
def case? : Item → Option String
  | .text s => some s
  | .table _ [(name, content)] => if content.isHollow then some name else none
  | _ => none

def text? : Item → Option String
  | .text s => some s
  | _ => none

/-- A number without a sign is one that is not negative. -/
def unsigned? : Item → Option UInt64
  | .integer i => if 0 ≤ i.toInt then some (UInt64.ofInt i.toInt) else none
  | _ => none

def flag? : Item → Option Bool
  | .boolean b => some b
  | _ => none

end Item

/-- The format of settings documents. -/
def format : Format Item :=
  ⟨write, parse?, Item.case?, Item.text?, Item.unsigned?, Item.flag?⟩

end OverloadMachine.Toml
