/-!
# Formats of settings

A format keeps settings as text. What is written are names with plain values; what is read is a
table of items, which the reader of a setting asks for the kind of value that it wants. The items
are the matter of the format.
-/

namespace OverloadMachine.Toml

/-- A value that is handed over to be written. -/
inductive Setting where
  /-- The name of one of several cases. -/
  | case (name : String)
  | text (s : String)
  | unsigned (n : UInt64)
  | flag (b : Bool)
  deriving DecidableEq, Repr

/-- A way to keep settings as text. -/
structure Format (Item : Type) where
  /-- The text of some settings, if they can be written. -/
  write : List (String × Setting) → Option String
  /-- The table that a text describes, if it is well formed. -/
  read : String → Option (List (String × Item))
  /-- The name of a case, if an item is taken for one. -/
  case? : Item → Option String
  text? : Item → Option String
  unsigned? : Item → Option UInt64
  flag? : Item → Option Bool

namespace Format

variable {Item : Type} (format : Format Item)

/-- Whether an item is taken for what a setting says. Where a number or a text may stand, the
number is asked for first, so a text must not be taken for a number. -/
def Takes (item : Item) : Setting → Prop
  | .case name => format.case? item = some name
  | .text s => format.text? item = some s ∧ format.unsigned? item = none
  | .unsigned n => format.unsigned? item = some n
  | .flag b => format.flag? item = some b

end Format

end OverloadMachine.Toml
