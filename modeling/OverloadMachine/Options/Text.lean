import OverloadMachine.Options
import OverloadMachine.OrderedMap
import OverloadMachine.Toml.Writer

/-!
# Options as text

Options are kept as four settings, in whatever format. Each may be left out, which leaves the
option as it is by itself, and settings of other names are passed over. A limit is a number, and
a word stands for a run without limit. Options that could not be used are refused on reading.
-/

namespace OverloadMachine

open Toml (Setting Format)

/-- Why options cannot be read. -/
inductive OptionsError where
  /-- There is no text. -/
  | unreadable
  /-- The text is no settings document, or an entry has no fitting value. -/
  | malformed
  /-- The settings make no sense. -/
  | invalid
  deriving DecidableEq, Repr

namespace Options

/-- Word for a run without limit. -/
def unlimitedWord : String := "unlimited"

/-- A limit as a setting. -/
def limitSetting : Option UInt64 → Setting
  | some n => .unsigned n
  | none => .text unlimitedWord

/-- Options as settings. -/
def settings (o : Options) : List (String × Setting) := [
  ("negation_order", .case o.negationOrder.word),
  ("max_instructions", limitSetting o.maxInstructions),
  ("strict_contracts", .flag o.strictContracts),
  ("verify", .flag o.verify)]

section Formats

variable {Item : Type} (format : Format Item)

/-- The order that an item names. -/
def readOrder (item : Item) : Option NegationOrder :=
  format.case? item >>= NegationOrder.ofWord?

/-- The limit that an item gives: a number, or else the word for none. -/
def readLimit (item : Item) : Option (Option UInt64) :=
  match format.unsigned? item with
  | some n => some (some n)
  | none => do
    let word ← format.text? item
    if word = unlimitedWord then some none else none

/-- The option of an entry, or the one in its place. -/
def readEntry {α : Type} (entries : List (String × Item)) (name : String) (default : α)
    (read : Item → Option α) : Option α :=
  match OrderedMap.lookup name entries with
  | some item => read item
  | none => some default

/-- The options that a table describes. -/
def ofEntries? (entries : List (String × Item)) : Option Options := do
  let order ← readEntry entries "negation_order" standard.negationOrder (readOrder format)
  let limit ← readEntry entries "max_instructions" standard.maxInstructions (readLimit format)
  let strict ← readEntry entries "strict_contracts" standard.strictContracts format.flag?
  let verify ← readEntry entries "verify" standard.verify format.flag?
  return ⟨order, limit, strict, verify⟩

/-- Write options in a format. -/
def save? (o : Options) : Option String := format.write o.settings

/-- Read options in a format. -/
def reload (text : String) : Except OptionsError Options :=
  match format.read text >>= ofEntries? format with
  | some o => if o.isValid then .ok o else .error .invalid
  | none => .error .malformed

end Formats

/-! ## Settings documents -/

/-- The options as a settings document, if they can be written. -/
def render? (o : Options) : Option String := o.save? Toml.format

/-- Read options from a settings document. -/
def parse (text : String) : Except OptionsError Options := reload Toml.format text

/-- Read options from the bytes of a file, if there is one. -/
def load (content : Option ByteArray) : Except OptionsError Options :=
  match content >>= String.fromUTF8? with
  | some text => parse text
  | none => .error .unreadable

end Options

end OverloadMachine
