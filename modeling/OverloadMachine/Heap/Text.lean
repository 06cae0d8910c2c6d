import OverloadMachine.Binary64.Layout
import OverloadMachine.Heap
import OverloadMachine.Text.Quoted

/-!
# Texts and truth of values

A value's plain text is what programs concatenate; its listing shows strings
quoted, composites with their count and fields, and cells as cells. Truth, texts and
listings follow handles, so they take as fuel a bound on the length of a chain of
distinct nodes. A chain of cells that comes back to itself has no end: truth and
plain text have no answer there, and a listing is cut off.
-/

namespace OverloadMachine

/-- Text of a 64-bit integer. -/
def intText (i : Int64) : String := toString i.toInt

namespace Heap

/-- Plain text, if the chain of cells ends within a bound. -/
def plainWithin (h : Heap) : (fuel : Nat) → Value → Option String
  | _, .null => some ""
  | _, .bool b => some (if b then "1" else "")
  | _, .int i => some (intText i)
  | _, .float x => some (FloatLayout.plain.text x)
  | _, .str s => some s
  | _, .composite id =>
    match h.composite? id with
    | some c => some c.className
    | none => some ""
  | 0, .ref _ => none
  | fuel + 1, .ref cell => plainWithin h fuel (h.content cell)

/-- Plain text of a value: nothing for null and false, the class of a composite,
and the text of its content for a cell. There is none if the chain of cells does
not end. -/
def plain? (h : Heap) (v : Value) : Option String := h.plainWithin (h.size + 1) v

/-- Plain text of a value whose chain of cells ends. -/
def plainText (h : Heap) (v : Value) : String := (h.plain? v).getD ""

/-- Listing of named values, given that of a value. -/
def listFields (showValue : Value → String) (entries : List (String × Value)) : String :=
  "\x7b" ++ ", ".intercalate (entries.map fun e => Text.quote e.1 ++ ": " ++ showValue e.2)
    ++ "\x7d"

/-- Listing within a bound on the chain of nodes. -/
def listingWithin (h : Heap) : (fuel : Nat) → Value → String
  | _, .null => "null"
  | _, .bool b => if b then "true" else "false"
  | _, .int i => intText i
  | _, .float x => FloatLayout.listing.text x
  | _, .str s => Text.quote s
  | 0, .composite _ => ""
  | 0, .ref _ => "&"
  | fuel + 1, .composite id =>
    match h.composite? id with
    | some c =>
      c.className ++ "#" ++ toString c.count ++ " "
        ++ listFields (listingWithin h fuel) c.fields.entries
    | none => ""
  | fuel + 1, .ref cell => "&" ++ listingWithin h fuel (h.content cell)

/-- Listing of a value. -/
def listing (h : Heap) (v : Value) : String := h.listingWithin (h.size + 1) v

/-- Truth, if the chain of cells ends within a bound. -/
def truthWithin (h : Heap) : (fuel : Nat) → Value → Option Bool
  | _, .null => some false
  | _, .bool b => some b
  | _, .int i => some (i != 0)
  | _, .float x => some (x != 0.0)
  | _, .str s => some (s != "" && s != "0")
  | _, .composite _ => some true
  | 0, .ref _ => none
  | fuel + 1, .ref cell => truthWithin h fuel (h.content cell)

/-- Whether a value counts as true: a number other than zero, a text other than
the empty one and `0`, any composite, and a cell with a true content. There is no
answer if the chain of cells does not end. -/
def truth? (h : Heap) (v : Value) : Option Bool := h.truthWithin (h.size + 1) v

/-- Whether a value whose chain of cells ends counts as true. -/
def isTruthy (h : Heap) (v : Value) : Bool := (h.truth? v).getD false

end Heap

end OverloadMachine
