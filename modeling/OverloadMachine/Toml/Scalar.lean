import OverloadMachine.Number
import OverloadMachine.Toml.Item

/-!
# Scalars of settings

Reading of texts, numbers, truth values and moments. A reader takes what it can
from the front of the characters and gives the rest back; what must follow is
checked by its caller.
-/

namespace OverloadMachine.Toml

/-- A reader of something at the front of a text. -/
abbrev Reader (α : Type) := List Char → Option (α × List Char)

/-- Whether a character separates within a line. -/
def isBlank (c : Char) : Bool := c == ' ' || c == '\t'

/-- Whether a character may stand in a comment or a text: no control but the tab. -/
def isPrintable (c : Char) : Bool := c == '\t' || (0x20 ≤ c.toNat && c.toNat != 0x7f)

/-- The rest behind a line end. -/
def newline? : List Char → Option (List Char)
  | '\n' :: rest => some rest
  | '\r' :: '\n' :: rest => some rest
  | _ => none

/-- The rest behind a given beginning. -/
def after? : (beginning : List Char) → List Char → Option (List Char)
  | [], cs => some cs
  | b :: bs, c :: cs => if b = c then after? bs cs else none
  | _ :: _, [] => none

/-- A beginning is taken off what it was put before. -/
theorem after?_append (beginning cs : List Char) :
    after? beginning (beginning ++ cs) = some cs := by
  induction beginning with
  | nil => cases cs <;> rfl
  | cons b bs ih => simp [after?, ih]

/-! ## Texts -/

/-- One of the four ways to write a text. -/
structure Quoting where
  quote : Char
  /-- Whether a backslash begins an escape. -/
  escapes : Bool
  /-- Whether the text stands between three quotes and may run over lines. -/
  multiline : Bool

/-- Value of some hexadecimal digits. -/
def hexValue (cs : List Char) : Nat :=
  cs.foldl
    (fun n c =>
      16 * n +
        (if c.isDigit then c.toNat - '0'.toNat
        else if 'a' ≤ c then c.toNat - 'a'.toNat + 10 else c.toNat - 'A'.toNat + 10))
    0

/-- Whether a character is a hexadecimal digit. -/
def isHexDigit (c : Char) : Bool :=
  c.isDigit || ('a' ≤ c && c ≤ 'f') || ('A' ≤ c && c ≤ 'F')

/-- The character with the number that some hexadecimal digits give. -/
def numbered (width : Nat) (cs : List Char) : Option (Char × List Char) :=
  let digits := cs.take width
  let n := hexValue digits
  if digits.length = width ∧ digits.all isHexDigit ∧ n.isValidChar then
    some (Char.ofNat n, cs.drop width)
  else none

/-- The character that an escape stands for, behind its backslash. -/
def escape : Reader Char
  | 'b' :: rest => some ('\x08', rest)
  | 't' :: rest => some ('\t', rest)
  | 'n' :: rest => some ('\n', rest)
  | 'f' :: rest => some ('\x0c', rest)
  | 'r' :: rest => some ('\r', rest)
  | '"' :: rest => some ('"', rest)
  | '\\' :: rest => some ('\\', rest)
  | 'u' :: rest => numbered 4 rest
  | 'U' :: rest => numbered 8 rest
  | _ => none

/-- The rest behind blanks and line ends. -/
def skipLines : List Char → List Char
  | '\n' :: rest => skipLines rest
  | '\r' :: '\n' :: rest => skipLines rest
  | c :: rest => if isBlank c then skipLines rest else c :: rest
  | [] => []

namespace Quoting

/-- A text on one line with escapes. -/
def basic : Quoting := ⟨'"', true, false⟩

/-- A text on one line as it stands. -/
def literal : Quoting := ⟨'\'', false, false⟩

/-- The same way of writing over several lines. -/
def overLines (q : Quoting) : Quoting := { q with multiline := true }

/-- The end of a text, with the quotes just before it that belong to the text: of
three to five quotes in a row, the last three. -/
def close? (q : Quoting) (cs : List Char) : Option (List Char × List Char) :=
  if q.multiline then
    let run := (cs.takeWhile (· == q.quote)).length
    let inside := min (run - 3) 2
    if 3 ≤ run then some (List.replicate inside q.quote, cs.drop (inside + 3)) else none
  else match cs with
    | c :: rest => if c = q.quote then some ([], rest) else none
    | [] => none

/-- An escape; a backslash at the end of a line takes away the line end and the
blanks that follow. -/
def escaped (q : Quoting) (cs : List Char) : Option (List Char × List Char) :=
  match q.multiline, newline? (cs.dropWhile isBlank) with
  | true, some rest => some ([], skipLines rest)
  | _, _ => (escape cs).map fun (c, rest) => ([c], rest)

/-- One piece of a text. -/
def piece (q : Quoting) (cs : List Char) : Option (List Char × List Char) :=
  match cs with
  | [] => none
  | c :: rest =>
    if q.escapes ∧ c = '\\' then q.escaped rest
    else if isPrintable c then some ([c], rest)
    else if q.multiline then (newline? cs).map fun rest => (['\n'], rest)
    else none

/-- Pieces of a text up to its end. Every piece takes a character, so `fuel` need
not exceed their number. -/
def body (q : Quoting) : (fuel : Nat) → List Char → Option (List Char × List Char)
  | 0, _ => none
  | fuel + 1, cs =>
    match q.close? cs with
    | some closed => some closed
    | none => do
      let (first, rest) ← q.piece cs
      let (others, rest) ← body q fuel rest
      return (first ++ others, rest)

/-- A text behind its opening quotes. -/
def read (q : Quoting) (cs : List Char) : Option (String × List Char) :=
  (q.body (cs.length + 1) cs).map fun (content, rest) => (String.ofList content, rest)

end Quoting

/-- A text; a line end just behind three opening quotes is no part of it. -/
def text (q : Quoting) : Reader String := fun cs =>
  match after? (List.replicate 3 q.quote) cs with
  | some rest => q.overLines.read ((newline? rest).getD rest)
  | none => after? [q.quote] cs >>= q.read

/-! ## Numbers -/

/-- Further digits of a number. A single underscore may stand between two digits. -/
def moreDigits (isDigit : Char → Bool) : Reader (List Char)
  | '_' :: c :: rest =>
    if isDigit c then (moreDigits isDigit rest).map fun (ds, rest) => (c :: ds, rest) else none
  | ['_'] => none
  | c :: rest =>
    if isDigit c then (moreDigits isDigit rest).map fun (ds, rest) => (c :: ds, rest)
    else some ([], c :: rest)
  | [] => some ([], [])

/-- A run of digits is taken whole if what follows is neither a digit nor an
underscore. -/
theorem moreDigits_append {isDigit : Char → Bool} {ds rest : List Char}
    (all : ∀ c ∈ ds, isDigit c ∧ c ≠ '_') (stop : ∀ c ∈ rest.head?, ¬ isDigit c ∧ c ≠ '_') :
    moreDigits isDigit (ds ++ rest) = some (ds, rest) := by
  induction ds with
  | nil =>
    cases rest with
    | nil => simp [moreDigits]
    | cons c rest =>
      obtain ⟨no, ne⟩ := stop c (by simp)
      rw [List.nil_append, moreDigits.eq_def]
      split <;> simp_all
  | cons d ds ih =>
    obtain ⟨yes, ne⟩ := all d (by simp)
    have tail := ih fun c hc => all c (List.mem_cons_of_mem d hc)
    rw [List.cons_append, moreDigits.eq_def]
    split <;> simp_all

/-- The digits of a number, at least one. -/
def digits (isDigit : Char → Bool) : Reader (List Char)
  | c :: rest =>
    if isDigit c then (moreDigits isDigit rest).map fun (ds, rest) => (c :: ds, rest) else none
  | [] => none

/-- Decimal digits without a zero in front. -/
def wholeDigits : Reader (List Char)
  | '0' :: rest => some (['0'], rest)
  | cs => digits Char.isDigit cs

/-- An integer with an optional sign. -/
def decimalInteger : Reader Int64 := fun cs => do
  let (negative, cs) := Number.splitSign cs
  let (ds, rest) ← wholeDigits cs
  let n : Int := Number.digitsValue ds
  return (← fitInt64 (if negative then -n else n), rest)

/-- Value of digits to a base of at most sixteen. -/
def valueInBase (base : Nat) (ds : List Char) : Nat :=
  ds.foldl (fun n c => base * n + hexValue [c]) 0

/-- An integer to another base than ten, behind its two letters. -/
def basedInteger (base : Nat) (isDigit : Char → Bool) : Reader Int64 := fun cs => do
  let (ds, rest) ← digits isDigit cs
  return (← fitInt64 (valueInBase base ds), rest)

/-- An integer. -/
def integer : Reader Int64
  | '0' :: 'x' :: rest => basedInteger 16 isHexDigit rest
  | '0' :: 'o' :: rest => basedInteger 8 (fun c => '0' ≤ c && c ≤ '7') rest
  | '0' :: 'b' :: rest => basedInteger 2 (fun c => c == '0' || c == '1') rest
  | cs => decimalInteger cs

/-- The digits behind a point; none if there is no point. -/
def fraction : Reader (List Char)
  | '.' :: rest => digits Char.isDigit rest
  | cs => some ([], cs)

/-- The exponent behind its letter; none if there is no letter. -/
def exponent : Reader (Option Int) := fun cs =>
  match cs with
  | c :: rest =>
    if c = 'e' ∨ c = 'E' then do
      let (negative, rest) := Number.splitSign rest
      let (ds, rest) ← digits Char.isDigit rest
      let n : Int := Number.digitsValue ds
      return (some (if negative then -n else n), rest)
    else some (none, cs)
  | [] => some (none, [])

/-- The words for the floats that are no finite numbers. -/
def specialFloat : Reader Float := fun cs =>
  let (negative, cs) := Number.splitSign cs
  match after? ['i', 'n', 'f'] cs, after? ['n', 'a', 'n'] cs with
  | some rest, _ => some (floatOfWord negative Binary64.infinityWord, rest)
  | _, some rest => some (floatOfWord negative Binary64.nanWord, rest)
  | _, _ => none

/-- A float with a fraction, an exponent or both. One that is too great is refused
unless it is negative. -/
def decimalFloat : Reader Float := fun cs => do
  let (negative, cs) := Number.splitSign cs
  let (whole, cs) ← wholeDigits cs
  let (part, cs) ← fraction cs
  let (power, rest) ← exponent cs
  if part = [] ∧ power = none then none
  else
    let word :=
      Binary64.ofDecimal ⟨Number.digitsValue (whole ++ part), power.getD 0 - part.length⟩
    if word = Binary64.infinityWord ∧ !negative then none
    else return (floatOfWord negative word, rest)

/-! ## Moments -/

/-- A number of a fixed count of digits within bounds. -/
def fixed (count low high : Nat) : Reader Nat := fun cs =>
  let ds := cs.take count
  let n := Number.digitsValue ds
  if ds.length = count ∧ ds.all Char.isDigit ∧ low ≤ n ∧ n ≤ high then some (n, cs.drop count)
  else none

/-- Number of days of a month. -/
def daysOf (year month : Nat) : Nat :=
  match month with
  | 2 => if year % 4 = 0 ∧ (year % 100 ≠ 0 ∨ year % 400 = 0) then 29 else 28
  | 4 | 6 | 9 | 11 => 30
  | _ => 31

/-- The rest behind a date. -/
def date? (cs : List Char) : Option (List Char) := do
  let (year, cs) ← fixed 4 0 9999 cs
  let cs ← after? ['-'] cs
  let (month, cs) ← fixed 2 1 12 cs
  let cs ← after? ['-'] cs
  let (_, cs) ← fixed 2 1 (daysOf year month) cs
  return cs

/-- The rest behind a time of day. A minute may have a leap second. -/
def time? (cs : List Char) : Option (List Char) := do
  let (_, cs) ← fixed 2 0 23 cs
  let cs ← after? [':'] cs
  let (_, cs) ← fixed 2 0 59 cs
  let cs ← after? [':'] cs
  let (_, cs) ← fixed 2 0 60 cs
  match cs with
  | '.' :: rest =>
    if rest.head?.any Char.isDigit then return rest.dropWhile Char.isDigit else return cs
  | _ => return cs

/-- The rest behind an offset from universal time. -/
def offset? : List Char → Option (List Char)
  | 'Z' :: rest | 'z' :: rest => some rest
  | c :: rest =>
    if c = '+' ∨ c = '-' then do
      let (_, rest) ← fixed 2 0 23 rest
      let rest ← after? [':'] rest
      let (_, rest) ← fixed 2 0 59 rest
      return rest
    else none
  | [] => none

/-- The rest behind a time of day and an optional offset, behind what separates
them from a date. -/
def timeOfDate? : List Char → Option (List Char)
  | c :: rest =>
    if c = 'T' ∨ c = 't' ∨ c = ' ' then
      (time? rest).map fun rest => (offset? rest).getD rest
    else none
  | [] => none

/-- A date, a time of day or both. -/
def moment : Reader String := fun cs =>
  let rest? := match date? cs with
    | some rest => some ((timeOfDate? rest).getD rest)
    | none => time? cs
  rest?.map fun rest => (String.ofList (cs.take (cs.length - rest.length)), rest)

/-! ## Scalars -/

/-- A number or a moment. The longer forms are tried first. -/
def numeric : Reader Item := fun cs =>
  match moment cs, decimalFloat cs, specialFloat cs, integer cs with
  | some (t, rest), _, _, _ => some (.moment t, rest)
  | _, some (x, rest), _, _ => some (.float x, rest)
  | _, _, some (x, rest), _ => some (.float x, rest)
  | _, _, _, some (i, rest) => some (.integer i, rest)
  | _, _, _, _ => none

/-- A scalar, told by its first character. -/
def scalar : Reader Item := fun cs =>
  match cs with
  | '"' :: _ => (text .basic cs).map fun (s, rest) => (.text s, rest)
  | '\'' :: _ => (text .literal cs).map fun (s, rest) => (.text s, rest)
  | 't' :: _ => (after? ['t', 'r', 'u', 'e'] cs).map fun rest => (.boolean true, rest)
  | 'f' :: _ => (after? ['f', 'a', 'l', 's', 'e'] cs).map fun rest => (.boolean false, rest)
  | _ => numeric cs

end OverloadMachine.Toml
