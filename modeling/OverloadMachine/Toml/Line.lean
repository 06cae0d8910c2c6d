import OverloadMachine.Toml.Scalar

/-!
# Lines of settings

A settings document is read as a list of lines that matter: a key with its item,
the header of a table, or the header of one more of several tables. Blank lines
and comments are passed over. An item may run over several lines of the text.
-/

namespace OverloadMachine.Toml

/-- A line that matters. -/
inductive Line where
  | entry (path : Path) (item : Item)
  | table (path : Path)
  | next (path : Path)

/-- The rest behind blanks. -/
def skipBlanks (cs : List Char) : List Char := cs.dropWhile isBlank

/-- Nothing is skipped before a character that is no blank. -/
theorem skipBlanks_cons {c : Char} (h : isBlank c = false) (cs : List Char) :
    skipBlanks (c :: cs) = c :: cs := by
  simp [skipBlanks, h]

/-- The rest behind an optional comment. -/
def skipComment : List Char → List Char
  | '#' :: rest => rest.dropWhile isPrintable
  | cs => cs

/-- The rest behind the end of a line, which may be the end of the text. -/
def lineEnd? : List Char → Option (List Char)
  | [] => some []
  | cs => newline? cs

/-- The rest behind blanks, an optional comment and the end of the line. -/
def endLine? (cs : List Char) : Option (List Char) := lineEnd? (skipComment (skipBlanks cs))

/-! ## Keys -/

/-- Whether a character may stand in a key without quotes. -/
def isBare (c : Char) : Bool := c.isAlphanum || c == '_' || c == '-'

/-- One name of a key. -/
def name : Reader String := fun cs =>
  match cs with
  | '"' :: rest => Quoting.basic.read rest
  | '\'' :: rest => Quoting.literal.read rest
  | _ =>
    let bare := cs.takeWhile isBare
    if bare = [] then none else some (String.ofList bare, cs.dropWhile isBare)

/-- Number of names from which on a key is refused. -/
def nameLimit : Nat := 80

/-- Names with points between them and blanks around them. -/
def names : (fuel : Nat) → Reader (List String)
  | 0, _ => none
  | fuel + 1, cs => do
    let (first, cs) ← name (skipBlanks cs)
    match skipBlanks cs with
    | '.' :: cs =>
      let (others, cs) ← names fuel cs
      return (first :: others, cs)
    | cs => return ([first], cs)

/-- A key. -/
def key : Reader Path := fun cs => do
  let (found, rest) ← names (cs.length + 1) cs
  if found.length < nameLimit then
    return (⟨found.dropLast, ← found.getLast?⟩, rest)
  else none

/-- A key and the item behind the equals sign. -/
def pair (item : Reader Item) : Reader (Path × Item) := fun cs => do
  let (path, cs) ← key cs
  let cs ← after? ['='] cs
  let (v, cs) ← item (skipBlanks cs)
  return ((path, v), cs)

/-! ## Lists and inline tables -/

/-- The rest behind blanks, line ends and whole comments; `inComment` tells where
the front stands. -/
def skipSpace? : (inComment : Bool) → List Char → Option (List Char)
  | _, '\n' :: rest => skipSpace? false rest
  | _, '\r' :: '\n' :: rest => skipSpace? false rest
  | true, c :: rest => if isPrintable c then skipSpace? true rest else none
  | true, [] => none
  | false, '#' :: rest => skipSpace? true rest
  | false, c :: rest => if isBlank c then skipSpace? false rest else some (c :: rest)
  | false, [] => some []

/-- Items of a list up to its end. A comma may stand behind the last one. -/
def listItems (item : Reader Item) : (fuel : Nat) → Reader (List Item)
  | 0, _ => none
  | fuel + 1, cs => do
    match ← skipSpace? false cs with
    | ']' :: rest => return ([], rest)
    | cs =>
      let (first, cs) ← item cs
      match ← skipSpace? false cs with
      | ',' :: rest =>
        let (others, rest) ← listItems item fuel rest
        return (first :: others, rest)
      | cs => return ([first], ← after? [']'] cs)

/-- Keys and items of an inline table up to its end. -/
def inlinePairs (item : Reader Item) : (fuel : Nat) → Reader (List (Path × Item))
  | 0, _ => none
  | fuel + 1, cs => do
    let (first, cs) ← pair item cs
    match skipBlanks cs with
    | ',' :: rest =>
      let (others, rest) ← inlinePairs item fuel rest
      return (first :: others, rest)
    | cs => return ([first], ← after? ['\x7d'] cs)

/-- An inline table behind its brace. -/
def inlineBody (item : Reader Item) : Reader Item := fun cs => do
  match skipBlanks cs with
  | '\x7d' :: rest => return (.table .inline [], rest)
  | cs =>
    let (pairs, rest) ← inlinePairs item (cs.length + 1) cs
    return (← inlineTable pairs, rest)

/-- An item within a bound on the nesting of lists and inline tables. -/
def itemWithin : (depth : Nat) → Reader Item
  | 0, cs => scalar cs
  | depth + 1, cs =>
    match cs with
    | '[' :: rest =>
      (listItems (itemWithin depth) (rest.length + 1) rest).map fun (items, rest) =>
        (.list items, rest)
    | '\x7b' :: rest => inlineBody (itemWithin depth) rest
    | _ => scalar cs

/-- Greatest nesting of lists and inline tables. -/
def nestingLimit : Nat := 79

/-- An item. -/
def item : Reader Item := itemWithin nestingLimit

/-! ## Lines -/

/-- A header behind its first bracket. -/
def header : Reader Line := fun cs =>
  match cs with
  | '[' :: rest => do
    let (path, rest) ← key rest
    return (.next path, ← after? [']', ']'] rest)
  | _ => do
    let (path, rest) ← key cs
    return (.table path, ← after? [']'] rest)

/-- One line of the text; none if it does not matter. -/
def line : Reader (Option Line) := fun cs => do
  match cs with
  | '#' :: _ => return (none, ← endLine? cs)
  | '\n' :: _ | '\r' :: _ => return (none, ← newline? cs)
  | '[' :: rest =>
    let (found, rest) ← header rest
    return (some found, ← endLine? rest)
  | _ =>
    let ((path, v), rest) ← pair item cs
    return (some (.entry path v), ← endLine? rest)

/-- Every line of a text that matters. Each takes a character at least. -/
def linesFrom : (fuel : Nat) → List Char → Option (List Line)
  | 0, _ => none
  | fuel + 1, cs =>
    match skipBlanks cs with
    | [] => some []
    | cs => do
      let (found, rest) ← line cs
      return found.toList ++ (← linesFrom fuel rest)

/-- The lines of a text that matter. A byte order mark may stand at its front. -/
def lines (text : String) : Option (List Line) :=
  let cs := match text.toList with
    | '\ufeff' :: rest => rest
    | cs => cs
  linesFrom (cs.length + 1) cs

end OverloadMachine.Toml
