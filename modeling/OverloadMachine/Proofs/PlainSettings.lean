import OverloadMachine.Proofs.NumericTexts
import OverloadMachine.Toml.Document

/-!
# Plain settings

A plain settings document has entries and nothing else: each stands on a line of its own, with
a bare name, an equals sign between single blanks, and a value. Quoted texts without escapes,
truth values and decimal integers are values that are read as what they say, wherever a line
ends behind them. A plain document with such values and without a name that stands twice is
read as the table of its entries.
-/

namespace OverloadMachine.Toml

/-- Characters that a test tells apart are different. -/
theorem ne_of_passes {test : Char → Bool} {c d : Char} (passes : test c = true)
    (fails : test d = false) : c ≠ d := by
  rintro rfl
  rw [fails] at passes
  cases passes

/-- Nothing is skipped before a character that a test tells apart from the blanks. -/
theorem skipBlanks_of_passes {test : Char → Bool} {c : Char} (passes : test c = true)
    (space : test ' ' = false) (tab : test '\t' = false) (cs : List Char) :
    skipBlanks (c :: cs) = c :: cs := by
  have notSpace : c ≠ ' ' := ne_of_passes passes space
  have notTab : c ≠ '\t' := ne_of_passes passes tab
  exact skipBlanks_cons (by simp [isBlank, notSpace, notTab]) cs

/-! ## Values -/

/-- Characters are read as an item if a line ends behind them, and no blank is in front. -/
structure Reads (value : List Char) (it : Item) : Prop where
  read : ∀ rest, item (value ++ '\n' :: rest) = some (it, '\n' :: rest)
  solid : ∀ rest, skipBlanks (value ++ '\n' :: rest) = value ++ '\n' :: rest

/-- What opens no list and no table is a scalar. -/
theorem item_eq_scalar {c : Char} {cs : List Char} (list : c ≠ '[') (table : c ≠ '\x7b') :
    item (c :: cs) = scalar (c :: cs) := by
  unfold item nestingLimit itemWithin
  split
  next eq => exact absurd (List.cons.inj eq).1 list
  next eq => exact absurd (List.cons.inj eq).1 table
  next => rfl

theorem reads_flag (b : Bool) : Reads (toString b).toList (.boolean b) := by
  cases b <;> exact ⟨fun rest => rfl, fun rest => rfl⟩

/-! ### Texts -/

/-- A character that stands for itself between double quotes. -/
def isPlain (c : Char) : Bool := isPrintable c && c != '"' && c != '\\'

theorem isPlain_eq_true {c : Char} :
    isPlain c = true ↔ isPrintable c = true ∧ c ≠ '"' ∧ c ≠ '\\' := by
  simp [isPlain, and_assoc]

/-- Plain characters are read up to the quote behind them. -/
theorem body_of_plain {content : List Char} (plain : ∀ c ∈ content, isPlain c = true) {fuel : Nat}
    (enough : content.length < fuel) (rest : List Char) :
    Quoting.basic.body fuel (content ++ '"' :: rest) = some (content, rest) := by
  induction content generalizing fuel with
  | nil =>
    obtain ⟨fuel, rfl⟩ := Nat.exists_eq_succ_of_ne_zero (Nat.ne_zero_of_lt enough)
    rfl
  | cons c content ih =>
    obtain ⟨fuel, rfl⟩ := Nat.exists_eq_succ_of_ne_zero (Nat.ne_zero_of_lt enough)
    obtain ⟨printable, quote, escape⟩ := isPlain_eq_true.mp (plain c List.mem_cons_self)
    have tail := ih (fun d mem => plain d (List.mem_cons_of_mem c mem))
      (Nat.lt_of_succ_lt_succ enough)
    have closed : Quoting.basic.close? (c :: (content ++ '"' :: rest)) = none := if_neg quote
    have piece : Quoting.basic.piece (c :: (content ++ '"' :: rest))
        = some ([c], content ++ '"' :: rest) := by
      rw [Quoting.piece, if_neg (fun both => escape both.2), if_pos printable]
    rw [List.cons_append, Quoting.body, closed]
    dsimp only
    rw [piece, Option.bind_eq_bind, Option.bind_some, tail]
    rfl

/-- What is plain opens no text of several lines. -/
theorem after?_quotes_of_plain {content : List Char} (plain : ∀ c ∈ content, isPlain c = true)
    (rest : List Char) :
    after? (List.replicate 3 '"') ('"' :: (content ++ '"' :: '\n' :: rest)) = none := by
  cases content with
  | nil => rfl
  | cons c content =>
    have quote : '"' ≠ c := (isPlain_eq_true.mp (plain c List.mem_cons_self)).2.1.symm
    exact if_neg quote

/-- A text of plain characters is read from between double quotes. -/
theorem reads_text {s : String} (written : s.toList.all isPlain = true) :
    Reads ('"' :: s.toList ++ ['"']) (.text s) := by
  have plain := List.all_eq_true.mp written
  refine ⟨fun rest => ?_, fun rest => rfl⟩
  have enough : s.toList.length < (s.toList ++ '"' :: '\n' :: rest).length + 1 := by
    rw [List.length_append]
    omega
  have body := body_of_plain plain enough ('\n' :: rest)
  have read : text .basic ('"' :: (s.toList ++ '"' :: '\n' :: rest)) = some (s, '\n' :: rest) := by
    have single := after?_append ['"'] (s.toList ++ '"' :: '\n' :: rest)
    rw [List.singleton_append] at single
    have several := after?_quotes_of_plain plain rest
    unfold text
    rw [show Quoting.basic.quote = '"' from rfl, several, single]
    dsimp only
    rw [Option.bind_eq_bind, Option.bind_some, Quoting.read, body, Option.map_some]
    dsimp only
    rw [String.ofList_toList]
  have shape : '"' :: s.toList ++ ['"'] ++ '\n' :: rest
      = '"' :: (s.toList ++ '"' :: '\n' :: rest) := by simp
  rw [shape, item_eq_scalar (by decide) (by decide)]
  exact congrArg (Option.map fun found : String × List Char => (Item.text found.1, found.2)) read

/-! ### Integers -/

section Digits

variable {ds : List Char}

/-- What stands behind a number of digits in a row of digits is a digit or the end of the
line. -/
theorem head?_drop_digits (all : ∀ c ∈ ds, c.isDigit = true) {count : Nat} {rest : List Char}
    (taken : ((ds ++ '\n' :: rest).take count).all Char.isDigit = true) :
    ∀ c ∈ ((ds ++ '\n' :: rest).drop count).head?, c.isDigit = true ∨ c = '\n' := by
  have short : count ≤ ds.length := by
    by_contra long
    have ending : '\n' ∈ (ds ++ '\n' :: rest).take count := by
      rw [List.take_append, List.mem_append]
      right
      obtain ⟨more, behind⟩ :=
        Nat.exists_eq_succ_of_ne_zero (Nat.sub_ne_zero_of_lt (not_le.mp long))
      rw [behind]
      exact List.mem_cons_self
    exact absurd (List.all_eq_true.mp taken '\n' ending) (by decide)
  intro c first
  rw [List.drop_append_of_le_length short, List.head?_append] at first
  rcases Option.or_eq_some_iff.mp first with inside | ⟨-, behind⟩
  · exact .inl (all c (List.mem_of_mem_drop (List.mem_of_mem_head? inside)))
  · exact .inr (Option.some.inj behind).symm

/-- No mark stands behind a number of digits in a row of digits. -/
theorem after?_of_fixed (all : ∀ c ∈ ds, c.isDigit = true) {count low high n : Nat}
    {rest cs : List Char} (read : fixed count low high (ds ++ '\n' :: rest) = some (n, cs))
    (mark : Char) (nondigit : mark.isDigit = false) (inline : mark ≠ '\n') :
    after? [mark] cs = none := by
  unfold fixed at read
  dsimp only at read
  split at read
  next taken =>
    cases read
    have first := head?_drop_digits all taken.2.1
    cases behind : (ds ++ '\n' :: rest).drop count with
    | nil => rfl
    | cons c cs =>
      rw [behind] at first
      refine if_neg ?_
      rintro rfl
      rcases first mark rfl with digit | ending
      · rw [nondigit] at digit
        cases digit
      · exact inline ending
  next => cases read

/-- A row of digits is no date and no time of day. -/
theorem moment_of_digits (all : ∀ c ∈ ds, c.isDigit = true) (rest : List Char) :
    moment (ds ++ '\n' :: rest) = none := by
  have date : date? (ds ++ '\n' :: rest) = none := by
    unfold date?
    cases read : fixed 4 0 9999 (ds ++ '\n' :: rest) with
    | none => rfl
    | some found =>
      have mark := after?_of_fixed all read '-' rfl (by decide)
      simp only [Option.bind_eq_bind, Option.bind_some, mark, Option.bind_none]
  have time : time? (ds ++ '\n' :: rest) = none := by
    unfold time?
    cases read : fixed 2 0 23 (ds ++ '\n' :: rest) with
    | none => rfl
    | some found =>
      have mark := after?_of_fixed all read ':' rfl (by decide)
      simp only [Option.bind_eq_bind, Option.bind_some, mark, Option.bind_none]
  unfold moment
  rw [date, time]
  rfl

end Digits

/-- A number is written without a zero in front, unless it is zero. -/
theorem toDigits_cases (n : Nat) : Nat.toDigits 10 n = ['0']
    ∨ ∃ c cs, Nat.toDigits 10 n = c :: cs ∧ c ≠ '0' := by
  induction n using Nat.strongRecOn with
  | ind n ih =>
    by_cases one : n < 10
    · rw [Nat.toDigits_of_lt_base one]
      have digit : ∀ k < 10, k.digitChar = '0' ∨ k.digitChar ≠ '0' := by decide
      rcases digit n one with zero | other
      · exact .inl (congrArg (fun c => [c]) zero)
      · exact .inr ⟨_, [], rfl, other⟩
    · have front : n / 10 ≠ 0 := by omega
      rw [Nat.toDigits_of_base_le (by decide) (by omega)]
      rcases ih (n / 10) (by omega) with zero | ⟨c, cs, eq, other⟩
      · have value := @Nat.ofDigitChars_ten_toDigits (n / 10)
        rw [zero] at value
        exact absurd value.symm front
      · exact .inr ⟨c, cs ++ [(n % 10).digitChar], by rw [eq, List.cons_append], other⟩

section

variable (n : Nat) (rest : List Char)

theorem all_toDigits : ∀ c ∈ Nat.toDigits 10 n, c.isDigit = true := fun _ mem =>
  Nat.isDigit_of_mem_toDigits (by decide) (by decide) mem

/-- The digits of a number are read up to the end of the line. -/
theorem wholeDigits_toDigits : wholeDigits (Nat.toDigits 10 n ++ '\n' :: rest)
    = some (Nat.toDigits 10 n, '\n' :: rest) := by
  rcases toDigits_cases n with zero | ⟨c, cs, eq, other⟩
  · rw [zero]
    rfl
  · have all := all_toDigits n
    rw [eq] at all ⊢
    have further : ∀ d ∈ cs, d.isDigit = true ∧ d ≠ '_' := by
      intro d mem
      have digit := all d (List.mem_cons_of_mem c mem)
      exact ⟨digit, ne_of_passes digit rfl⟩
    have more : moreDigits Char.isDigit (cs ++ '\n' :: rest) = some (cs, '\n' :: rest) :=
      moreDigits_append further (by simp)
    rw [List.cons_append]
    unfold wholeDigits
    split
    next is => exact absurd (List.cons.inj is).1 other
    next => rw [digits, if_pos (all c List.mem_cons_self), more, Option.map_some]

theorem exists_toDigits : ∃ c cs, Nat.toDigits 10 n = c :: cs ∧ c.isDigit = true := by
  obtain ⟨c, cs, eq⟩ := List.exists_cons_of_ne_nil (@Nat.toDigits_ne_nil n 10)
  exact ⟨c, cs, eq, all_toDigits n c (by rw [eq]; exact List.mem_cons_self)⟩

/-- Digits have no sign in front. -/
theorem splitSign_toDigits : Number.splitSign (Nat.toDigits 10 n ++ '\n' :: rest)
    = (false, Nat.toDigits 10 n ++ '\n' :: rest) := by
  obtain ⟨c, cs, eq, digit⟩ := exists_toDigits n
  rw [eq]
  refine Number.splitSign_of_unsigned fun d first => ?_
  cases first
  exact Number.unsigned_of_isDigit digit

/-- Digits are no float without a point and an exponent. -/
theorem decimalFloat_toDigits : decimalFloat (Nat.toDigits 10 n ++ '\n' :: rest) = none := by
  unfold decimalFloat
  rw [splitSign_toDigits]
  dsimp only
  rw [wholeDigits_toDigits, Option.bind_eq_bind, Option.bind_some]
  rfl

theorem specialFloat_toDigits : specialFloat (Nat.toDigits 10 n ++ '\n' :: rest) = none := by
  unfold specialFloat
  rw [splitSign_toDigits]
  obtain ⟨c, cs, eq, digit⟩ := exists_toDigits n
  have infinity : 'i' ≠ c := (ne_of_passes digit rfl).symm
  have notNumber : 'n' ≠ c := (ne_of_passes digit rfl).symm
  simp [eq, after?, infinity, notNumber]

/-- A number that fits is read from its digits. -/
theorem integer_toDigits (fits : n < 2 ^ 63) :
    integer (Nat.toDigits 10 n ++ '\n' :: rest) = some (Int64.ofNat n, '\n' :: rest) := by
  have decimal : decimalInteger (Nat.toDigits 10 n ++ '\n' :: rest)
      = some (Int64.ofNat n, '\n' :: rest) := by
    have value : fitInt64 (n : Int) = some (Int64.ofNat n) :=
      fitInt64_eq_some_iff.mpr (Int64.toInt_ofNat_of_lt fits)
    unfold decimalInteger
    rw [splitSign_toDigits]
    dsimp only
    rw [wholeDigits_toDigits, Option.bind_eq_bind, Option.bind_some]
    dsimp only
    rw [Number.digitsValue_eq, Nat.ofDigitChars_ten_toDigits, if_neg Bool.false_ne_true, value]
    rfl
  rcases toDigits_cases n with zero | ⟨c, cs, eq, other⟩
  · rw [zero] at decimal ⊢
    exact decimal
  · rw [eq, List.cons_append] at decimal ⊢
    unfold integer
    split
    next is => exact absurd (List.cons.inj is).1 other
    next is => exact absurd (List.cons.inj is).1 other
    next is => exact absurd (List.cons.inj is).1 other
    next => exact decimal

/-- What begins with a digit is a number or a moment. -/
theorem scalar_of_digit {c : Char} (digit : c.isDigit = true) (cs : List Char) :
    scalar (c :: cs) = numeric (c :: cs) := by
  unfold scalar
  split
  next is => exact absurd (List.cons.inj is).1 (ne_of_passes digit rfl)
  next is => exact absurd (List.cons.inj is).1 (ne_of_passes digit rfl)
  next is => exact absurd (List.cons.inj is).1 (ne_of_passes digit rfl)
  next is => exact absurd (List.cons.inj is).1 (ne_of_passes digit rfl)
  next => rfl

/-- A number that fits is read from its decimal text. -/
theorem reads_integer (fits : n < 2 ^ 63) :
    Reads (toString n).toList (.integer (Int64.ofNat n)) := by
  have written : (toString n).toList = Nat.toDigits 10 n := Nat.toList_repr
  obtain ⟨c, cs, eq, digit⟩ := exists_toDigits n
  rw [written]
  constructor
  · intro rest
    have read : numeric (Nat.toDigits 10 n ++ '\n' :: rest)
        = some (.integer (Int64.ofNat n), '\n' :: rest) := by
      rw [numeric, moment_of_digits (all_toDigits n), decimalFloat_toDigits,
        specialFloat_toDigits, integer_toDigits n rest fits]
    rw [eq, List.cons_append] at read ⊢
    rw [item_eq_scalar (ne_of_passes digit rfl) (ne_of_passes digit rfl), scalar_of_digit digit,
      read]
  · intro rest
    rw [eq, List.cons_append]
    exact skipBlanks_of_passes digit rfl rfl _

end

/-! ## Lines -/

/-- An entry as it is written, with the item that its value stands for. -/
structure Entry where
  name : String
  value : List Char
  item : Item

namespace Entry

/-- The line of an entry, with its end. -/
def text (e : Entry) : List Char := e.name.toList ++ ' ' :: '=' :: ' ' :: (e.value ++ ['\n'])

/-- What the line of an entry says. -/
def line (e : Entry) : Line := .entry ⟨[], e.name⟩ e.item

/-- The name of an entry is bare, and its value is read as its item. -/
structure Readable (e : Entry) : Prop where
  named : e.name.toList ≠ []
  bare : ∀ c ∈ e.name.toList, isBare c = true
  reads : Reads e.value e.item

end Entry

namespace Entry.Readable

variable {e : Entry} (readable : e.Readable)

include readable

theorem exists_name : ∃ c cs, e.name.toList = c :: cs ∧ isBare c = true := by
  obtain ⟨c, cs, eq⟩ := List.exists_cons_of_ne_nil readable.named
  exact ⟨c, cs, eq, readable.bare c (by rw [eq]; exact List.mem_cons_self)⟩

/-- A line begins with a character of a name. -/
theorem exists_text : ∃ c cs, e.text = c :: cs ∧ isBare c = true := by
  obtain ⟨c, cs, eq, bare⟩ := readable.exists_name
  exact ⟨c, _, by rw [text, eq, List.cons_append], bare⟩

/-- Nothing is skipped before a name. -/
theorem skipBlanks_name (rest : List Char) :
    skipBlanks (e.name.toList ++ rest) = e.name.toList ++ rest := by
  obtain ⟨c, cs, eq, bare⟩ := readable.exists_name
  rw [eq]
  exact skipBlanks_of_passes bare rfl rfl _

/-- A bare name is read up to the blank behind it. -/
theorem name_read (rest : List Char) :
    Toml.name (e.name.toList ++ ' ' :: rest) = some (e.name, ' ' :: rest) := by
  have taken : (e.name.toList ++ ' ' :: rest).takeWhile isBare = e.name.toList := by
    rw [List.takeWhile_append_of_pos readable.bare]
    exact List.append_nil _
  have left : (e.name.toList ++ ' ' :: rest).dropWhile isBare = ' ' :: rest := by
    rw [List.dropWhile_append_of_pos readable.bare]
    rfl
  obtain ⟨c, cs, eq, bare⟩ := readable.exists_name
  unfold Toml.name
  split
  next is =>
    rw [eq] at is
    exact absurd (List.cons.inj is).1 (ne_of_passes bare rfl)
  next is =>
    rw [eq] at is
    exact absurd (List.cons.inj is).1 (ne_of_passes bare rfl)
  next =>
    dsimp only
    rw [taken, left, if_neg readable.named, String.ofList_toList]

/-- A bare name alone is the key before an equals sign. -/
theorem key_read (rest : List Char) :
    key (e.name.toList ++ ' ' :: '=' :: rest) = some (⟨[], e.name⟩, '=' :: rest) := by
  have one (fuel : Nat) : names (fuel + 1) (e.name.toList ++ ' ' :: '=' :: rest)
      = some ([e.name], '=' :: rest) := by
    rw [names, readable.skipBlanks_name, readable.name_read]
    rfl
  rw [key, one]
  rfl

theorem pair_read (rest : List Char) : pair Toml.item (e.text ++ rest)
    = some ((⟨[], e.name⟩, e.item), '\n' :: rest) := by
  have shape : e.text ++ rest
      = e.name.toList ++ ' ' :: '=' :: ' ' :: (e.value ++ '\n' :: rest) := by
    simp [text]
  have blank : skipBlanks (' ' :: (e.value ++ '\n' :: rest)) = e.value ++ '\n' :: rest :=
    readable.reads.solid rest
  rw [shape, pair, readable.key_read]
  simp only [Option.bind_eq_bind, Option.bind_some, after?, if_true, blank,
    readable.reads.read rest]
  rfl

/-- The line of an entry is read as the entry. -/
theorem line_read (rest : List Char) : Toml.line (e.text ++ rest) = some (some e.line, rest) := by
  obtain ⟨c, cs, eq, bare⟩ := readable.exists_text
  have first : e.text ++ rest = c :: (cs ++ rest) := by rw [eq, List.cons_append]
  unfold Toml.line
  split
  next is => exact absurd (List.cons.inj (first.symm.trans is)).1 (ne_of_passes bare rfl)
  next is => exact absurd (List.cons.inj (first.symm.trans is)).1 (ne_of_passes bare rfl)
  next is => exact absurd (List.cons.inj (first.symm.trans is)).1 (ne_of_passes bare rfl)
  next is => exact absurd (List.cons.inj (first.symm.trans is)).1 (ne_of_passes bare rfl)
  next =>
    rw [readable.pair_read]
    rfl

end Entry.Readable

/-! ## Documents -/

/-- The lines of entries are read one after the other. -/
theorem linesFrom_texts {entries : List Entry} (readable : ∀ e ∈ entries, e.Readable)
    {fuel : Nat} (enough : entries.length < fuel) :
    linesFrom fuel (entries.flatMap Entry.text) = some (entries.map Entry.line) := by
  induction entries generalizing fuel with
  | nil =>
    obtain ⟨fuel, rfl⟩ := Nat.exists_eq_succ_of_ne_zero (Nat.ne_zero_of_lt enough)
    rfl
  | cons e entries ih =>
    obtain ⟨fuel, rfl⟩ := Nat.exists_eq_succ_of_ne_zero (Nat.ne_zero_of_lt enough)
    have head := readable e List.mem_cons_self
    have tail := ih (fun o mem => readable o (List.mem_cons_of_mem e mem))
      (Nat.lt_of_succ_lt_succ enough)
    have blanks : skipBlanks (e.text ++ entries.flatMap Entry.text)
        = e.text ++ entries.flatMap Entry.text := by
      rw [Entry.text, List.append_assoc]
      exact head.skipBlanks_name _
    rw [List.flatMap_cons, linesFrom, blanks]
    split
    next empty =>
      obtain ⟨c, cs, eq, -⟩ := head.exists_text
      rw [eq] at empty
      cases empty
    next =>
      rw [head.line_read, Option.bind_eq_bind, Option.bind_some]
      dsimp only
      rw [tail]
      rfl

/-- The line of an entry has a character at least. -/
theorem length_flatMap_texts (entries : List Entry) :
    entries.length ≤ (entries.flatMap Entry.text).length := by
  induction entries with
  | nil => exact Nat.le_refl _
  | cons e entries ih =>
    have line : 0 < e.text.length := by
      rw [Entry.text, List.length_append]
      exact Nat.add_pos_right _ (Nat.succ_pos _)
    rw [List.flatMap_cons, List.length_append, List.length_cons]
    omega

/-- The lines of a document of entries. -/
theorem lines_texts {entries : List Entry} (readable : ∀ e ∈ entries, e.Readable) :
    lines (String.ofList (entries.flatMap Entry.text)) = some (entries.map Entry.line) := by
  have long : entries.length ≤ (entries.flatMap Entry.text).length := length_flatMap_texts entries
  have mark : ∀ rest, entries.flatMap Entry.text ≠ '\ufeff' :: rest := by
    intro rest is
    cases entries with
    | nil => cases is
    | cons e entries =>
      obtain ⟨c, cs, eq, bare⟩ := (readable e List.mem_cons_self).exists_text
      rw [List.flatMap_cons, eq] at is
      exact ne_of_passes bare rfl (List.cons.inj is).1
  unfold lines
  rw [String.toList_ofList]
  split
  next is => exact absurd is (mark _)
  next => exact linesFrom_texts readable (Nat.lt_succ_of_le long)

/-- An item under a new name comes last. -/
theorem setItem_of_new {name : String} {entries : List (String × Item)}
    (new : name ∉ entries.map Prod.fst) (it : Item) :
    setItem name it entries = entries ++ [(name, it)] := by
  induction entries with
  | nil => rfl
  | cons head rest ih =>
    have other : head.1 ≠ name := fun same => new (same ▸ List.mem_cons_self)
    have later := ih fun mem => new (List.mem_cons_of_mem _ mem)
    rw [setItem, if_neg other, later, List.cons_append]

/-- An entry with a new name is added to the table of the document. -/
theorem add_line {d : Document} (top : d.current = []) {e : Entry}
    (new : e.name ∉ d.entries.map Prod.fst) :
    d.add e.line = some ⟨d.entries ++ [(e.name, e.item)], []⟩ := by
  have absent : OrderedMap.lookup e.name d.entries = none := by
    cases found : OrderedMap.lookup e.name d.entries with
    | none => rfl
    | some it => exact absurd (List.mem_map.mpr ⟨_, OrderedMap.mem_of_lookup found, rfl⟩) new
  have added : addItem ⟨[], e.name⟩ e.item .header d.entries
      = some (d.entries ++ [(e.name, e.item)]) := by
    simp [addItem, within, absent, setItem_of_new new]
  unfold Document.add Entry.line
  simp only [top, within, added, Option.map_some]

/-- Entries with new names are added behind the others. -/
theorem foldlM_add {entries : List Entry} {d : Document} (top : d.current = [])
    (new : (d.entries.map Prod.fst ++ entries.map Entry.name).Nodup) :
    (entries.map Entry.line).foldlM Document.add d
      = some ⟨d.entries ++ entries.map fun e => (e.name, e.item), []⟩ := by
  induction entries generalizing d with
  | nil =>
    rw [List.map_nil, List.map_nil, List.append_nil, ← top]
    rfl
  | cons e entries ih =>
    obtain ⟨-, -, apart⟩ := List.nodup_append.mp new
    have absent : e.name ∉ d.entries.map Prod.fst := fun mem =>
      apart e.name mem e.name List.mem_cons_self rfl
    have later := ih (d := ⟨d.entries ++ [(e.name, e.item)], []⟩) rfl (by simpa using new)
    rw [List.map_cons, List.foldlM_cons, add_line top absent, Option.bind_eq_bind,
      Option.bind_some, later]
    simp

/-- A document of entries is the table of the entries, if no name stands twice. -/
theorem parse?_texts {entries : List Entry} (readable : ∀ e ∈ entries, e.Readable)
    (distinct : (entries.map Entry.name).Nodup) :
    parse? (String.ofList (entries.flatMap Entry.text))
      = some (entries.map fun e => (e.name, e.item)) := by
  have folded := foldlM_add (d := .empty) rfl distinct
  rw [parse?, lines_texts readable, Option.bind_eq_bind, Option.bind_some, folded]
  rfl

end OverloadMachine.Toml
