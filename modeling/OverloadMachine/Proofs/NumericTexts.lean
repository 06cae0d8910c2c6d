import Mathlib.Computability.RegularExpressions
import Mathlib.Data.List.DropRight
import OverloadMachine.Heap.Text
import OverloadMachine.Proofs.IntegerOperators

/-!
# Texts of numbers

The texts that are numbers, blanks at their ends apart, are those of one regular expression:
an optional sign, digits with an optional fraction or a fraction alone, and an optional
exponent. The texts of a sign and digits alone are integers if their value fits 64 bits, and
all others are floats. What the machine writes for an integer is read as that integer.
-/

namespace OverloadMachine

/-! ## Blanks around a text -/

namespace Text

/-- A text is what is left of another one when the blanks at both ends are taken off. -/
structure Stripped (whole inner : List Char) : Prop where
  between : ∃ before behind, whole = before ++ inner ++ behind
    ∧ (∀ c ∈ before, isBlank c = true) ∧ ∀ c ∈ behind, isBlank c = true
  first : ∀ c ∈ inner.head?, isBlank c = false
  last : ∀ c ∈ inner.getLast?, isBlank c = false

variable {whole inner : List Char}

/-- A text with no blank in front loses nothing there. -/
theorem dropWhile_isBlank_eq_self (first : ∀ c ∈ inner.head?, isBlank c = false) :
    inner.dropWhile isBlank = inner := by
  cases inner with
  | nil => rfl
  | cons c rest => rw [List.dropWhile_cons_of_neg (by rw [first c rfl]; nofun)]

theorem head?_dropWhile_isBlank (cs : List Char) :
    ∀ c ∈ (cs.dropWhile isBlank).head?, isBlank c = false := by
  intro c first
  have kept := List.head?_dropWhile_not isBlank cs
  rw [first] at kept
  exact kept

theorem stripped_trimBlank (whole : List Char) : Stripped whole (trimBlank whole) := by
  have front := List.takeWhile_append_dropWhile (p := isBlank) (l := whole)
  have back := List.rdropWhile_append_rtakeWhile (p := isBlank) (l := whole.dropWhile isBlank)
  constructor
  · refine ⟨whole.takeWhile isBlank, (whole.dropWhile isBlank).rtakeWhile isBlank, ?_,
      fun c mem => List.mem_takeWhile_imp mem, fun c mem => List.mem_rtakeWhile_imp mem⟩
    rw [List.append_assoc]
    exact front.symm.trans (congrArg _ back.symm)
  · intro c first
    refine head?_dropWhile_isBlank whole c ?_
    rw [← back, List.head?_append]
    exact congrArg (Option.or · _) first
  · intro c last
    rw [trimBlank, List.getLast?_reverse] at last
    exact head?_dropWhile_isBlank _ c last

/-- There is only one text that is left. -/
theorem Stripped.eq (stripped : Stripped whole inner) : trimBlank whole = inner := by
  obtain ⟨before, behind, rfl, front, back⟩ := stripped.between
  have first := dropWhile_isBlank_eq_self stripped.first
  have last : inner.reverse.dropWhile isBlank = inner.reverse := by
    refine dropWhile_isBlank_eq_self ?_
    rw [List.head?_reverse]
    exact stripped.last
  rw [trimBlank, List.append_assoc, List.dropWhile_append_of_pos front]
  cases inner with
  | nil =>
    rw [List.nil_append, List.dropWhile_eq_nil_iff.mpr back]
    rfl
  | cons c rest =>
    have kept : (c :: rest ++ behind).dropWhile isBlank = c :: rest ++ behind :=
      dropWhile_isBlank_eq_self stripped.first
    rw [kept, List.reverse_append, List.dropWhile_append_of_pos (by simpa using back), last,
      List.reverse_reverse]

end Text

/-! ## The grammar -/

namespace Number

open RegularExpression

/-- One of some characters. -/
def oneOf (cs : List Char) : RegularExpression Char := (cs.map .char).sum

/-- A text or nothing. -/
def optional (r : RegularExpression Char) : RegularExpression Char := 1 + r

/-- The decimal digits. -/
def decimals : List Char := ['0', '1', '2', '3', '4', '5', '6', '7', '8', '9']

/-- One decimal digit. -/
def digit : RegularExpression Char := oneOf decimals

/-- One digit or more. -/
def digits : RegularExpression Char := digit * digit.star

/-- A sign or nothing. -/
def sign : RegularExpression Char := optional (oneOf ['+', '-'])

/-- The texts of integers. -/
def integer : RegularExpression Char := sign * digits

/-- Digits with an optional fraction, or a fraction alone. -/
def magnitude : RegularExpression Char :=
  digits * optional (oneOf ['.'] * digit.star) + oneOf ['.'] * digits

/-- An exponent or nothing. -/
def exponent : RegularExpression Char := optional (oneOf ['e', 'E'] * sign * digits)

/-- The texts of numbers. -/
def numeral : RegularExpression Char := sign * magnitude * exponent

/-- Value of a text of an optional sign and decimal digits. -/
def integerValue : List Char → Int
  | '-' :: cs => -(Nat.ofDigitChars 10 cs 0 : Int)
  | '+' :: cs => Nat.ofDigitChars 10 cs 0
  | cs => Nat.ofDigitChars 10 cs 0

variable {w cs : List Char} {l : Language Char}

/-- Characters that a regular expression names. -/
def atoms : RegularExpression Char → List Char
  | .zero | .epsilon => []
  | .char c => [c]
  | .plus r t | .comp r t => atoms r ++ atoms t
  | .star r => atoms r

/-- A text consists of characters that its regular expression names. -/
theorem mem_atoms {r : RegularExpression Char} (there : w ∈ r.matches') :
    ∀ c ∈ w, c ∈ atoms r := by
  induction r generalizing w with
  | zero => exact absurd there (Language.notMem_zero w)
  | epsilon =>
    rw [(Language.mem_one w).mp there]
    exact List.forall_mem_nil _
  | char a =>
    rw [Set.mem_singleton_iff.mp there]
    exact fun c mem => mem
  | plus r t first second =>
    intro c mem
    rcases there with there | there
    · exact List.mem_append_left _ (first there c mem)
    · exact List.mem_append_right _ (second there c mem)
  | comp r t first second =>
    obtain ⟨u, inFirst, v, inSecond, rfl⟩ := there
    intro c mem
    rcases List.mem_append.mp mem with mem | mem
    · exact List.mem_append_left _ (first inFirst c mem)
    · exact List.mem_append_right _ (second inSecond c mem)
  | star r each =>
    obtain ⟨parts, rfl, inside⟩ := Language.mem_kstar.mp there
    intro c mem
    obtain ⟨part, isPart, mem⟩ := List.mem_flatten.mp mem
    exact each (inside part isPart) c mem

theorem mem_oneOf {cs : List Char} : w ∈ (oneOf cs).matches' ↔ ∃ c ∈ cs, w = [c] := by
  induction cs with
  | nil =>
    change w ∈ (0 : Language Char) ↔ _
    simp [Language.notMem_zero]
  | cons c rest ih =>
    change w ∈ (char c).matches' + (oneOf rest).matches' ↔ _
    rw [Language.mem_add, ih, List.exists_mem_cons_iff]
    rfl

theorem mem_optional {r : RegularExpression Char} :
    w ∈ (optional r).matches' ↔ w = [] ∨ w ∈ r.matches' := Iff.rfl

theorem mem_decimals {c : Char} : c ∈ decimals ↔ c.isDigit = true := by
  constructor
  · have all : decimals.all Char.isDigit = true := rfl
    exact List.all_eq_true.mp all c
  · intro isDigit
    have all : ∀ k < 10, Char.ofNat (48 + k) ∈ decimals := by decide
    simp only [Char.isDigit, ge_iff_le, Bool.and_eq_true, decide_eq_true_eq,
      UInt32.le_iff_toNat_le] at isDigit
    have lower : 48 ≤ c.toNat := isDigit.1
    have upper : c.toNat ≤ 57 := isDigit.2
    have mem := all (c.toNat - 48) (by omega)
    rwa [Nat.add_sub_cancel' lower, Char.ofNat_toNat] at mem

theorem mem_digit : w ∈ digit.matches' ↔ ∃ c, c.isDigit = true ∧ w = [c] := by
  simp only [digit, mem_oneOf, mem_decimals]

theorem mem_digit_star : w ∈ digit.star.matches' ↔ ∀ c ∈ w, c.isDigit = true := by
  rw [matches'_star, Language.mem_kstar]
  constructor
  · rintro ⟨parts, rfl, each⟩ c mem
    obtain ⟨part, inside, there⟩ := List.mem_flatten.mp mem
    obtain ⟨d, isDigit, rfl⟩ := mem_digit.mp (each part inside)
    rw [List.mem_singleton.mp there]
    exact isDigit
  · intro all
    refine ⟨w.map ([·]), by simp [← List.flatMap_def], ?_⟩
    intro part inside
    obtain ⟨c, mem, rfl⟩ := List.mem_map.mp inside
    exact mem_digit.mpr ⟨c, all c mem, rfl⟩

theorem mem_digits : w ∈ digits.matches' ↔ w ≠ [] ∧ ∀ c ∈ w, c.isDigit = true := by
  rw [digits, matches'_mul, Language.mem_mul]
  constructor
  · rintro ⟨first, one, rest, more, rfl⟩
    obtain ⟨c, isDigit, rfl⟩ := mem_digit.mp one
    exact ⟨nofun, List.forall_mem_cons.mpr ⟨isDigit, mem_digit_star.mp more⟩⟩
  · rintro ⟨some, all⟩
    cases w with
    | nil => exact absurd rfl some
    | cons c rest =>
      rw [List.forall_mem_cons] at all
      exact ⟨[c], mem_digit.mpr ⟨c, all.1, rfl⟩, rest, mem_digit_star.mpr all.2, rfl⟩

/-! ## Reading -/

/-- A text with no sign in front is taken as it is. -/
theorem splitSign_of_unsigned (unsigned : ∀ c ∈ w.head?, c ≠ '+' ∧ c ≠ '-') :
    splitSign w = (false, w) := by
  unfold splitSign
  split
  · exact absurd rfl (unsigned '-' rfl).2
  · exact absurd rfl (unsigned '+' rfl).1
  · rfl

/-- A sign is taken off. -/
theorem mem_sign_mul (unsigned : ∀ w ∈ l, ∀ c ∈ w.head?, c ≠ '+' ∧ c ≠ '-') :
    w ∈ sign.matches' * l ↔ (splitSign w).2 ∈ l := by
  rw [Language.mem_mul]
  constructor
  · rintro ⟨front, signed, rest, there, rfl⟩
    rcases mem_optional.mp signed with rfl | one
    · rw [List.nil_append, splitSign_of_unsigned (unsigned rest there)]
      exact there
    · obtain ⟨c, mem, rfl⟩ := mem_oneOf.mp one
      rcases List.mem_pair.mp mem with rfl | rfl <;> exact there
  · intro there
    unfold splitSign at there
    split at there
    · exact ⟨['-'], mem_optional.mpr (.inr (mem_oneOf.mpr ⟨'-', by decide, rfl⟩)), _, there, rfl⟩
    · exact ⟨['+'], mem_optional.mpr (.inr (mem_oneOf.mpr ⟨'+', by decide, rfl⟩)), _, there, rfl⟩
    · exact ⟨[], mem_optional.mpr (.inl rfl), w, there, rfl⟩

/-- Digits are no signs. -/
theorem unsigned_of_isDigit {c : Char} (isDigit : c.isDigit = true) : c ≠ '+' ∧ c ≠ '-' := by
  constructor <;> rintro rfl <;> cases isDigit

theorem unsigned_digits : ∀ w ∈ digits.matches', ∀ c ∈ w.head?, c ≠ '+' ∧ c ≠ '-' := by
  intro w there c first
  exact unsigned_of_isDigit ((mem_digits.mp there).2 c (List.mem_of_mem_head? first))

/-- The digits in front are taken off up to the last. -/
theorem mem_digit_star_mul (stops : ∀ w ∈ l, ∀ c ∈ w.head?, c.isDigit = false) :
    w ∈ digit.star.matches' * l ↔ w.dropWhile Char.isDigit ∈ l := by
  rw [Language.mem_mul]
  constructor
  · rintro ⟨front, run, rest, there, rfl⟩
    rw [List.dropWhile_append_of_pos (mem_digit_star.mp run)]
    cases rest with
    | nil => exact there
    | cons c rest =>
      rwa [List.dropWhile_cons_of_neg (by rw [stops _ there c rfl]; nofun)]
  · intro there
    exact ⟨w.takeWhile Char.isDigit, mem_digit_star.mpr fun c mem => List.mem_takeWhile_imp mem,
      _, there, List.takeWhile_append_dropWhile⟩

theorem mem_digits_mul (stops : ∀ w ∈ l, ∀ c ∈ w.head?, c.isDigit = false) :
    w ∈ digits.matches' * l
      ↔ w.takeWhile Char.isDigit ≠ [] ∧ w.dropWhile Char.isDigit ∈ l := by
  constructor
  · intro mem
    obtain ⟨front, run, rest, there, rfl⟩ := Language.mem_mul.mp mem
    obtain ⟨some, all⟩ := mem_digits.mp run
    refine ⟨?_, (mem_digit_star_mul stops).mp
      (Language.append_mem_mul (mem_digit_star.mpr all) there)⟩
    rw [List.takeWhile_append_of_pos all]
    exact List.append_ne_nil_of_left_ne_nil some _
  · rintro ⟨some, there⟩
    rw [← List.takeWhile_append_dropWhile (p := Char.isDigit) (l := w)]
    exact Language.append_mem_mul
      (mem_digits.mpr ⟨some, fun c mem => List.mem_takeWhile_imp mem⟩) there

theorem mem_oneOf_mul : w ∈ (oneOf cs).matches' * l ↔ ∃ c ∈ cs, ∃ rest ∈ l, w = c :: rest := by
  rw [Language.mem_mul]
  constructor
  · rintro ⟨front, one, rest, there, rfl⟩
    obtain ⟨c, mem, rfl⟩ := mem_oneOf.mp one
    exact ⟨c, mem, rest, there, rfl⟩
  · rintro ⟨c, mem, rest, there, rfl⟩
    exact ⟨[c], mem_oneOf.mpr ⟨c, mem, rfl⟩, rest, there, rfl⟩

/-- The digits of an integer or an exponent are there, and are digits. -/
theorem mem_digits_iff : w ∈ digits.matches' ↔ ¬(w.isEmpty || !w.all Char.isDigit) = true := by
  rw [mem_digits]
  simp

theorem digitsValue_eq (cs : List Char) : digitsValue cs = Nat.ofDigitChars 10 cs 0 :=
  Nat.ofDigitChars_eq_foldl.symm

theorem integerValue_eq (cs : List Char) : integerValue cs
    = if (splitSign cs).1 then -(digitsValue (splitSign cs).2 : Int)
      else digitsValue (splitSign cs).2 := by
  simp only [digitsValue_eq]
  unfold integerValue
  split
  · rfl
  · rfl
  next unsigned positive =>
    rw [splitSign_of_unsigned]
    · rfl
    · intro c first
      obtain ⟨rest, rfl⟩ := List.head?_eq_some_iff.mp first
      exact ⟨fun is => positive rest (is ▸ rfl), fun is => unsigned rest (is ▸ rfl)⟩

/-- An integer is read off exactly the texts of a sign and digits whose value fits. -/
theorem readInteger?_eq_some_iff {i : Int64} :
    readInteger? cs = some i ↔ cs ∈ integer.matches' ∧ integerValue cs = i.toInt := by
  rw [integer, matches'_mul, mem_sign_mul unsigned_digits, mem_digits_iff, integerValue_eq,
    readInteger?]
  generalize splitSign cs = split
  obtain ⟨negative, run⟩ := split
  dsimp only
  split
  next refused => exact ⟨nofun, fun accepted => absurd refused accepted.1⟩
  next accepted =>
    rw [fitInt64_eq_some_iff, eq_comm]
    exact ⟨fun value => ⟨accepted, value⟩, And.right⟩

theorem mem_exponent : w ∈ exponent.matches' ↔ (readExponent? w).isSome = true := by
  rw [exponent, mem_optional, matches'_mul, matches'_mul, mul_assoc, mem_oneOf_mul]
  cases w with
  | nil => exact ⟨fun _ => rfl, fun _ => .inl rfl⟩
  | cons c rest =>
    have marked : c = 'e' ∨ c = 'E' ↔ c ∈ ['e', 'E'] := List.mem_pair.symm
    rw [readExponent?]
    split
    next is =>
      have followed := mem_sign_mul (w := rest) unsigned_digits
      rw [mem_digits_iff] at followed
      generalize splitSign rest = split at followed ⊢
      obtain ⟨negative, run⟩ := split
      dsimp only at followed ⊢
      split
      next refused =>
        refine ⟨?_, nofun⟩
        rintro (none | ⟨d, -, tail, there, eq⟩)
        · cases none
        · cases eq
          exact absurd refused (followed.mp there)
      next accepted =>
        exact ⟨fun _ => rfl, fun _ => .inr ⟨c, marked.mp is, rest, followed.mpr accepted, rfl⟩⟩
    next is =>
      refine ⟨?_, nofun⟩
      rintro (none | ⟨d, mem, tail, there, eq⟩)
      · cases none
      · cases eq
        exact absurd (marked.mpr mem) is

/-- An exponent begins with its mark. -/
theorem head?_exponent : ∀ w ∈ exponent.matches', ∀ c ∈ w.head?, c = 'e' ∨ c = 'E' := by
  intro w there c first
  rw [exponent, mem_optional, matches'_mul, matches'_mul, mul_assoc, mem_oneOf_mul] at there
  rcases there with rfl | ⟨d, mem, rest, -, rfl⟩
  · cases first
  · cases first
    exact List.mem_pair.mp mem

/-- What comes behind the whole digits of a number: an exponent, or a point, digits and an
exponent. -/
def behindWhole : Language Char :=
  exponent.matches' + (oneOf ['.']).matches' * (digit.star.matches' * exponent.matches')

theorem magnitude_mul_exponent : magnitude.matches' * exponent.matches'
    = digits.matches' * behindWhole
      + (oneOf ['.']).matches' * (digits.matches' * exponent.matches') := by
  simp only [magnitude, optional, behindWhole, matches'_add, matches'_mul, matches'_epsilon,
    add_mul, mul_add, mul_assoc, one_mul]

theorem mem_point_mul : w ∈ (oneOf ['.']).matches' * l ↔ ∃ rest ∈ l, w = '.' :: rest := by
  rw [mem_oneOf_mul]
  simp only [List.mem_singleton, exists_eq_left]

/-- What comes behind a run of digits begins with no digit. -/
theorem stops_exponent : ∀ w ∈ exponent.matches', ∀ c ∈ w.head?, c.isDigit = false := by
  intro w there c first
  rcases head?_exponent w there c first with rfl | rfl <;> rfl

theorem stops_behindWhole : ∀ w ∈ behindWhole, ∀ c ∈ w.head?, c.isDigit = false := by
  rintro w (there | there) c first
  · exact stops_exponent w there c first
  · obtain ⟨rest, -, rfl⟩ := mem_point_mul.mp there
    cases first
    rfl

/-- The text of a number without its sign: digits stand in front of the point or behind it, and
what is left is an exponent. -/
theorem mem_magnitude_mul_exponent : w ∈ magnitude.matches' * exponent.matches' ↔
    (∃ rest, w.dropWhile Char.isDigit = '.' :: rest
      ∧ (w.takeWhile Char.isDigit ≠ [] ∨ rest.takeWhile Char.isDigit ≠ [])
      ∧ rest.dropWhile Char.isDigit ∈ exponent.matches')
    ∨ w.takeWhile Char.isDigit ≠ [] ∧ w.dropWhile Char.isDigit ∈ exponent.matches' := by
  rw [magnitude_mul_exponent, Language.mem_add, mem_digits_mul stops_behindWhole, mem_point_mul,
    behindWhole, Language.mem_add, mem_point_mul]
  constructor
  · rintro (⟨some, there | ⟨rest, there, pointed⟩⟩ | ⟨rest, there, rfl⟩)
    · exact .inr ⟨some, there⟩
    · exact .inl ⟨rest, pointed, .inl some, (mem_digit_star_mul stops_exponent).mp there⟩
    · obtain ⟨some, there⟩ := (mem_digits_mul stops_exponent).mp there
      exact .inl ⟨rest, rfl, .inr some, there⟩
  · rintro (⟨rest, pointed, some, there⟩ | ⟨some, there⟩)
    · by_cases whole : w.takeWhile Char.isDigit = []
      · have parts := List.takeWhile_append_dropWhile (p := Char.isDigit) (l := w)
        rw [whole, List.nil_append, pointed] at parts
        have fraction := some.resolve_left (absurd whole)
        exact .inr ⟨rest, (mem_digits_mul stops_exponent).mpr ⟨fraction, there⟩, parts.symm⟩
      · exact .inl ⟨whole, .inr ⟨rest, (mem_digit_star_mul stops_exponent).mpr there, pointed⟩⟩
    · exact .inl ⟨some, .inl there⟩

/-- Without its sign, a number begins with a digit or a point. -/
theorem unsigned_magnitude : ∀ w ∈ magnitude.matches' * exponent.matches',
    ∀ c ∈ w.head?, c ≠ '+' ∧ c ≠ '-' := by
  intro w there c first
  rw [magnitude_mul_exponent, Language.mem_add, mem_point_mul, Language.mem_mul] at there
  rcases there with ⟨run, all, rest, -, rfl⟩ | ⟨rest, -, rfl⟩
  · cases run with
    | nil => exact absurd rfl (mem_digits.mp all).1
    | cons d more =>
      cases first
      exact unsigned_of_isDigit ((mem_digits.mp all).2 _ List.mem_cons_self)
  · cases first
    decide

/-- A float is read off exactly the texts of the grammar. -/
theorem readFloat?_isSome_iff : (readFloat? cs).isSome = true ↔ cs ∈ numeral.matches' := by
  rw [numeral, matches'_mul, matches'_mul, mul_assoc, mem_sign_mul unsigned_magnitude,
    mem_magnitude_mul_exponent, readFloat?]
  generalize splitSign cs = split
  obtain ⟨negative, body⟩ := split
  dsimp only
  generalize body.takeWhile Char.isDigit = whole
  generalize body.dropWhile Char.isDigit = behind
  simp only [mem_exponent]
  split
  next rest =>
    have stops : readExponent? ('.' :: rest) = none := rfl
    split
    next empty =>
      rw [Bool.and_eq_true, List.isEmpty_iff, List.isEmpty_iff] at empty
      refine ⟨nofun, ?_⟩
      rintro (⟨_, eq, some, -⟩ | ⟨some, -⟩)
      · cases eq
        exact absurd empty (not_and_or.mpr some)
      · exact absurd empty.1 some
    next some =>
      rw [Bool.and_eq_true, List.isEmpty_iff, List.isEmpty_iff] at some
      rw [Option.isSome_map]
      refine ⟨fun read => .inl ⟨rest, rfl, not_and_or.mp some, read⟩, ?_⟩
      rintro (⟨_, eq, -, read⟩ | ⟨-, read⟩)
      · cases eq
        exact read
      · rw [stops] at read
        cases read
  next plain =>
    rw [List.takeWhile_nil, List.isEmpty_nil, Bool.and_true]
    split
    next empty =>
      refine ⟨nofun, ?_⟩
      rintro (⟨rest, eq, -⟩ | ⟨some, -⟩)
      · exact absurd eq (plain rest)
      · exact absurd (List.isEmpty_iff.mp empty) some
    next some =>
      rw [Option.isSome_map]
      refine ⟨fun read => .inr ⟨fun empty => some (List.isEmpty_iff.mpr empty), read⟩, ?_⟩
      rintro (⟨rest, eq, -⟩ | ⟨-, read⟩)
      · exact absurd eq (plain rest)
      · exact read

/-- The filter on characters lets every decimal text through. -/
theorem isNumeric_of_readFloat? {x : Float} (read : readFloat? cs = some x) :
    cs.all isNumeric = true := by
  have there : cs ∈ numeral.matches' := readFloat?_isSome_iff.mp (Option.isSome_of_mem read)
  have clear : (atoms numeral).all isNumeric = true := by decide
  exact List.all_eq_true.mpr fun c mem => List.all_eq_true.mp clear c (mem_atoms there c mem)

/-- The filter on characters keeps every word out. -/
theorem readSpecial?_of_isNumeric (passes : cs.all isNumeric = true) : readSpecial? cs = none := by
  have letters : ∀ c, isNumeric c = true → c.toLower ≠ 'i' ∧ c.toLower ≠ 'n' := by
    have each : (decimals ++ ['+', '-', '.', 'e', 'E']).all
        (fun c => c.toLower != 'i' && c.toLower != 'n') = true := by decide
    intro c numeric
    have named : c ∈ decimals ++ ['+', '-', '.', 'e', 'E'] := by
      rw [List.mem_append, mem_decimals]
      simpa [isNumeric] using numeric
    simpa using List.all_eq_true.mp each c named
  have rest : (splitSign cs).2.all isNumeric = true := by
    unfold splitSign
    split
    · exact (Bool.and_eq_true_iff.mp passes).2
    · exact (Bool.and_eq_true_iff.mp passes).2
    · exact passes
  unfold readSpecial?
  generalize splitSign cs = split at rest ⊢
  obtain ⟨negative, word⟩ := split
  dsimp only
  cases word with
  | nil => simp
  | cons c word =>
    obtain ⟨noI, noN⟩ := letters c (Bool.and_eq_true_iff.mp rest).1
    simp [noI, noN]

/-- The filter on characters and the words are of no account together: a text is read as an
integer or else as a decimal text. -/
theorem parse?_eq (s : String) :
    parse? s = match readInteger? (Text.trimBlank s.toList) with
      | some i => some (int i)
      | none => (readFloat? (Text.trimBlank s.toList)).map float := by
  unfold parse?
  generalize Text.trimBlank s.toList = cs
  dsimp only
  cases cs with
  | nil => rfl
  | cons c rest =>
    rw [List.isEmpty_cons, if_neg Bool.false_ne_true]
    cases readInteger? (c :: rest) with
    | some i => rfl
    | none =>
      by_cases passes : (c :: rest).all isNumeric = true
      · rw [if_pos passes, readAnyFloat?, readSpecial?_of_isNumeric passes, Option.none_or]
      · have refused : readFloat? (c :: rest) = none :=
          Option.eq_none_iff_forall_ne_some.mpr fun x read => passes (isNumeric_of_readFloat? read)
        rw [if_neg passes, refused, Option.map_none]

theorem mem_integer : w ∈ integer.matches' ↔ (splitSign w).2 ∈ digits.matches' := by
  rw [integer, matches'_mul, mem_sign_mul unsigned_digits]

/-- The text of an integer is one of a number. -/
theorem numeral_of_integer (there : w ∈ integer.matches') : w ∈ numeral.matches' := by
  rw [numeral, matches'_mul, matches'_mul, mul_assoc, mem_sign_mul unsigned_magnitude]
  have run := mem_integer.mp there
  have whole : (splitSign w).2 ∈ magnitude.matches' := by
    rw [← List.append_nil (splitSign w).2]
    exact .inl (Language.append_mem_mul run (mem_optional.mpr (.inl rfl)))
  rw [← List.append_nil (splitSign w).2]
  exact Language.append_mem_mul whole (mem_optional.mpr (.inl rfl))

/-! ## Writing -/

theorem toDigits_mem_digits (n : Nat) : Nat.toDigits 10 n ∈ digits.matches' :=
  mem_digits.mpr ⟨Nat.toDigits_ne_nil, fun _ mem =>
    Nat.isDigit_of_mem_toDigits (by decide) (by decide) mem⟩

/-- Decimal text of an integer, read back. -/
theorem toString_mem_integer (n : Int) :
    (toString n).toList ∈ integer.matches' ∧ integerValue (toString n).toList = n := by
  rw [mem_integer, integerValue_eq, digitsValue_eq]
  cases n with
  | ofNat n =>
    have written : (toString (Int.ofNat n)).toList = Nat.toDigits 10 n := Nat.toList_repr
    rw [written, splitSign_of_unsigned (unsigned_digits _ (toDigits_mem_digits n))]
    exact ⟨toDigits_mem_digits n, congrArg Int.ofNat Nat.ofDigitChars_ten_toDigits⟩
  | negSucc n =>
    have written : (toString (Int.negSucc n)).toList = '-' :: Nat.toDigits 10 (n + 1) := by
      rw [← Nat.toList_repr]
      exact String.toList_append
    rw [written]
    refine ⟨toDigits_mem_digits (n + 1), ?_⟩
    exact congrArg (fun k : Nat => -(k : Int)) Nat.ofDigitChars_ten_toDigits

/-- Neither digits nor signs are blank. -/
theorem isBlank_of_mem_integer (there : w ∈ integer.matches') :
    ∀ c ∈ w, Text.isBlank c = false := by
  intro c mem
  have clear : (atoms integer).all (!Text.isBlank ·) = true := rfl
  exact Bool.not_eq_true' _ ▸ List.all_eq_true.mp clear c (mem_atoms there c mem)

/-! ## Texts and numbers -/

/-- What a text is read as, by what stands between its blanks: a number if that is one, the
integer if it is the text of an integer that fits, a float otherwise. -/
structure ReadBetween (s : String) (inner : List Char) : Prop where
  stripped : Text.Stripped s.toList inner
  accepts : (parse? s).isSome = true ↔ inner ∈ numeral.matches'
  integer (n : Int64) :
    parse? s = some (.int n) ↔ inner ∈ integer.matches' ∧ integerValue inner = n.toInt
  float : (∃ x, parse? s = some (.float x)) ↔ inner ∈ numeral.matches'
    ∧ ¬(inner ∈ Number.integer.matches' ∧ -2 ^ 63 ≤ integerValue inner
      ∧ integerValue inner < 2 ^ 63)

section

variable {s : String} {inner : List Char}

theorem parse?_isSome_iff (stripped : Text.Stripped s.toList inner) :
    (parse? s).isSome = true ↔ inner ∈ numeral.matches' := by
  rw [parse?_eq, stripped.eq]
  split
  next i read =>
    exact ⟨fun _ => numeral_of_integer (readInteger?_eq_some_iff.mp read).1, fun _ => rfl⟩
  next => rw [Option.isSome_map, readFloat?_isSome_iff]

theorem parse?_eq_int_iff (stripped : Text.Stripped s.toList inner) {n : Int64} :
    parse? s = some (.int n) ↔ inner ∈ integer.matches' ∧ integerValue inner = n.toInt := by
  rw [parse?_eq, stripped.eq, ← readInteger?_eq_some_iff]
  split
  next i read => rw [read, Option.some.injEq, Option.some.injEq, int.injEq]
  next refused =>
    rw [refused, Option.map_eq_some_iff]
    exact ⟨nofun, nofun⟩

/-- Every text is read by what stands between its blanks. -/
theorem ReadBetween.of_stripped (stripped : Text.Stripped s.toList inner) :
    ReadBetween s inner where
  stripped := stripped
  accepts := parse?_isSome_iff stripped
  integer _ := parse?_eq_int_iff stripped
  float := by
    have accepts := parse?_isSome_iff stripped
    have exact (n : Int64) := parse?_eq_int_iff stripped (n := n)
    match read : parse? s with
    | none =>
      rw [read] at accepts
      exact ⟨nofun, fun there => nomatch accepts.mpr there.1⟩
    | some (.int n) =>
      obtain ⟨whole, value⟩ := (exact n).mp read
      refine ⟨nofun, fun there => absurd ⟨whole, ?_⟩ there.2⟩
      rw [value]
      exact ⟨n.le_toInt, n.toInt_lt⟩
    | some (.float x) =>
      rw [read] at accepts
      refine ⟨fun _ => ⟨accepts.mp rfl, ?_⟩, fun _ => ⟨x, rfl⟩⟩
      rintro ⟨whole, least, greatest⟩
      -- A text of an integer that fits would have been read as that integer.
      have fits := (exact (Int64.ofInt (integerValue inner))).mpr
        ⟨whole, (Int64.toInt_ofInt_of_le least greatest).symm⟩
      cases read.symm.trans fits

end

/-- The texts that are numbers are those of the grammar, and what is written for an integer is
read as that integer whatever blanks stand around it. -/
theorem numbers_are_numerals :
    (∀ s, ∃ inner, ReadBetween s inner) ∧
    ∀ (n : Int64) (before behind : List Char), (∀ c ∈ before, Text.isBlank c = true) →
      (∀ c ∈ behind, Text.isBlank c = true) →
      parse? (String.ofList before ++ intText n ++ String.ofList behind) = some (.int n) := by
  refine ⟨fun s => ⟨_, .of_stripped (Text.stripped_trimBlank s.toList)⟩, ?_⟩
  intro n before behind front back
  obtain ⟨whole, value⟩ := toString_mem_integer n.toInt
  have clear := isBlank_of_mem_integer whole
  have stripped : Text.Stripped
      (String.ofList before ++ intText n ++ String.ofList behind).toList (intText n).toList := by
    refine ⟨⟨before, behind, ?_, front, back⟩, fun c first => ?_, fun c last => ?_⟩
    · rw [String.toList_append, String.toList_append, String.toList_ofList, String.toList_ofList]
    · exact clear c (List.mem_of_mem_head? first)
    · exact clear c (List.mem_of_mem_getLast? last)
  exact (parse?_eq_int_iff stripped).mpr ⟨whole, value⟩

/-- The least integer between an em space and a new line. -/
theorem least_integer_is_read_between_blanks :
    parse? (String.ofList ['\u2003'] ++ intText Int64.minValue ++ String.ofList ['\n'])
      = some (.int Int64.minValue) :=
  numbers_are_numerals.2 Int64.minValue ['\u2003'] ['\n'] (List.forall_mem_singleton.mpr rfl)
    (List.forall_mem_singleton.mpr rfl)

end Number

end OverloadMachine
