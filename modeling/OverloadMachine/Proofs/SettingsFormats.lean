import OverloadMachine.Proofs.PlainSettings
import OverloadMachine.Toml.Writer

/-!
# Faithful formats

A format is faithful to plain settings if it writes those whose numbers a signed 64-bit integer
holds and rejects the others, and if it reads what it has written as a table in which each
setting is found again as what it says. The format of settings documents is faithful.
-/

namespace OverloadMachine.Toml

/-! ## Plain settings -/

namespace Setting

/-- Characters that a setting consists of, where these are given. -/
def content : Setting → List Char
  | .case s | .text s => s.toList
  | .unsigned _ | .flag _ => []

/-- A number of a setting is at most the greatest signed 64-bit integer. -/
def Fits : Setting → Prop
  | .unsigned n => (n.toNat : Int) ≤ Int64.maxValue.toInt
  | _ => True

theorem fits_unsigned_iff {n : UInt64} : (unsigned n).Fits ↔ n.toNat < 2 ^ 63 := by
  rw [Fits, Int64.toInt_maxValue]
  omega

end Setting

/-- Settings with bare names, none of them twice, and texts without anything to escape. -/
structure ArePlain (settings : List (String × Setting)) : Prop where
  named : ∀ s ∈ settings, s.1.toList ≠ [] ∧ s.1.toList.all isBare = true
  texts : ∀ s ∈ settings, s.2.content.all isPlain = true
  distinct : (settings.map Prod.fst).Nodup

theorem ArePlain.tail {s : String × Setting} {settings : List (String × Setting)}
    (plain : ArePlain (s :: settings)) : ArePlain settings :=
  ⟨fun t mem => plain.named t (List.mem_cons_of_mem s mem),
    fun t mem => plain.texts t (List.mem_cons_of_mem s mem), (List.nodup_cons.mp plain.distinct).2⟩

namespace Format

variable {Item : Type} (format : Format Item)

/-- Every setting is found under its name, as an item that is taken for what it says. -/
def Keeps (settings : List (String × Setting)) (entries : List (String × Item)) : Prop :=
  ∀ name setting, (name, setting) ∈ settings →
    ∃ item, OrderedMap.lookup name entries = some item ∧ format.Takes item setting

/-- What is known of a format: truth values, words and signed 64-bit integers are written and
read again, and greater numbers are rejected. -/
structure Faithful : Prop where
  writes {settings : List (String × Setting)} (plain : ArePlain settings)
    (fit : ∀ s ∈ settings, s.2.Fits) : (format.write settings).isSome
  rejects {settings : List (String × Setting)} (plain : ArePlain settings)
    (unfit : ∃ s ∈ settings, ¬s.2.Fits) : format.write settings = none
  reads {settings : List (String × Setting)} {text : String} (plain : ArePlain settings)
    (written : format.write settings = some text) :
    ∃ entries, format.read text = some entries ∧ format.Keeps settings entries

end Format

/-! ## Settings documents -/

/-- A word is the one that its number as an integer gives. -/
theorem ofInt_toNat (n : UInt64) : UInt64.ofInt n.toNat = n := by
  have fits : (n.toNat : Int) < 2 ^ 64 := by exact_mod_cast n.toNat_lt
  rw [UInt64.ofInt, Int.emod_eq_of_lt (Int.natCast_nonneg _) fits, Int.toNat_natCast,
    UInt64.ofNat_toNat]

/-- A setting that can be written is read as an item that is taken for it. -/
theorem Setting.reads_render? {setting : Setting} {value : String}
    (plain : setting.content.all isPlain = true) (written : setting.render? = some value) :
    ∃ it, Reads value.toList it ∧ format.Takes it setting := by
  have quoted (s : String) : ("\"" ++ s ++ "\"").toList = '"' :: s.toList ++ ['"'] := by
    simp
  cases setting with
  | case s =>
    cases written
    rw [quoted]
    exact ⟨.text s, reads_text plain, rfl⟩
  | text s =>
    cases written
    rw [quoted]
    exact ⟨.text s, reads_text plain, rfl, rfl⟩
  | unsigned n =>
    obtain ⟨fits, ⟨⟩⟩ := Option.ite_none_right_eq_some.mp written
    have value : (Int64.ofNat n.toNat).toInt = n.toNat := Int64.toInt_ofNat_of_lt fits
    have taken : Item.unsigned? (.integer (Int64.ofNat n.toNat)) = some n := by
      rw [Item.unsigned?, value, if_pos (Int.natCast_nonneg _), ofInt_toNat]
    exact ⟨_, reads_integer n.toNat fits, taken⟩
  | flag b =>
    cases written
    exact ⟨.boolean b, reads_flag b, rfl⟩

/-- A setting can be written exactly if its number fits. -/
theorem Setting.render?_isSome_iff (setting : Setting) : setting.render?.isSome ↔ setting.Fits := by
  cases setting with
  | unsigned n =>
    rw [fits_unsigned_iff, render?]
    simp
  | case s | text s | flag b => exact iff_of_true rfl trivial

/-- Settings can be written exactly if each of them can. -/
theorem write_isSome_iff (settings : List (String × Setting)) :
    (write settings).isSome ↔ ∀ s ∈ settings, s.2.Fits := by
  induction settings with
  | nil => simp [write]
  | cons s rest ih =>
    rw [List.forall_mem_cons, ← ih, ← s.2.render?_isSome_iff, write]
    cases s.2.render? <;> cases write rest <;> simp

/-- The text of an entry says what a setting does, under the same name. -/
def Entry.Shows (s : String × Setting) (e : Entry) : Prop :=
  e.name = s.1 ∧ format.Takes e.item s.2

/-- What is written are the lines of entries that can be read, one for each setting. -/
theorem exists_entries {settings : List (String × Setting)} (plain : ArePlain settings)
    {text : String} (written : write settings = some text) :
    ∃ entries : List Entry, text = String.ofList (entries.flatMap Entry.text)
      ∧ (∀ e ∈ entries, e.Readable) ∧ List.Forall₂ Entry.Shows settings entries := by
  induction settings generalizing text with
  | nil =>
    cases written
    exact ⟨[], rfl, List.forall_mem_nil _, .nil⟩
  | cons s rest ih =>
    rw [write] at written
    obtain ⟨value, rendered, written⟩ := Option.bind_eq_some_iff.mp written
    obtain ⟨later, writtenLater, ⟨⟩⟩ := Option.bind_eq_some_iff.mp written
    obtain ⟨entries, rfl, readable, shows⟩ := ih plain.tail writtenLater
    obtain ⟨it, reads, taken⟩ :=
      Setting.reads_render? (plain.texts s List.mem_cons_self) rendered
    obtain ⟨named, bare⟩ := plain.named s List.mem_cons_self
    refine ⟨⟨s.1, value.toList, it⟩ :: entries, String.toList_inj.mp ?_,
      List.forall_mem_cons.mpr ⟨⟨named, List.all_eq_true.mp bare, reads⟩, readable⟩,
      .cons ⟨rfl, taken⟩ shows⟩
    simp [Entry.text]

section Shown

variable {settings : List (String × Setting)} {entries : List Entry}

theorem map_name_of_shows (shows : List.Forall₂ Entry.Shows settings entries) :
    entries.map Entry.name = settings.map Prod.fst := by
  induction shows with
  | nil => rfl
  | cons same _ ih => rw [List.map_cons, List.map_cons, same.1, ih]

/-- The table of the entries keeps the settings. -/
theorem keeps_of_shows (shows : List.Forall₂ Entry.Shows settings entries)
    (distinct : (settings.map Prod.fst).Nodup) :
    format.Keeps settings (entries.map fun e => (e.name, e.item)) := by
  induction shows with
  | nil => exact fun _ _ mem => absurd mem List.not_mem_nil
  | @cons s e settings entries same _ ih =>
    obtain ⟨named, taken⟩ := same
    obtain ⟨new, distinct⟩ := List.nodup_cons.mp distinct
    intro name setting mem
    rw [List.map_cons, OrderedMap.lookup, named]
    rcases List.mem_cons.mp mem with rfl | later
    · exact ⟨e.item, if_pos rfl, taken⟩
    · have other : s.1 ≠ name := by
        rintro rfl
        exact new (List.mem_map.mpr ⟨_, later, rfl⟩)
      rw [if_neg other]
      exact ih distinct name setting later

end Shown

/-- The format of settings documents is faithful. -/
theorem format_faithful : format.Faithful where
  writes _ fit := (write_isSome_iff _).mpr fit
  rejects _ unfit := by
    obtain ⟨s, mem, unfit⟩ := unfit
    exact Option.not_isSome_iff_eq_none.mp fun some =>
      unfit ((write_isSome_iff _).mp some s mem)
  reads plain written := by
    obtain ⟨entries, rfl, readable, shows⟩ := exists_entries plain written
    have distinct : (entries.map Entry.name).Nodup := by
      rw [map_name_of_shows shows]
      exact plain.distinct
    exact ⟨_, parse?_texts readable distinct, keeps_of_shows shows plain.distinct⟩

end OverloadMachine.Toml
