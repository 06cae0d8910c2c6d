import OverloadMachine.Options.Text
import OverloadMachine.Proofs.SettingsFormats

/-!
# Options that were saved

Options are written as four settings, and each is read as what it was written for, whatever the
format is, if that is faithful. Only a limit that no signed 64-bit integer holds cannot be
written, and of what was written only a limit of zero is refused when it is read again.
-/

namespace OverloadMachine.Options

open Toml (Setting Format ArePlain)

/-- Names of the settings of options. -/
def settingNames : List String :=
  ["negation_order", "max_instructions", "strict_contracts", "verify"]

theorem bare_settingNames : ∀ name ∈ settingNames,
    name.toList ≠ [] ∧ name.toList.all Toml.isBare = true := by decide

variable (o : Options)

/-- Nothing in the settings of options needs quotes or escapes. -/
theorem arePlain_settings : ArePlain o.settings where
  named s mem := bare_settingNames s.1 (List.mem_map_of_mem mem)
  texts := by
    have order : o.negationOrder.word.toList.all Toml.isPlain = true := by
      cases o.negationOrder <;> decide
    have limit : (limitSetting o.maxInstructions).content.all Toml.isPlain = true := by
      cases o.maxInstructions with
      | none => decide
      | some n => rfl
    exact List.forall_mem_cons.mpr
      ⟨order, List.forall_mem_cons.mpr ⟨limit, by simp [Setting.content]⟩⟩
  distinct := (by decide : settingNames.Nodup)

/-- The settings fit exactly if the limit does. -/
theorem settings_fit_iff : (∀ s ∈ o.settings, s.2.Fits)
    ↔ ∀ n, o.maxInstructions = some n → (n.toNat : Int) ≤ Int64.maxValue.toInt := by
  have limit : (limitSetting o.maxInstructions).Fits
      ↔ ∀ n, o.maxInstructions = some n → (n.toNat : Int) ≤ Int64.maxValue.toInt := by
    cases o.maxInstructions with
    | none => exact iff_of_true trivial nofun
    | some n => exact ⟨fun fits _ => by rintro ⟨⟩; exact fits, fun fits => fits n rfl⟩
  rw [← limit]
  simp [settings, Setting.Fits]

variable {Item : Type} {format : Format Item}

/-- A limit is read from an item that says it. -/
theorem readLimit_of_taken {item : Item} {limit : Option UInt64}
    (taken : format.Takes item (limitSetting limit)) : readLimit format item = some limit := by
  cases limit with
  | none =>
    obtain ⟨word, number⟩ := taken
    simp [readLimit, word, number]
  | some n =>
    have number : format.unsigned? item = some n := taken
    simp [readLimit, number]

variable {o}

/-- A table that keeps the settings describes the options. -/
theorem ofEntries?_of_keeps {entries : List (String × Item)}
    (keeps : format.Keeps o.settings entries) : ofEntries? format entries = some o := by
  obtain ⟨order, foundOrder, takenOrder⟩ := keeps "negation_order" _ (.head _)
  obtain ⟨limit, foundLimit, takenLimit⟩ := keeps "max_instructions" _ (.tail _ (.head _))
  obtain ⟨strict, foundStrict, takenStrict⟩ :=
    keeps "strict_contracts" _ (.tail _ (.tail _ (.head _)))
  obtain ⟨verify, foundVerify, takenVerify⟩ :=
    keeps "verify" _ (.tail _ (.tail _ (.tail _ (.head _))))
  have readOrder : readOrder format order = some o.negationOrder := by
    have word : format.case? order = some o.negationOrder.word := takenOrder
    rw [readOrder, word]
    exact NegationOrder.ofWord?_word o.negationOrder
  have readStrict : format.flag? strict = some o.strictContracts := takenStrict
  have readVerify : format.flag? verify = some o.verify := takenVerify
  simp [ofEntries?, readEntry, foundOrder, foundLimit, foundStrict, foundVerify, readOrder,
    readLimit_of_taken takenLimit, readStrict, readVerify]

/-- In a faithful format, options can be written exactly if there is no limit or a signed 64-bit
integer holds it. What was written is read as the same options, unless the limit is zero, which
is refused as a setting that makes no sense. -/
theorem saved_options_reload (faithful : format.Faithful) (o : Options) :
    ((o.save? format).isSome
        ↔ ∀ n, o.maxInstructions = some n → (n.toNat : Int) ≤ Int64.maxValue.toInt)
      ∧ ∀ text, o.save? format = some text →
        reload format text
          = if o.maxInstructions = some 0 then .error .invalid else .ok o := by
  have plain := arePlain_settings o
  constructor
  · rw [← settings_fit_iff]
    constructor
    · intro saved s mem
      by_contra unfit
      have rejected := faithful.rejects plain ⟨s, mem, unfit⟩
      rw [save?, rejected] at saved
      cases saved
    · exact faithful.writes plain
  · intro text saved
    obtain ⟨entries, read, keeps⟩ := faithful.reads plain saved
    rw [reload, read, Option.bind_eq_bind, Option.bind_some, ofEntries?_of_keeps keeps]
    by_cases zero : o.maxInstructions = some 0 <;> simp [isValid, zero]

/-- In a settings document, the greatest limit that can be written is read again, the next one
cannot be written, and a limit of zero is refused although it can be. -/
theorem saved_options_reload_limits :
    let o : Options := ⟨.constantFirst, some 9223372036854775807, true, false⟩
    let zero : Options := { o with maxInstructions := some 0 }
    let more : Options := { o with maxInstructions := some 9223372036854775808 }
    Toml.format.Faithful
      ∧ (∃ text, o.render? = some text ∧ parse text = .ok o)
      ∧ (∃ text, zero.render? = some text ∧ parse text = .error .invalid)
      ∧ more.render? = none := by
  intro o zero more
  obtain ⟨writable, reload⟩ := saved_options_reload Toml.format_faithful o
  obtain ⟨writableZero, reloadZero⟩ := saved_options_reload Toml.format_faithful zero
  obtain ⟨writableMore, -⟩ := saved_options_reload Toml.format_faithful more
  refine ⟨Toml.format_faithful, ?_, ?_, Option.not_isSome_iff_eq_none.mp fun some => ?_⟩
  · have there : o.render?.isSome := writable.mpr (by rintro _ ⟨⟩; decide)
    obtain ⟨text, saved⟩ := Option.isSome_iff_exists.mp there
    exact ⟨text, saved, reload text saved⟩
  · have there : zero.render?.isSome := writableZero.mpr (by rintro _ ⟨⟩; decide)
    obtain ⟨text, saved⟩ := Option.isSome_iff_exists.mp there
    exact ⟨text, saved, reloadZero text saved⟩
  · exact absurd (writableMore.mp some _ rfl) (by decide)

end OverloadMachine.Options
