import OverloadMachine.Instruction

/-!
# Texts of instructions

The text of an instruction is a row of words with one blank between neighbours, and no word
has a blank in it, so the words can be read off the text. The first of them names the opcode,
and the opcode tells whether the last two are an arrow and a target. Of what stands between,
the last two words are the operands, and any words before them are those of a result.
-/

namespace OverloadMachine

/-! ## Words -/

/-- Words without blanks can be read off the text that puts a blank between neighbours. -/
theorem Text.words_eq {ws vs : List String} (some : ws ≠ []) (others : vs ≠ [])
    (solid : ∀ w ∈ ws, ' ' ∉ w.toList) (solids : ∀ v ∈ vs, ' ' ∉ v.toList)
    (same : " ".intercalate ws = " ".intercalate vs) : ws = vs := by
  have one := String.toList_split_intercalate solid
  have other := String.toList_split_intercalate solids
  rw [if_neg some] at one
  rw [if_neg others] at other
  rw [← one, ← other]
  exact congrArg (fun s : String => (s.split ' ').toList.map (·.copy)) same

/-- Numbers are told apart by their digits. -/
theorem toDigits_eq_iff {m n : Nat} : Nat.toDigits 10 m = Nat.toDigits 10 n ↔ m = n := by
  refine ⟨fun same => ?_, congrArg _⟩
  have read := @Nat.ofDigitChars_ten_toDigits m
  rw [same, Nat.ofDigitChars_ten_toDigits] at read
  exact read.symm

/-- No digit is a blank. -/
theorem blank_not_mem_toDigits (n : Nat) : ' ' ∉ Nat.toDigits 10 n := fun mem =>
  absurd (Nat.isDigit_of_mem_toDigits (by decide) (by decide) mem) (by decide)

namespace Opcode

/-- The mnemonic of an opcode names it. -/
theorem ofName?_name (op : Opcode) : ofName? op.name = some op := by
  have key : ∀ x ∈ all, ofName? x.name = some x := by decide
  exact key op (mem_all op)

/-- No mnemonic names two opcodes. -/
theorem name_inj {a b : Opcode} (same : a.name = b.name) : a = b := by
  have named := ofName?_name a
  rw [same, ofName?_name b] at named
  exact (Option.some.inj named).symm

theorem blank_not_mem_name (op : Opcode) : ' ' ∉ op.name.toList := by
  have key : ∀ x ∈ all, ' ' ∉ x.name.toList := by decide
  exact key op (mem_all op)

end Opcode

namespace Operand

/-- Only one descriptor names nothing. -/
theorem isUnused_eq_true {o : Operand} : o.isUnused = true ↔ o = unused := by
  cases o <;> simp [isUnused]

/-- No two descriptors have one text. -/
theorem render_inj {o p : Operand} (same : o.render = p.render) : o = p := by
  replace same := congrArg String.toList same
  cases o <;> cases p <;> simp_all [render, toDigits_eq_iff]

theorem blank_not_mem_render (o : Operand) : ' ' ∉ o.render.toList := by
  cases o <;> simp [render, blank_not_mem_toDigits]

end Operand

/-! ## Instructions -/

namespace Instruction

/-- Words for the result of an instruction: there are none if it has no result. -/
def resultWords (result : Operand) : List String :=
  if result.isUnused then [] else [result.render, "<-"]

/-- Words for the target of an instruction: there are none if it is no jump. -/
def targetWords (opcode : Opcode) (target : UInt32) : List String :=
  if opcode.isJump then ["->", toString target.toNat] else []

/-- Words of the text of an instruction. -/
def words (instr : Instruction) : List String :=
  instr.opcode.name :: (resultWords instr.result
    ++ [instr.op1.render ++ ",", instr.op2.render]
    ++ targetWords instr.opcode instr.target)

/-- The text of an instruction consists of its words. -/
theorem render_eq (instr : Instruction) : instr.render = " ".intercalate instr.words := by
  apply String.toList_inj.mp
  unfold render words resultWords targetWords
  by_cases given : instr.result.isUnused = true <;> by_cases jump : instr.opcode.isJump = true <;>
    simp [given, jump]

theorem blank_not_mem_words (instr : Instruction) : ∀ w ∈ instr.words, ' ' ∉ w.toList := by
  have result : ∀ w ∈ resultWords instr.result, ' ' ∉ w.toList := by
    unfold resultWords
    split <;> simp [Operand.blank_not_mem_render]
  have target : ∀ w ∈ targetWords instr.opcode instr.target, ' ' ∉ w.toList := by
    unfold targetWords
    split <;> simp [blank_not_mem_toDigits]
  intro w mem
  simp only [words, List.mem_cons, List.mem_append, List.not_mem_nil, or_false] at mem
  rcases mem with rfl | (mem | rfl | rfl) | mem
  · exact instr.opcode.blank_not_mem_name
  · exact result w mem
  · simp [Operand.blank_not_mem_render]
  · exact instr.op2.blank_not_mem_render
  · exact target w mem

/-- Results are told apart by their words. -/
theorem resultWords_inj {r s : Operand} (same : resultWords r = resultWords s) : r = s := by
  unfold resultWords at same
  by_cases one : r.isUnused = true <;> by_cases other : s.isUnused = true
  · rw [Operand.isUnused_eq_true.mp one, Operand.isUnused_eq_true.mp other]
  · rw [if_pos one, if_neg other] at same
    cases same
  · rw [if_neg one, if_pos other] at same
    cases same
  · rw [if_neg one, if_neg other] at same
    exact Operand.render_inj (List.cons.inj same).1

/-- The targets of one jump are told apart by their words. -/
theorem targetWords_inj {op : Opcode} {s t : UInt32} (jump : op.isJump = true)
    (same : targetWords op s = targetWords op t) : s = t := by
  rw [targetWords, targetWords, if_pos jump, if_pos jump] at same
  have number := (List.cons.inj (List.cons.inj same).2).1
  have chars := congrArg String.toList number
  rw [Nat.toString_eq_repr, Nat.toString_eq_repr, Nat.toList_repr, Nat.toList_repr] at chars
  exact UInt32.toNat_inj.mp (toDigits_eq_iff.mp chars)

/-- Words that belong to one opcode have as many words for the target. -/
theorem length_targetWords (op : Opcode) (s t : UInt32) :
    (targetWords op s).length = (targetWords op t).length := by
  unfold targetWords
  split <;> rfl

/-- Two instructions have one text exactly if they have the same opcode, the same operands and
the same result, and, if they are jumps, the same target. -/
theorem texts_are_unambiguous (i j : Instruction) : i.render = j.render ↔
    i.opcode = j.opcode ∧ i.op1 = j.op1 ∧ i.op2 = j.op2 ∧ i.result = j.result
      ∧ (i.opcode.isJump = true → i.target = j.target) := by
  constructor
  · intro same
    rw [render_eq, render_eq] at same
    have words := Text.words_eq (List.cons_ne_nil _ _) (List.cons_ne_nil _ _)
      i.blank_not_mem_words j.blank_not_mem_words same
    obtain ⟨name, rest⟩ := List.cons.inj words
    have opcode := Opcode.name_inj name
    rw [← opcode] at rest
    -- The opcode settles how many words the target has, so the operands stand at one place.
    obtain ⟨front, target⟩ := List.append_inj' rest (length_targetWords i.opcode _ _)
    obtain ⟨result, operands⟩ := List.append_inj' front rfl
    obtain ⟨first, operands⟩ := List.cons.inj operands
    obtain ⟨second, -⟩ := List.cons.inj operands
    exact ⟨opcode, Operand.render_inj ((String.append_left_inj _).mp first),
      Operand.render_inj second, resultWords_inj result, fun jump => targetWords_inj jump target⟩
  · rintro ⟨opcode, op1, op2, result, target⟩
    unfold render
    rw [← opcode, ← op1, ← op2, ← result]
    by_cases jump : i.opcode.isJump = true
    · rw [target jump]
    · rw [if_neg jump, if_neg jump]

end Instruction

end OverloadMachine
