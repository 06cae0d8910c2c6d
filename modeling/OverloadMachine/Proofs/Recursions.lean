import Mathlib.Logic.Function.Iterate
import OverloadMachine.Proofs.Accounting

/-!
# Recursions over values

Truth, texts and the loose order follow handles into cells and fields. Each is given
here by what one call makes of the answers of the calls below it, if they have one. Such
a recursion ends at a value if, unfolded often enough, it no longer matters what the
innermost calls would answer.
-/

namespace OverloadMachine

namespace Heap

/-! ## One call -/

/-- Truth of a value by that of what is below it. -/
def truthStep (h : Heap) (below : Value → Option Bool) : Value → Option Bool
  | .ref cell => below (h.content cell)
  | v => h.truthWithin 0 v

/-- Plain text of a value by that of what is below it. -/
def plainStep (h : Heap) (below : Value → Option String) : Value → Option String
  | .ref cell => below (h.content cell)
  | v => h.plainWithin 0 v

/-- Listing of a value by those of what is below it. -/
def listingStep (h : Heap) (below : Value → String) : Value → String
  | .composite id =>
    match h.composite? id with
    | some c =>
      c.className ++ "#" ++ toString c.count ++ " " ++ listFields below c.fields.entries
    | none => ""
  | .ref cell => "&" ++ below (h.content cell)
  | v => h.listingWithin 0 v

/-- Loose order of two values by those of what is below them. -/
def compareStep (h : Heap) (below : Value → Value → Option (Option Ordering)) :
    Value → Value → Option (Option Ordering)
  | .ref cell, b => below (h.content cell) b
  | a, .ref cell => below a (h.content cell)
  | .composite i, .composite j =>
    if i = j then some (some .eq)
    else match h.composite? i, h.composite? j with
      | some c, some d =>
        if c.className ≠ d.className then some none
        else if c.fields.size ≠ d.fields.size then
          some (some (Ord.compare c.fields.size d.fields.size))
        else Operator.compareFields below c.fields.entries d.fields.entries
      | _, _ => some none
  | a, b => some (Operator.compareScalars h a b)

/-- A comparison is settled by one call, or it asks for the order of what is in a cell on
one side, or for the orders of fields. -/
theorem compareStep_cases (h : Heap) (v w : Value) :
    (∃ order, ∀ below, h.compareStep below v w = some order)
      ∨ (∃ cell, v = .ref cell ∧ ∀ below, h.compareStep below v w = below (h.content cell) w)
      ∨ (∃ cell, w = .ref cell ∧ ∀ below, h.compareStep below v w = below v (h.content cell))
      ∨ ∃ i j c d, v = .composite i ∧ w = .composite j ∧ h.composite? i = some c
        ∧ h.composite? j = some d ∧ ∀ below, h.compareStep below v w
          = Operator.compareFields below c.fields.entries d.fields.entries := by
  cases v with
  | ref cell => exact .inr (.inl ⟨cell, rfl, fun _ => rfl⟩)
  | composite i =>
    cases w with
    | ref cell => exact .inr (.inr (.inl ⟨cell, rfl, fun _ => rfl⟩))
    | composite j =>
      by_cases same : i = j
      · exact .inl ⟨some .eq, fun _ => if_pos same⟩
      cases found : h.composite? i with
      | none => exact .inl ⟨none, fun _ => by rw [compareStep, if_neg same, found]⟩
      | some c =>
        cases found' : h.composite? j with
        | none => exact .inl ⟨none, fun _ => by rw [compareStep, if_neg same, found, found']⟩
        | some d =>
          have fields : ∀ below, h.compareStep below (.composite i) (.composite j) = _ :=
            fun below => by rw [compareStep, if_neg same, found, found']
          dsimp only at fields
          by_cases classes : c.className ≠ d.className
          · exact .inl ⟨none, fun below => (fields below).trans (if_pos classes)⟩
          by_cases sizes : c.fields.size ≠ d.fields.size
          · exact .inl ⟨_, fun below => (fields below).trans
              ((if_neg classes).trans (if_pos sizes))⟩
          · exact .inr (.inr (.inr ⟨i, j, c, d, rfl, rfl, found, found', fun below =>
              (fields below).trans ((if_neg classes).trans (if_neg sizes))⟩))
    | _ => exact .inl ⟨_, fun _ => rfl⟩
  | _ =>
    cases w with
    | ref cell => exact .inr (.inr (.inl ⟨cell, rfl, fun _ => rfl⟩))
    | _ => exact .inl ⟨_, fun _ => rfl⟩

variable {h : Heap} {v w : Value}

theorem truthWithin_eq (h : Heap) (n : Nat) :
    h.truthWithin n = h.truthStep^[n] (h.truthWithin 0) := by
  induction n with
  | zero => rfl
  | succ n ih =>
    rw [Function.iterate_succ_apply', ← ih]
    funext v
    cases v <;> rfl

theorem plainWithin_eq (h : Heap) (n : Nat) :
    h.plainWithin n = h.plainStep^[n] (h.plainWithin 0) := by
  induction n with
  | zero => rfl
  | succ n ih =>
    rw [Function.iterate_succ_apply', ← ih]
    funext v
    cases v <;> rfl

theorem listingWithin_eq (h : Heap) (n : Nat) :
    h.listingWithin n = h.listingStep^[n] (h.listingWithin 0) := by
  induction n with
  | zero => rfl
  | succ n ih =>
    rw [Function.iterate_succ_apply', ← ih]
    funext v
    cases v <;> rfl

theorem compareWithin_eq (h : Heap) (n : Nat) :
    Operator.compareWithin h n = h.compareStep^[n] (Operator.compareWithin h 0) := by
  induction n with
  | zero => rfl
  | succ n ih =>
    rw [Function.iterate_succ_apply', ← ih]
    funext v w
    cases v <;> cases w <;> rfl

/-! ## Depth -/

/-- A recursion from a value into cells and fields makes so many nested calls at most, the
one at the value among them. -/
def EndsWithin (h : Heap) : (calls : Nat) → Value → Prop
  | 0, _ => False
  | calls + 1, .composite id =>
    ∀ c, h.composite? id = some c → ∀ v ∈ c.fields.values, EndsWithin h calls v
  | calls + 1, .ref cell => EndsWithin h calls (h.content cell)
  | _ + 1, _ => True

theorem EndsWithin.mono {n m : Nat} (ends : h.EndsWithin n v) (le : n ≤ m) :
    h.EndsWithin m v := by
  induction n generalizing v m with
  | zero => exact ends.elim
  | succ n ih =>
    obtain ⟨m, rfl⟩ : ∃ k, m = k + 1 := ⟨m - 1, by omega⟩
    have lower : n ≤ m := Nat.le_of_succ_le_succ le
    cases v with
    | composite id => exact fun c found w mem => ih (ends c found w mem) lower
    | ref cell => exact @ih _ m ends lower
    | _ => trivial

/-! ## Recursions end -/

/-- The order of fields is that of the values that are compared. -/
theorem compareFields_congr {below other : Value → Value → Option (Option Ordering)}
    {entries others : List (String × Value)}
    (same : ∀ e ∈ entries, ∀ d ∈ others, below e.2 d.2 = other e.2 d.2) :
    Operator.compareFields below entries others = Operator.compareFields other entries others := by
  induction entries generalizing others with
  | nil => rfl
  | cons e rest ih =>
    cases others with
    | nil => rfl
    | cons d behind =>
      have first := same e List.mem_cons_self d List.mem_cons_self
      have later := ih fun a mem b mem' =>
        same a (List.mem_cons_of_mem e mem) b (List.mem_cons_of_mem d mem')
      rw [Operator.compareFields, Operator.compareFields, first, later]

/-- The listing of fields is that of their values. -/
theorem listFields_congr {below other : Value → String} {entries : List (String × Value)}
    (same : ∀ e ∈ entries, below e.2 = other e.2) :
    listFields below entries = listFields other entries := by
  have each : entries.map (fun e => Text.quote e.1 ++ ": " ++ below e.2)
      = entries.map fun e => Text.quote e.1 ++ ": " ++ other e.2 :=
    List.map_congr_left fun e mem => by rw [same e mem]
  unfold listFields
  rw [each]

theorem truthStep_congr {n : Nat} {below other : Value → Option Bool}
    (same : ∀ v, h.EndsWithin n v → below v = other v) (ends : h.EndsWithin (n + 1) v) :
    h.truthStep below v = h.truthStep other v := by
  cases v with
  | ref cell => exact same _ ends
  | _ => rfl

theorem plainStep_congr {n : Nat} {below other : Value → Option String}
    (same : ∀ v, h.EndsWithin n v → below v = other v) (ends : h.EndsWithin (n + 1) v) :
    h.plainStep below v = h.plainStep other v := by
  cases v with
  | ref cell => exact same _ ends
  | _ => rfl

theorem listingStep_congr {n : Nat} {below other : Value → String}
    (same : ∀ v, h.EndsWithin n v → below v = other v) (ends : h.EndsWithin (n + 1) v) :
    h.listingStep below v = h.listingStep other v := by
  cases v with
  | ref cell => exact congrArg ("&" ++ ·) (same _ ends)
  | composite id =>
    rw [listingStep, listingStep]
    cases found : h.composite? id with
    | none => rfl
    | some c =>
      have fields : listFields below c.fields.entries = listFields other c.fields.entries :=
        listFields_congr fun e mem => same e.2 (ends c found e.2 (List.mem_map.mpr ⟨e, mem, rfl⟩))
      dsimp only
      rw [fields]
  | _ => rfl

/-- A comparison makes so many nested calls at most: each goes down on one side. -/
def ComparesWithin (h : Heap) (calls : Nat) (v w : Value) : Prop :=
  ∃ n m, h.EndsWithin (n + 1) v ∧ h.EndsWithin (m + 1) w ∧ n + m < calls

theorem compareStep_congr {n : Nat} {below other : Value → Value → Option (Option Ordering)}
    (same : ∀ v w, h.ComparesWithin n v w → below v w = other v w)
    (ends : h.ComparesWithin (n + 1) v w) :
    h.compareStep below v w = h.compareStep other v w := by
  obtain ⟨i, j, left, right, lt⟩ := ends
  have some : ∀ {k u}, h.EndsWithin k u → ∃ m, k = m + 1 := by
    intro k u ends
    cases k with
    | zero => exact ends.elim
    | succ m => exact ⟨m, rfl⟩
  rcases h.compareStep_cases v w with ⟨order, settled⟩ | ⟨cell, rfl, asks⟩ | ⟨cell, rfl, asks⟩
    | ⟨one, two, c, d, rfl, rfl, found, found', asks⟩
  · rw [settled, settled]
  · obtain ⟨i, rfl⟩ := some (k := i) (u := h.content cell) left
    rw [asks, asks]
    exact same _ _ ⟨i, j, left, right, by omega⟩
  · obtain ⟨j, rfl⟩ := some (k := j) (u := h.content cell) right
    rw [asks, asks]
    exact same _ _ ⟨i, j, left, right, by omega⟩
  · rw [asks, asks]
    refine compareFields_congr fun e mem e' mem' => ?_
    have first := left c found e.2 (List.mem_map.mpr ⟨e, mem, rfl⟩)
    have second := right d found' e'.2 (List.mem_map.mpr ⟨e', mem', rfl⟩)
    obtain ⟨i, rfl⟩ := some first
    obtain ⟨j, rfl⟩ := some second
    exact same _ _ ⟨i, j, first, second, by omega⟩

/-- Unfolded as often as a recursion makes nested calls, it has its answer, whatever the
innermost calls would answer. -/
theorem EndsWithin.iterate_eq {β : Type} {step : (Value → β) → Value → β}
    (congr : ∀ {n below other v}, (∀ v, h.EndsWithin n v → below v = other v) →
      h.EndsWithin (n + 1) v → step below v = step other v)
    {n : Nat} (ends : h.EndsWithin n v) (below other : Value → β) :
    step^[n] below v = step^[n] other v := by
  induction n generalizing v with
  | zero => exact ends.elim
  | succ n ih =>
    rw [Function.iterate_succ_apply', Function.iterate_succ_apply']
    exact congr (fun w ends => ih ends) ends

/-- Unfolded as often as a comparison makes nested calls, it has its answer. -/
theorem ComparesWithin.iterate_eq {n : Nat} (ends : h.ComparesWithin n v w)
    (below other : Value → Value → Option (Option Ordering)) :
    h.compareStep^[n] below v w = h.compareStep^[n] other v w := by
  induction n generalizing v w with
  | zero =>
    obtain ⟨i, j, -, -, lt⟩ := ends
    omega
  | succ n ih =>
    rw [Function.iterate_succ_apply', Function.iterate_succ_apply']
    exact compareStep_congr (fun a b ends => ih ends) ends

/-! ## Answers -/

/-- What asks below it for answers and gets them has one. -/
theorem isSome_truthStep {below : Value → Option Bool} (all : ∀ v, (below v).isSome)
    (v : Value) : (h.truthStep below v).isSome := by
  cases v with
  | ref cell => exact all _
  | _ => rfl

theorem isSome_plainStep {below : Value → Option String} (all : ∀ v, (below v).isSome)
    (v : Value) : (h.plainStep below v).isSome := by
  cases v with
  | ref cell => exact all _
  | composite id =>
    dsimp only [plainStep, plainWithin]
    split <;> rfl
  | _ => rfl

theorem isSome_compareFields {below : Value → Value → Option (Option Ordering)}
    (all : ∀ v w, (below v w).isSome) (entries others : List (String × Value)) :
    (Operator.compareFields below entries others).isSome := by
  induction entries generalizing others with
  | nil => rfl
  | cons e rest ih =>
    cases others with
    | nil => rfl
    | cons d behind =>
      rw [Operator.compareFields]
      split
      · split
        · exact ih behind
        · exact all _ _
      · rfl

theorem isSome_compareStep {below : Value → Value → Option (Option Ordering)}
    (all : ∀ v w, (below v w).isSome) (v w : Value) : (h.compareStep below v w).isSome := by
  rcases h.compareStep_cases v w with ⟨order, settled⟩ | ⟨cell, -, asks⟩ | ⟨cell, -, asks⟩
    | ⟨i, j, c, d, -, -, -, -, asks⟩
  · rw [settled]
    rfl
  · rw [asks]
    exact all _ _
  · rw [asks]
    exact all _ _
  · rw [asks]
    exact isSome_compareFields all _ _

/-- Unfolded down to answers, a recursion has an answer. -/
theorem isSome_iterate {α β : Type} {step : (α → Option β) → α → Option β}
    (keeps : ∀ {below}, (∀ a, (below a).isSome) → ∀ a, (step below a).isSome) (answer : β)
    (n : Nat) (a : α) : (step^[n] (fun _ => some answer) a).isSome := by
  induction n generalizing a with
  | zero => rfl
  | succ n ih =>
    rw [Function.iterate_succ_apply']
    exact keeps ih a

/-- Where a recursion makes so many nested calls, truth is found within as many. -/
theorem EndsWithin.isSome_truthWithin {n : Nat} (ends : h.EndsWithin n v) :
    (h.truthWithin n v).isSome := by
  rw [truthWithin_eq, ends.iterate_eq truthStep_congr _ fun _ => some true]
  exact isSome_iterate isSome_truthStep true n v

theorem EndsWithin.isSome_plainWithin {n : Nat} (ends : h.EndsWithin n v) :
    (h.plainWithin n v).isSome := by
  rw [plainWithin_eq, ends.iterate_eq plainStep_congr _ fun _ => some ""]
  exact isSome_iterate isSome_plainStep "" n v

/-- Where a comparison makes so many nested calls, the order is found within as many. -/
theorem ComparesWithin.isSome_compareWithin {n : Nat} (ends : h.ComparesWithin n v w) :
    (Operator.compareWithin h n v w).isSome := by
  rw [compareWithin_eq, ends.iterate_eq _ fun _ _ => some none]
  have answered : ∀ n v w, (h.compareStep^[n] (fun _ _ => some none) v w).isSome := by
    intro n
    induction n with
    | zero => exact fun _ _ => rfl
    | succ n ih =>
      rw [Function.iterate_succ_apply']
      exact isSome_compareStep ih
  exact answered n v w

end Heap

end OverloadMachine
