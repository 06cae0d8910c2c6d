/-!
# Ordered maps

A finite map from ordered keys, held as the list of its entries in increasing
order of the keys. Equal maps are equal lists, and reading the entries from left
to right is the order in which they are shown and compared. A number that is
given to every value adds up to a total over the map, and replacing one value
changes the total by the difference.
-/

namespace OverloadMachine

/-- Sum of a number that every element has. -/
def sumOf {α : Type} (weight : α → Nat) : List α → Nat
  | [] => 0
  | a :: as => weight a + sumOf weight as

/-- The sum over two lists, one behind the other. -/
theorem sumOf_append {α : Type} (weight : α → Nat) (as bs : List α) :
    sumOf weight (as ++ bs) = sumOf weight as + sumOf weight bs := by
  induction as with
  | nil => exact (Nat.zero_add _).symm
  | cons a as ih =>
    rw [List.cons_append, sumOf, sumOf, ih, Nat.add_assoc]

/-- The sum is the same in every order. -/
theorem sumOf_perm {α : Type} (weight : α → Nat) {as bs : List α} (perm : as.Perm bs) :
    sumOf weight as = sumOf weight bs := by
  induction perm with
  | nil => rfl
  | cons a _ ih => rw [sumOf, sumOf, ih]
  | swap a b as =>
    simp only [sumOf]
    omega
  | trans _ _ first second => rw [first, second]

/-- A sum is nothing if it sums nothing up. -/
theorem sumOf_eq_zero {α : Type} {weight : α → Nat} {as : List α} :
    sumOf weight as = 0 ↔ ∀ a ∈ as, weight a = 0 := by
  induction as with
  | nil => simp [sumOf]
  | cons a as ih => simp [sumOf, ih]

/-- Keys strictly increase from left to right. -/
def Increasing {κ α : Type} [LT κ] (entries : List (κ × α)) : Prop :=
  entries.Pairwise fun a b => a.1 < b.1

/-- A map from ordered keys to values of a type. -/
structure OrderedMap (κ α : Type) [LT κ] where
  /-- Entries in increasing order of the keys. -/
  entries : List (κ × α)
  /-- No key stands twice, and the order is the order of the keys. -/
  increasing : Increasing entries

namespace OrderedMap

variable {κ α : Type}

section Entries

variable [DecidableEq κ]

/-- Value under a key in a list of entries. -/
def lookup (key : κ) : List (κ × α) → Option α
  | [] => none
  | (k, v) :: rest => if k = key then some v else lookup key rest

/-- What is found after filtering a key out. -/
theorem lookup_filter (key name : κ) (entries : List (κ × α)) :
    lookup name (entries.filter fun e => e.1 != key)
      = if key = name then none else lookup name entries := by
  induction entries with
  | nil => simp [lookup]
  | cons head rest ih =>
    obtain ⟨k, v⟩ := head
    by_cases eq : k = key
    · subst eq
      simp only [bne_self_eq_false, Bool.false_eq_true, not_false_eq_true,
        List.filter_cons_of_neg, ih]
      by_cases h : k = name <;> simp [lookup, h]
    · by_cases h : key = name
      · subst h
        simp [lookup, eq, ih]
      · simp [lookup, eq, ih, h]

/-- What is found is an entry. -/
theorem mem_of_lookup {key : κ} {value : α} {entries : List (κ × α)}
    (h : lookup key entries = some value) : (key, value) ∈ entries := by
  induction entries with
  | nil => simp [lookup] at h
  | cons head rest ih =>
    obtain ⟨k, v⟩ := head
    by_cases eq : k = key
    · simp_all [lookup]
    · exact List.mem_cons_of_mem _ (ih (by simpa [lookup, eq] using h))

variable [LT κ] [LE κ] [Std.LawfulOrderLT κ]

/-- A key below the keys of a list is not found in it. -/
theorem lookup_eq_none {key : κ} {entries : List (κ × α)} (h : ∀ e ∈ entries, key < e.1) :
    lookup key entries = none := by
  cases found : lookup key entries with
  | none => rfl
  | some value => exact absurd (h _ (mem_of_lookup found)) Std.lt_irrefl

/-- An entry of an ordered list is found. -/
theorem lookup_of_mem {key : κ} {value : α} {entries : List (κ × α)} (h : Increasing entries)
    (mem : (key, value) ∈ entries) : lookup key entries = some value := by
  induction entries with
  | nil => simp at mem
  | cons head rest ih =>
    obtain ⟨k, v⟩ := head
    obtain ⟨first, tail⟩ := List.pairwise_cons.mp h
    rcases List.mem_cons.mp mem with eq | mem
    · cases eq
      simp [lookup]
    · have ne : k ≠ key := fun eq => Std.lt_irrefl (eq ▸ first _ mem)
      rw [lookup, if_neg ne]
      exact ih tail mem

/-- Filtering a key out takes the value under it out of the values. -/
theorem values_filter_perm (key : κ) {entries : List (κ × α)} (h : Increasing entries) :
    (((entries.filter fun e => e.1 != key).map (·.2)) ++ (lookup key entries).toList).Perm
      (entries.map (·.2)) := by
  induction entries with
  | nil => simp [lookup]
  | cons head rest ih =>
    obtain ⟨k, v⟩ := head
    obtain ⟨first, tail⟩ := List.pairwise_cons.mp h
    have perm := ih tail
    by_cases eq : k = key
    · subst eq
      rw [lookup_eq_none first] at perm
      simp only [bne_self_eq_false, Bool.false_eq_true, not_false_eq_true,
        List.filter_cons_of_neg, lookup, if_true, List.map_cons, Option.toList]
      simp only [Option.toList, List.append_nil] at perm
      exact (List.perm_append_singleton v _).trans (perm.cons v)
    · have kept : ((k, v).1 != key) = true := by simpa using eq
      simp only [List.filter_cons_of_pos (p := fun e : κ × α => e.1 != key) kept, lookup, eq,
        if_false, List.map_cons, List.cons_append]
      exact perm.cons v

variable [Std.IsLinearOrder κ]

/-- Ordered lists in which the same is found are equal. -/
theorem entries_ext {as bs : List (κ × α)} (ha : Increasing as) (hb : Increasing bs)
    (same : ∀ key, lookup key as = lookup key bs) : as = bs := by
  induction as generalizing bs with
  | nil =>
    cases bs with
    | nil => rfl
    | cons head rest => simpa [lookup] using same head.1
  | cons a as ih =>
    obtain ⟨firstA, tailA⟩ := List.pairwise_cons.mp ha
    have foundA : lookup a.1 bs = some a.2 := by rw [← same]; simp [lookup]
    cases bs with
    | nil => simp [lookup] at foundA
    | cons b bs =>
      obtain ⟨firstB, tailB⟩ := List.pairwise_cons.mp hb
      have foundB : lookup b.1 (a :: as) = some b.2 := by rw [same]; simp [lookup]
      have keys : a.1 = b.1 := by
        rcases Std.lt_trichotomy a.1 b.1 with lt | eq | lt
        · have none : lookup a.1 (b :: bs) = none := lookup_eq_none fun e he => by
            rcases List.mem_cons.mp he with rfl | he
            · exact lt
            · exact Std.lt_trans lt (firstB e he)
          rw [none] at foundA
          cases foundA
        · exact eq
        · have none : lookup b.1 (a :: as) = none := lookup_eq_none fun e he => by
            rcases List.mem_cons.mp he with rfl | he
            · exact lt
            · exact Std.lt_trans lt (firstA e he)
          rw [none] at foundB
          cases foundB
      have values : a.2 = b.2 := by simpa [lookup, keys] using foundA.symm
      have heads : a = b := Prod.ext keys values
      subst heads
      rw [ih tailA tailB fun key => ?_]
      have both := same key
      by_cases eq : a.1 = key
      · subst eq
        rw [lookup_eq_none firstA, lookup_eq_none firstB]
      · simpa [lookup, eq] using both

end Entries

section Order

variable [LT κ] [DecidableLT κ] [DecidableEq κ]

/-- Place an entry, replacing the value under its key. -/
def place (key : κ) (value : α) : List (κ × α) → List (κ × α)
  | [] => [(key, value)]
  | (k, v) :: rest =>
    if key < k then (key, value) :: (k, v) :: rest
    else if k = key then (key, value) :: rest
    else (k, v) :: place key value rest

/-- The entries of a list after placing an entry are the old ones and the new one. -/
theorem mem_place {key : κ} {value : α} {entries : List (κ × α)} {e : κ × α}
    (h : e ∈ place key value entries) : e = (key, value) ∨ e ∈ entries := by
  induction entries with
  | nil => simpa [place] using h
  | cons head rest ih =>
    obtain ⟨k, v⟩ := head
    simp only [place] at h
    split at h
    · simpa using h
    · split at h
      · simp only [List.mem_cons] at h ⊢
        exact h.imp_right Or.inr
      · simp only [List.mem_cons] at h ⊢
        rcases h with h | h
        · exact Or.inr (Or.inl h)
        · exact (ih h).imp_right Or.inr

variable [LE κ] [Std.LawfulOrderLT κ]

/-- What is found after placing an entry. -/
theorem lookup_place (key name : κ) (value : α) (entries : List (κ × α)) :
    lookup name (place key value entries)
      = if key = name then some value else lookup name entries := by
  induction entries with
  | nil => simp [place, lookup]
  | cons head rest ih =>
    obtain ⟨k, v⟩ := head
    by_cases lt : key < k
    · simp [place, lookup, lt]
    · by_cases eq : k = key
      · by_cases h : key = name <;> simp [place, lookup, eq, h, Std.lt_irrefl]
      · by_cases h : key = name
        · subst h
          simp [place, lookup, lt, eq, ih]
        · simp [place, lookup, lt, eq, ih, h]

variable [Std.IsLinearOrder κ]

/-- Placing an entry keeps the order. -/
theorem increasing_place (key : κ) (value : α) {entries : List (κ × α)}
    (h : Increasing entries) : Increasing (place key value entries) := by
  induction entries with
  | nil => simp [place, Increasing]
  | cons head rest ih =>
    obtain ⟨k, v⟩ := head
    obtain ⟨first, tail⟩ := List.pairwise_cons.mp h
    simp only [place]
    split
    · rename_i lt
      refine List.pairwise_cons.mpr ⟨fun e he => ?_, h⟩
      rcases List.mem_cons.mp he with rfl | he
      · exact lt
      · exact Std.lt_trans lt (first e he)
    · rename_i nlt
      split
      · rename_i eq
        subst eq
        exact List.pairwise_cons.mpr ⟨first, tail⟩
      · rename_i ne
        refine List.pairwise_cons.mpr ⟨fun e he => ?_, ih tail⟩
        rcases mem_place he with rfl | he
        · exact Std.lt_of_le_of_ne (Std.not_lt.mp nlt) ne
        · exact first e he

end Order

section Reading

variable [LT κ]

/-- The map without entries. -/
def empty : OrderedMap κ α := ⟨[], List.Pairwise.nil⟩

instance : Inhabited (OrderedMap κ α) := ⟨empty⟩

/-- Number of keys. -/
def size (m : OrderedMap κ α) : Nat := m.entries.length

/-- Keys in increasing order. -/
def keys (m : OrderedMap κ α) : List κ := m.entries.map (·.1)

/-- Values in the order of the keys. -/
def values (m : OrderedMap κ α) : List α := m.entries.map (·.2)

/-- Sum of a number that every value has. -/
def total (weight : α → Nat) (m : OrderedMap κ α) : Nat := sumOf weight m.values

/-- The number of keys is a total. -/
theorem size_eq_total (m : OrderedMap κ α) : m.size = m.total fun _ => 1 := by
  rw [total, values, size]
  induction m.entries with
  | nil => rfl
  | cons head rest ih =>
    rw [List.map_cons, sumOf, List.length_cons, ih, Nat.add_comm]

variable [DecidableEq κ]

/-- Value under a key. -/
def get? (m : OrderedMap κ α) (key : κ) : Option α := lookup key m.entries

/-- Remove a key. -/
def erase (m : OrderedMap κ α) (key : κ) : OrderedMap κ α :=
  ⟨m.entries.filter fun e => e.1 != key, m.increasing.sublist List.filter_sublist⟩

/-- Whether a key is in the map. -/
def contains (m : OrderedMap κ α) (key : κ) : Bool := (m.get? key).isSome

/-- Nothing is found in the empty map. -/
@[simp] theorem get?_empty (name : κ) : (empty : OrderedMap κ α).get? name = none := rfl

/-- Reading after a removal. -/
@[simp] theorem get?_erase (m : OrderedMap κ α) (key name : κ) :
    (m.erase key).get? name = if key = name then none else m.get? name :=
  lookup_filter key name m.entries

variable [LE κ] [Std.LawfulOrderLT κ]

/-- The values are what is found under the keys. -/
theorem mem_values {m : OrderedMap κ α} {a : α} : a ∈ m.values ↔ ∃ key, m.get? key = some a := by
  constructor
  · intro h
    obtain ⟨e, mem, rfl⟩ := List.mem_map.mp h
    exact ⟨e.1, lookup_of_mem m.increasing mem⟩
  · rintro ⟨key, h⟩
    exact List.mem_map.mpr ⟨_, mem_of_lookup h, rfl⟩

/-- The values after a removal and the value that was removed are the old values. -/
theorem values_erase_perm (m : OrderedMap κ α) (key : κ) :
    ((m.erase key).values ++ (m.get? key).toList).Perm m.values :=
  values_filter_perm key m.increasing

/-- Total after a removal: the old value's number goes. -/
theorem total_erase (weight : α → Nat) (m : OrderedMap κ α) (key : κ) :
    (m.erase key).total weight + ((m.get? key).map weight).getD 0 = m.total weight := by
  have sum := sumOf_perm weight (m.values_erase_perm key)
  rw [sumOf_append] at sum
  rw [total, total, ← sum]
  cases m.get? key <;> rfl

/-- Removing a key that is there lowers the number of keys. -/
theorem size_erase_of_get? {m : OrderedMap κ α} {key : κ} {a : α} (h : m.get? key = some a) :
    (m.erase key).size + 1 = m.size := by
  have eq := total_erase (fun _ => 1) m key
  rw [h, ← size_eq_total, ← size_eq_total] at eq
  simpa using eq

variable [Std.IsLinearOrder κ]

/-- Maps in which the same is found are equal. -/
theorem ext_get? {m n : OrderedMap κ α} (same : ∀ key, m.get? key = n.get? key) : m = n := by
  obtain ⟨as, ha⟩ := m
  obtain ⟨bs, hb⟩ := n
  have eq : as = bs := entries_ext ha hb same
  subst eq
  rfl

end Reading

variable [LT κ] [DecidableLT κ] [DecidableEq κ] [LE κ] [Std.LawfulOrderLT κ] [Std.IsLinearOrder κ]

/-- Set the value under a key. -/
def insert (m : OrderedMap κ α) (key : κ) (value : α) : OrderedMap κ α :=
  ⟨place key value m.entries, increasing_place key value m.increasing⟩

/-- Map of a list of entries; under a repeated key the last value stands. -/
def ofList (entries : List (κ × α)) : OrderedMap κ α :=
  entries.foldl (fun m e => m.insert e.1 e.2) empty

/-- Reading after a write. -/
@[simp] theorem get?_insert (m : OrderedMap κ α) (key name : κ) (value : α) :
    (m.insert key value).get? name = if key = name then some value else m.get? name :=
  lookup_place key name value m.entries

/-- Of two writes under one key the second stands. -/
@[simp] theorem insert_insert (m : OrderedMap κ α) (key : κ) (a b : α) :
    (m.insert key a).insert key b = m.insert key b :=
  ext_get? fun name => by by_cases h : key = name <;> simp [h]

/-- Writing what is found changes nothing. -/
theorem insert_of_get? {m : OrderedMap κ α} {key : κ} {a : α} (h : m.get? key = some a) :
    m.insert key a = m :=
  ext_get? fun name => by
    by_cases eq : key = name
    · subst eq
      simp [h]
    · simp [eq]

/-- Writes under two keys may be exchanged. -/
theorem insert_comm (m : OrderedMap κ α) {j k : κ} (ne : j ≠ k) (a b : α) :
    (m.insert j a).insert k b = (m.insert k b).insert j a :=
  ext_get? fun name => by
    by_cases hj : j = name
    · subst hj
      simp [Ne.symm ne]
    · simp [hj]

/-- Placing an entry adds its value and takes the value under its key out. -/
theorem values_place_perm (key : κ) (value : α) {entries : List (κ × α)}
    (h : Increasing entries) :
    (((place key value entries).map (·.2)) ++ (lookup key entries).toList).Perm
      (value :: entries.map (·.2)) := by
  induction entries with
  | nil => simp [place, lookup]
  | cons head rest ih =>
    obtain ⟨k, v⟩ := head
    obtain ⟨first, tail⟩ := List.pairwise_cons.mp h
    have perm := ih tail
    by_cases lt : key < k
    · have absent : lookup key ((k, v) :: rest) = none := lookup_eq_none fun e he => by
        rcases List.mem_cons.mp he with rfl | he
        · exact lt
        · exact Std.lt_trans lt (first e he)
      rw [absent, place, if_pos lt]
      simp
    · by_cases eq : k = key
      · subst eq
        simp only [place, lt, if_false, if_true, lookup, List.map_cons, Option.toList,
          List.cons_append]
        exact (List.perm_append_singleton v _).cons value
      · simp only [place, lt, eq, if_false, lookup, List.map_cons, List.cons_append]
        exact (perm.cons v).trans (List.Perm.swap value v _)

/-- The values after a write and the value before it are the old values and the new one. -/
theorem values_insert_perm (m : OrderedMap κ α) (key : κ) (value : α) :
    ((m.insert key value).values ++ (m.get? key).toList).Perm (value :: m.values) :=
  values_place_perm key value m.increasing

/-- Total after a write: the old value's number goes and the new one's comes. -/
theorem total_insert (weight : α → Nat) (m : OrderedMap κ α) (key : κ) (value : α) :
    (m.insert key value).total weight + ((m.get? key).map weight).getD 0
      = m.total weight + weight value := by
  have sum := sumOf_perm weight (m.values_insert_perm key value)
  rw [sumOf_append, sumOf] at sum
  rw [total, total, Nat.add_comm (sumOf weight m.values), ← sum]
  cases m.get? key <;> rfl

/-- Replacing a value keeps the number of keys. -/
theorem size_insert_of_get? {m : OrderedMap κ α} {key : κ} {a : α} (h : m.get? key = some a)
    (b : α) : (m.insert key b).size = m.size := by
  have eq := total_insert (fun _ => 1) m key b
  rw [h, ← size_eq_total, ← size_eq_total] at eq
  simpa using eq

/-! ## Numbered keys -/

/-- First number beyond the keys. -/
def next (m : OrderedMap Nat α) : Nat := m.keys.foldr (fun key n => max (key + 1) n) 0

/-- Keys are below the number beyond them. -/
theorem lt_foldr_max {keys : List Nat} {key : Nat} (h : key ∈ keys) :
    key < keys.foldr (fun key n => max (key + 1) n) 0 := by
  induction keys with
  | nil => simp at h
  | cons head rest ih =>
    rw [List.foldr_cons]
    rcases List.mem_cons.mp h with rfl | h
    · omega
    · have lt := ih h
      omega

/-- The number beyond the keys is no key. -/
@[simp] theorem get?_next (m : OrderedMap Nat α) : m.get? m.next = none := by
  cases found : m.get? m.next with
  | none => rfl
  | some value =>
    have mem : m.next ∈ m.keys := List.mem_map.mpr ⟨_, mem_of_lookup found, rfl⟩
    exact absurd (lt_foldr_max mem) (Nat.lt_irrefl _)

end OrderedMap

/-- A map from names. -/
abbrev NameMap (α : Type) := OrderedMap String α

end OverloadMachine
