import OverloadMachine.OrderedMap

/-!
# Trees of settings

What a settings document says: a table of named items, which may be tables
themselves. A table remembers how it came to be, since that decides what may
still be added to it: an inline table is complete, a table with a header takes
no dotted keys from outside, and one that exists only because a table below it
was named may still get a header of its own.
-/

namespace OverloadMachine.Toml

/-- How a table came to be. -/
inductive Origin where
  /-- By the header of a table below it. -/
  | implied
  /-- By a dotted key. -/
  | dotted
  /-- By a header of its own; the whole document counts as such a table. -/
  | header
  /-- Between braces. -/
  | inline
  deriving DecidableEq, Repr

/-- An item of a table. -/
inductive Item where
  | text (s : String)
  | integer (i : Int64)
  | float (x : Float)
  | boolean (b : Bool)
  /-- A date, a time of day or both, as it is written. -/
  | moment (written : String)
  | list (items : List Item)
  | table (origin : Origin) (entries : List (String × Item))
  /-- Tables that share one repeated header, the latest apart. -/
  | tables (latest : List (String × Item)) (earlier : List (List (String × Item)))

/-- A name and the names of the tables on the way to it. -/
structure Path where
  parents : List String
  name : String
  deriving DecidableEq, Repr

/-- Names of a path in order. -/
def Path.names (p : Path) : List String := p.parents ++ [p.name]

/-- Set the item under a name; a new name comes last. -/
def setItem (name : String) (item : Item) : List (String × Item) → List (String × Item)
  | [] => [(name, item)]
  | (k, v) :: rest => if k = name then (name, item) :: rest else (k, v) :: setItem name item rest

/-- Looking up after an item was set. -/
theorem lookup_setItem (name other : String) (item : Item) (entries : List (String × Item)) :
    OrderedMap.lookup other (setItem name item entries)
      = if name = other then some item else OrderedMap.lookup other entries := by
  induction entries with
  | nil => simp [setItem, OrderedMap.lookup]
  | cons head rest ih =>
    obtain ⟨k, v⟩ := head
    by_cases same : k = name
    · by_cases h : name = other <;> simp [setItem, OrderedMap.lookup, same, h]
    · by_cases h : name = other
      · subst h
        simp [setItem, OrderedMap.lookup, same, ih]
      · simp [setItem, OrderedMap.lookup, same, ih, h]

/-- Act on the entries of the table that is reached along some names; tables that
are missing are made. A dotted key does not enter a table with a header, nothing
enters an inline table, and the table that is entered under a repeated header is
the latest one. -/
def within (dotted : Bool) (act : Origin → List (String × Item) → Option (List (String × Item))) :
    List String → Origin → List (String × Item) → Option (List (String × Item))
  | [], origin, entries => act origin entries
  | name :: names, _, entries => do
    let origin := if dotted then Origin.dotted else Origin.implied
    match OrderedMap.lookup name entries with
    | none => return setItem name (.table origin (← within dotted act names origin [])) entries
    | some (.table origin inner) =>
      if origin = .inline ∨ (dotted ∧ origin = .header) then none
      else return setItem name (.table origin (← within dotted act names origin inner)) entries
    | some (.tables latest earlier) =>
      return setItem name (.tables (← within dotted act names .header latest) earlier) entries
    | some _ => none

/-- Add an item under a dotted key. The table that it lands in is one of a dotted
key exactly if the key has parents, and the name must be new there. -/
def addItem (path : Path) (item : Item) :
    Origin → List (String × Item) → Option (List (String × Item)) :=
  within true
    (fun origin entries =>
      if (origin = .dotted) = (path.parents = []) then none
      else match OrderedMap.lookup path.name entries with
        | none => some (setItem path.name item entries)
        | some _ => none)
    path.parents

/-- Begin a table with a header. It may exist already if it was only implied. -/
def openTable (path : Path) (entries : List (String × Item)) : Option (List (String × Item)) :=
  within false
    (fun _ entries =>
      match OrderedMap.lookup path.name entries with
      | none => some (setItem path.name (.table .header []) entries)
      | some (.table .implied inner) => some (setItem path.name (.table .header inner) entries)
      | some _ => none)
    path.parents .header entries

/-- Begin one more of the tables with a repeated header. -/
def openNext (path : Path) (entries : List (String × Item)) : Option (List (String × Item)) :=
  within false
    (fun _ entries =>
      match OrderedMap.lookup path.name entries with
      | none => some (setItem path.name (.tables [] []) entries)
      | some (.tables latest earlier) =>
        some (setItem path.name (.tables [] (latest :: earlier)) entries)
      | some _ => none)
    path.parents .header entries

/-- The inline table of some keys and items. -/
def inlineTable (pairs : List (Path × Item)) : Option Item :=
  (pairs.foldlM (fun entries (path, item) => addItem path item .inline entries) []).map
    (.table .inline)

end OverloadMachine.Toml
