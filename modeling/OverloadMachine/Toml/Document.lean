import OverloadMachine.Toml.Line

/-!
# Settings documents

The lines of a document build one table from top to bottom. A header moves to
another table, and the entries behind it are added there.
-/

namespace OverloadMachine.Toml

/-- A document, read up to some line. -/
structure Document where
  entries : List (String × Item)
  /-- Names of the table that the next entries are added to. -/
  current : List String

namespace Document

/-- The document without lines. -/
def empty : Document := ⟨[], []⟩

/-- Take one more line. -/
def add (d : Document) : Line → Option Document
  | .entry path item =>
    (within false (addItem path item) d.current .header d.entries).map fun entries =>
      { d with entries := entries }
  | .table path => (openTable path d.entries).map fun entries => ⟨entries, path.names⟩
  | .next path => (openNext path d.entries).map fun entries => ⟨entries, path.names⟩

end Document

/-- The table that a text describes, if it is well formed. -/
def parse? (text : String) : Option (List (String × Item)) := do
  return (← (← lines text).foldlM Document.add .empty).entries

end OverloadMachine.Toml
