import Mustache.Toml

/-!
# Mustache.Toml.Table

Tables as a document builds them up. How a table came to be decides what may still be added to
it: no name is given a value twice, and a table that is complete stays as it is.
-/

namespace Mustache
namespace Toml

inductive Origin where
  /-- It has a header of its own, or is the document. -/
  | header
  /-- A longer header leads through it. -/
  | path
  /-- A dotted name leads through it. -/
  | dotted
  deriving DecidableEq, Repr

/-- What a name stands for. -/
inductive Item where
  | value (held : Toml)
  | table (origin : Origin) (entries : List (String × Item))
  /-- An array of tables, of which only the last one still grows. -/
  | tables (earlier : List (List (String × Item))) (last : List (String × Item))
  deriving Inhabited

/-- The entries of a table; the name given last stands first. -/
abbrev Entries := List (String × Item)

namespace Entries

/-- Puts an item at its place, or before all others if its name is new. -/
def put (name : String) (item : Item) : Entries → Entries
  | [] => [(name, item)]
  | (other, held) :: rest =>
    if name = other then (name, item) :: rest else (other, held) :: put name item rest

/-- Changes the table that a path leads to, with new tables of the given origin where there are
none. Dotted names do not lead into a table that has a header. -/
def within (new : Origin) (change : Origin → Entries → Option Entries) :
    List String → Origin → Entries → Option Entries
  | [], origin, entries => change origin entries
  | name :: path, _, entries =>
    match entries.lookup name with
    | none => (within new change path new []).map fun inner => put name (.table new inner) entries
    | some (.value _) => none
    | some (.table origin inner) =>
      if new = .dotted ∧ origin = .header then none
      else
        (within new change path origin inner).map fun inner => put name (.table origin inner) entries
    | some (.tables earlier last) =>
      (within new change path .header last).map fun last => put name (.tables earlier last) entries

/-- Gives a new name its value. Behind a dotted name the table has to come from dotted names too,
and otherwise must not. -/
def insertLast (name : String) (value : Toml) (behindDots : Bool) (origin : Origin)
    (entries : Entries) : Option Entries :=
  if decide (origin = .dotted) = behindDots ∧ entries.lookup name = none then
    some (put name (.value value) entries)
  else none

def insert (path : List String) (name : String) (value : Toml) :
    Origin → Entries → Option Entries :=
  within .dotted (insertLast name value !path.isEmpty) path

/-- Begins a table with a header. A table that only longer headers lead through keeps its
entries. -/
def openTable (name : String) (_origin : Origin) (entries : Entries) : Option Entries :=
  match entries.lookup name with
  | none => some (put name (.table .header []) entries)
  | some (.table .path inner) => some (put name (.table .header inner) entries)
  | some _ => none

def openElement (name : String) (_origin : Origin) (entries : Entries) : Option Entries :=
  match entries.lookup name with
  | none => some (put name (.tables [] []) entries)
  | some (.tables earlier last) => some (put name (.tables (last :: earlier) []) entries)
  | some _ => none

end Entries

mutual

def Item.toToml : Item → Toml
  | .value held => held
  | .table _ entries => .table (entriesToToml entries)
  | .tables earlier last => .array ((.table (entriesToToml last) :: tablesToToml earlier).reverse)

def entriesToToml : List (String × Item) → List (String × Toml)
  | [] => []
  | (name, item) :: entries => (name, item.toToml) :: entriesToToml entries

def tablesToToml : List (List (String × Item)) → List Toml
  | [] => []
  | entries :: tables => .table (entriesToToml entries) :: tablesToToml tables

end

end Toml
end Mustache
