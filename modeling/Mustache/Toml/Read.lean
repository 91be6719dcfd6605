import Mustache.Toml.Value

/-!
# Mustache.Toml.Read

Reading TOML documents statement by statement.
-/

namespace Mustache
namespace Toml

/-- A line of a document other than blanks and comments. -/
inductive Statement where
  | header (path : List String) (name : String)
  | element (path : List String) (name : String)
  | pair (path : List String) (name : String) (value : Toml)

def skipText : List Char → List Char → Option (List Char)
  | [], cs => some cs
  | c :: text, cs => (skipChar c cs).bind (skipText text)

/-- Takes the rest of a line off the front, and all blanks and comments after it. -/
def endLine (cs : List Char) : Option (List Char) :=
  let rest := skipBlanks cs
  if rest = [] ∨ (lineBreak? rest).isSome ∨ rest.head? = some '#' then some (skipGap false rest)
  else none

def readHeader (closing : List Char) (cs : List Char) :
    Option ((List String × String) × List Char) :=
  (readKey cs).bind fun (key, after) => (skipText closing after).map fun rest => (key, rest)

def readStatement : Reader Statement
  | '[' :: '[' :: rest =>
    (readHeader [']', ']'] rest).map fun ((path, name), after) => (.element path name, after)
  | '[' :: rest =>
    (readHeader [']'] rest).map fun ((path, name), after) => (.header path name, after)
  | cs =>
    (readPair (readValue (depthLimit - 1)) cs).map fun (((path, name), value), after) =>
      (.pair path name value, after)

def readStatements (cs : List Char) : Option (List Statement) :=
  if cs = [] then some []
  else
    match readStatement cs with
    | none => none
    | some (statement, after) =>
      match endLine after with
      | none => none
      | some rest =>
        if rest.length < cs.length then (readStatements rest).map (statement :: ·) else none
termination_by cs.length

/-- A document up to some statement: its entries, and the path of the table that pairs go to. -/
structure Draft where
  entries : Entries
  current : List String

namespace Draft

def add (draft : Draft) : Statement → Option Draft
  | .header path name =>
    (Entries.within .path (Entries.openTable name) path .header draft.entries).map
      fun entries => ⟨entries, path ++ [name]⟩
  | .element path name =>
    (Entries.within .path (Entries.openElement name) path .header draft.entries).map
      fun entries => ⟨entries, path ++ [name]⟩
  | .pair path name value =>
    (Entries.within .path (Entries.insert path name value) draft.current .header
      draft.entries).map fun entries => { draft with entries }

end Draft

/-- The document that a text holds. A byte order mark may stand before it. -/
def read? (text : String) : Option Toml := do
  let cs := text.toList
  let cs := if cs.head? = some (Char.ofNat 0xFEFF) then cs.drop 1 else cs
  let statements ← readStatements (skipGap false cs)
  let draft ← statements.foldlM Draft.add ⟨[], []⟩
  return .table (entriesToToml draft.entries)

end Toml
end Mustache
