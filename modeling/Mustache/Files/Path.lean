import Mustache.Text.Blank

/-!
# Mustache.Files.Path

Paths of files as text. A path is kept as it was written; its components say where it leads,
whatever slashes it was written with.
-/

namespace Mustache

structure FilePath where
  text : String
  deriving DecidableEq, Repr, Inhabited

namespace FilePath

inductive Component where
  | root
  | current
  | parent
  | name (text : String)
  deriving DecidableEq, Repr

/-- The pieces between the slashes, empty ones included. -/
def pieces (path : FilePath) : List (List Char) :=
  Text.splitWhere (· == '/') path.text.toList

/-- Whether the path starts at the root of the file system. -/
def isAbsolute (path : FilePath) : Bool :=
  path.text.toList.head? = some '/'

def endsInSlash (path : FilePath) : Bool :=
  path.text.toList.getLast? = some '/'

namespace Component

/-- The component that a piece stands for; a dot and an empty piece stand for none. -/
def ofPiece? (piece : List Char) : Option Component :=
  if piece = [] ∨ piece = ['.'] then none
  else if piece = ['.', '.'] then some .parent
  else some (.name (String.ofList piece))

def isName : Component → Bool
  | .name _ => true
  | _ => false

end Component

/-- The components of a path. A dot counts only where a path starts with it. -/
def components (path : FilePath) : List Component :=
  let start : List Component :=
    if path.isAbsolute then [.root]
    else if path.pieces.head? = some ['.'] then [.current]
    else []
  start ++ path.pieces.filterMap Component.ofPiece?

/-- Whether the path stays below the folder that it is joined to, having names only. -/
def isContained (path : FilePath) : Bool :=
  path.components.all Component.isName

/-- Puts a path behind a folder; an absolute path stands for itself. -/
def join (folder path : FilePath) : FilePath :=
  if path.isAbsolute then path
  else if folder.text = "" ∨ folder.endsInSlash then ⟨folder.text ++ path.text⟩
  else ⟨folder.text ++ "/" ++ path.text⟩

def name? (path : FilePath) : Option String :=
  match path.components.getLast? with
  | some (.name text) => some text
  | _ => none

/-- What stands behind the last dot of the name; the dot that a name starts with does not
count. -/
def extension? (path : FilePath) : Option String :=
  match path.name? with
  | none => none
  | some name =>
    match (Text.splitWhere (· == '.') name.toList).reverse with
    | last :: before :: more =>
      if before = [] ∧ more = [] then none else some (String.ofList last)
    | _ => none

/-- Adds an extension; the empty one adds nothing. -/
def withExtension (path : FilePath) (extension : String) : FilePath :=
  if extension = "" then path else ⟨path.text ++ "." ++ extension⟩

end FilePath
end Mustache
