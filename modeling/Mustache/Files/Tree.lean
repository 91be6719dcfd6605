import Mustache.Files.Path
import Mustache.Text.Bytes

/-!
# Mustache.Files.Tree

File systems as trees of folders and files. Reading and creating files follow paths through the
tree and fail for the reasons that a file system gives.
-/

namespace Mustache

/-- A file, or a folder whose entries are sorted by name. -/
inductive Entry where
  | file (octets : List UInt8)
  | folder (entries : List (String × Entry))
  deriving Inhabited

inductive FileFault where
  | notFound
  | notFolder
  | isFolder
  | nameTooLong
  /-- The path holds a NUL character. -/
  | nulInPath
  /-- The file does not hold UTF-8. -/
  | notText
  deriving DecidableEq, Repr

def FileFault.message : FileFault → String
  | .notFound => "No such file or directory (os error 2)"
  | .notFolder => "Not a directory (os error 20)"
  | .isFolder => "Is a directory (os error 21)"
  | .nameTooLong => "File name too long (os error 36)"
  | .nulInPath => "file name contained an unexpected NUL byte"
  | .notText => "stream did not contain valid UTF-8"

namespace Entry

/-- The entries of a folder; a file has none. -/
def entries : Entry → List (String × Entry)
  | .file _ => []
  | .folder entries => entries

def isFolder : Entry → Bool
  | .file _ => false
  | .folder _ => true

/-- Puts an entry at its place; an entry of the same name gives way to it. -/
def insert (name : String) (entry : Entry) : List (String × Entry) → List (String × Entry)
  | [] => [(name, entry)]
  | (other, held) :: rest =>
    if name < other then (name, entry) :: (other, held) :: rest
    else if name = other then (name, entry) :: rest
    else (other, held) :: insert name entry rest

def at? : Entry → List String → Option Entry
  | entry, [] => some entry
  | .file _, _ :: _ => none
  | .folder entries, name :: names =>
    match entries.lookup name with
    | none => none
    | some entry => at? entry names

/-- Puts an entry where the names lead to, in new folders where there are none. -/
def put (here : Entry) (names : List String) (new : Entry) : Entry :=
  match names with
  | [] => new
  | name :: names =>
    let held := (here.entries.lookup name).getD (.folder [])
    .folder (insert name (held.put names new) here.entries)

theorem lookup_insert_self (name : String) (entry : Entry) (entries : List (String × Entry)) :
    (insert name entry entries).lookup name = some entry := by
  induction entries with
  | nil => exact List.lookup_cons_self
  | cons held rest ih =>
    obtain ⟨other, own⟩ := held
    unfold insert
    split
    · exact List.lookup_cons_self
    · split
      · exact List.lookup_cons_self
      · next hne =>
        have hbeq : (name == other) = false := beq_eq_false_iff_ne.2 hne
        rw [List.lookup_cons, hbeq]
        exact ih

theorem lookup_insert_of_ne {name sought : String} (h : sought ≠ name) (entry : Entry)
    (entries : List (String × Entry)) :
    (insert name entry entries).lookup sought = entries.lookup sought := by
  have hname : (sought == name) = false := beq_eq_false_iff_ne.2 h
  induction entries with
  | nil => rw [insert, List.lookup_cons, hname]
  | cons held rest ih =>
    obtain ⟨other, own⟩ := held
    unfold insert
    split
    · rw [List.lookup_cons, hname]
    · split
      · next heq =>
        subst heq
        rw [List.lookup_cons, List.lookup_cons, hname]
      · rw [List.lookup_cons, List.lookup_cons, ih]

end Entry

/-- A file system and the place of the working folder in it. -/
structure Files where
  root : Entry
  current : List String
  deriving Inhabited

namespace Files

def nameLimit : Nat := 255

def pathLimit : Nat := 4095

/-! ## Following paths -/

/-- Goes from the folder that `names` lead to along one piece of a path. The root is its own
parent. -/
def step (files : Files) (names : List String) (piece : List Char) :
    Except FileFault (List String) :=
  match files.root.at? names with
  | some (.folder entries) =>
    if piece = [] ∨ piece = ['.'] then .ok names
    else if piece = ['.', '.'] then .ok names.dropLast
    else if Text.byteSize piece > nameLimit then .error .nameTooLong
    else
      let name := String.ofList piece
      if (entries.lookup name).isSome then .ok (names ++ [name]) else .error .notFound
  | _ => .error .notFolder

/-- Goes along the pieces of a path, from the root or from the working folder. -/
def follow (files : Files) (path : FilePath) (pieces : List (List Char)) :
    Except FileFault (List String) :=
  pieces.foldlM files.step (if path.isAbsolute then [] else files.current)

def checkPath (path : FilePath) : Except FileFault Unit :=
  if path.text.toList.any (· == '\x00') then .error .nulInPath
  else if Text.byteSize path.text.toList > pathLimit then .error .nameTooLong
  else if path.text = "" then .error .notFound
  else .ok ()

/-- The names that a path leads along from the root. -/
def locate (files : Files) (path : FilePath) : Except FileFault (List String) := do
  checkPath path
  files.follow path path.pieces

def entry? (files : Files) (path : FilePath) : Option Entry :=
  match files.locate path with
  | .ok names => files.root.at? names
  | .error _ => none

def contains (files : Files) (path : FilePath) : Bool :=
  (files.entry? path).isSome

def isFolder (files : Files) (path : FilePath) : Bool :=
  (files.entry? path).any Entry.isFolder

def isFile (files : Files) (path : FilePath) : Bool :=
  (files.entry? path).any fun entry => !entry.isFolder

/-! ## Reading and writing -/

def read (files : Files) (path : FilePath) : Except FileFault (List UInt8) := do
  match files.root.at? (← files.locate path) with
  | some (.file octets) => .ok octets
  | some (.folder _) => .error .isFolder
  | none => .error .notFound

def readText (files : Files) (path : FilePath) : Except FileFault String := do
  match Text.ofOctets? (← files.read path) with
  | some text => .ok (String.ofList text)
  | none => .error .notText

/-- Where a file may be created: its folder has to be there, and no folder in its place. -/
def place (files : Files) (path : FilePath) : Except FileFault (List String) := do
  checkPath path
  let named := (path.pieces.reverse.dropWhile List.isEmpty).reverse
  let names ← files.follow path named.dropLast
  match files.root.at? names, named.getLast? with
  | some (.folder entries), some piece =>
    if path.endsInSlash ∨ piece = ['.'] ∨ piece = ['.', '.'] then .error .isFolder
    else if Text.byteSize piece > nameLimit then .error .nameTooLong
    else
      let name := String.ofList piece
      match entries.lookup name with
      | some (.folder _) => .error .isFolder
      | _ => .ok (names ++ [name])
  | some (.folder _), none => .error .isFolder
  | _, _ => .error .notFolder

/-- Puts octets into the file that the names lead to. -/
def put (files : Files) (names : List String) (octets : List UInt8) : Files :=
  { files with root := files.root.put names (.file octets) }

end Files
end Mustache
