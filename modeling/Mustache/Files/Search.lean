import Mustache.Files.Glob
import Mustache.Files.Tree

/-!
# Mustache.Files.Search

Finding the paths that match a pattern. The pattern is cut at its slashes; each part says which
entries to go on with, in the order of their names.
-/

namespace Mustache
namespace Glob

inductive Part where
  /-- The entry of that name, whatever it is; dots have their meaning in paths. -/
  | entry (name : List Char)
  /-- The entries whose names match. -/
  | entries (atoms : List Atom)
  /-- All folders below, and all that is in them. -/
  | anyDepth
  deriving DecidableEq, Repr

namespace Part

def ofAtoms (atoms : List Atom) : Part :=
  if atoms = [.anyDepth] then .anyDepth
  else
    match literal? atoms with
    | some name => .entry name
    | none => .entries atoms

def covers (part : Part) (name : String) : Bool :=
  match part with
  | .entry own => own = name.toList
  | .entries atoms => Glob.covers atoms name.toList
  | .anyDepth => true

end Part

structure Pattern where
  /-- Whether the pattern starts at the root. -/
  isAbsolute : Bool
  parts : List Part
  /-- Whether only folders match, since the pattern ends in a slash. -/
  foldersOnly : Bool
  deriving DecidableEq, Repr

/-- The texts between the slashes; a slash at the end begins no further one. -/
def pieces (text : List Char) : List (List Char) :=
  let pieces := Text.splitWhere (· == '/') text
  if pieces.getLast? = some [] then pieces.dropLast else pieces

/-- Reads a pattern: first as a whole, then each of its parts. -/
def Pattern.ofText (text : String) : Except Fault Pattern := do
  let cs := text.toList
  let _ ← Glob.ofText cs
  let parts ← (pieces (cs.dropWhile (· == '/'))).mapM Glob.ofText
  return ⟨cs.head? = some '/', parts.map Part.ofAtoms, cs.getLast? = some '/'⟩

/-! ## Searching -/

def Pattern.start (pattern : Pattern) : FilePath :=
  if pattern.isAbsolute then ⟨"/"⟩ else ⟨"."⟩

/-- The path of an entry; in the working folder it is the name alone. -/
def entryPath (folder : FilePath) (name : String) : FilePath :=
  if folder.components = [.current] then ⟨name⟩ else folder.join ⟨name⟩

mutual

/-- Visits an entry and then all that is in it, and collects what the visits find. -/
def collect (visit : FilePath → String → Bool → List FilePath) (path : FilePath) (name : String) :
    Entry → List FilePath
  | .file _ => visit path name false
  | .folder entries => visit path name true ++ collectAll visit path entries

def collectAll (visit : FilePath → String → Bool → List FilePath) (folder : FilePath) :
    List (String × Entry) → List FilePath
  | [] => []
  | (name, entry) :: entries =>
    collect visit (entryPath folder name) name entry ++ collectAll visit folder entries

end

def collectBelow (files : Files) (visit : FilePath → String → Bool → List FilePath)
    (path : FilePath) : List FilePath :=
  match files.entry? path with
  | some (.folder entries) => collectAll visit path entries
  | _ => []

def search (files : Files) (foldersOnly : Bool) : List Part → FilePath → List FilePath
  | [], path => if foldersOnly && !files.isFolder path then [] else [path]
  | .entry name :: parts, path =>
    let next := entryPath path (String.ofList name)
    let found :=
      if name = ['.'] ∨ name = ['.', '.'] then files.isFolder path else files.contains next
    if found then search files foldersOnly parts next else []
  | .entries atoms :: parts, path =>
    match files.entry? path with
    | some (.folder entries) =>
      let dots :=
        if atoms.head? = some (.literal '.') then
          ["..", "."].filter fun name => covers atoms name.toList
        else []
      let names := (entries.map (·.1)).filter fun name => covers atoms name.toList
      dots.flatMap (fun name => search files foldersOnly parts (path.join ⟨name⟩)) ++
        names.flatMap fun name => search files foldersOnly parts (entryPath path name)
    | _ => []
  | [.anyDepth], path =>
    collectBelow files (fun path _ isFolder => if isFolder then [path] else []) path
  | .anyDepth :: .anyDepth :: parts, path => search files foldersOnly (.anyDepth :: parts) path
  | .anyDepth :: part :: parts, path =>
    collectBelow files (fun path name _ =>
      if part.covers name then search files foldersOnly parts path else []) path

def Pattern.paths (files : Files) (pattern : Pattern) : List FilePath :=
  match pattern.parts with
  | [] => []
  | parts => search files pattern.foldersOnly parts pattern.start

end Glob
end Mustache
