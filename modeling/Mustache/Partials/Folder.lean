import Mustache.Files.Tree
import Mustache.Render

/-!
# Mustache.Partials.Folder

Partials read from the files of a folder. A name may lead into folders inside that folder but
not out of it.
-/

namespace Mustache

/-- A folder of partials and the extension that their files have. -/
structure PartialFolder where
  folder : FilePath
  extension : String
  deriving DecidableEq, Repr

namespace PartialFolder

/-- The file of a partial; `none` for a name that would leave the folder. -/
def pathFor? (partials : PartialFolder) (name : String) : Option FilePath :=
  let path : FilePath := ⟨name⟩
  if path.isContained then some ((partials.folder.join path).withExtension partials.extension)
  else none

/-- The source of a partial. A file that is not there is a missing partial. -/
def source? (files : Files) (partials : PartialFolder) (name : String) :
    Except Error (Option String) :=
  match partials.pathFor? name with
  | none => .ok none
  | some path =>
    match files.readText path with
    | .ok source => .ok (some source)
    | .error .notFound => .ok none
    | .error fault => .error (.partialFailed name (path.text ++ ": " ++ fault.message))

/-- The files of the folder as the partials of an engine. -/
def partials (files : Files) (folder : PartialFolder) : Partials :=
  folder.source? files

end PartialFolder
end Mustache
