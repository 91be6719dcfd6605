import Mustache.Cli.Fault
import Mustache.Json.Read
import Mustache.Toml.Read

/-!
# Mustache.Cli.Data

Loading the data to render from a file. The extension of the file says how it is read.
-/

namespace Mustache
namespace Cli

inductive DataFormat where
  | json
  | toml
  deriving DecidableEq, Repr

namespace DataFormat

/-- The format that an extension names, in letters of either case. -/
def ofPath? (path : FilePath) : Option DataFormat :=
  match path.extension? with
  | none => none
  | some extension =>
    let extension := extension.map Char.toLower
    if extension = "json" then some .json
    else if extension = "toml" then some .toml
    else none

/-- How many arrays and objects of a JSON document may be open at once. -/
def nestingLimit : Nat := 127

def read? (format : DataFormat) (text : String) : Option Json :=
  match format with
  | .json => Json.read? nestingLimit text
  | .toml => (Toml.read? text).map Toml.toJson

/-- The fault of a file that does not hold a document. -/
def fault (format : DataFormat) (path : FilePath) : DataFault :=
  match format with
  | .json => .badJson path
  | .toml => .badToml path

end DataFormat

/-- Loads the document of a file; without a file it is an empty object. -/
def loadData (files : Files) (path : Option FilePath) : Except DataFault Json :=
  match path with
  | none => .ok (.object [])
  | some path =>
    match DataFormat.ofPath? path with
    | none => .error (.unsupported path)
    | some format =>
      match files.readText path with
      | .error cause => .error (.unreadable path cause)
      | .ok text =>
        match format.read? text with
        | some document => .ok document
        | none => .error (format.fault path)

end Cli
end Mustache
