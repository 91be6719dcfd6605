import Mustache.Json
import Mustache.Toml.Moment

/-!
# Mustache.Toml

TOML documents, and the JSON documents that say the same.
-/

namespace Mustache

/-- A TOML value; a document is a table. -/
inductive Toml where
  | string (text : String)
  | whole (n : Int)
  | real (value : Binary)
  | bool (flag : Bool)
  | moment (held : Toml.Moment)
  | array (items : List Toml)
  | table (entries : List (String × Toml))
  deriving Inhabited

namespace Toml

/-- The name that stands before the text of a moment in JSON. -/
def momentName : String := "$__toml_private_datetime"

/-- A floating point value in JSON, where only finite ones have a text. -/
def realToJson : Binary → Json
  | .finite negative magnitude => .number (.real negative magnitude)
  | _ => .null

mutual

def toJson : Toml → Json
  | .string text => .string text
  | .whole n => .number (.whole n)
  | .real value => realToJson value
  | .bool flag => .bool flag
  | .moment held => .object [(momentName, .string held.text)]
  | .array items => .array (itemsToJson items)
  | .table entries => .ofMembers (entriesToJson entries)

def itemsToJson : List Toml → List Json
  | [] => []
  | item :: items => toJson item :: itemsToJson items

def entriesToJson : List (String × Toml) → List (String × Json)
  | [] => []
  | (name, value) :: entries => (name, toJson value) :: entriesToJson entries

end

end Toml
end Mustache
