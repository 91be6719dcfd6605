import Mustache.Json

/-!
# Mustache.Json.Write

JSON documents as text on one line.
-/

namespace Mustache
namespace Json

def escapedChar (c : Char) : List Char :=
  if c = '"' ∨ c = '\\' then ['\\', c]
  else if c.toNat < 0x20 then
    ['\\', 'u', '0', '0', Nat.digitChar (c.toNat / 0x10), Nat.digitChar (c.toNat % 0x10)]
  else [c]

def stringText (text : String) : String :=
  String.ofList ('"' :: text.toList.flatMap escapedChar ++ ['"'])

mutual

def write (written : String) : Json → String
  | .null => written ++ "null"
  | .bool flag => written ++ if flag then "true" else "false"
  | .number n => written ++ n.text
  | .string text => written ++ stringText text
  | .array [] => written ++ "[]"
  | .array (item :: items) => writeItems (write (written ++ "[") item) items ++ "]"
  | .object [] => written ++ "\x7b\x7d"
  | .object ((name, value) :: members) =>
    writeMembers (write (written ++ "\x7b" ++ stringText name ++ ":") value) members ++ "\x7d"

/-- Writes the further items of an array behind a text. -/
def writeItems (written : String) : List Json → String
  | [] => written
  | item :: items => writeItems (write (written ++ ",") item) items

/-- Writes the further members of an object behind a text. -/
def writeMembers (written : String) : List (String × Json) → String
  | [] => written
  | (name, value) :: members =>
    writeMembers (write (written ++ "," ++ stringText name ++ ":") value) members

end

def text (document : Json) : String :=
  write "" document

end Json
end Mustache
