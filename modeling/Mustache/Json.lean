import Mustache.Number.Decimal

/-!
# Mustache.Json

JSON documents. Whole numbers of up to 64 bits are kept as they are, all others are floating
point; the members of an object are sorted by name.
-/

namespace Mustache

inductive Json.Number where
  | whole (n : Int)
  | real (negative : Bool) (magnitude : Magnitude)
  deriving DecidableEq, Repr

inductive Json where
  | null
  | bool (flag : Bool)
  | number (n : Json.Number)
  | string (text : String)
  | array (items : List Json)
  | object (members : List (String × Json))
  deriving Inhabited

namespace Json

def Number.text : Number → String
  | .whole n => toString n
  | .real negative magnitude => Notation.document.finiteText .double negative magnitude

/-- Puts a member at its place; a member of the same name gives way to it. -/
def insertMember (name : String) (value : Json) : List (String × Json) → List (String × Json)
  | [] => [(name, value)]
  | (other, held) :: rest =>
    if name < other then (name, value) :: (other, held) :: rest
    else if name = other then (name, value) :: rest
    else (other, held) :: insertMember name value rest

/-- An object from members in any order; of two members of one name the later one counts. -/
def ofMembers (members : List (String × Json)) : Json :=
  .object (members.foldl (fun held (name, value) => insertMember name value held) [])

def member? (name : String) : Json → Option Json
  | .object members => (members.find? fun entry => entry.1 = name).map (·.2)
  | _ => none

end Json
end Mustache
