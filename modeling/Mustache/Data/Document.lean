import Mustache.Data
import Mustache.Json

/-!
# Mustache.Data.Document

JSON documents as host data: null is absent, arrays are sequences and objects are records.
-/

namespace Mustache

mutual

def Data.ofJson {σ : Type} : Json → Data σ
  | .null => .absent
  | .bool flag => .bool flag
  | .number n => .scalar n.text
  | .string text => .string text
  | .array items => .sequence (Data.ofItems items)
  | .object members => .record (Data.ofMembers members) []

def Data.ofItems {σ : Type} : List Json → List (Data σ)
  | [] => []
  | item :: items => Data.ofJson item :: Data.ofItems items

def Data.ofMembers {σ : Type} : List (String × Json) → List (String × Data σ)
  | [] => []
  | (name, value) :: members => (name, Data.ofJson value) :: Data.ofMembers members

end

end Mustache
