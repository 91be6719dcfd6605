import Mustache.Json.Number
import Mustache.Json.Token

/-!
# Mustache.Json.Read

Reading JSON documents from their tokens. Arrays and objects may be nested up to a limit.
-/

namespace Mustache
namespace Json

/-- An array or object that is still open; its parts stand last first. -/
inductive Container where
  | array (items : List Json)
  /-- `name` is that of the member whose value comes next. -/
  | object (members : List (String × Json)) (name : String)

inductive Phase where
  | value
  | valueOrEnd
  | name
  | nameOrEnd
  | colon
  | commaOrEnd
  | done (document : Json)

/-- The containers around the current place, innermost first, and what may come there. -/
structure Reader where
  around : List Container
  phase : Phase

namespace Reader

def bareValue? (text : List Char) : Option Json :=
  if text = "null".toList then some .null
  else if text = "true".toList then some (.bool true)
  else if text = "false".toList then some (.bool false)
  else (Number.read? text).map .number

def deliver (around : List Container) (value : Json) : Reader :=
  match around with
  | [] => ⟨[], .done value⟩
  | .array items :: rest => ⟨.array (value :: items) :: rest, .commaOrEnd⟩
  | .object members name :: rest => ⟨.object ((name, value) :: members) name :: rest, .commaOrEnd⟩

def beginValue (limit : Nat) (around : List Container) : Token → Option Reader
  | .string text => some (deliver around (.string text))
  | .bare text => (bareValue? text).map (deliver around)
  | .openArray => if around.length < limit then some ⟨.array [] :: around, .valueOrEnd⟩ else none
  | .openObject =>
    if around.length < limit then some ⟨.object [] "" :: around, .nameOrEnd⟩ else none
  | _ => none

/-- Reads the token that closes the innermost container. -/
def close (around : List Container) : Token → Option Reader
  | .closeArray =>
    match around with
    | .array items :: rest => some (deliver rest (.array items.reverse))
    | _ => none
  | .closeObject =>
    match around with
    | .object members _ :: rest => some (deliver rest (ofMembers members.reverse))
    | _ => none
  | _ => none

def beginMember (around : List Container) : Token → Option Reader
  | .string name =>
    match around with
    | .object members _ :: rest => some ⟨.object members name :: rest, .colon⟩
    | _ => none
  | _ => none

def next (around : List Container) : Option Reader :=
  match around with
  | .array _ :: _ => some ⟨around, .value⟩
  | .object .. :: _ => some ⟨around, .name⟩
  | [] => none

def step (limit : Nat) (reader : Reader) (token : Token) : Option Reader :=
  match reader.phase with
  | .value => beginValue limit reader.around token
  | .valueOrEnd => close reader.around token <|> beginValue limit reader.around token
  | .name => beginMember reader.around token
  | .nameOrEnd => close reader.around token <|> beginMember reader.around token
  | .colon => if token = .colon then some { reader with phase := .value } else none
  | .commaOrEnd => if token = .comma then next reader.around else close reader.around token
  | .done _ => none

def run (limit : Nat) : Reader → List Token → Option Json
  | reader, [] =>
    match reader.phase with
    | .done document => some document
    | _ => none
  | reader, token :: tokens =>
    match step limit reader token with
    | none => none
    | some reader => run limit reader tokens

end Reader

/-- The document that a text holds, with at most `limit` containers around any place. -/
def read? (limit : Nat) (text : String) : Option Json :=
  match tokens? text with
  | none => none
  | some tokens => Reader.run limit ⟨[], .value⟩ tokens

end Json
end Mustache
