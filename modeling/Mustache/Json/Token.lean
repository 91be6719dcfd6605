import Mustache.Text.Digit

/-!
# Mustache.Json.Token

The tokens of a JSON document, found by a lexer that reads one character at a time.
-/

namespace Mustache
namespace Json

inductive Token where
  | openArray
  | closeArray
  | openObject
  | closeObject
  | comma
  | colon
  /-- A literal or a number. -/
  | bare (text : List Char)
  | string (text : String)
  deriving DecidableEq, Repr

namespace Token

def ofPunctuation? (c : Char) : Option Token :=
  if c = '[' then some .openArray
  else if c = ']' then some .closeArray
  else if c = '\x7b' then some .openObject
  else if c = '\x7d' then some .closeObject
  else if c = ',' then some .comma
  else if c = ':' then some .colon
  else none

end Token

/-- Where the lexer is. Characters read so far stand last first. -/
inductive Lexer where
  | between
  | bare (read : List Char)
  | string (read : List Char)
  /-- Behind a backslash. -/
  | escape (read : List Char)
  /-- Inside the number of a character, with `left` digits to come; `high` is the first half of a
  surrogate pair. -/
  | number (read : List Char) (high : Option Nat) (left value : Nat)
  /-- Behind the first half of a surrogate pair. -/
  | half (read : List Char) (high : Nat)
  /-- Behind the backslash that follows the first half of a surrogate pair. -/
  | halfEscape (read : List Char) (high : Nat)

namespace Lexer

def isSpace (c : Char) : Bool :=
  c = ' ' || c = '\n' || c = '\t' || c = '\r'

def shortEscape? (c : Char) : Option Char :=
  if c = '"' ∨ c = '\\' ∨ c = '/' then some c
  else if c = 'b' then some '\x08'
  else if c = 'f' then some '\x0c'
  else if c = 'n' then some '\n'
  else if c = 'r' then some '\r'
  else if c = 't' then some '\t'
  else none

/-- Goes on behind a character given by its number. Halves of surrogate pairs have to come in
pairs. -/
def numbered (read : List Char) (high : Option Nat) (value : Nat) : Option Lexer :=
  match high with
  | some high =>
    if 0xDC00 ≤ value ∧ value < 0xE000 then
      let code := 0x10000 + (high - 0xD800) * 0x400 + (value - 0xDC00)
      some (.string (Char.ofNat code :: read))
    else none
  | none =>
    if 0xD800 ≤ value ∧ value < 0xDC00 then some (.half read value)
    else if 0xDC00 ≤ value ∧ value < 0xE000 then none
    else some (.string (Char.ofNat value :: read))

def first (c : Char) : Lexer × List Token :=
  if isSpace c then (.between, [])
  else if c = '"' then (.string [], [])
  else
    match Token.ofPunctuation? c with
    | some token => (.between, [token])
    | none => (.bare [c], [])

/-- Reads one character and gives the tokens that it completes. -/
def step : Lexer → Char → Option (Lexer × List Token)
  | .between, c => some (first c)
  | .bare read, c =>
    match first c with
    | (.bare _, _) => some (.bare (c :: read), [])
    | (next, tokens) => some (next, .bare read.reverse :: tokens)
  | .string read, c =>
    if c = '"' then some (.between, [.string (String.ofList read.reverse)])
    else if c = '\\' then some (.escape read, [])
    else if c.toNat < 0x20 then none
    else some (.string (c :: read), [])
  | .escape read, c =>
    if c = 'u' then some (.number read none 4 0, [])
    else (shortEscape? c).map fun escaped => (.string (escaped :: read), [])
  | .number read high left value, c =>
    match Text.hexValue? c with
    | none => none
    | some digit =>
      let value := 0x10 * value + digit
      if left ≤ 1 then (numbered read high value).map fun next => (next, [])
      else some (.number read high (left - 1) value, [])
  | .half read high, c => if c = '\\' then some (.halfEscape read high, []) else none
  | .halfEscape read high, c => if c = 'u' then some (.number read (some high) 4 0, []) else none

/-- The tokens that the end of the document completes. -/
def finish : Lexer → Option (List Token)
  | .between => some []
  | .bare read => some [.bare read.reverse]
  | _ => none

/-- Reads a document behind the tokens `found`, which stand last first. -/
def run (found : List Token) : Lexer → List Char → Option (List Token)
  | lexer, [] => lexer.finish.map fun tokens => found.reverse ++ tokens
  | lexer, c :: cs =>
    match lexer.step c with
    | none => none
    | some (next, tokens) => run (tokens.reverse ++ found) next cs

end Lexer

def tokens? (text : String) : Option (List Token) :=
  Lexer.run [] .between text.toList

end Json
end Mustache
