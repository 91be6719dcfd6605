import Mustache.Toml.Number
import Mustache.Toml.Quoted
import Mustache.Toml.Table

/-!
# Mustache.Toml.Value

Reading names and values of a TOML document. A reader takes what it reads off the front of a
text, and gives `none` where the text goes wrong.
-/

namespace Mustache
namespace Toml

abbrev Reader (α : Type) := List Char → Option (α × List Char)

/-- How many values may be open at once, and how many names a dotted one may have, is one less
than this. -/
def depthLimit : Nat := 80

/-! ## Space -/

/-- Takes blanks, comments and line breaks off the front. -/
def skipGap (inComment : Bool) : List Char → List Char
  | [] => []
  | '\r' :: '\n' :: rest => skipGap false rest
  | c :: rest =>
    if c = '\n' then skipGap false rest
    else if inComment then if isPlain c then skipGap true rest else c :: rest
    else if isBlank c then skipGap false rest
    else if c = '#' then skipGap true rest
    else c :: rest

def skipBlanks (cs : List Char) : List Char :=
  cs.dropWhile isBlank

/-! ## Names -/

/-- Whether a character may stand in a name without quotes. -/
def isNameChar (c : Char) : Bool :=
  c.isAlphanum || c = '-' || c = '_'

def readName : Reader String
  | [] => none
  | c :: rest =>
    match Quote.ofMark? c with
    | some quote => (readLine quote rest).map fun (content, after) => (String.ofList content, after)
    | none =>
      let name := (c :: rest).takeWhile isNameChar
      if name.isEmpty then none else some (String.ofList name, (c :: rest).dropWhile isNameChar)

/-- Reads a dotted name with the blanks around it: the names before the last dot, and the last
one. -/
def readNames (cs : List Char) : Option ((List String × String) × List Char) :=
  match readName (skipBlanks cs) with
  | none => none
  | some (name, after) =>
    match skipBlanks after with
    | '.' :: rest =>
      if rest.length < cs.length then
        (readNames rest).map fun ((path, last), after) => ((name :: path, last), after)
      else none
    | after => some (([], name), after)
termination_by cs.length

def readKey (cs : List Char) : Option ((List String × String) × List Char) :=
  (readNames cs).filter fun ((path, _), _) => path.length + 1 < depthLimit

/-! ## Values -/

/-- Whether a character may stand in a value without quotes. -/
def isWordChar (c : Char) : Bool :=
  c.isAlphanum || c = '_' || c = '+' || c = '-' || c = '.' || c = ':'

def ofWord? (word : List Char) : Option Toml :=
  if word = "true".toList then some (.bool true)
  else if word = "false".toList then some (.bool false)
  else
    match Moment.read? word, whole? word with
    | some held, _ => some (.moment held)
    | none, some n => some (.whole n)
    | none, none => (real? word).map .real

/-- Reads a word. A date takes the time that follows it after a space. -/
def readWord (cs : List Char) : Option (Toml × List Char) :=
  let word := cs.takeWhile isWordChar
  let rest := cs.dropWhile isWordChar
  let longer := word ++ ' ' :: (rest.drop 1).takeWhile isWordChar
  match rest.head?, Moment.read? word, Moment.read? longer with
  | some ' ', some (.date _), some held => some (.moment held, (rest.drop 1).dropWhile isWordChar)
  | _, _, _ => (ofWord? word).map fun value => (value, rest)

/-- Reads items with commas between them, up to the bracket that closes them. `skip` takes off
what may stand around an item; `mayEnd` says that there may be no further item, and `trailing`
that a comma may stand behind the last one. -/
def readItems {α : Type} (item : Reader α) (skip : List Char → List Char) (trailing : Bool)
    (closing : Char) (mayEnd : Bool) (cs : List Char) : Option (List α × List Char) :=
  let start := skip cs
  if mayEnd ∧ start.head? = some closing then some ([], start.drop 1)
  else
    match item start with
    | none => none
    | some (first, after) =>
      match skip after with
      | ',' :: rest =>
        if rest.length < cs.length then
          (readItems item skip trailing closing trailing rest).map fun (items, after) =>
            (first :: items, after)
        else none
      | c :: rest => if c = closing then some ([first], rest) else none
      | [] => none
termination_by cs.length

def readPair (value : Reader Toml) : Reader ((List String × String) × Toml) := fun cs =>
  match readKey cs with
  | some (key, '=' :: rest) => (value (skipBlanks rest)).map fun (held, after) => ((key, held), after)
  | _ => none

def ofPairs? (pairs : List ((List String × String) × Toml)) : Option Toml :=
  (pairs.foldlM (fun entries ((path, name), value) =>
    Entries.insert path name value .header entries) []).map fun entries =>
      .table (entriesToToml entries)

/-- Reads a value that holds at most `depth` values in one another. -/
def readValue : Nat → Reader Toml
  | _, [] => none
  | depth, c :: rest =>
    match Quote.ofMark? c, depth with
    | some quote, _ => (readQuoted quote rest).map fun (text, after) => (.string text, after)
    | none, 0 => readWord (c :: rest)
    | none, depth + 1 =>
      if c = '[' then
        (readItems (readValue depth) (skipGap false) true ']' true rest).map
          fun (items, after) => (.array items, after)
      else if c = '\x7b' then
        (readItems (readPair (readValue depth)) skipBlanks false '\x7d' true rest).bind
          fun (pairs, after) => (ofPairs? pairs).map fun table => (table, after)
      else readWord (c :: rest)

end Toml
end Mustache
