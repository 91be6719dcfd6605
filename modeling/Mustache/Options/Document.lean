import Mustache.Json
import Mustache.Options

/-!
# Mustache.Options.Document

Reading the settings of an engine from a document: an object in which every member may be
missing and unknown ones are ignored, or an array of the settings in order.
-/

namespace Mustache

inductive OptionsFault where
  | malformed
  | delimiters (opening closing : String) (fault : DelimiterFault)
  deriving DecidableEq, Repr

/-- What settings may look like in the documents of a format. -/
structure SettingsFormat where
  /-- Whether a value stands for nothing, behind a name that says everything. -/
  isNothing : Json → Bool
  /-- Whether an array may go on behind the last setting. -/
  mayGoOn : Bool

namespace SettingsFormat

/-- JSON has a value for nothing. -/
def json : SettingsFormat where
  isNothing
    | .null => true
    | _ => false
  mayGoOn := false

/-- TOML has none and takes anything empty for it. -/
def toml : SettingsFormat where
  isNothing
    | .array [] | .object [] => true
    | _ => false
  mayGoOn := true

def allows (format : SettingsFormat) (items : List Json) (settings : Nat) : Bool :=
  format.mayGoOn || items.length ≤ settings

end SettingsFormat

namespace Escape

def ofName? (name : String) : Option Escape :=
  if name = "html" then some .html else if name = "none" then some .raw else none

/-- Reads an escaping: its name, or an object with the name as its only member. -/
def ofJson (format : SettingsFormat) (document : Json) : Except OptionsFault Escape :=
  let named :=
    match document with
    | .string name => ofName? name
    | .object [(name, value)] => if format.isNothing value then ofName? name else none
    | _ => none
  match named with
  | some escape => .ok escape
  | none => .error .malformed

end Escape

namespace Delimiters

def ofTexts (opening closing : String) : Except OptionsFault Delimiters :=
  match ofPair opening closing with
  | .ok d => .ok d
  | .error fault => .error (.delimiters opening closing fault)

/-- Reads a pair of delimiters: an object or an array of two texts. -/
def ofJson (format : SettingsFormat) (document : Json) : Except OptionsFault Delimiters :=
  match document with
  | .array (.string opening :: .string closing :: more) =>
    if format.allows more 0 then ofTexts opening closing else .error .malformed
  | .object _ =>
    match document.member? "open", document.member? "close" with
    | some (.string opening), some (.string closing) => ofTexts opening closing
    | _, _ => .error .malformed
  | _ => .error .malformed

end Delimiters

namespace Options

/-- Reads a depth: a whole number that is not negative. -/
def depthOfJson : Json → Except OptionsFault Nat
  | .number (.whole (.ofNat n)) => .ok n
  | _ => .error .malformed

def setting {α : Type} (read : Json → Except OptionsFault α) (standard : α) :
    Option Json → Except OptionsFault α
  | none => .ok standard
  | some document => read document

/-- Reads the settings of an engine. The settings of an object are read in the order of their
names. -/
def ofJson (format : SettingsFormat) (document : Json) : Except OptionsFault Options :=
  match document with
  | .object _ => do
    let delimiters ← setting (Delimiters.ofJson format) .braces (document.member? "delimiters")
    let escape ← setting (Escape.ofJson format) .html (document.member? "escape")
    let depth ← setting depthOfJson standard.maxPartialDepth (document.member? "max_partial_depth")
    return ⟨escape, delimiters, depth⟩
  | .array items => do
    let escape ← setting (Escape.ofJson format) .html items[0]?
    let delimiters ← setting (Delimiters.ofJson format) .braces items[1]?
    let depth ← setting depthOfJson standard.maxPartialDepth items[2]?
    if format.allows items 3 then return ⟨escape, delimiters, depth⟩ else .error .malformed
  | _ => .error .malformed

end Options
end Mustache
