import Mustache.Delimiters
import Mustache.Source.Snippet
import Mustache.Text.Quoted

/-!
# Mustache.Error

What can go wrong: templates that do not parse, output that cannot be written, partials that
cannot be loaded, and whatever a lambda fails with. Each error is a cause; `message` says it in
words.
-/

namespace Mustache

/-! ## Parsing -/

inductive ParseFault where
  | unclosedTag
  | emptyName
  /-- A set-delimiter tag that does not hold two words. -/
  | malformedSetDelimiters
  /-- A set-delimiter tag whose two words are no usable pair. -/
  | badDelimiters (opening closing : String) (fault : DelimiterFault)
  | unopenedSection (name : String)
  | mismatchedSection (opened closed : String)
  | unclosedSection (name : String)
  deriving DecidableEq, Repr

def delimitersMessage (opening closing : String) (fault : DelimiterFault) : String :=
  "Invalid delimiters " ++ Text.quoted opening ++ " " ++ Text.quoted closing ++ ": " ++
    fault.message

def ParseFault.message : ParseFault → String
  | .unclosedTag => "unclosed tag"
  | .emptyName => "empty tag name"
  | .malformedSetDelimiters => "malformed set-delimiter tag"
  | .badDelimiters opening closing fault =>
    "malformed set-delimiter tag: " ++ delimitersMessage opening closing fault
  | .unopenedSection name => "closing tag for unopened section \"" ++ name ++ "\""
  | .mismatchedSection opened closed =>
    "section \"" ++ opened ++ "\" closed by \"" ++ closed ++ "\""
  | .unclosedSection name => "unclosed section \"" ++ name ++ "\""

/-- A fault, the place of the tag it is about, and the source lines around that place. -/
structure ParseError where
  fault : ParseFault
  line : Nat
  column : Nat
  /-- The name of the template, if it has one. -/
  file : Option String
  snippet : Snippet
  deriving DecidableEq, Repr

def ParseError.message (e : ParseError) : String :=
  let file :=
    match e.file with
    | none => "None"
    | some name => "Some(" ++ Text.quoted name ++ ")"
  "Parse error in " ++ file ++ ": " ++ e.fault.message ++ " at line " ++ toString e.line ++
    ", column " ++ toString e.column ++ "\n" ++ e.snippet.text

/-! ## Output and rendering -/

inductive SinkError where
  /-- The writer behind the sink failed for the reason given. -/
  | write (cause : String)
  | format
  | outOfMemory
  deriving DecidableEq, Repr

def SinkError.message : SinkError → String
  | .write cause => "write error: " ++ cause
  | .format => "formatting error"
  | .outOfMemory => "out of memory while growing the output buffer"

inductive Error where
  | parse (error : ParseError)
  | sink (error : SinkError)
  | delimiters (opening closing : String) (fault : DelimiterFault)
  /-- The source of partials failed for the reason given. -/
  | partialFailed (name cause : String)
  | partialDepth (name : String) (limit : Nat)
  deriving DecidableEq, Repr

def Error.message : Error → String
  | .parse error => error.message
  | .sink error => "Output error: " ++ error.message
  | .delimiters opening closing fault => delimitersMessage opening closing fault
  | .partialFailed name cause =>
    "Partial " ++ Text.quoted name ++ " could not be loaded: " ++ cause
  | .partialDepth name limit =>
    "Partial " ++ Text.quoted name ++ " exceeds the maximum nesting depth of " ++ toString limit

/-! ## Lambdas -/

inductive Failure where
  | sink (error : SinkError)
  | engine (error : Error)
  /-- A failure of input or output outside the sink. -/
  | channel (cause : String)
  /-- Any other failure; `kind` lets a sink claim the failures of a kind it knows. -/
  | foreign (kind cause : String)
  deriving DecidableEq, Repr

def Failure.message : Failure → String
  | .sink error => error.message
  | .engine error => error.message
  | .channel cause => cause
  | .foreign _ cause => cause

end Mustache
