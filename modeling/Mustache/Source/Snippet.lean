import Mustache.Text.Lines

/-!
# Mustache.Source.Snippet

The few lines of source that an error message shows, with a caret under the place it is about.
-/

namespace Mustache

/-- Numbered source lines around a line and column. -/
structure Snippet where
  lines : List (Nat × String)
  line : Nat
  column : Nat
  deriving DecidableEq, Repr

namespace Snippet

/-- The lines of a source with their numbers, counted from `first`. -/
def numbered (first : Nat) : List (List Char) → List (Nat × String)
  | [] => []
  | line :: lines => (first, String.ofList line) :: numbered (first + 1) lines

/-- The lines up to two before and two after `line`. -/
def ofSource (source : String) (line column : Nat) : Snippet :=
  let first := max (line - 2) 1
  let lines := numbered 1 (Text.lines source.toList)
  ⟨(lines.drop (first - 1)).take (line + 3 - first), line, column⟩

def padLeft (width : Nat) (text : String) : String :=
  "".pushn ' ' (width - text.length) ++ text

/-- One line of the snippet, and the caret under it where it is due. -/
def lineText (snippet : Snippet) (entry : Nat × String) : String :=
  let shown := padLeft 4 (toString entry.1) ++ " | " ++ entry.2 ++ "\n"
  if entry.1 = snippet.line then
    shown ++ "     | " ++ padLeft (max snippet.column 1) "^" ++ "\n"
  else shown

def text (snippet : Snippet) : String :=
  String.join (snippet.lines.map snippet.lineText)

end Snippet
end Mustache
