import Mustache.Text.Blank

/-!
# Mustache.Path

Dotted names. The name of one dot and the empty name mean the current context and have no
segments.
-/

namespace Mustache

/-- The segments of a dotted name, outermost first. -/
structure Path where
  segments : List String
  deriving DecidableEq, Repr, Inhabited

namespace Path

/-- Reads a dotted name; blanks around it do not count. -/
def parse (name : String) : Path :=
  let name := Text.trim name.toList
  if name = [] ∨ name = ['.'] then ⟨[]⟩
  else ⟨(Text.splitWhere (· == '.') name).map String.ofList⟩

/-- Whether the path means the current context itself. -/
def isSelf (path : Path) : Bool :=
  path.segments.isEmpty

def text (path : Path) : String :=
  if path.isSelf then "." else ".".intercalate path.segments

end Path
end Mustache
