import Mustache.Delimiters
import Mustache.Escape
import Mustache.Path
import Mustache.Source.Position

/-!
# Mustache.Template

Compiled templates: literal text, interpolations, sections and partials. Comments and
set-delimiter tags leave nothing behind, and the white space of stand-alone tags is already gone.
-/

namespace Mustache

inductive Node where
  | literal (text : String)
  /-- A value written to the output. -/
  | interpolation (path : Path) (escape : Escape) (span : Span)
  /-- A section, or an inverted one. `inner` is the raw source between its two tags, and
  `delimiters` are those in force there. -/
  | block (path : Path) (inverted : Bool) (children : List Node) (inner : String)
      (delimiters : Delimiters) (span : Span)
  /-- A partial. `indentation` goes before each of its lines. -/
  | inclusion (name indentation : String) (span : Span)

mutual

/-- Whether two instructions are the same, down to their places in the source. -/
def Node.beq : Node → Node → Bool
  | .literal text, .literal text' => text == text'
  | .interpolation path escape span, .interpolation path' escape' span' =>
    path == path' && escape == escape' && span == span'
  | .block path inverted children inner delimiters span,
    .block path' inverted' children' inner' delimiters' span' =>
    path == path' && inverted == inverted' && Node.beqs children children' && inner == inner' &&
      delimiters == delimiters' && span == span'
  | .inclusion name indentation span, .inclusion name' indentation' span' =>
    name == name' && indentation == indentation' && span == span'
  | _, _ => false

def Node.beqs : List Node → List Node → Bool
  | [], [] => true
  | node :: nodes, node' :: nodes' => node.beq node' && Node.beqs nodes nodes'
  | _, _ => false

end

instance : BEq Node := ⟨Node.beq⟩

structure Template where
  /-- The name the template has in error messages. -/
  name : Option String
  nodes : List Node

instance : BEq Template :=
  ⟨fun template other => template.name == other.name && Node.beqs template.nodes other.nodes⟩

mutual

/-- How many octets of literal text the instruction holds. -/
def Node.literalSize : Node → Nat
  | .literal text => text.utf8ByteSize
  | .block _ _ children _ _ _ => Node.literalSizes children
  | .interpolation .. | .inclusion .. => 0

/-- How many octets of literal text the instructions hold. -/
def Node.literalSizes : List Node → Nat
  | [] => 0
  | node :: nodes => node.literalSize + Node.literalSizes nodes

end

/-- How many octets of literal text the template holds. -/
def Template.literalSize (template : Template) : Nat :=
  Node.literalSizes template.nodes

end Mustache
