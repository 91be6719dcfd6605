import Mustache.Proofs.InStep

/-!
# Mustache.Proofs.Sketch

Instructions apart from where they stand in the source. A sketch keeps the nesting, the names and
the escaping; what it makes of text and of the indentation of partials is for its user to say.
-/

namespace Mustache

/-! ## Sketches -/

namespace Node

mutual

/-- What instruction it is, without its place and without the raw text of a section. -/
def sketch (literal : String → List Node) (indentation : String → Span → String) :
    Node → List Node
  | .literal text => literal text
  | .interpolation path escape _ => [.interpolation path escape default]
  | .block path inverted children _ delimiters _ =>
    [.block path inverted (sketches literal indentation children) "" delimiters default]
  | .inclusion name before span => [.inclusion name (indentation before span) default]

def sketches (literal : String → List Node) (indentation : String → Span → String) :
    List Node → List Node
  | [] => []
  | node :: nodes => node.sketch literal indentation ++ sketches literal indentation nodes

end

variable {literal : String → List Node} {indentation : String → Span → String}

theorem sketches_append (nodes nodes' : List Node) :
    sketches literal indentation (nodes ++ nodes') =
      sketches literal indentation nodes ++ sketches literal indentation nodes' := by
  induction nodes with
  | nil => rfl
  | cons node nodes ih => rw [List.cons_append, sketches, sketches, ih, List.append_assoc]

theorem sketches_reverse_cons (node : Node) (nodes : List Node) :
    sketches literal indentation (node :: nodes).reverse =
      sketches literal indentation nodes.reverse ++ node.sketch literal indentation := by
  rw [List.reverse_cons, sketches_append, sketches, sketches, List.append_nil]

/-- What becomes of text may be cut anywhere. -/
structure Splits (literal : String → List Node) : Prop where
  empty : literal "" = []
  append : ∀ text text', literal (text ++ text') = literal text ++ literal text'

theorem sketches_addText (h : Splits literal) (text : List Char) (nodes : List Node) :
    sketches literal indentation (Tree.addText text nodes).reverse =
      sketches literal indentation nodes.reverse ++ literal (String.ofList text) := by
  unfold Tree.addText
  split
  · next hempty =>
    rw [List.isEmpty_iff.1 hempty, show String.ofList [] = "" from rfl, h.empty, List.append_nil]
  · split
    · rw [sketches_reverse_cons, sketches_reverse_cons, sketch, sketch, h.append, List.append_assoc]
    · rw [sketches_reverse_cons, sketch]

end Node

end Mustache
