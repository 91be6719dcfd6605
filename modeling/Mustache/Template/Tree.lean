import Mustache.Template
import Mustache.Template.Layout

/-!
# Mustache.Template.Tree

From laid out tags to nested instructions. Sections are matched by the trimmed names of their
tags, and neighbouring pieces of text become one.
-/

namespace Mustache

/-- A list of instructions under construction, last first, and the sections still open around
it, each as its opening tag and the instructions before it. -/
structure Tree where
  nodes : List Node
  enclosing : List (Tag × List Node)

namespace Tree

def addText (text : List Char) (nodes : List Node) : List Node :=
  if text.isEmpty then nodes
  else
    match nodes with
    | .literal before :: rest => .literal (before ++ String.ofList text) :: rest
    | _ => .literal (String.ofList text) :: nodes

def faultAt (tag : Tag) (fault : ParseFault) : LocatedFault :=
  ⟨fault, tag.span.line, tag.span.column⟩

/-- Closes the innermost section, which has to be open under the name of the closing tag. -/
def close (source : List Char) (tag : Tag) (tree : Tree) : Except LocatedFault Tree :=
  match tree.enclosing with
  | [] => .error (faultAt tag (.unopenedSection tag.name))
  | (opener, before) :: enclosing =>
    if opener.name = tag.name then
      let inner := String.ofList (Text.slice opener.span.stop tag.span.start source)
      let closed := Node.block (Path.parse opener.name) (opener.kind = .opener true)
        tree.nodes.reverse inner opener.delimiters opener.span
      .ok ⟨closed :: before, enclosing⟩
    else .error (faultAt tag (.mismatchedSection opener.name tag.name))

def addTag (source : List Char) (placed : PlacedTag) (tree : Tree) : Except LocatedFault Tree :=
  let tag := placed.tag
  match tag.kind with
  | .interpolation escape =>
    .ok { tree with nodes := .interpolation (Path.parse tag.name) escape tag.span :: tree.nodes }
  | .opener _ => .ok ⟨[], (tag, tree.nodes) :: tree.enclosing⟩
  | .closer => close source tag tree
  | .inclusion =>
    let indentation := String.ofList (placed.margin.getD [])
    .ok { tree with nodes := .inclusion tag.name indentation tag.span :: tree.nodes }
  | .comment | .setDelimiters => .ok tree

/-- The finished instructions; no section may still be open. -/
def finish (tree : Tree) : Except LocatedFault (List Node) :=
  match tree.enclosing with
  | [] => .ok tree.nodes.reverse
  | (opener, _) :: _ => .error (faultAt opener (.unclosedSection opener.name))

/-- Adds tags, each with the text behind it, and finishes. -/
def build (source : List Char) (tree : Tree) :
    List (PlacedTag × List Char) → Except LocatedFault (List Node)
  | [] => tree.finish
  | (placed, text) :: rest =>
    match tree.addTag source placed with
    | .error fault => .error fault
    | .ok tree => build source { tree with nodes := addText text tree.nodes } rest

def ofLayout (source : List Char) (layout : Layout) : Except LocatedFault (List Node) :=
  build source ⟨addText layout.head [], []⟩ layout.rest

end Tree
end Mustache
