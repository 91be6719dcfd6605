import Mustache.Template.Tree

/-!
# Mustache.Template.Parse

Compiling a source: runs and tags, then the layout of stand-alone tags, then the nesting of
sections. Faults inside tags come before faults of nesting.
-/

namespace Mustache

namespace Template

/-- The instructions of a source, or its first fault. -/
def compile (source : List Char) (d : Delimiters) : Except LocatedFault (List Node) :=
  match Scan.ofSource d Position.start source with
  | .error fault => .error fault
  | .ok scan => Tree.ofLayout source (Layout.ofScan scan)

/-- Compiles a source whose tags start out with the delimiters `d`. -/
def parse (source : String) (name : Option String) (d : Delimiters) :
    Except ParseError Template :=
  match compile source.toList d with
  | .ok nodes => .ok ⟨name, nodes⟩
  | .error ⟨fault, line, column⟩ =>
    .error ⟨fault, line, column, name, Snippet.ofSource source line column⟩

theorem compile_eq_ok_iff {source : List Char} {d : Delimiters} {nodes : List Node} :
    compile source d = .ok nodes ↔
      ∃ scan, Scan.ofSource d Position.start source = .ok scan ∧
        Tree.ofLayout source (Layout.ofScan scan) = .ok nodes := by
  unfold compile
  split
  · next fault h => simp [h]
  · next scan h => simp [h]

theorem parse_eq_ok_iff {source : String} {name : Option String} {d : Delimiters}
    {template : Template} :
    parse source name d = .ok template ↔
      compile source.toList d = .ok template.nodes ∧ template.name = name := by
  obtain ⟨name', nodes⟩ := template
  unfold parse
  split
  · next nodes' h =>
    simp only [h, Except.ok.injEq, mk.injEq]
    constructor
    · rintro ⟨hname, hnodes⟩
      exact ⟨hnodes, hname.symm⟩
    · rintro ⟨hnodes, hname⟩
      exact ⟨hname.symm, hnodes⟩
  · next fault line column h => simp [h]

end Template
end Mustache
