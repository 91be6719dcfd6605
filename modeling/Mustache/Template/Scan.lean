import Mustache.Template.Tag

/-!
# Mustache.Template.Scan

A source as runs of literal text with one tag between each two of them. Set-delimiter tags change
what opens and closes the tags after them.
-/

namespace Mustache

/-- A run of literal text, and each further run with the tag before it. -/
structure Scan where
  head : List Char
  rest : List (Tag × List Char)

namespace Scan

/-- Splits a source that starts at `place` into runs and tags, under the delimiters `d`. -/
def ofSource (d : Delimiters) (place : Position) (source : List Char) :
    Except LocatedFault Scan :=
  match _hc : Text.cut? d.opening.toList source with
  | none => .ok ⟨source, []⟩
  | some (run, body) =>
    let opening := place.after run
    match _ht : Tag.read d opening body with
    | .error fault => .error ⟨fault, opening.line, opening.column⟩
    | .ok (tag, past, rest) =>
      match ofSource tag.delimiters past rest with
      | .error fault => .error fault
      | .ok scan => .ok ⟨run, (tag, scan.head) :: scan.rest⟩
termination_by source.length
decreasing_by
  have hl := Text.length_after_cut? _hc
  have hr := Tag.length_rest_of_read _ht
  have ho := List.length_pos_iff.2 (Delimiters.opening_ne_nil d)
  omega

end Scan
end Mustache
