/-!
# Mustache.Text.Search

Cutting a text at the first occurrence of a pattern.
-/

namespace Mustache
namespace Text

/-- What stands before the first occurrence of `pattern` and what stands after it. -/
def cut? (pattern : List Char) : List Char → Option (List Char × List Char)
  | [] => if pattern.isEmpty then some ([], []) else none
  | c :: cs =>
    if pattern.isPrefixOf (c :: cs) then some ([], (c :: cs).drop pattern.length)
    else
      match cut? pattern cs with
      | none => none
      | some (before, after) => some (c :: before, after)

theorem eq_of_cut? {pattern cs before after : List Char}
    (h : cut? pattern cs = some (before, after)) : cs = before ++ pattern ++ after := by
  induction cs generalizing before with
  | nil =>
    unfold cut? at h
    split at h
    · next hp =>
      cases h
      rw [List.isEmpty_iff.1 hp]; rfl
    · cases h
  | cons c cs ih =>
    unfold cut? at h
    split at h
    · next hp =>
      cases h
      obtain ⟨rest, hr⟩ := List.isPrefixOf_iff_prefix.1 hp
      rw [← hr, List.drop_left, List.nil_append]
    · split at h
      · cases h
      · next hc =>
        cases h
        rw [ih hc, List.cons_append, List.cons_append]

/-- What stands after a cut is shorter than the text by the pattern at least. -/
theorem length_after_cut? {pattern cs before after : List Char}
    (h : cut? pattern cs = some (before, after)) :
    after.length + pattern.length ≤ cs.length := by
  rw [eq_of_cut? h]
  simp only [List.length_append]
  omega

end Text
end Mustache
