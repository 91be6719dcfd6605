import Mathlib.Data.List.Count
import Mustache.Path
import Mustache.Proofs.Pieces
import Mustache.Proofs.Spacing

/-!
# Mustache.Proofs.Dotted

Dotted names and their printed form. A path is printed with a dot between its segments, and reading
that gives the path again (`Path.parse_printed`): splitting at dots and joining with dots undo each
other, and no blank is left around a name that was trimmed once.
-/

namespace Mustache
namespace Path

/-- The name means the current context: it is empty or one dot, but for blanks around it. -/
def NamesSelf (name : String) : Prop :=
  Text.trim name.toList = [] ∨ Text.trim name.toList = ['.']

instance (name : String) : Decidable (NamesSelf name) :=
  inferInstanceAs (Decidable (_ ∨ _))

variable {name other : String}

theorem parse_of_namesSelf (h : NamesSelf name) : parse name = ⟨[]⟩ :=
  if_pos h

theorem parse_of_not_namesSelf (h : ¬ NamesSelf name) :
    parse name = ⟨(Text.splitWhere (· == '.') (Text.trim name.toList)).map String.ofList⟩ :=
  if_neg h

theorem segments_ne_nil (h : ¬ NamesSelf name) : (parse name).segments ≠ [] := by
  rw [parse_of_not_namesSelf h]
  simpa using Text.splitWhere_ne_nil _ _

theorem isSelf_parse : (parse name).isSelf = true ↔ NamesSelf name := by
  by_cases h : NamesSelf name
  · simp [parse_of_namesSelf h, isSelf, h]
  · simp [isSelf, segments_ne_nil h, h]

/-- The segments are the pieces of the trimmed name that no dot stands in. -/
theorem segments_parse_eq_iff (h : ¬ NamesSelf name) {segments : List String} :
    (parse name).segments = segments ↔
      segments ≠ [] ∧ (∀ segment ∈ segments, '.' ∉ segment.toList) ∧
        ".".intercalate segments = String.ofList (Text.trim name.toList) := by
  have hlists : (parse name).segments = segments ↔
      Text.splitWhere (· == '.') (Text.trim name.toList) = segments.map String.toList := by
    rw [parse_of_not_namesSelf h]
    constructor
    · rintro rfl
      simp
    · intro hpieces
      simp [hpieces]
  rw [hlists, Text.splitWhere_eq_iff, ← String.toList_inj, String.toList_intercalate,
    String.toList_ofList]
  simp

theorem text_parse (h : ¬ NamesSelf name) :
    (parse name).text = String.ofList (Text.trim name.toList) := by
  rw [text, if_neg (mt isSelf_parse.1 h)]
  exact ((segments_parse_eq_iff h).1 rfl).2.2

/-- Only the trimmed name counts. -/
theorem parse_trim (name : String) :
    parse (String.ofList (Text.trim name.toList)) = parse name := by
  rw [parse, parse, String.toList_ofList, Text.trim_trim]

theorem parse_eq_iff : parse name = parse other ↔
    Text.trim name.toList = Text.trim other.toList ∨ NamesSelf name ∧ NamesSelf other := by
  constructor
  · intro heq
    have hself : NamesSelf name ↔ NamesSelf other := by
      rw [← isSelf_parse, ← isSelf_parse, heq]
    by_cases h : NamesSelf name
    · exact .inr ⟨h, hself.1 h⟩
    · have htext := text_parse h
      rw [heq, text_parse (mt hself.2 h), String.ofList_inj] at htext
      exact .inl htext.symm
  · rintro (htrim | ⟨h, h'⟩)
    · rw [← parse_trim name, ← parse_trim other, htrim]
    · rw [parse_of_namesSelf h, parse_of_namesSelf h']

/-- Paths survive printing: reading the printed form of a path that was read gives that path. Two
names are the same path exactly when they are the same name but for blanks around them, or both
mean the current context. Any other name has for its segments the one list of texts without dots
that is the trimmed name when a dot is put between them: one more than there are dots, and an
empty one for each dot at an end of the name and each two dots in a row. -/
theorem parse_printed (name : String) :
    parse (parse name).text = parse name ∧
    (∀ other, parse name = parse other ↔
      Text.trim name.toList = Text.trim other.toList ∨ NamesSelf name ∧ NamesSelf other) ∧
    ((parse name).isSelf = true ↔ NamesSelf name) ∧
    (¬ NamesSelf name →
      (∀ segments, (parse name).segments = segments ↔
        segments ≠ [] ∧ (∀ segment ∈ segments, '.' ∉ segment.toList) ∧
          ".".intercalate segments = String.ofList (Text.trim name.toList)) ∧
      (parse name).segments.length = (Text.trim name.toList).count '.' + 1 ∧
      (parse name).segments.count "" =
        (('.' :: Text.trim name.toList).zip (Text.trim name.toList ++ ['.'])).count ('.', '.')) := by
  refine ⟨?_, fun other => parse_eq_iff, isSelf_parse, fun h => ⟨?_, ?_, ?_⟩⟩
  · by_cases h : NamesSelf name
    · rw [parse_of_namesSelf h]
      rfl
    · rw [text_parse h, parse_trim]
  · exact fun segments => segments_parse_eq_iff h
  · rw [parse_of_not_namesSelf h, List.length_map, Text.length_splitWhere]
  · rw [parse_of_not_namesSelf h, Text.count_nil_splitWhere, if_pos rfl]
    exact List.count_map_of_injective _ String.ofList (fun _ _ => String.ofList_inj.1) []

/-- Dots at both ends and two in a row, and a blank inside. -/
theorem parse_printed_dots :
    ¬ NamesSelf " .a..b c.\t" ∧ (parse " .a..b c.\t").segments = ["", "a", "", "b c", ""] := by
  have hname : ¬ NamesSelf " .a..b c.\t" := by decide
  exact ⟨hname, (((parse_printed " .a..b c.\t").2.2.2 hname).1 _).2 (by decide)⟩

end Path
end Mustache
