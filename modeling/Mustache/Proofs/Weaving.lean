import Mustache.Proofs.BlankLine
import Mustache.Proofs.Spacing
import Mustache.Source.Position
import Mustache.Text.Lines

/-!
# Mustache.Proofs.Weaving

Indented text. Indentation goes before the first character of each line, so none is put behind a
last line feed; `weave` puts it behind every line feed, which can be said of any part of a text.
A pattern without white space is met in the indented text where it is met in the text itself.
-/

namespace Mustache
namespace Text

/-- Indents the lines of a text, the first one only if it `opens` there. -/
def indentFrom (w : List Char) (opens : Bool) : List Char → List Char
  | [] => []
  | c :: cs => (if opens then w else []) ++ c :: indentFrom w (c = '\n') cs

/-- Puts the indentation behind every line feed. -/
def weave (w cs : List Char) : List Char :=
  cs.flatMap fun c => if c = '\n' then c :: w else [c]

variable {w cs ds pattern : List Char} {opens : Bool}

/-! ## Indentation -/

theorem indentFrom_of_opens (w : List Char) (hcs : cs ≠ []) :
    indentFrom w true cs = w ++ indentFrom w false cs := by
  cases cs with
  | nil => exact absurd rfl hcs
  | cons c cs => rfl

theorem indent_eq (w cs : List Char) : indent w cs = indentFrom w true cs := by
  induction cs with
  | nil => rfl
  | cons c cs ih =>
    rw [indent] at ih
    rw [indent, linesWithEnds, indentFrom, if_pos rfl]
    by_cases hc : c = '\n'
    · rw [if_pos hc, List.flatMap_cons, ih, decide_eq_true hc, List.append_assoc]
      rfl
    · rw [if_neg hc, decide_eq_false hc]
      cases hlines : linesWithEnds cs with
      | nil =>
        have hnil := flatten_linesWithEnds cs
        rw [hlines] at hnil
        rw [← hnil]
        simp [indentFrom]
      | cons line rest =>
        have hcs : cs ≠ [] := by
          rintro rfl
          cases hlines
        rw [hlines, List.flatMap_cons, indentFrom_of_opens w hcs, List.append_assoc] at ih
        rw [← List.append_cancel_left ih]
        simp

theorem weave_append (w cs ds : List Char) : weave w (cs ++ ds) = weave w cs ++ weave w ds :=
  List.flatMap_append

theorem weave_cons (w : List Char) (c : Char) (cs : List Char) :
    weave w (c :: cs) = c :: ((if c = '\n' then w else []) ++ weave w cs) := by
  rw [weave, List.flatMap_cons]
  split <;> rfl

theorem weave_eq_self (w : List Char) (h : '\n' ∉ cs) : weave w cs = cs := by
  induction cs with
  | nil => rfl
  | cons c cs ih =>
    rw [List.mem_cons, not_or] at h
    rw [weave_cons, if_neg (Ne.symm h.1), List.nil_append, ih h.2]

/-- Text on one line stays as it is. -/
theorem indentFrom_append_of_line (w : List Char) (h : '\n' ∉ cs) (ds : List Char) :
    indentFrom w false (cs ++ ds) = cs ++ indentFrom w false ds := by
  induction cs with
  | nil => rfl
  | cons c cs ih =>
    rw [List.mem_cons, not_or] at h
    rw [List.cons_append, indentFrom, decide_eq_false (Ne.symm h.1), ih h.2]
    rfl

theorem head?_indentFrom (w cs : List Char) : (indentFrom w false cs).head? = cs.head? := by
  cases cs <;> rfl

/-! ## Patterns -/

theorem isPrefixOf_indentFrom (w cs : List Char) (hp : ∀ c ∈ pattern, isBlank c = false) :
    pattern.isPrefixOf (indentFrom w false cs) = pattern.isPrefixOf cs := by
  induction pattern generalizing cs with
  | nil => simp
  | cons p pattern ih =>
    rw [List.forall_mem_cons] at hp
    cases cs with
    | nil => rfl
    | cons c cs =>
      simp only [indentFrom, Bool.false_eq_true, if_false, List.nil_append, List.isPrefixOf]
      by_cases hpc : p = c
      · subst hpc
        rw [decide_eq_false (isSpace_of_isBlank hp.1).2.1, ih cs hp.2]
      · rw [beq_false_of_ne hpc, Bool.false_and, Bool.false_and]

/-- A pattern without white space is met in the indented text where it is met in the text. -/
theorem cut?_indentFrom (hw : w.all isBlank = true) (hne : pattern ≠ [])
    (hp : ∀ c ∈ pattern, isBlank c = false) (opens : Bool) (cs : List Char) :
    cut? pattern (indentFrom w opens cs) =
      (cut? pattern cs).map fun found =>
        ((if opens then w else []) ++ weave w found.1, indentFrom w false found.2) := by
  induction cs generalizing opens with
  | nil => simp [indentFrom, cut?, hne]
  | cons c cs ih =>
    have hsame := isPrefixOf_indentFrom w (c :: cs) hp
    have hblanks : (if opens then w else []).all isBlank = true := by
      cases opens <;> simp [hw]
    rw [indentFrom, cut?_blanks hblanks hne hp, cut?, cut?]
    simp only [indentFrom, Bool.false_eq_true, if_false, List.nil_append] at hsame
    rw [hsame]
    by_cases hpre : pattern.isPrefixOf (c :: cs) = true
    · obtain ⟨after, hafter⟩ := List.isPrefixOf_iff_prefix.1 hpre
      have hline : '\n' ∉ pattern := by
        intro hmem
        exact absurd (hp _ hmem) (by decide)
      have hdrop := indentFrom_append_of_line w hline after
      rw [hafter] at hdrop
      simp only [indentFrom, Bool.false_eq_true, if_false, List.nil_append] at hdrop
      rw [if_pos hpre, if_pos hpre, hdrop, ← hafter, List.drop_left, List.drop_left]
      simp [weave]
    · rw [if_neg hpre, if_neg hpre, ih]
      cases cut? pattern cs with
      | none => rfl
      | some found => simp [weave_cons]

/-! ## Names -/

theorem respaces_weave (hw : w.all isBlank = true) :
    Respaces fun c => if c = '\n' then c :: w else [c] where
  keeps c hc := if_neg (isSpace_of_isBlank hc).2.1
  blanks c hc := by
    split
    · exact ⟨List.cons_ne_nil c w, by rw [List.all_cons, hc, hw]; rfl⟩
    · exact ⟨List.cons_ne_nil c [], by rw [List.all_cons, hc]; rfl⟩

theorem trim_weave (hw : w.all isBlank = true) (cs : List Char) :
    trim (weave w cs) = weave w (trim cs) :=
  (respaces_weave hw).trim cs

/-- Different texts stay different. -/
theorem weave_injective (w : List Char) {cs ds : List Char} (h : weave w cs = weave w ds) :
    cs = ds := by
  induction cs generalizing ds with
  | nil =>
    cases ds with
    | nil => rfl
    | cons d ds => rw [weave_cons] at h; cases h
  | cons c cs ih =>
    cases ds with
    | nil => rw [weave_cons] at h; cases h
    | cons d ds =>
      rw [weave_cons, weave_cons] at h
      obtain ⟨rfl, h⟩ := List.cons.inj h
      rw [ih (List.append_cancel_left h)]

/-! ## Lines -/

theorem lineHead_weave (hw : w.all isSpace = true) (cs : List Char) :
    lineHead (w ++ weave w cs) = w ++ lineHead cs := by
  have hline := lineFeed_not_mem_of_all hw
  by_cases hcs : '\n' ∈ cs
  · obtain ⟨head, tail, rfl, htail⟩ := exists_lastBreak hcs
    have hweave : w ++ weave w (head ++ '\n' :: tail) =
        (w ++ weave w head) ++ '\n' :: (w ++ tail) := by
      rw [weave_append, weave_cons, if_pos rfl, weave_eq_self w htail]
      simp
    rw [hweave, lineHead_append_cons, lineHead_append_cons, lineHead_of_not_mem htail,
      lineHead_of_not_mem]
    simp [hline, htail]
  · rw [weave_eq_self w hcs, lineHead_of_not_mem hcs, lineHead_of_not_mem]
    simp [hline, hcs]

theorem lineBreak?_indentFrom (w cs : List Char) :
    lineBreak? (indentFrom w false cs) = lineBreak? cs := by
  cases cs with
  | nil => rfl
  | cons c cs =>
    rcases @lineBreak?_cons c cs with ⟨hnone, hlf, hcr⟩ | ⟨rfl, hbreak⟩ | ⟨⟨rest, rfl, rfl⟩, hbreak⟩
    · rw [hnone, indentFrom, decide_eq_false hlf]
      refine lineBreak?_of_ne hlf ?_
      intro hc
      rw [head?_indentFrom]
      exact hcr hc
    · rfl
    · rfl

/-- What ends a line is not indented. -/
theorem lineTail?_indentFrom (w cs : List Char) :
    lineTail? (indentFrom w false cs) = lineTail? cs := by
  obtain ⟨spaces, rest, rfl, hspaces, hrest⟩ := exists_spaces cs
  rw [indentFrom_append_of_line w (lineFeed_not_mem_of_all hspaces),
    lineTail?_append hspaces _ hrest, lineTail?_append hspaces, lineBreak?_indentFrom]
  rwa [head?_indentFrom]

end Text
end Mustache
