import Mustache.Proofs.CheckedScan

/-!
# Mustache.Proofs.Places

Places in messages and the lines that are shown around them. Lines and columns are those that a
reader counts (`Text.place`), and no two places of a source have the same. The lines of a source
are said without the reader that finds them (`Text.Lined`): what ends a line is left out, and there
is no line behind the last line end. A snippet shows the lines up to two before and two behind the
line it is about, as far as there are any.
-/

namespace Mustache

variable {before after before' after' line delimiter : List Char} {rows : List (List Char)}

/-! ## Places -/

namespace Text

/-- The line and the column of the character behind a text, both counted from 1. -/
def place (before : List Char) : Nat × Nat :=
  (before.count '\n' + 1, (lineHead before).length + 1)

/-- More text moves the place. -/
theorem eq_nil_of_place (h : place before = place (before ++ after)) : after = [] := by
  simp only [place, List.count_append, Prod.mk.injEq] at h
  have hlf : '\n' ∉ after := by
    rw [← List.count_eq_zero]
    omega
  rw [lineHead_append hlf, List.length_append] at h
  exact List.eq_nil_of_length_eq_zero (by omega)

theorem place_inj (h : before ++ after = before' ++ after')
    (hplace : place before = place before') : before = before' := by
  obtain ⟨middle, rfl, _⟩ | ⟨middle, rfl, _⟩ := List.append_eq_append_iff.1 h
  · rw [eq_nil_of_place hplace, List.append_nil]
  · rw [eq_nil_of_place hplace.symm, List.append_nil]

end Text

theorem Position.place_after (before : List Char) :
    ((Position.start.after before).line, (Position.start.after before).column) =
      Text.place before := by
  have hline : (Position.start.after before).line = before.count '\n' + 1 :=
    (line_after .start before).trans (Nat.add_comm _ _)
  rw [hline, column_after, Text.place]

/-! ## Lines -/

namespace Text

/-- A text and its lines without their ends. A line ends with a line feed, and a carriage return
right before that is part of the end; behind the last line feed there is a line only if there is
text. -/
inductive Lined : List Char → List (List Char) → Prop
  | nil : Lined [] []
  | last {line : List Char} (hfilled : line ≠ []) (hlf : '\n' ∉ line) : Lined line [line]
  | feed {line after : List Char} {rows : List (List Char)} (hlf : '\n' ∉ line)
      (hcr : line.getLast? ≠ some '\r') (hrest : Lined after rows) :
      Lined (line ++ '\n' :: after) (line :: rows)
  | returned {line after : List Char} {rows : List (List Char)} (hlf : '\n' ∉ line)
      (hrest : Lined after rows) : Lined (line ++ '\r' :: '\n' :: after) (line :: rows)

theorem linesWithEnds_append (h : '\n' ∉ line) (after : List Char) :
    linesWithEnds (line ++ '\n' :: after) = (line ++ ['\n']) :: linesWithEnds after := by
  induction line with
  | nil => rw [List.nil_append, linesWithEnds, if_pos rfl, List.nil_append]
  | cons c line ih =>
    rw [List.mem_cons, not_or] at h
    rw [List.cons_append, linesWithEnds, if_neg (Ne.symm h.1), ih h.2]
    rfl

theorem linesWithEnds_last (hfilled : line ≠ []) (h : '\n' ∉ line) :
    linesWithEnds line = [line] := by
  induction line with
  | nil => exact absurd rfl hfilled
  | cons c line ih =>
    rw [List.mem_cons, not_or] at h
    rw [linesWithEnds, if_neg (Ne.symm h.1)]
    cases line with
    | nil => rfl
    | cons d line => rw [ih (List.cons_ne_nil _ _) h.2]

theorem withoutEnd_of_not_mem (h : '\n' ∉ line) : withoutEnd line = line := by
  unfold withoutEnd
  split
  · next hline => exact absurd (List.mem_reverse.1 (hline ▸ List.mem_cons_self)) h
  · next hline => exact absurd (List.mem_reverse.1 (hline ▸ List.mem_cons_self)) h
  · rfl

theorem withoutEnd_returned (line : List Char) : withoutEnd (line ++ ['\r'] ++ ['\n']) = line := by
  simp [withoutEnd]

theorem withoutEnd_feed (hcr : line.getLast? ≠ some '\r') : withoutEnd (line ++ ['\n']) = line := by
  rw [withoutEnd, List.reverse_append, List.reverse_singleton, List.singleton_append]
  split
  · next rest hline =>
    rw [List.getLast?_eq_head?_reverse] at hcr
    rw [List.cons.injEq] at hline
    exact absurd (by rw [hline.2]; rfl) hcr
  · next rest _ hline =>
    rw [List.cons.injEq] at hline
    rw [← hline.2, List.reverse_reverse]
  · next hline => exact absurd rfl (hline line.reverse)

theorem exists_lined (cs : List Char) : ∃ rows, Lined cs rows := by
  by_cases hlf : '\n' ∈ cs
  · obtain ⟨line, after, rfl, hline⟩ := List.eq_append_cons_of_mem hlf
    obtain ⟨rows, hrest⟩ := exists_lined after
    by_cases hcr : line.getLast? = some '\r'
    · obtain ⟨line, rfl⟩ := List.getLast?_eq_some_iff.1 hcr
      rw [List.append_assoc]
      exact ⟨_, .returned (fun h => hline (List.mem_append_left _ h)) hrest⟩
    · exact ⟨_, .feed hline hcr hrest⟩
  · by_cases hfilled : cs = []
    · subst hfilled
      exact ⟨_, .nil⟩
    · exact ⟨_, .last hfilled hlf⟩
termination_by cs.length
decreasing_by
  subst_vars
  rw [List.length_append, List.length_cons]
  omega

theorem Lined.lines_eq {cs : List Char} (h : Lined cs rows) : lines cs = rows := by
  induction h with
  | nil => rfl
  | last hfilled hlf =>
    rw [lines, linesWithEnds_last hfilled hlf, List.map_singleton, withoutEnd_of_not_mem hlf]
  | feed hlf hcr _ ih =>
    rw [lines, linesWithEnds_append hlf, List.map_cons, withoutEnd_feed hcr, ← lines, ih]
  | @returned line after _ hlf _ ih =>
    have hsplit : line ++ '\r' :: '\n' :: after = line ++ ['\r'] ++ '\n' :: after := by simp
    have hlf' : '\n' ∉ line ++ ['\r'] := by simpa using hlf
    rw [hsplit, lines, linesWithEnds_append hlf', List.map_cons, withoutEnd_returned, ← lines, ih]

/-- The lines that are found are the lines that there are. -/
theorem lined_lines (cs : List Char) : Lined cs (lines cs) := by
  obtain ⟨rows, h⟩ := exists_lined cs
  rwa [h.lines_eq]

/-- What holds no line feed stands on the first line of a text, or behind it. -/
theorem begins_or_behind (hlf : '\n' ∉ delimiter)
    (h : line ++ '\n' :: after' = before ++ delimiter ++ after) :
    before ++ delimiter <+: line ∨
      ∃ behind, before = line ++ '\n' :: behind ∧ after' = behind ++ delimiter ++ after := by
  obtain ⟨excess, hfront, hback⟩ | ⟨excess, hfront, _⟩ := List.append_eq_append_iff.1 h
  · cases excess with
    | nil =>
      rw [List.append_nil] at hfront
      exact .inl ⟨[], by rw [List.append_nil, hfront]⟩
    | cons c excess =>
      obtain ⟨rfl, rfl⟩ := List.cons.inj hback
      obtain ⟨middle, _, hdelimiter⟩ | ⟨middle, rfl, hmiddle⟩ := List.append_eq_append_iff.1 hfront
      · rw [hdelimiter] at hlf
        exact absurd (by simp) hlf
      · cases middle with
        | nil =>
          rw [List.nil_append] at hmiddle
          rw [← hmiddle] at hlf
          exact absurd List.mem_cons_self hlf
        | cons c middle =>
          obtain ⟨rfl, rfl⟩ := List.cons.inj hmiddle
          exact .inr ⟨middle, rfl, rfl⟩
  · exact .inl ⟨excess, hfront.symm⟩

/-- A text that ends in no carriage return does not take in the one behind a line. -/
theorem begins_of_returned (hfilled : delimiter ≠ []) (hcr : '\r' ∉ delimiter)
    (h : before ++ delimiter <+: line ++ ['\r']) : before ++ delimiter <+: line := by
  obtain hwhole | hbegins := List.prefix_concat_iff.1 h
  · obtain rfl | ⟨front, c, rfl⟩ := List.eq_nil_or_concat delimiter
    · exact absurd rfl hfilled
    · rw [List.concat_eq_append, ← List.append_assoc] at hwhole
      obtain ⟨_, hlast⟩ := List.append_inj' hwhole rfl
      rw [List.concat_eq_append, hlast] at hcr
      exact absurd (List.mem_append_right _ (List.mem_singleton_self _)) hcr
  · exact hbegins

/-- What holds no line end stands on the line that its place says, behind as many characters as
its column says. -/
theorem Lined.exists_line {cs : List Char} (h : Lined cs rows) (hfilled : delimiter ≠ [])
    (hlf : '\n' ∉ delimiter) (hcr : '\r' ∉ delimiter) (hcs : cs = before ++ delimiter ++ after) :
    ∃ line, rows[before.count '\n']? = some line ∧ lineHead before ++ delimiter <+: line := by
  -- on the first line, all that stands before is the beginning of the line
  have hfirst {line before : List Char} (hline : '\n' ∉ line)
      (hbegins : before ++ delimiter <+: line) (rows : List (List Char)) :
      ∃ found, (line :: rows)[before.count '\n']? = some found ∧
        lineHead before ++ delimiter <+: found := by
    have hbefore : '\n' ∉ before := by
      intro hmem
      exact hline (hbegins.subset (List.mem_append_left _ hmem))
    rw [List.count_eq_zero.2 hbefore, lineHead_of_not_mem hbefore]
    exact ⟨line, rfl, hbegins⟩
  -- on a later one, the first line only counts
  have hlater {front line behind : List Char} {rows : List (List Char)} (hfront : '\n' ∉ front)
      (hrest : ∃ found, rows[behind.count '\n']? = some found ∧
        lineHead behind ++ delimiter <+: found) :
      ∃ found, (line :: rows)[(front ++ '\n' :: behind).count '\n']? = some found ∧
        lineHead (front ++ '\n' :: behind) ++ delimiter <+: found := by
    rw [lineHead_append_cons, List.count_append, List.count_eq_zero.2 hfront, Nat.zero_add,
      List.count_cons_self, List.getElem?_cons_succ]
    exact hrest
  induction h generalizing before with
  | nil =>
    have := List.append_eq_nil_iff.1 hcs.symm
    exact absurd (List.append_eq_nil_iff.1 this.1).2 hfilled
  | last _ hline => exact hfirst hline ⟨after, hcs.symm⟩ []
  | feed hline _ _ ih =>
    obtain hbegins | ⟨behind, rfl, hrest⟩ := begins_or_behind hlf hcs
    · exact hfirst hline hbegins _
    · exact hlater hline (ih hrest)
  | @returned line _ _ hline _ ih =>
    have hfront : '\n' ∉ line ++ ['\r'] := by simpa using hline
    obtain hbegins | ⟨behind, rfl, hrest⟩ :=
      @begins_or_behind before after _ (line ++ ['\r']) _ hlf (by simpa using hcs)
    · exact hfirst hline (begins_of_returned hfilled hcr hbegins) _
    · exact hlater hfront (ih hrest)

end Text

/-! ## Snippets -/

namespace Snippet

/-- The snippet is about the place, and shows these of the lines: those with the numbers from two
before to two behind, as far as there are such, each with its number and its text. -/
structure Shows (snippet : Snippet) (rows : List (List Char)) (line column : Nat) : Prop where
  place : (snippet.line, snippet.column) = (line, column)
  numbers : snippet.lines.map Prod.fst =
    List.range' (max 1 (line - 2)) (min (line + 2) rows.length + 1 - max 1 (line - 2))
  texts : ∀ entry ∈ snippet.lines, rows[entry.1 - 1]? = some entry.2.toList

theorem getElem?_numbered (first : Nat) (rows : List (List Char)) (k : Nat) :
    (numbered first rows)[k]? = rows[k]?.map fun row => (first + k, String.ofList row) := by
  induction rows generalizing first k with
  | nil => rfl
  | cons row rows ih =>
    cases k with
    | zero => rfl
    | succ k =>
      rw [numbered, List.getElem?_cons_succ, List.getElem?_cons_succ, ih, Nat.add_assoc,
        Nat.add_comm 1]

theorem numbers_numbered (first : Nat) (rows : List (List Char)) :
    (numbered first rows).map Prod.fst = List.range' first rows.length := by
  induction rows generalizing first with
  | nil => rfl
  | cons row rows ih => rw [numbered, List.map_cons, ih, List.length_cons, List.range'_succ]

theorem take_numbers (count first total : Nat) :
    (List.range' first total).take count = List.range' first (min count total) := by
  induction count generalizing first total with
  | zero => simp
  | succ count ih =>
    cases total with
    | zero => simp
    | succ total =>
      rw [List.range'_succ, List.take_succ_cons, ih, Nat.succ_min_succ, List.range'_succ]

theorem shows_ofSource (source : String) (line column : Nat) :
    (ofSource source line column).Shows (Text.lines source.toList) line column where
  place := rfl
  numbers := by
    have hcount : min (line + 2) (Text.lines source.toList).length + 1 - max 1 (line - 2) =
        min (line + 3 - max (line - 2) 1)
          ((Text.lines source.toList).length - (max (line - 2) 1 - 1)) := by
      omega
    have hfirst : 1 + (max (line - 2) 1 - 1) * 1 = max 1 (line - 2) := by omega
    simp only [ofSource, List.map_take, List.map_drop, numbers_numbered]
    rw [List.drop_range', hfirst, take_numbers, hcount]
  texts := by
    intro entry hentry
    have hmem := List.mem_of_mem_drop (List.mem_of_mem_take hentry)
    obtain ⟨k, hk⟩ := List.mem_iff_getElem?.1 hmem
    rw [getElem?_numbered, Option.map_eq_some_iff] at hk
    obtain ⟨row, hrow, rfl⟩ := hk
    rw [Nat.add_sub_cancel_left, hrow, String.toList_ofList]

/-- A line that there is, is among those shown around it. -/
theorem mem_lines_ofSource {source : String} {line : Nat} {row : List Char} (hline : 0 < line)
    (h : (Text.lines source.toList)[line - 1]? = some row) (column : Nat) :
    (line, String.ofList row) ∈ (ofSource source line column).lines := by
  refine List.mem_iff_getElem?.2 ⟨line - max (line - 2) 1, ?_⟩
  simp only [ofSource]
  rw [List.getElem?_take_of_lt (by omega), List.getElem?_drop, getElem?_numbered]
  have hindex : max (line - 2) 1 - 1 + (line - max (line - 2) 1) = line - 1 := by omega
  rw [hindex, h, Option.map_some, Nat.add_sub_cancel' hline]

end Snippet

end Mustache
