import Mustache.Proofs.Places
import Mustache.Text.Bytes

/-!
# Mustache.Proofs.IndentedLines

The lines of indented text. A text is cut into lines in one way only, so the lines of a text with
each of them indented are the lines of the indented text, and what holds of indentation line by
line holds of the whole (`Text.indent_composes`): one indentation after another, taking it away
again, and texts put together at the end of a line.
-/

namespace Mustache
namespace Text

/-- The rows are the lines of a text with their ends: no row is empty, a line feed stands only at
the end of a row, and at the end of every row but the last it does. -/
structure LinesOf (cs : List Char) (rows : List (List Char)) : Prop where
  joined : rows.flatten = cs
  filled : ∀ row ∈ rows, row ≠ []
  unbroken : ∀ row ∈ rows, '\n' ∉ row.dropLast
  ended : ∀ row ∈ rows.dropLast, row.getLast? = some '\n'

variable {a cs ds : List Char} {row : List Char} {rows rows' : List (List Char)}

/-! ## Cutting into lines -/

namespace LinesOf

theorem nil : LinesOf [] [] :=
  ⟨rfl, nofun, nofun, nofun⟩

theorem feed (h : LinesOf cs rows) : LinesOf ('\n' :: cs) (['\n'] :: rows) where
  joined := congrArg _ h.joined
  filled := List.forall_mem_cons.2 ⟨List.cons_ne_nil _ _, h.filled⟩
  unbroken := List.forall_mem_cons.2 ⟨List.not_mem_nil, h.unbroken⟩
  ended := by
    cases rows with
    | nil => exact nofun
    | cons row rows => exact List.forall_mem_cons.2 ⟨rfl, h.ended⟩

theorem last {c : Char} : LinesOf [c] [[c]] :=
  ⟨rfl, by simp, by simp, nofun⟩

theorem longer {c : Char} (hc : c ≠ '\n') (h : LinesOf cs (row :: rows)) :
    LinesOf (c :: cs) ((c :: row) :: rows) where
  joined := congrArg (c :: ·) h.joined
  filled := List.forall_mem_cons.2 ⟨List.cons_ne_nil _ _, (List.forall_mem_cons.1 h.filled).2⟩
  unbroken := by
    obtain ⟨hrow, hrows⟩ := List.forall_mem_cons.1 h.unbroken
    have hfilled := (List.forall_mem_cons.1 h.filled).1
    refine List.forall_mem_cons.2 ⟨?_, hrows⟩
    rw [List.dropLast_cons_of_ne_nil hfilled, List.mem_cons, not_or]
    exact ⟨Ne.symm hc, hrow⟩
  ended := by
    cases rows with
    | nil => exact nofun
    | cons other rows =>
      obtain ⟨hrow, hrows⟩ := List.forall_mem_cons.1 h.ended
      have hfilled := (List.forall_mem_cons.1 h.filled).1
      refine List.forall_mem_cons.2 ⟨?_, hrows⟩
      rw [List.getLast?_cons, hrow]
      rfl

/-- Rows behind a row that ends its line. -/
theorem tail (h : LinesOf cs (row :: rows)) : LinesOf rows.flatten rows where
  joined := rfl
  filled := (List.forall_mem_cons.1 h.filled).2
  unbroken := (List.forall_mem_cons.1 h.unbroken).2
  ended := by
    cases rows with
    | nil => exact nofun
    | cons other rows => exact (List.forall_mem_cons.1 h.ended).2

end LinesOf

theorem linesOf_linesWithEnds (cs : List Char) : LinesOf cs (linesWithEnds cs) := by
  induction cs with
  | nil => exact .nil
  | cons c cs ih =>
    unfold linesWithEnds
    split
    · next hc =>
      subst hc
      exact ih.feed
    · next hc =>
      split
      · next hlines =>
        have hnil := ih.joined
        rw [hlines] at hnil
        rw [← hnil]
        exact .last
      · next hlines =>
        rw [hlines] at ih
        exact ih.longer hc

theorem LinesOf.eq_linesWithEnds (h : LinesOf cs rows) : rows = linesWithEnds cs := by
  induction rows generalizing cs with
  | nil =>
    rw [← h.joined]
    rfl
  | cons row rows ih =>
    have hrest := ih h.tail
    have hfilled := h.filled row List.mem_cons_self
    obtain ⟨line, c, rfl⟩ : ∃ line c, row = line ++ [c] :=
      ⟨_, _, (List.dropLast_concat_getLast hfilled).symm⟩
    have hline : '\n' ∉ line := by simpa using h.unbroken _ List.mem_cons_self
    rw [← h.joined, List.flatten_cons]
    by_cases hc : c = '\n'
    · subst hc
      rw [List.append_assoc, List.singleton_append, linesWithEnds_append hline, ← hrest]
    · -- only the last row may be without a line feed at its end
      cases rows with
      | nil =>
        rw [List.flatten_nil, List.append_nil,
          linesWithEnds_last hfilled (by simp [hline, Ne.symm hc])]
      | cons other rows =>
        have hended := h.ended _ List.mem_cons_self
        simp [hc] at hended

theorem linesOf_iff : LinesOf cs rows ↔ rows = linesWithEnds cs := by
  constructor
  · exact LinesOf.eq_linesWithEnds
  · rintro rfl
    exact linesOf_linesWithEnds cs

/-! ## Indenting -/

/-- The indented lines of a text are the lines of the indented text. -/
theorem LinesOf.indent (ha : '\n' ∉ a) (h : LinesOf cs rows) :
    LinesOf (Text.indent a cs) (rows.map (a ++ ·)) where
  joined := by rw [Text.indent, ← h.eq_linesWithEnds]; rfl
  filled := by
    intro row hrow
    obtain ⟨line, hline, rfl⟩ := List.mem_map.1 hrow
    exact List.append_ne_nil_of_right_ne_nil a (h.filled line hline)
  unbroken := by
    intro row hrow
    obtain ⟨line, hline, rfl⟩ := List.mem_map.1 hrow
    rw [List.dropLast_append_of_ne_nil (h.filled line hline), List.mem_append, not_or]
    exact ⟨ha, h.unbroken line hline⟩
  ended := by
    intro row hrow
    rw [← List.map_dropLast] at hrow
    obtain ⟨line, hline, rfl⟩ := List.mem_map.1 hrow
    rw [List.getLast?_append, h.ended line hline]
    rfl

theorem linesWithEnds_indent (ha : '\n' ∉ a) (cs : List Char) :
    linesWithEnds (indent a cs) = (linesWithEnds cs).map (a ++ ·) :=
  ((linesOf_linesWithEnds cs).indent ha).eq_linesWithEnds.symm

/-- Text behind the end of a line begins with a line of its own. -/
theorem LinesOf.append (hcs : cs = [] ∨ cs.getLast? = some '\n') (h : LinesOf cs rows)
    (h' : LinesOf ds rows') : LinesOf (cs ++ ds) (rows ++ rows') where
  joined := by rw [List.flatten_append, h.joined, h'.joined]
  filled := List.forall_mem_append.2 ⟨h.filled, h'.filled⟩
  unbroken := List.forall_mem_append.2 ⟨h.unbroken, h'.unbroken⟩
  ended := by
    have hrows : ∀ row ∈ rows, row.getLast? = some '\n' := by
      rcases List.eq_nil_or_concat' rows with rfl | ⟨front, last, rfl⟩
      · exact nofun
      · have hlast : last ≠ [] := h.filled last (by simp)
        have hjoined := h.joined
        rw [List.flatten_append, List.flatten_singleton] at hjoined
        have hended := h.ended
        rw [List.dropLast_concat] at hended
        refine List.forall_mem_append.2 ⟨hended, List.forall_mem_singleton.2 ?_⟩
        obtain rfl | hcs := hcs
        · exact absurd (List.append_eq_nil_iff.1 hjoined).2 hlast
        · rwa [← hjoined, List.getLast?_append_of_ne_nil _ hlast] at hcs
    cases rows' with
    | nil =>
      intro row hrow
      rw [List.append_nil] at hrow
      exact hrows row (List.dropLast_subset _ hrow)
    | cons first rest =>
      rw [List.dropLast_append_of_ne_nil (List.cons_ne_nil first rest)]
      exact List.forall_mem_append.2 ⟨hrows, h'.ended⟩

theorem linesWithEnds_append_of_ended (hcs : cs = [] ∨ cs.getLast? = some '\n')
    (ds : List Char) : linesWithEnds (cs ++ ds) = linesWithEnds cs ++ linesWithEnds ds :=
  ((linesOf_linesWithEnds cs).append hcs (linesOf_linesWithEnds ds)).eq_linesWithEnds.symm

/-- Indentation goes line by line: the lines of an indented text are the lines of the text, each
with its own end, behind the indentation. So indenting twice is indenting once with both, the second
one in front; dropping as many octets of each line as the indentation has gives the text back; and
behind the end of a line the rest is indented on its own. -/
theorem indent_composes (ha : '\n' ∉ a) (cs : List Char) :
    (∀ b, indent b (indent a cs) = indent (b ++ a) cs) ∧
    (∀ rows, LinesOf cs rows ↔ rows = linesWithEnds cs) ∧
    (∀ rows, LinesOf (indent a cs) rows ↔ rows = (linesWithEnds cs).map (a ++ ·)) ∧
    (linesWithEnds (indent a cs)).flatMap (dropBytes (byteSize a)) = cs ∧
    ∀ ds, cs = [] ∨ cs.getLast? = some '\n' →
      indent a (cs ++ ds) = indent a cs ++ indent a ds := by
  have hlines := linesWithEnds_indent ha cs
  refine ⟨?_, fun rows => linesOf_iff, ?_, ?_, ?_⟩
  · intro b
    rw [indent, hlines, List.flatMap_map, indent]
    simp only [List.append_assoc]
  · intro rows
    rw [linesOf_iff, hlines]
  · rw [hlines, List.flatMap_map]
    simp only [dropBytes_byteSize, List.flatMap_id', flatten_linesWithEnds]
  · intro ds hcs
    simp only [indent, linesWithEnds_append_of_ended hcs, List.flatMap_append]

/-- An empty line, a line end of two characters and a last line without an end. -/
theorem indent_composes_lines :
    let cs := "\nx\r\n".toList
    '\n' ∉ "é ".toList ∧ indent "> ".toList (indent "é ".toList cs) = "> é \n> é x\r\n".toList ∧
      (linesWithEnds (indent "é ".toList cs)).flatMap (dropBytes 3) = cs ∧
      indent "é ".toList (cs ++ "y".toList) = "é \né x\r\né y".toList := by
  intro cs
  have ha : '\n' ∉ "é ".toList := by decide
  obtain ⟨hindent, _, _, hdrop, happend⟩ := indent_composes ha cs
  exact ⟨ha, hindent _, hdrop, happend _ (.inr rfl)⟩

end Text
end Mustache
