import Mustache.Proofs.Places
import Mustache.Proofs.ScansInStep

/-!
# Mustache.Proofs.Returned

Line feeds with a carriage return before each. That is white space in front of white space, so
tags and names are read alike; lines end where they ended, so places keep their lines and columns,
and a tag stands alone between two runs if it did.
-/

namespace Mustache

/-! ## Text -/

namespace Text

/-- Puts a carriage return before every line feed. -/
def returned (cs : List Char) : List Char :=
  cs.flatMap fun c => if c = '\n' then ['\r', '\n'] else [c]

theorem respaces_returned : Respaces fun c => if c = '\n' then ['\r', '\n'] else [c] where
  keeps c hc := if_neg (isSpace_of_isBlank hc).2.1
  blanks c hc := by
    split
    · exact ⟨nofun, rfl⟩
    · exact ⟨nofun, by rw [List.all_cons, hc]; rfl⟩

variable {cs : List Char}

theorem returned_append (cs ds : List Char) : returned (cs ++ ds) = returned cs ++ returned ds :=
  List.flatMap_append

theorem returned_eq_self (h : '\n' ∉ cs) : returned cs = cs := by
  induction cs with
  | nil => rfl
  | cons c cs ih =>
    rw [List.mem_cons, not_or] at h
    rw [returned, List.flatMap_cons, if_neg (Ne.symm h.1), ← returned, ih h.2]
    rfl

theorem returned_lineFeed (h : '\n' ∉ cs) (ds : List Char) :
    returned (cs ++ '\n' :: ds) = cs ++ '\r' :: '\n' :: returned ds := by
  rw [returned_append, returned_eq_self h]
  rfl

/-- A pattern without white space is met where it was. -/
theorem cut?_returned {pattern : List Char} (hne : pattern ≠ [])
    (hp : ∀ c ∈ pattern, isBlank c = false) (cs : List Char) :
    cut? pattern (returned cs) =
      (cut? pattern cs).map fun found => (returned found.1, returned found.2) :=
  respaces_returned.cut? hne hp cs

/-! ## Lines -/

theorem lineHead_returned (cs : List Char) : lineHead (returned cs) = lineHead cs := by
  by_cases hcs : '\n' ∈ cs
  · obtain ⟨head, tail, rfl, htail⟩ := exists_lastBreak hcs
    have hreturned : returned (head ++ '\n' :: tail) =
        (returned head ++ ['\r']) ++ '\n' :: tail := by
      have htail' := @returned_lineFeed [] List.not_mem_nil tail
      rw [returned_eq_self htail] at htail'
      rw [returned_append, List.append_assoc]
      exact congrArg (returned head ++ ·) htail'
    rw [hreturned, lineHead_append_cons, lineHead_append_cons]
  · rw [returned_eq_self hcs]

theorem place_returned (cs : List Char) : place (returned cs) = place cs := by
  have hcount : (returned cs).count '\n' = cs.count '\n' := by
    induction cs with
    | nil => rfl
    | cons c cs ih =>
      rw [returned, List.flatMap_cons, List.count_append, ← returned, ih, List.count_cons]
      by_cases hc : c = '\n'
      · subst hc
        exact Nat.add_comm 1 _
      · simp [hc]
  rw [place, place, hcount, lineHead_returned]

theorem Lined.of_returned {rows : List (List Char)} (h : Lined cs rows) (hcs : '\r' ∉ cs) :
    Lined (Text.returned cs) rows := by
  induction h with
  | nil => exact .nil
  | last hfilled hlf =>
    rw [returned_eq_self hlf]
    exact .last hfilled hlf
  | feed hlf _ _ ih =>
    rw [returned_lineFeed hlf]
    refine .returned hlf (ih ?_)
    intro hmem
    exact hcs (List.mem_append_right _ (List.mem_cons_of_mem _ hmem))
  | returned => exact absurd (List.mem_append_right _ List.mem_cons_self) hcs

/-- The same lines are shown. -/
theorem lines_returned (h : '\r' ∉ cs) : lines (returned cs) = lines cs := by
  obtain ⟨rows, hrows⟩ := exists_lined cs
  rw [(hrows.of_returned h).lines_eq, hrows.lines_eq]

theorem lineBreak?_returned (h : '\r' ∉ cs) :
    lineBreak? (returned cs) = (lineBreak? cs).map returned := by
  cases cs with
  | nil => rfl
  | cons c cs =>
    rw [List.mem_cons, not_or] at h
    by_cases hc : c = '\n'
    · subst hc
      rfl
    · have hreturned : returned (c :: cs) = c :: returned cs := by
        rw [returned, List.flatMap_cons, if_neg hc]
        rfl
      rw [hreturned, lineBreak?_of_ne hc fun heq => absurd heq.symm h.1,
        lineBreak?_of_ne hc fun heq => absurd heq.symm h.1]
      rfl

theorem lineTail?_returned (h : '\r' ∉ cs) :
    lineTail? (returned cs) = (lineTail? cs).map returned := by
  obtain ⟨spaces, rest, rfl, hspaces, hrest⟩ := exists_spaces cs
  have hline := lineFeed_not_mem_of_all hspaces
  have hhead : ∀ c ∈ (returned rest).head?, isSpace c = false := by
    cases rest with
    | nil => exact nofun
    | cons c rest =>
      rw [returned, List.flatMap_cons]
      split
      · rintro _ ⟨⟩
        rfl
      · exact hrest
  have hcr : '\r' ∉ rest := fun hmem => h (List.mem_append_right _ hmem)
  rw [returned_append, returned_eq_self hline, lineTail?_append hspaces _ hhead,
    lineTail?_append hspaces rest hrest, lineBreak?_returned hcr]
  cases lineBreak? rest with
  | none => rfl
  | some ending =>
    simp only [Option.map_some, returned_append, returned_eq_self hline]

/-! ## Cuts -/

theorem dropBytes_returned (front back : List Char) :
    dropBytes (byteSize (returned front)) (returned (front ++ back)) = returned back := by
  rw [returned_append, dropBytes_byteSize]

/-- What stands between two cuts. -/
theorem slice_returned {front back cs : List Char} (hfront : front <+: cs) (hback : back <+: cs) :
    slice (byteSize (returned front)) (byteSize (returned back)) (returned cs) =
      returned (slice (byteSize front) (byteSize back) cs) := by
  rcases List.prefix_or_prefix_of_prefix hfront hback with ⟨middle, rfl⟩ | ⟨middle, rfl⟩
  · obtain ⟨rest, rfl⟩ := hback
    simp only [returned_append, byteSize_append, slice_append]
  · have hle : byteSize back ≤ byteSize (back ++ middle) := by
      rw [byteSize_append]
      exact Nat.le_add_right _ _
    have hle' : byteSize (returned back) ≤ byteSize (returned (back ++ middle)) := by
      rw [returned_append, byteSize_append]
      exact Nat.le_add_right _ _
    rw [slice, slice, Nat.sub_eq_zero_of_le hle, Nat.sub_eq_zero_of_le hle', takeBytes_zero,
      takeBytes_zero]
    rfl

end Text

/-! ## Tags -/

/-- The tag with carriage returns is read like the tag, and up to the same place. -/
theorem Tag.read_returned (d : Delimiters) (place place' : Position) (body : List Char) :
    (∃ fault, read d place body = .error fault ∧
      read d place' (Text.returned body) = .error fault) ∨
    ∃ text tag tag' rest, d.opening.toList ++ body = text ++ rest ∧
      read d place body = .ok (tag, place.after text, rest) ∧
      read d place' (Text.returned body) =
        .ok (tag', place'.after (Text.returned text), Text.returned rest) ∧
      tag'.kind = tag.kind ∧ tag'.name = String.ofList (Text.returned tag.name.toList) ∧
      tag'.delimiters = tag.delimiters ∧ tag.span = .between place (place.after text) ∧
      tag'.span = .between place' (place'.after (Text.returned text)) :=
  read_respaced Text.respaces_returned d place place' body

/-! ## Runs -/

namespace Run

variable {run : List Char}

/-- The line of a tag begins behind the same text of the run before the tag. -/
theorem lineStart?_returned (run : List Char) (opens closes : Bool) :
    (∃ kept margin, run = kept ++ margin ∧ '\n' ∉ margin ∧
      lineStart? ⟨run, opens, closes⟩ = some (Text.byteSize kept) ∧
      lineStart? ⟨Text.returned run, opens, closes⟩ =
        some (Text.byteSize (Text.returned kept))) ∨
    lineStart? ⟨run, opens, closes⟩ = none ∧
      lineStart? ⟨Text.returned run, opens, closes⟩ = none := by
  -- what stands before the run shows only in whether the run opens the source
  obtain ⟨before, rfl, hbefore, hline⟩ : ∃ before : List Char, before.isEmpty = opens ∧
      (∀ c ∈ before.getLast?, Text.isBlank c = false) ∧ '\n' ∉ before := by
    cases opens with
    | true => exact ⟨[], rfl, nofun, nofun⟩
    | false => exact ⟨['x'], rfl, by rintro _ ⟨⟩; rfl, by decide⟩
  have hhead : Text.lineHead (before ++ Text.returned run) = Text.lineHead (before ++ run) := by
    have := Text.lineHead_returned (before ++ run)
    rwa [Text.returned_append, Text.returned_eq_self hline] at this
  have hreturned := @lineStart?_of_source before (Text.returned run) closes hbefore
  rw [hhead] at hreturned
  rcases @lineStart?_of_source before run closes hbefore with
    ⟨kept, hrun, hspaces, hstart⟩ | ⟨hspaces, hstart⟩
  · rw [hspaces] at hreturned
    obtain ⟨kept', hrun', -, hstart'⟩ | ⟨hspaces', -⟩ := hreturned
    · have hmargin := Text.lineFeed_not_mem_of_all hspaces
      have hkept : kept' = Text.returned kept := by
        have hsplit := congrArg Text.returned hrun
        rw [Text.returned_append, Text.returned_eq_self hmargin] at hsplit
        exact List.append_cancel_right (hrun'.symm.trans hsplit)
      rw [hkept] at hstart'
      exact .inl ⟨kept, _, hrun, hmargin, hstart, hstart'⟩
    · cases hspaces'
  · rw [hspaces] at hreturned
    obtain ⟨_, _, hspaces', -⟩ | ⟨-, hstart'⟩ := hreturned
    · cases hspaces'
    · exact .inr ⟨hstart, hstart'⟩

/-- The line of a tag ends behind the same text of the run behind the tag. -/
theorem lineEnd?_returned (hrun : '\r' ∉ run) (opens closes : Bool) :
    (∃ tail rest, run = tail ++ rest ∧
      lineEnd? ⟨run, opens, closes⟩ = some (Text.byteSize tail) ∧
      lineEnd? ⟨Text.returned run, opens, closes⟩ = some (Text.byteSize (Text.returned tail))) ∨
    lineEnd? ⟨run, opens, closes⟩ = none ∧
      lineEnd? ⟨Text.returned run, opens, closes⟩ = none := by
  obtain ⟨after, rfl, hafter, hline, hcr⟩ : ∃ after : List Char, after.isEmpty = closes ∧
      (∀ c ∈ after.head?, Text.isBlank c = false) ∧ '\n' ∉ after ∧ '\r' ∉ after := by
    cases closes with
    | true => exact ⟨[], rfl, nofun, nofun, nofun⟩
    | false => exact ⟨['x'], rfl, by rintro _ ⟨⟩; rfl, by decide, by decide⟩
  obtain ⟨hend, hprefix⟩ := @lineEnd?_of_source run after opens hafter
  obtain ⟨hend', -⟩ := @lineEnd?_of_source (Text.returned run) after opens hafter
  have htail : Text.lineTail? (Text.returned run ++ after) =
      (Text.lineTail? (run ++ after)).map Text.returned := by
    have := @Text.lineTail?_returned (run ++ after) (by simp [hrun, hcr])
    rwa [Text.returned_append, Text.returned_eq_self hline] at this
  rw [htail] at hend'
  rw [hend, hend']
  cases ht : Text.lineTail? (run ++ after) with
  | none => exact .inr ⟨rfl, rfl⟩
  | some tail =>
    obtain ⟨rest, rfl⟩ := hprefix tail ht
    exact .inl ⟨tail, rest, rfl, rfl, rfl⟩

end Run

/-- A tag of the same kind between the same runs is cut out at the same text, or not at all. -/
theorem Tag.cuts?_returned {tag tag' : Tag} (hkind : tag'.kind = tag.kind) (run : List Char)
    {next : List Char} (hnext : '\r' ∉ next) (opens closes : Bool) :
    (∃ kept margin tail rest, run = kept ++ margin ∧ '\n' ∉ margin ∧ next = tail ++ rest ∧
      tag.cuts? ⟨run, opens, false⟩ ⟨next, false, closes⟩ =
        some (Text.byteSize kept, Text.byteSize tail) ∧
      tag'.cuts? ⟨Text.returned run, opens, false⟩ ⟨Text.returned next, false, closes⟩ =
        some (Text.byteSize (Text.returned kept), Text.byteSize (Text.returned tail))) ∨
    tag.cuts? ⟨run, opens, false⟩ ⟨next, false, closes⟩ = none ∧
      tag'.cuts? ⟨Text.returned run, opens, false⟩ ⟨Text.returned next, false, closes⟩ = none := by
  cases hstands : tag.kind.mayStandAlone with
  | false => exact .inr ⟨cuts?_eq_none (.inl hstands), cuts?_eq_none (.inl (hkind ▸ hstands))⟩
  | true =>
    obtain ⟨kept, margin, hrun, hmargin, hstart, hstart'⟩ | ⟨hstart, hstart'⟩ :=
      Run.lineStart?_returned run opens false
    · obtain ⟨tail, rest, hnext, hend, hend'⟩ | ⟨hend, hend'⟩ :=
        Run.lineEnd?_returned hnext false closes
      · exact .inl ⟨kept, margin, tail, rest, hrun, hmargin, hnext,
          cuts?_eq_some hstands hstart hend, cuts?_eq_some (hkind ▸ hstands) hstart' hend'⟩
      · exact .inr ⟨cuts?_eq_none (.inr (.inr hend)), cuts?_eq_none (.inr (.inr hend'))⟩
    · exact .inr ⟨cuts?_eq_none (.inr (.inl hstart)), cuts?_eq_none (.inr (.inl hstart'))⟩

end Mustache
