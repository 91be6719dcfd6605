import Mathlib.Data.List.Forall2
import Mustache.Proofs.Nesting
import Mustache.Proofs.Scanning

/-!
# Mustache.Proofs.Excerpt

Sources cut between two of their tags. What stands there is read the same way on its own, under
the delimiters of the first tag, although terminators and opening delimiters are looked for in
all that follows: its tags are those of the whole, nearer to the start.
-/

namespace Mustache

/-- A tag of an excerpt, and the same tag in the whole source, where the excerpt begins at octet
`offset`. -/
structure Tag.Shifted (excerpt : List Char) (offset : Nat) (tag whole : Tag) : Prop where
  kind : whole.kind = tag.kind
  name : whole.name = tag.name
  delimiters : whole.delimiters = tag.delimiters
  start : whole.span.start = offset + tag.span.start
  stop : whole.span.stop = offset + tag.span.stop
  lies : ∃ before text after, excerpt = before ++ text ++ after ∧
    tag.span.start = Text.byteSize before ∧ tag.span.stop = Text.byteSize (before ++ text)

/-! ## Cutting scripts -/

namespace Script

/-- The delimiters in force behind tags. -/
def delimitersFrom (d : Delimiters) : List (WrittenTag × List Char) → Delimiters
  | [] => d
  | (w, _) :: rest => delimitersFrom w.after rest

variable {d : Delimiters} {run next : List Char} {w : WrittenTag}
variable {front back rest : List (WrittenTag × List Char)}

theorem textFrom_append :
    textFrom d run (front ++ (w, next) :: back) =
      textFrom d run front ++ w.text (delimitersFrom d front) ++ textFrom w.after next back := by
  induction front generalizing d run with
  | nil => rfl
  | cons entry front ih =>
    rw [List.cons_append, textFrom, ih, textFrom]
    simp only [delimitersFrom, List.append_assoc]

/-- Both sides of a tag are legible. The run before it holds no opening delimiter, which is first
met right behind that run. -/
theorem LegibleFrom.of_append (h : LegibleFrom d run (front ++ (w, next) :: back)) :
    LegibleFrom d run front ∧ LegibleFrom w.after next back := by
  induction front generalizing d run with
  | nil => exact ⟨Text.not_infix_of_metFirstAfter d.opening_ne_nil h.1, h.2.2⟩
  | cons entry front ih =>
    obtain ⟨hrun, hw, hrest⟩ := h
    obtain ⟨hfront, hback⟩ := ih hrest
    exact ⟨⟨hrun, hw, hfront⟩, hback⟩

/-- A tag of a script parts it in two. -/
theorem exists_of_tagsFrom {before : List Char} {gone tags : List Tag} {tag : Tag}
    (h : (tagsFrom d before run rest).map (·.1) = gone ++ tag :: tags) :
    ∃ front w next back, rest = front ++ (w, next) :: back ∧
      tag = w.toTag (delimitersFrom d front) (before ++ textFrom d run front) ∧
      gone = (tagsFrom d before run front).map (·.1) ∧
      tags = (tagsFrom w.after
        (before ++ textFrom d run front ++ w.text (delimitersFrom d front)) next back).map (·.1) := by
  induction rest generalizing d before run gone with
  | nil => cases gone <;> cases h
  | cons entry rest ih =>
    obtain ⟨w, next⟩ := entry
    rw [tagsFrom, List.map_cons] at h
    cases gone with
    | nil =>
      obtain ⟨rfl, rfl⟩ := List.cons.inj h
      exact ⟨[], w, next, rest, rfl, rfl, rfl, rfl⟩
    | cons first gone =>
      obtain ⟨rfl, hrest⟩ := List.cons.inj h
      obtain ⟨front, w', next', back, rfl, rfl, rfl, rfl⟩ := ih hrest
      refine ⟨(w, next) :: front, w', next', back, rfl, ?_, rfl, ?_⟩
      · simp only [textFrom, delimitersFrom, List.append_assoc]
      · simp only [textFrom, delimitersFrom, List.append_assoc]

/-- More text in front of a script shifts its tags. -/
theorem tagsFrom_shifted (gone before : List Char) :
    List.Forall₂ (Tag.Shifted (before ++ textFrom d run rest) (Text.byteSize gone))
      ((tagsFrom d before run rest).map (·.1))
      ((tagsFrom d (gone ++ before) run rest).map (·.1)) := by
  induction rest generalizing d before run with
  | nil => exact .nil
  | cons entry rest ih =>
    obtain ⟨w, next⟩ := entry
    have hih := @ih w.after next (before ++ run ++ w.text d)
    simp only [tagsFrom, List.map_cons, textFrom, List.append_assoc] at hih ⊢
    refine .cons ⟨rfl, rfl, rfl, ?_, ?_, ?_⟩ hih
    · exact Text.byteSize_append gone (before ++ run)
    · rw [WrittenTag.toTag, WrittenTag.toTag, Span.ofText, Span.ofText]
      simp only [Text.byteSize_append, Nat.add_assoc]
    · refine ⟨before ++ run, w.text d, textFrom w.after next rest, ?_, rfl, rfl⟩
      simp only [List.append_assoc]

end Script

/-- The source between two of its tags, and what is read there. -/
theorem Scan.exists_excerpt {d : Delimiters} {source : List Char} {scan : Scan}
    {gone body rest : List Tag} {opener closer : Tag}
    (h : Scan.ofSource d Position.start source = .ok scan)
    (htags : scan.tags = gone ++ opener :: (body ++ closer :: rest)) :
    ∃ before excerpt after scan', source = before ++ excerpt ++ after ∧
      opener.span.stop = Text.byteSize before ∧
      closer.span.start = Text.byteSize before + Text.byteSize excerpt ∧
      Scan.ofSource opener.delimiters Position.start excerpt = .ok scan' ∧
      List.Forall₂ (Tag.Shifted excerpt (Text.byteSize before)) scan'.tags body := by
  obtain ⟨written, hlegible, rfl, hrest⟩ := exists_script h [] rfl
  rw [tags, hrest] at htags
  -- Cut at the opener, and what is behind it at the closer.
  obtain ⟨front, w, next, back, rfl, rfl, -, htags'⟩ := Script.exists_of_tagsFrom htags
  obtain ⟨inside, w', next', back, rfl, rfl, rfl, -⟩ := Script.exists_of_tagsFrom htags'.symm
  obtain ⟨hinside, -⟩ := hlegible.of_append.2.of_append
  let before := Script.textFrom d scan.head front ++ w.text (Script.delimitersFrom d front)
  let after := w'.text (Script.delimitersFrom w.after inside) ++
    Script.textFrom w'.after next' back
  have hshifted := @Script.tagsFrom_shifted w.after next inside before []
  rw [List.append_nil] at hshifted
  refine ⟨before, Script.textFrom w.after next inside, after, _, ?_, rfl, ?_,
    Scan.ofSource_textFrom [] hinside, hshifted⟩
  · simp only [before, after, Script.textFrom_append, List.append_assoc]
  · exact Text.byteSize_append before _

/-! ## Nesting in an excerpt -/

/-- The section between two tags of an excerpt is the one between them in the whole. -/
theorem Tag.section_of_shifted {before excerpt after : List Char}
    {opener closer opener' closer' : Tag}
    (ho : Tag.Shifted excerpt (Text.byteSize before) opener opener')
    (hc : Tag.Shifted excerpt (Text.byteSize before) closer closer') (inverted : Bool)
    (children : List Outline) :
    opener'.section (before ++ excerpt ++ after) 0 closer' inverted children =
      opener.section excerpt (Text.byteSize before) closer inverted children := by
  obtain ⟨front, text, back, rfl, -, hstop⟩ := ho.lies
  obtain ⟨front', text', back', hexcerpt, hstart', -⟩ := hc.lies
  have hle : closer.span.start ≤ Text.byteSize (front ++ text ++ back) := by
    rw [hexcerpt, List.append_assoc, Text.byteSize_append, hstart']
    omega
  rw [Tag.section, Tag.section, ho.name, ho.delimiters, ho.start, ho.stop, hc.start, hstop,
    Text.slice_of_middle before (front ++ text) back after hle, Nat.zero_add, Nat.zero_add]

/-- Tags that nest in the whole nest in an excerpt. -/
theorem Nests.excerpt {before excerpt after : List Char} {tags whole : List Tag}
    {outlines : List Outline} (h : Nests (before ++ excerpt ++ after) 0 whole outlines)
    (htags : List.Forall₂ (Tag.Shifted excerpt (Text.byteSize before)) tags whole) :
    Nests excerpt (Text.byteSize before) tags outlines := by
  induction h generalizing tags with
  | nil =>
    cases htags
    exact .nil
  | idle hkind _ ih =>
    cases htags with
    | cons htag htags =>
      rw [htag.kind] at hkind
      exact .idle hkind (ih htags)
  | interpolation hkind _ ih =>
    cases htags with
    | cons htag htags =>
      rw [Nat.zero_add, Nat.zero_add, htag.name, htag.start, htag.stop]
      rw [htag.kind] at hkind
      exact .interpolation hkind (ih htags)
  | inclusion hkind _ ih =>
    cases htags with
    | cons htag htags =>
      rw [Nat.zero_add, Nat.zero_add, htag.name, htag.start, htag.stop]
      rw [htag.kind] at hkind
      exact .inclusion hkind (ih htags)
  | @block opener closer body _ _ _ _ hopener hcloser hname _ _ ihbody ih =>
    cases htags with
    | @cons tag _ tags _ ho htags =>
      -- The body has as many tags in the excerpt as in the whole.
      have hbody := List.forall₂_take_append tags body _ htags
      have hrest := List.forall₂_drop_append tags body _ htags
      rw [← List.take_append_drop body.length tags]
      generalize tags.drop body.length = rest at hrest
      cases hrest with
      | cons hc hrest =>
        rw [Tag.section_of_shifted ho hc]
        rw [ho.kind] at hopener
        rw [hc.kind] at hcloser
        rw [ho.name, hc.name] at hname
        exact .block hopener hcloser hname (ihbody hbody) (ih hrest)

end Mustache
