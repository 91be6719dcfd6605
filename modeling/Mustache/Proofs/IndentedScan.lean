import Mustache.Proofs.ScansInStep
import Mustache.Proofs.Weaving

/-!
# Mustache.Proofs.IndentedScan

Scanning indented sources. Indentation is put into a source before it is compiled, so it lands in
tags as well as between them. It makes and breaks no tag, and no line that a tag stands alone on:
the same tags are read further to the right.
-/

namespace Mustache

variable {w : List Char}

/-! ## Places -/

/-- The second place is so many columns to the right of the first. -/
structure Position.Moved (n : Nat) (place place' : Position) : Prop where
  line : place'.line = place.line
  column : place'.column = place.column + n

namespace Position

theorem after_cons (place : Position) (c : Char) (cs : List Char) :
    place.after (c :: cs) = (place.next c).after cs :=
  rfl

theorem moved_after {cs : List Char} (h : '\n' ∉ cs) (place : Position) :
    Moved cs.length place (place.after cs) := by
  induction cs generalizing place with
  | nil => exact ⟨rfl, rfl⟩
  | cons c cs ih =>
    rw [List.mem_cons, not_or] at h
    obtain ⟨hline, hcolumn⟩ := ih h.2 (place.next c)
    have hnext : place.next c =
        ⟨place.offset + c.utf8Size, place.line, place.column + 1⟩ := if_neg (Ne.symm h.1)
    rw [after_cons]
    refine ⟨hline.trans ?_, hcolumn.trans ?_⟩
    · rw [hnext]
    · simp only [hnext, List.length_cons]
      omega

theorem Moved.after_weave {place place' : Position} (hw : '\n' ∉ w)
    (h : Moved w.length place place') (cs : List Char) :
    Moved w.length (place.after cs) (place'.after (Text.weave w cs)) := by
  induction cs generalizing place place' with
  | nil => exact h
  | cons c cs ih =>
    rw [Text.weave_cons, after_cons, after_cons, after_append]
    refine ih ?_
    by_cases hc : c = '\n'
    · subst hc
      rw [if_pos rfl]
      obtain ⟨hline, hcolumn⟩ := moved_after hw (place'.next '\n')
      refine ⟨hline.trans ?_, hcolumn⟩
      rw [next, next, if_pos rfl, if_pos rfl, h.line]
    · rw [if_neg hc]
      refine ⟨?_, ?_⟩
      · simpa only [after, List.foldl_nil, next, if_neg hc] using h.line
      · simp only [after, List.foldl_nil, next, if_neg hc, h.column]
        omega

/-- Behind indented text the place is as many columns to the right as the indentation has. -/
theorem moved_indented (hw : '\n' ∉ w) (cs : List Char) :
    Moved w.length (start.after cs) (start.after (w ++ Text.weave w cs)) := by
  rw [after_append]
  exact (moved_after hw start).after_weave hw cs

end Position

/-! ## Tags -/

/-- A tag of a source and the same tag of the indented source. -/
structure Tag.Indented (w source : List Char) (tag tag' : Tag) : Prop where
  kind : tag'.kind = tag.kind
  name : tag'.name = String.ofList (Text.weave w tag.name.toList)
  delimiters : tag'.delimiters = tag.delimiters
  lies : ∃ before text after, source = before ++ text ++ after ∧
    Text.indentFrom w true source =
      (w ++ Text.weave w before) ++ Text.weave w text ++ Text.indentFrom w false after ∧
    tag.span = .ofText before text ∧
    tag'.span = .ofText (w ++ Text.weave w before) (Text.weave w text)

theorem Text.all_isBlank_of_all_isSpace {cs : List Char} (h : cs.all isSpace = true) :
    cs.all isBlank = true := by
  rw [List.all_eq_true] at h ⊢
  intro c hc
  rcases isSpace_iff.1 (h c hc) with rfl | rfl <;> rfl

namespace Tag

theorem ofBody_indentFrom (w body : List Char) :
    Head.ofBody (Text.indentFrom w false body) = Head.ofBody body := by
  cases body with
  | nil => rfl
  | cons c body => rfl

theorem lineFeed_not_mem {cs : List Char} (h : ∀ c ∈ cs, Text.isBlank c = false) : '\n' ∉ cs := by
  intro hmem
  exact absurd (h _ hmem) (by decide)

theorem drop_indentFrom (w body : List Char) :
    (Text.indentFrom w false body).drop (Head.ofBody body).sign.length =
      Text.indentFrom w false (body.drop (Head.ofBody body).sign.length) := by
  have hsign := lineFeed_not_mem (ofBody_not_isBlank body).1
  have hbody := Text.indentFrom_append_of_line w hsign (body.drop (Head.ofBody body).sign.length)
  rw [Head.sign_append_drop] at hbody
  rw [hbody, List.drop_left]

/-- The indented tag is read like the tag, and up to the same place. -/
theorem read_indentFrom (hw : w.all Text.isSpace = true) (d : Delimiters) (place place' : Position)
    (body : List Char) :
    (∃ fault, read d place body = .error fault ∧
      read d place' (Text.indentFrom w false body) = .error fault) ∨
    ∃ text tag tag' rest, d.opening.toList ++ body = text ++ rest ∧
      d.opening.toList ++ Text.indentFrom w false body =
        Text.weave w text ++ Text.indentFrom w false rest ∧
      read d place body = .ok (tag, place.after text, rest) ∧
      read d place' (Text.indentFrom w false body) =
        .ok (tag', place'.after (Text.weave w text), Text.indentFrom w false rest) ∧
      tag'.kind = tag.kind ∧ tag'.name = String.ofList (Text.weave w tag.name.toList) ∧
      tag'.delimiters = tag.delimiters ∧ tag.span = .between place (place.after text) ∧
      tag'.span = .between place' (place'.after (Text.weave w text)) := by
  have hblank := Text.all_isBlank_of_all_isSpace hw
  have hwoven := Text.respaces_weave hblank
  obtain ⟨hne, hpattern⟩ := terminator_not_isBlank d body
  have hcut := Text.cut?_indentFrom hblank hne hpattern false
    (body.drop (Head.ofBody body).sign.length)
  rw [← drop_indentFrom] at hcut
  obtain hfault | ⟨content, rest, delimiters, hbody, hbody', hread, hread'⟩ :=
    @read_in_step d body _ (Text.weave w) (Text.indentFrom w false) (ofBody_indentFrom w body) hcut
      (delimitersAfter_respaced hwoven d _) place place'
  · exact .inl hfault
  · have hprinted : Text.weave w (printed d (Head.ofBody body) content) =
        printed d (Head.ofBody body) (Text.weave w content) :=
      printed_respaced hwoven d body content
    rw [← hprinted] at hbody' hread'
    refine .inr ⟨_, _, _, rest, hbody, hbody', hread, hread', rfl, ?_, rfl, rfl, rfl⟩
    rw [Text.trim_weave hblank, String.toList_ofList]

end Tag

/-! ## Scans -/

/-- The second fault is the first one, so many columns to the right. -/
structure LocatedFault.Moved (n : Nat) (located located' : LocatedFault) : Prop where
  fault : located'.fault = located.fault
  line : located'.line = located.line
  column : located'.column = located.column + n

namespace Scan

/-- What stands in the indented source before a place, if indentation is still due there when a
line `opens` with it. -/
def indentedFront (w : List Char) (opens : Bool) (gone : List Char) : List Char :=
  if opens then [] else w ++ Text.weave w gone

theorem indentedFront_append {w gone : List Char} {opens : Bool} (hopens : opens = true → gone = [])
    (run : List Char) :
    indentedFront w opens gone ++ ((if opens then w else []) ++ Text.weave w run) =
      w ++ Text.weave w (gone ++ run) := by
  cases opens with
  | true =>
    rw [hopens rfl]
    rfl
  | false =>
    rw [Text.weave_append]
    exact List.append_assoc _ _ _

/-- The places are behind the same text of a source and of the indented source. -/
def InIndented (w source : List Char) (place place' : Position) (tail tail' : List Char) : Prop :=
  ∃ gone opens, (opens = true → gone = []) ∧ source = gone ++ tail ∧
    Text.indentFrom w true source = indentedFront w opens gone ++ tail' ∧
    tail' = Text.indentFrom w opens tail ∧ place = Position.start.after gone ∧
    place' = Position.start.after (indentedFront w opens gone)

theorem step_indentFrom (hw : w.all Text.isSpace = true) {source : List Char} (d : Delimiters)
    (place place' : Position) (tail tail' : List Char)
    (h : InIndented w source place place' tail tail') :
    Step (LocatedFault.Moved w.length) (fun _ _ => True) (Tag.Indented w source)
      (InIndented w source) d place place' tail tail' := by
  obtain ⟨gone, opens, hopens, hsource, hindented, rfl, rfl, rfl⟩ := h
  have hblank := Text.all_isBlank_of_all_isSpace hw
  have hcut := Text.cut?_indentFrom hblank d.opening_ne_nil d.not_isBlank.1 opens tail
  cases hc : Text.cut? d.opening.toList tail with
  | none =>
    rw [hc] at hcut
    exact .last hc hcut trivial
  | some found =>
    obtain ⟨run, body⟩ := found
    rw [hc] at hcut
    have hplace : (Position.start.after (indentedFront w opens gone)).after
        ((if opens then w else []) ++ Text.weave w run) =
        Position.start.after (w ++ Text.weave w (gone ++ run)) := by
      rw [← Position.after_append, indentedFront_append hopens]
    have hopening : (Position.start.after gone).after run = Position.start.after (gone ++ run) :=
      (Position.after_append _ _ _).symm
    rcases Tag.read_indentFrom hw d ((Position.start.after gone).after run)
        ((Position.start.after (indentedFront w opens gone)).after
          ((if opens then w else []) ++ Text.weave w run)) body with
      ⟨fault, hread, hread'⟩ |
      ⟨text, tag, tag', rest, hbody, hbody', hread, hread', hkind, hname, hdelimiters, hspan,
        hspan'⟩
    · refine .fault hc hcut hread hread' ?_
      have hmoved := Position.moved_indented (Text.lineFeed_not_mem_of_all hw) (gone ++ run)
      rw [hplace, hopening]
      exact ⟨rfl, hmoved.line, hmoved.column⟩
    · rw [hopening, ← Position.after_append, Span.between_after] at hspan
      rw [hplace, ← Position.after_append, Span.between_after] at hspan'
      have hsource' : source = gone ++ run ++ text ++ rest := by
        rw [hsource, Text.eq_of_cut? hc, List.append_assoc run, hbody]
        simp only [List.append_assoc]
      have hindented' : Text.indentFrom w true source =
          w ++ Text.weave w (gone ++ run) ++ Text.weave w text ++
            Text.indentFrom w false rest := by
        rw [hindented, Text.eq_of_cut? hcut, List.append_assoc _ d.opening.toList, hbody',
          ← indentedFront_append hopens run]
        simp only [List.append_assoc]
      have hfront : w ++ Text.weave w (gone ++ run) ++ Text.weave w text =
          indentedFront w false (gone ++ run ++ text) := by
        rw [indentedFront, if_neg Bool.false_ne_true, Text.weave_append w (gone ++ run),
          List.append_assoc]
      refine .tag hc hcut hread hread' trivial ?_ hdelimiters ?_
      · exact ⟨hkind, hname, hdelimiters, gone ++ run, text, rest, hsource', hindented', hspan,
          hspan'⟩
      · refine ⟨gone ++ run ++ text, false, nofun, hsource', ?_, rfl, ?_, ?_⟩
        · rw [← hfront]
          exact hindented'
        · rw [hopening, ← Position.after_append]
        · rw [hplace, ← Position.after_append, hfront]

/-- The source and the indented source are scanned into the same tags, or with the same fault. -/
theorem ofSource_indentFrom (hw : w.all Text.isSpace = true) (source : List Char)
    (d : Delimiters) :
    Agree (LocatedFault.Moved w.length)
      (fun scan scan' => List.Forall₂ (Tag.Indented w source) scan.tags scan'.tags)
      (ofSource d .start source) (ofSource d .start (Text.indentFrom w true source)) := by
  have hstart : InIndented w source .start .start source (Text.indentFrom w true source) :=
    ⟨[], true, fun _ => rfl, rfl, rfl, rfl, rfl, rfl⟩
  refine (agree_of_steps (step_indentFrom hw) d hstart).imp (fun _ _ h => h) ?_
  rintro scan scan' ⟨-, hrest⟩
  rw [tags, tags, List.forall₂_map_left_iff, List.forall₂_map_right_iff]
  exact hrest.imp fun _ _ h => h.1

end Scan

/-! ## Lines of their own -/

/-- Whether only spaces and tabs stand beside the extent on its lines. -/
def Span.standsAlone (source : List Char) (span : Span) : Bool :=
  (Text.lineHead (Text.takeBytes span.start source)).all Text.isSpace &&
    (Text.lineTail? (Text.dropBytes span.stop source)).isSome

theorem Tag.standsAlone_eq (source : List Char) (tag : Tag) :
    tag.standsAlone source = (tag.kind.mayStandAlone && tag.span.standsAlone source) :=
  Bool.and_assoc _ _ _

theorem Span.sides_ofText (before text after : List Char) :
    Text.takeBytes (Span.ofText before text).start (before ++ text ++ after) = before ∧
      Text.dropBytes (Span.ofText before text).stop (before ++ text ++ after) = after := by
  refine ⟨?_, Text.dropBytes_byteSize (before ++ text) after⟩
  rw [List.append_assoc]
  exact Text.takeBytes_byteSize before (text ++ after)

namespace Tag.Indented

variable {source : List Char} {tag tag' : Tag}

theorem moved (hw : w.all Text.isSpace = true) (h : Indented w source tag tag') :
    tag'.span.line = tag.span.line ∧ tag'.span.column = tag.span.column + w.length := by
  obtain ⟨before, text, after, _, _, hspan, hspan'⟩ := h.lies
  have hmoved := Position.moved_indented (Text.lineFeed_not_mem_of_all hw) before
  rw [hspan, hspan']
  exact ⟨hmoved.line, hmoved.column⟩

/-- What stands before a tag on its line is indented, and what stands behind it is not. -/
theorem sides (hw : w.all Text.isSpace = true) (h : Indented w source tag tag') :
    tag'.lineBefore (Text.indentFrom w true source) = w ++ tag.lineBefore source ∧
      tag'.lineBehind? (Text.indentFrom w true source) = tag.lineBehind? source := by
  obtain ⟨before, text, after, hsource, hindented, hspan, hspan'⟩ := h.lies
  obtain ⟨htake, hdrop⟩ := Span.sides_ofText before text after
  obtain ⟨htake', hdrop'⟩ := Span.sides_ofText (w ++ Text.weave w before) (Text.weave w text)
    (Text.indentFrom w false after)
  rw [lineBefore, lineBefore, lineBehind?, lineBehind?, hindented, hsource, hspan, hspan', htake,
    hdrop, htake', hdrop', Text.lineTail?_indentFrom]
  exact ⟨Text.lineHead_weave hw before, rfl⟩

theorem standsAlone (hw : w.all Text.isSpace = true) (h : Indented w source tag tag') :
    tag'.standsAlone (Text.indentFrom w true source) = tag.standsAlone source := by
  obtain ⟨hbefore, hbehind⟩ := h.sides hw
  rw [Tag.standsAlone, Tag.standsAlone, h.kind, hbefore, hbehind, List.all_append, hw,
    Bool.true_and]

/-- The same tags stand alone, with more in front of them. -/
theorem margin (hw : w.all Text.isSpace = true) (h : Indented w source tag tag') :
    tag'.margin (Text.indentFrom w true source) = (tag.margin source).map (w ++ ·) := by
  rw [Tag.margin, Tag.margin, h.standsAlone hw, (h.sides hw).1]
  split <;> rfl

end Tag.Indented

end Mustache
