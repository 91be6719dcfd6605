import Mustache.Proofs.Seams

/-!
# Mustache.Proofs.JoinedLayout

The layout of sources put together line by line. A source that ends with a line is laid out as it
is by itself, whatever follows it, and what follows it is laid out as if it opened the source. So
the line of a stand-alone tag is a source by itself, between the lines before it and behind it.
-/

namespace Mustache

/-! ## Lines -/

namespace Text

end Text

namespace Run

theorem lineEnd?_eq (run : List Char) (opens closes : Bool) :
    ∃ after, lineEnd? ⟨run, opens, closes⟩ =
        (Text.lineTail? (run ++ after)).map Text.byteSize ∧
      ∀ tail ∈ Text.lineTail? (run ++ after), tail <+: run := by
  cases closes with
  | true => exact ⟨[], @lineEnd?_of_source run [] opens nofun⟩
  | false =>
    refine ⟨['x'], @lineEnd?_of_source run ['x'] opens ?_⟩
    intro c hc
    cases hc
    rfl

/-- A run is cut between two characters. -/
theorem exists_of_lineEnd? {run : List Char} {opens closes : Bool} {cutTo : Nat}
    (h : lineEnd? ⟨run, opens, closes⟩ = some cutTo) :
    ∃ tail rest, run = tail ++ rest ∧ cutTo = Text.byteSize tail := by
  obtain ⟨after, hend, hprefix⟩ := lineEnd?_eq run opens closes
  rw [hend, Option.map_eq_some_iff] at h
  obtain ⟨tail, htail, rfl⟩ := h
  obtain ⟨rest, rfl⟩ := hprefix tail htail
  exact ⟨tail, rest, rfl, rfl⟩

end Run

/-! ## Layouts -/

/-- The tags are the same but for their place. -/
structure Tag.Alike (tag tag' : Tag) : Prop where
  kind : tag'.kind = tag.kind
  name : tag'.name = tag.name
  delimiters : tag'.delimiters = tag.delimiters

/-- The tags are the same but for their place, and placed alike. -/
structure PlacedTag.Alike (placed placed' : PlacedTag) : Prop where
  tag : Tag.Alike placed.tag placed'.tag
  margin : placed'.margin = placed.margin

namespace Strand

/-- What is left of the runs from the octet `keepFrom` on, and the tags as they are placed. -/
def layout (opens : Bool) (keepFrom : Nat) (strand : Strand Tag) : Strand PlacedTag :=
  let laid := Layout.ofRuns opens strand.head keepFrom strand.rest
  ⟨laid.head, laid.rest⟩

variable {opens : Bool} {run gone kept : List Char} {rest : List (Tag × List Char)}

theorem layout_of_cuts {tag : Tag} {next : List Char} {keepFrom cutFrom cutTo : Nat}
    (h : tag.cuts? ⟨run, opens, false⟩ ⟨next, false, rest.isEmpty⟩ = some (cutFrom, cutTo)) :
    layout opens keepFrom ⟨run, (tag, next) :: rest⟩ =
      let tail := layout false cutTo ⟨next, rest⟩
      ⟨Text.slice keepFrom cutFrom run, (⟨tag, some (Text.dropBytes cutFrom run)⟩, tail.head) ::
        tail.rest⟩ := by
  simp only [layout, Layout.ofRuns_of_cuts h]

theorem layout_of_no_cuts {tag : Tag} {next : List Char} {keepFrom : Nat}
    (h : tag.cuts? ⟨run, opens, false⟩ ⟨next, false, rest.isEmpty⟩ = none) :
    layout opens keepFrom ⟨run, (tag, next) :: rest⟩ =
      let tail := layout false 0 ⟨next, rest⟩
      ⟨Text.dropBytes keepFrom run, (⟨tag, none⟩, tail.head) :: tail.rest⟩ := by
  simp only [layout, Layout.ofRuns_of_no_cuts h]

/-- Where the tags are does not matter for how they are laid out. -/
theorem Alike.layout {strand strand' : Strand Tag} (h : strand.Alike Tag.Alike strand')
    (opens : Bool) (keepFrom : Nat) :
    (strand.layout opens keepFrom).Alike PlacedTag.Alike (strand'.layout opens keepFrom) := by
  obtain ⟨run, rest⟩ := strand
  obtain ⟨run', rest'⟩ := strand'
  obtain ⟨hrun, hrest⟩ := h
  obtain rfl : run' = run := hrun
  simp only at hrest
  induction hrest generalizing opens run' keepFrom with
  | nil => exact ⟨rfl, .nil⟩
  | @cons entry entry' rest rest' hentry hrest ih =>
    obtain ⟨tag, next⟩ := entry
    obtain ⟨tag', next'⟩ := entry'
    obtain ⟨htag, hnext⟩ := hentry
    obtain rfl : next' = next := hnext
    have hempty : rest'.isEmpty = rest.isEmpty := by
      cases hrest <;> rfl
    have hcuts : tag'.cuts? ⟨run', opens, false⟩ ⟨next', false, rest'.isEmpty⟩ =
        tag.cuts? ⟨run', opens, false⟩ ⟨next', false, rest.isEmpty⟩ := by
      simp only [Tag.cuts?, hempty]
      rw [htag.kind]
    cases hc : tag.cuts? ⟨run', opens, false⟩ ⟨next', false, rest.isEmpty⟩ with
    | none =>
      rw [hc] at hcuts
      rw [layout_of_no_cuts hc, layout_of_no_cuts hcuts]
      obtain ⟨hhead, htail⟩ := @ih false 0 next'
      exact ⟨rfl, .cons ⟨⟨htag, rfl⟩, hhead⟩ htail⟩
    | some cuts =>
      rw [hc] at hcuts
      rw [layout_of_cuts hc, layout_of_cuts hcuts]
      obtain ⟨hhead, htail⟩ := @ih false cuts.2 next'
      exact ⟨rfl, .cons ⟨⟨htag, rfl⟩, hhead⟩ htail⟩

/-- The line of a stand-alone tag by itself: nothing is left of it but the tag. -/
theorem layout_line {tag : Tag} {margin tail : List Char} (hkind : tag.kind.mayStandAlone = true)
    (hmargin : margin.all Text.isSpace = true) (htail : Text.lineTail? tail = some tail) :
    layout true 0 ⟨margin, [(tag, tail)]⟩ = ⟨[], [(⟨tag, some margin⟩, [])]⟩ := by
  have hstart : Run.lineStart? ⟨margin, true, false⟩ = some 0 := by
    have hdec := Run.rightDecision_toOctets (Text.lineFeed_not_mem_of_all hmargin)
    rw [hmargin, if_pos rfl] at hdec
    simp only [Run.lineStart?, Run.trimmer, hdec]
    rfl
  have hend : Run.lineEnd? ⟨tail, false, true⟩ = some (Text.byteSize tail) := by
    obtain ⟨hend, _⟩ := @Run.lineEnd?_of_source tail [] false (by rintro c ⟨⟩)
    rw [List.append_nil, htail] at hend
    exact hend
  have hcuts : tag.cuts? ⟨margin, true, false⟩ ⟨tail, false, true⟩ = some (0, Text.byteSize tail) :=
    Tag.cuts?_eq_some hkind hstart hend
  rw [layout_of_cuts hcuts]
  have hdrop := Text.dropBytes_byteSize tail []
  rw [List.append_nil] at hdrop
  simp only [layout, Layout.ofRuns, hdrop, Text.dropBytes_zero, Text.slice, Nat.sub_self,
    Text.takeBytes_zero]

end Strand

/-! ## The line of a tag -/

namespace Text

/-- Before a tag on its line, a run ends with the line before, or the source opens with it. -/
theorem closed_of_lineHead {before kept margin : List Char}
    (hb : ∀ c ∈ before.getLast?, isBlank c = false)
    (hmargin : lineHead (before ++ (kept ++ margin)) = margin)
    (hspaces : margin.all isSpace = true) :
    kept.getLast? = some '\n' ∨ before.isEmpty = true ∧ kept = [] := by
  have hline := lineFeed_not_mem_of_all hspaces
  rw [← List.append_assoc, lineHead_append hline] at hmargin
  have hnil : lineHead (before ++ kept) = [] := List.append_left_eq_self.1 hmargin
  rcases List.eq_nil_or_concat (before ++ kept) with hempty | ⟨front, c, hfront⟩
  · obtain ⟨rfl, rfl⟩ := List.append_eq_nil_iff.1 hempty
    exact .inr ⟨rfl, rfl⟩
  · rw [List.concat_eq_append] at hfront
    have hc : c = '\n' := by
      by_contra hne
      have hmem : '\n' ∉ [c] := by simpa using Ne.symm hne
      rw [hfront, lineHead_append hmem] at hnil
      simp at hnil
    subst hc
    left
    rcases List.eq_nil_or_concat kept with rfl | ⟨front', c', rfl⟩
    · rw [List.append_nil] at hfront
      have := hb '\n' (by rw [hfront]; simp)
      exact absurd this (by decide)
    · have hlast := congrArg List.getLast? hfront
      simpa using hlast

/-- What ends a line ends it by itself, and with a line feed unless nothing follows. -/
theorem lineTail?_cases {cs tail : List Char} (h : lineTail? cs = some tail) :
    lineTail? tail = some tail ∧ (tail.getLast? = some '\n' ∨ tail = cs) := by
  obtain ⟨spaces, rest, rfl, hspaces, hrest⟩ := exists_spaces cs
  have hending := h
  rw [lineTail?_append hspaces rest hrest, Option.map_eq_some_iff] at hending
  obtain ⟨ending, hending, rfl⟩ := hending
  cases rest with
  | nil =>
    cases hending
    exact ⟨h, .inr rfl⟩
  | cons c rest =>
    rcases @lineBreak?_cons c rest with ⟨hnone, _⟩ | ⟨rfl, hbreak⟩ | ⟨⟨rest, rfl, rfl⟩, hbreak⟩
    · rw [hnone] at hending
      cases hending
    · rw [hbreak] at hending
      cases hending
      exact ⟨lineTail?_append hspaces ['\n'] hrest, .inl (by simp)⟩
    · rw [hbreak] at hending
      cases hending
      exact ⟨lineTail?_append hspaces ['\r', '\n'] hrest, .inl (by simp)⟩

end Text

theorem Tag.of_standsAlone {source : List Char} {tag : Tag} (h : tag.standsAlone source = true) :
    tag.kind.mayStandAlone = true ∧ (tag.lineBefore source).all Text.isSpace = true ∧
      ∃ tail, tag.lineBehind? source = some tail := by
  rw [standsAlone, Bool.and_eq_true, Bool.and_eq_true, Option.isSome_iff_exists] at h
  obtain ⟨⟨hkind, hspaces⟩, htail⟩ := h
  exact ⟨hkind, hspaces, htail⟩

namespace Script

variable {d : Delimiters}

/-- A script around the line of a stand-alone tag: what stands before that line, the line by
itself, and what stands behind it. -/
theorem exists_line {before run source : List Char} {rest : List (WrittenTag × List Char)}
    {tag : Tag} (hb : ∀ c ∈ before.getLast?, Text.isBlank c = false)
    (hs : source = before ++ textFrom d run rest) (hkeeps : Strand.Keeps d rest)
    (htag : tag ∈ (tagsFrom d before run rest).map (·.1))
    (halone : tag.standsAlone source = true) :
    ∃ (run₀ : List Char) (rest₀ : List (WrittenTag × List Char)) (w : WrittenTag)
      (tail : List Char) (more : Strand WrittenTag),
      Strand.mk run rest = Strand.joinFrom run₀ rest₀
        (Strand.join ⟨tag.lineBefore source, [(w, tail)]⟩ more) ∧
      tag = w.toTag d (before ++ textFrom d run₀ rest₀ ++ tag.lineBefore source) ∧
      Strand.ClosedFrom before.isEmpty run₀ rest₀ ∧
      tag.lineBehind? source = some tail ∧ Text.lineTail? tail = some tail ∧
      (tail.getLast? = some '\n' ∨ more = ⟨[], []⟩) := by
  induction rest generalizing before run with
  | nil => cases htag
  | cons entry rest ih =>
    obtain ⟨w, next⟩ := entry
    obtain ⟨hafter, hkeeps⟩ := List.forall_mem_cons.1 hkeeps
    rcases List.mem_cons.1 htag with rfl | htag
    · have hsource : source = before ++ run ++ w.text d ++ (next ++ behind w.after rest) := by
        rw [hs, textFrom, textFrom_eq]
        simp only [List.append_assoc]
      obtain ⟨htake, hdrop⟩ := @Tag.sides_toTag d before run next (behind w.after rest) w
      rw [← hsource] at htake hdrop
      obtain ⟨_, hspaces, tail, htail⟩ := Tag.of_standsAlone halone
      have hbehind : Text.lineTail? (next ++ behind w.after rest) = some tail := by
        rw [← htail, Tag.lineBehind?, hdrop]
      have hbefore : (w.toTag d (before ++ run)).lineBefore source =
          Text.lineHead (before ++ run) := by
        rw [Tag.lineBefore, htake]
      obtain ⟨kept, hrun, _⟩ | ⟨hcontent, _⟩ := @Run.lineStart?_of_source before run false hb
      · obtain ⟨_, hprefix⟩ := @Run.lineEnd?_of_source next (behind w.after rest) false
          (head?_behind w.after rest)
        obtain ⟨more, hnext⟩ := hprefix tail hbehind
        rw [hbefore] at hspaces ⊢
        generalize hmargin : Text.lineHead (before ++ run) = margin at hrun hspaces ⊢
        subst hrun
        subst hnext
        obtain ⟨hself, hends⟩ := Text.lineTail?_cases hbehind
        refine ⟨kept, [], w, tail, ⟨more, rest⟩, rfl, ?_, ?_, htail, hself, ?_⟩
        · simp only [textFrom, List.append_assoc]
        · exact Text.closed_of_lineHead hb hmargin hspaces
        · refine hends.imp_right ?_
          intro hall
          rw [List.append_assoc, List.self_eq_append_right, List.append_eq_nil_iff] at hall
          rw [hall.1, eq_nil_of_behind hall.2]
      · rw [hbefore, hcontent] at hspaces
        cases hspaces
    · have hlater : source = before ++ run ++ w.text d ++ textFrom w.after next rest := by
        rw [hs, textFrom]
        simp only [List.append_assoc]
      simp only at hafter
      rw [hafter] at hlater htag
      obtain ⟨run₀, rest₀, w₀, tail, more, hjoin, hplace, hclosed, hrest⟩ :=
        ih (getLast?_text d w (before ++ run)) hlater hkeeps htag
      refine ⟨run, (w, run₀) :: rest₀, w₀, tail, more, ?_, ?_, ?_, hrest⟩
      · rw [Strand.joinFrom, ← hjoin]
      · refine hplace.trans ?_
        rw [textFrom, hafter]
        simp only [List.append_assoc]
      · rwa [Layout.isEmpty_text] at hclosed

end Script

namespace Strand.Written

variable {d : Delimiters}

/-- A source is what stands before the line of a stand-alone tag, that line, of which the layout
leaves nothing but the tag, and what stands behind it. -/
theorem exists_line {whole : Strand WrittenTag} (h : whole.Written d) {tag : Tag}
    (htag : tag ∈ (Script.tagsFrom d [] whole.head whole.rest).map (·.1))
    (halone : tag.standsAlone (whole.text d) = true) :
    let margin := tag.lineBefore (whole.text d)
    ∃ front line more : Strand WrittenTag, whole = front.join (line.join more) ∧ front.Closed ∧
      (line.Closed ∨ more = ⟨[], []⟩) ∧
      (line.tags d (front.text d)).layout true 0 = ⟨[], [(⟨tag, some margin⟩, [])]⟩ ∧
      ∃ text tail, line.text d = margin ++ text ++ tail ∧
        tag.lineBehind? (whole.text d) = some tail ∧
        tag.span = .ofText (front.text d ++ margin) text := by
  intro margin
  have hsource : whole.text d = [] ++ Script.textFrom d whole.head whole.rest := rfl
  obtain ⟨run, rest, w, tail, more, hjoin, hplace, hclosed, hbehind, htail, hends⟩ :=
    @Script.exists_line d [] whole.head (whole.text d) whole.rest tag nofun hsource h.keeps htag
      halone
  obtain ⟨hkind, hspaces, _⟩ := Tag.of_standsAlone halone
  have htags : Strand.tags d (Script.textFrom d run rest) ⟨margin, [(w, tail)]⟩ =
      ⟨margin, [(tag, tail)]⟩ := by
    rw [hplace]
    rfl
  refine ⟨⟨run, rest⟩, ⟨margin, [(w, tail)]⟩, more, hjoin, hclosed, hends.imp_left .inl, ?_,
    w.text d, tail, rfl, hbehind, congrArg Tag.span hplace⟩
  rw [Strand.text, htags]
  exact layout_line hkind hspaces htail

end Strand.Written

end Mustache
