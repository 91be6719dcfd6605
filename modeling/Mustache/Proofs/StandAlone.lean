import Mustache.Proofs.BlankLine
import Mustache.Proofs.Gathering
import Mustache.Proofs.Scanning
import Mustache.Proofs.Selection

/-!
# Mustache.Proofs.StandAlone

Stand-alone tags by whole lines. A tag stands alone when it may, only spaces and tabs stand
before it on its line, and only spaces and tabs and the line end behind it; then the line goes
with the tag. The layout decides tag by tag from the two runs beside it, and
`ofRuns_tagsFrom` says that it comes to the same.
-/

namespace Mustache

namespace Tag

/-- What stands before the tag on its line. -/
def lineBefore (source : List Char) (tag : Tag) : List Char :=
  Text.lineHead (Text.takeBytes tag.span.start source)

/-- What stands behind the tag, if that is spaces and tabs and the line end. -/
def lineBehind? (source : List Char) (tag : Tag) : Option (List Char) :=
  Text.lineTail? (Text.dropBytes tag.span.stop source)

def standsAlone (source : List Char) (tag : Tag) : Bool :=
  tag.kind.mayStandAlone && (tag.lineBefore source).all Text.isSpace &&
    (tag.lineBehind? source).isSome

/-- What stands before the tag on its line, if it stands alone. -/
def margin (source : List Char) (tag : Tag) : Option (List Char) :=
  if tag.standsAlone source then some (tag.lineBefore source) else none

/-- Whether an octet of the source goes with the tag: it is one of the tag, or of the line that
the tag stands alone on. -/
def removes (source : List Char) (tag : Tag) (offset : Nat) : Bool :=
  if tag.standsAlone source then
    tag.span.start - Text.byteSize (tag.lineBefore source) ≤ offset &&
      offset < tag.span.stop + Text.byteSize ((tag.lineBehind? source).getD [])
  else tag.span.start ≤ offset && offset < tag.span.stop

end Tag

/-! ## What stands beside a run -/

namespace Delimiters

theorem not_isBlank (d : Delimiters) :
    (∀ c ∈ d.opening.toList, Text.isBlank c = false) ∧
      ∀ c ∈ d.closing.toList, Text.isBlank c = false := by
  have hd := d.usable
  unfold DelimiterFault.of? at hd
  split at hd
  · cases hd
  · split at hd
    · cases hd
    · next h =>
      simp only [Bool.or_eq_true, List.any_eq_true, not_or, not_exists, not_and,
        Bool.not_eq_true] at h
      exact h

end Delimiters

namespace Script

/-- The print of what follows a run. -/
def behind (d : Delimiters) : List (WrittenTag × List Char) → List Char
  | [] => []
  | (w, next) :: rest => w.text d ++ textFrom w.after next rest

theorem textFrom_eq (d : Delimiters) (run : List Char) (rest : List (WrittenTag × List Char)) :
    textFrom d run rest = run ++ behind d rest := by
  cases rest with
  | nil => exact (List.append_nil run).symm
  | cons entry rest => simp only [textFrom, behind, List.append_assoc]

theorem head?_behind (d : Delimiters) (rest : List (WrittenTag × List Char)) :
    ∀ c ∈ (behind d rest).head?, Text.isBlank c = false := by
  intro c hc
  cases rest with
  | nil => cases hc
  | cons entry rest =>
    obtain ⟨o, ho, os, htext⟩ := entry.1.exists_text_eq_cons d
    rw [behind, htext] at hc
    cases hc
    exact d.not_isBlank.1 _ ho

theorem isEmpty_behind (d : Delimiters) (rest : List (WrittenTag × List Char)) :
    (behind d rest).isEmpty = rest.isEmpty := by
  cases rest with
  | nil => rfl
  | cons entry rest =>
    obtain ⟨o, _, os, htext⟩ := entry.1.exists_text_eq_cons d
    rw [behind, htext]
    rfl

theorem getLast?_text (d : Delimiters) (w : WrittenTag) (before : List Char) :
    ∀ c ∈ (before ++ w.text d).getLast?, Text.isBlank c = false := by
  intro c hc
  have htext : before ++ w.text d =
      (before ++ d.opening.toList ++ w.form.head.sign ++ w.content ++ w.form.head.mark) ++
        d.closing.toList := by
    simp [WrittenTag.text, WrittenTag.body, WrittenTag.terminator]
  rw [htext, List.getLast?_append, List.getLast?_eq_some_getLast d.closing_ne_nil] at hc
  cases hc
  exact d.not_isBlank.2 _ (List.getLast_mem _)

end Script

/-! ## Tag by tag -/

namespace Tag

variable {d : Delimiters} {before run next after : List Char} {w : WrittenTag}

/-- The source around a printed tag. -/
theorem sides_toTag :
    let source := before ++ run ++ w.text d ++ (next ++ after)
    Text.takeBytes (w.toTag d (before ++ run)).span.start source = before ++ run ∧
      Text.dropBytes (w.toTag d (before ++ run)).span.stop source = next ++ after := by
  refine ⟨?_, ?_⟩
  · have := Text.takeBytes_byteSize (before ++ run) (w.text d ++ (next ++ after))
    rwa [← List.append_assoc] at this
  · exact Text.dropBytes_byteSize (before ++ run ++ w.text d) (next ++ after)

theorem of_not_standsAlone {source : List Char} {tag : Tag}
    (h : tag.standsAlone source = false) :
    tag.margin source = none ∧
      ∀ o, tag.removes source o = (tag.span.start ≤ o && o < tag.span.stop) := by
  refine ⟨by rw [margin, h]; rfl, fun o => ?_⟩
  rw [removes, h]
  rfl

theorem cuts?_eq_some {tag : Tag} {left right : Run} {cutFrom cutTo : Nat}
    (hk : tag.kind.mayStandAlone = true) (hl : left.lineStart? = some cutFrom)
    (hr : right.lineEnd? = some cutTo) : tag.cuts? left right = some (cutFrom, cutTo) := by
  rw [cuts?, if_pos hk, hl, hr]

theorem cuts?_eq_none {tag : Tag} {left right : Run}
    (h : tag.kind.mayStandAlone = false ∨ left.lineStart? = none ∨ right.lineEnd? = none) :
    tag.cuts? left right = none := by
  unfold cuts?
  split
  · next hk =>
    rcases h with h | h | h
    · rw [hk] at h
      cases h
    · rw [h]
    · rw [h]
      cases left.lineStart? <;> rfl
  · rfl

/-- The two runs beside a tag decide as the whole source does: either the tag stands alone and
the cuts are its line, or nothing but the tag goes. -/
theorem cuts?_toTag (hb : ∀ c ∈ before.getLast?, Text.isBlank c = false)
    (ha : ∀ c ∈ after.head?, Text.isBlank c = false) {source : List Char}
    (hs : source = before ++ run ++ w.text d ++ (next ++ after)) :
    let tag := w.toTag d (before ++ run)
    let cuts := tag.cuts? ⟨run, before.isEmpty, false⟩ ⟨next, false, after.isEmpty⟩
    (∃ kept tail rest, run = kept ++ tag.lineBefore source ∧ next = tail ++ rest ∧
        cuts = some (Text.byteSize kept, Text.byteSize tail) ∧
        tag.margin source = some (tag.lineBefore source) ∧
        ∀ o, tag.removes source o = (Text.byteSize before + Text.byteSize kept ≤ o &&
          o < tag.span.stop + Text.byteSize tail)) ∨
      (cuts = none ∧ tag.margin source = none ∧
        ∀ o, tag.removes source o = (tag.span.start ≤ o && o < tag.span.stop)) := by
  intro tag cuts
  obtain ⟨htake, hdrop⟩ := @sides_toTag d before run next after w
  have hbefore : tag.lineBefore source = Text.lineHead (before ++ run) := by
    rw [lineBefore, hs, htake]
  have hbehind : tag.lineBehind? source = Text.lineTail? (next ++ after) := by
    rw [lineBehind?, hs, hdrop]
  obtain ⟨hend, htail⟩ := @Run.lineEnd?_of_source next after false ha
  have hstart := @Run.lineStart?_of_source before run false hb
  cases hk : tag.kind.mayStandAlone with
  | false =>
    refine .inr ⟨cuts?_eq_none (.inl hk), of_not_standsAlone ?_⟩
    rw [standsAlone, hk, Bool.false_and, Bool.false_and]
  | true =>
    rcases hstart with ⟨kept, hrun, hspaces, hstart⟩ | ⟨hspaces, hstart⟩
    · cases ht : Text.lineTail? (next ++ after) with
      | none =>
        rw [ht] at hend
        refine .inr ⟨cuts?_eq_none (.inr (.inr hend)), of_not_standsAlone ?_⟩
        rw [standsAlone, hbehind, ht]
        exact Bool.and_false _
      | some tail =>
        left
        rw [ht] at hend
        obtain ⟨rest, hnext⟩ := htail tail ht
        have hstands : tag.standsAlone source = true := by
          rw [standsAlone, hk, hbefore, hspaces, hbehind, ht]
          rfl
        refine ⟨kept, tail, rest, by rw [hbefore, ← hrun], hnext.symm,
          cuts?_eq_some hk hstart hend, ?_, fun o => ?_⟩
        · rw [margin, if_pos hstands]
        · have hstart : tag.span.start - Text.byteSize (tag.lineBefore source) =
              Text.byteSize before + Text.byteSize kept := by
            have hsize := congrArg Text.byteSize hrun
            rw [Text.byteSize_append] at hsize
            show Text.byteSize (before ++ run) - _ = _
            rw [hbefore, Text.byteSize_append]
            omega
          rw [removes, if_pos hstands, hstart, hbehind, ht]
          rfl
    · refine .inr ⟨cuts?_eq_none (.inr (.inl hstart)), of_not_standsAlone ?_⟩
      rw [standsAlone, hbefore, hspaces, Bool.and_false, Bool.false_and]

end Tag

/-! ## The whole layout -/

namespace Layout

/-- No tag behind a run takes octets from in front of that run. -/
theorem le_of_removes {d : Delimiters} {before run source : List Char}
    {rest : List (WrittenTag × List Char)}
    (hb : ∀ c ∈ before.getLast?, Text.isBlank c = false)
    (hs : source = before ++ Script.textFrom d run rest) :
    ∀ entry ∈ Script.tagsFrom d before run rest, ∀ o, entry.1.removes source o = true →
      Text.byteSize before ≤ o := by
  induction rest generalizing d before run with
  | nil => nofun
  | cons entry rest ih =>
    obtain ⟨w, next⟩ := entry
    have hsource : source = before ++ run ++ w.text d ++ (next ++ Script.behind w.after rest) := by
      rw [hs, Script.textFrom, Script.textFrom_eq]
      simp only [List.append_assoc]
    have htag := Tag.cuts?_toTag hb (Script.head?_behind w.after rest) hsource
    intro entry hentry o ho
    rcases List.mem_cons.1 hentry with rfl | hentry
    · rcases htag with ⟨kept, tail, after, _, _, _, _, hr⟩ | ⟨_, _, hr⟩
      · rw [hr, Bool.and_eq_true, decide_eq_true_eq] at ho
        omega
      · have hstart : (w.toTag d (before ++ run)).span.start =
            Text.byteSize before + Text.byteSize run := Text.byteSize_append before run
        rw [hr, Bool.and_eq_true, decide_eq_true_eq] at ho
        omega
    · have hlater := ih (Script.getLast?_text d w (before ++ run))
        (by rw [hs, Script.textFrom]; simp only [List.append_assoc]) entry hentry o ho
      simp only [Text.byteSize_append] at hlater
      omega

theorem isEmpty_tagsFrom (d : Delimiters) (before run : List Char)
    (rest : List (WrittenTag × List Char)) :
    (Script.tagsFrom d before run rest).isEmpty = (Script.behind d rest).isEmpty := by
  rw [Script.isEmpty_behind]
  cases rest <;> rfl

theorem isEmpty_text (before : List Char) (d : Delimiters) (w : WrittenTag) :
    (before ++ w.text d).isEmpty = false := by
  obtain ⟨o, _, os, htext⟩ := w.exists_text_eq_cons d
  rw [htext]
  simp

theorem ofRuns_of_cuts {opens : Bool} {run next : List Char} {keepFrom cutFrom cutTo : Nat}
    {tag : Tag} {rest : List (Tag × List Char)}
    (h : tag.cuts? ⟨run, opens, false⟩ ⟨next, false, rest.isEmpty⟩ = some (cutFrom, cutTo)) :
    ofRuns opens run keepFrom ((tag, next) :: rest) =
      ⟨Text.slice keepFrom cutFrom run, (⟨tag, some (Text.dropBytes cutFrom run)⟩,
        (ofRuns false next cutTo rest).head) :: (ofRuns false next cutTo rest).rest⟩ := by
  rw [ofRuns, h]

theorem ofRuns_of_no_cuts {opens : Bool} {run next : List Char} {keepFrom : Nat} {tag : Tag}
    {rest : List (Tag × List Char)}
    (h : tag.cuts? ⟨run, opens, false⟩ ⟨next, false, rest.isEmpty⟩ = none) :
    ofRuns opens run keepFrom ((tag, next) :: rest) =
      ⟨Text.dropBytes keepFrom run, (⟨tag, none⟩,
        (ofRuns false next 0 rest).head) :: (ofRuns false next 0 rest).rest⟩ := by
  rw [ofRuns, h]

/-- The layout of the runs from some place on: its text is the source from there on without the
octets that go with a tag, or that are gone already, and its margins are those of the tags. -/
theorem ofRuns_tagsFrom {d : Delimiters} {before run gone kept source : List Char}
    {rest : List (WrittenTag × List Char)} (hrun : run = gone ++ kept)
    (hb : ∀ c ∈ before.getLast?, Text.isBlank c = false)
    (hs : source = before ++ Script.textFrom d run rest) :
    let tags := Script.tagsFrom d before run rest
    let layout := ofRuns before.isEmpty run (Text.byteSize gone) tags
    layout.head ++ layout.rest.flatMap (·.2) =
        Text.select (fun o => Text.byteSize before + Text.byteSize gone ≤ o &&
          !tags.any (·.1.removes source o)) (Text.byteSize before)
          (Script.textFrom d run rest) ∧
      layout.rest.map (·.1) = tags.map fun entry => ⟨entry.1, entry.1.margin source⟩ := by
  have hsize : Text.byteSize gone ≤ Text.byteSize run := by
    rw [hrun, Text.byteSize_append]
    omega
  induction rest generalizing d before run gone kept with
  | nil =>
    refine ⟨?_, rfl⟩
    have hslice := @Text.select_slice gone kept (Text.byteSize run) (Text.byteSize before)
    rw [← hrun] at hslice
    have hall : Text.select (fun o => Text.byteSize before + Text.byteSize gone ≤ o && !false)
        (Text.byteSize before) run = Text.slice (Text.byteSize gone) (Text.byteSize run) run := by
      rw [← hslice]
      refine Text.select_congr fun o _ ho => ?_
      rw [decide_eq_true ho]
      rfl
    show Text.dropBytes (Text.byteSize gone) run ++ [] = _
    rw [List.append_nil]
    exact (hall.trans (Text.slice_byteSize hrun)).symm
  | cons entry rest ih =>
    obtain ⟨w, next⟩ := entry
    intro tags layout
    let tag := w.toTag d (before ++ run)
    let later := Script.tagsFrom w.after (before ++ run ++ w.text d) next rest
    have htail : source = before ++ run ++ w.text d ++ Script.textFrom w.after next rest := by
      rw [hs, Script.textFrom]
      simp only [List.append_assoc]
    have hlast := Script.getLast?_text d w (before ++ run)
    have hstart : tag.span.start = Text.byteSize before + Text.byteSize run :=
      Text.byteSize_append before run
    have hstop : tag.span.stop =
        Text.byteSize before + Text.byteSize run + Text.byteSize (w.text d) := by
      show Text.byteSize (before ++ run ++ w.text d) = _
      rw [Text.byteSize_append, Text.byteSize_append]
    have hlater (o : Nat) (ho : later.any (·.1.removes source o) = true) :
        Text.byteSize before + Text.byteSize run + Text.byteSize (w.text d) ≤ o := by
      obtain ⟨entry, hentry, hr⟩ := List.any_eq_true.1 ho
      rw [← hstop]
      exact le_of_removes hlast htail entry hentry o hr
    have hsides : source = before ++ run ++ w.text d ++ (next ++ Script.behind w.after rest) := by
      rw [htail, Script.textFrom_eq]
    have hcuts := Tag.cuts?_toTag hb (Script.head?_behind w.after rest) hsides
    rw [← isEmpty_tagsFrom w.after (before ++ run ++ w.text d) next rest] at hcuts
    -- both cases: octets from `lo` to `hi` go with the tag, and the rest is laid out from `hi` on
    have hgoal {lo hi : Nat} (hlo : lo ≤ Text.byteSize run) (tail : Layout)
        (hr : ∀ o, tag.removes source o =
          (Text.byteSize before + lo ≤ o && o < tag.span.stop + hi))
        (htail : tail.head ++ tail.rest.flatMap (·.2) =
          Text.select (fun o => tag.span.stop + hi ≤ o && !later.any (·.1.removes source o))
            tag.span.stop (Script.textFrom w.after next rest)) :
        Text.slice (Text.byteSize gone) lo run ++ (tail.head ++ tail.rest.flatMap (·.2)) =
          Text.select (fun o => Text.byteSize before + Text.byteSize gone ≤ o &&
            !tags.any (·.1.removes source o)) (Text.byteSize before)
            (Script.textFrom d run ((w, next) :: rest)) := by
      have hany (o : Nat) : tags.any (·.1.removes source o) =
          ((Text.byteSize before + lo ≤ o && o < tag.span.stop + hi) ||
            later.any (·.1.removes source o)) := by
        rw [← hr]
        rfl
      have hslice := @Text.select_slice gone kept lo (Text.byteSize before)
      rw [← hrun] at hslice
      have haround := @Text.select_around (Text.byteSize before + Text.byteSize gone)
        (Text.byteSize before + lo) (tag.span.stop + hi) (Text.byteSize before)
        (fun o => later.any (·.1.removes source o)) run (w.text d)
        (Script.textFrom w.after next rest) (by omega) (by omega) (by omega) hlater
      rw [htail, ← hslice, hstop, ← hstop, Script.textFrom]
      simp only [hany]
      rw [haround, hstop]
    rcases hcuts with ⟨head, tail, more, hhead, hnext, hcuts, hmargin, hr⟩ | ⟨hcuts, hmargin, hr⟩
    · obtain ⟨htext, hmargins⟩ := ih hnext hlast htail (by rw [hnext, Text.byteSize_append]; omega)
      rw [isEmpty_text] at htext hmargins
      have hhead' : Text.byteSize head ≤ Text.byteSize run := by
        rw [hhead, Text.byteSize_append]
        omega
      have hdrop : Text.dropBytes (Text.byteSize head) run = tag.lineBefore source := by
        rw [hhead]
        exact Text.dropBytes_byteSize _ _
      have hlayout : layout = _ := ofRuns_of_cuts hcuts
      rw [hlayout]
      refine ⟨hgoal hhead' _ hr htext, ?_⟩
      simp only [List.map_cons, hmargins, hdrop, tags, tag, Script.tagsFrom, hmargin]
    · obtain ⟨htext, hmargins⟩ := ih (List.nil_append next).symm hlast htail (Nat.zero_le _)
      rw [isEmpty_text, show Text.byteSize [] = 0 from rfl] at htext hmargins
      have hlayout : layout = _ := ofRuns_of_no_cuts hcuts
      rw [hlayout, ← Text.slice_byteSize hrun]
      refine ⟨hgoal (Nat.le_refl _) _ (by rw [← hstart]; exact hr) htext, ?_⟩
      simp only [List.map_cons, hmargins, tags, Script.tagsFrom, hmargin]

end Layout

/-- The layout of a scanned source, by whole lines. -/
theorem Layout.ofScan_lines {d : Delimiters} {source : List Char} {scan : Scan}
    (h : Scan.ofSource d Position.start source = .ok scan) :
    (ofScan scan).head ++ (ofScan scan).rest.flatMap (·.2) =
        Text.select (fun offset => !scan.tags.any (·.removes source offset)) 0 source ∧
      (ofScan scan).rest.map (·.1) = scan.tags.map fun tag => ⟨tag, tag.margin source⟩ := by
  obtain ⟨rest, _, htext, htags⟩ := Scan.exists_script h [] rfl
  have hrun : scan.head = [] ++ scan.head := rfl
  obtain ⟨hlines, hmargins⟩ := @ofRuns_tagsFrom d [] scan.head [] scan.head source rest hrun nofun
    htext.symm
  rw [← htags] at hlines hmargins
  rw [htext] at hlines
  refine ⟨hlines.trans (Text.select_congr fun o _ _ => ?_), hmargins.trans ?_⟩
  · rw [Scan.tags, List.any_map]
    simp [Text.byteSize]
    rfl
  · rw [Scan.tags, List.map_map]
    rfl

/-- Compiling takes away whole lines. Of a source that compiles, the text that is left is the
source without the octets of its tags and of the lines that tags stand alone on; a partial is
indented by what stands before it on its line if it stands alone, and not at all otherwise; and
the layout, which only sees the runs, finds the same tags to stand alone. -/
theorem Template.parse_standAlone {source : String} {name : Option String} {d : Delimiters}
    {template : Template} (h : Template.parse source name d = .ok template) :
    ∃ scan, Scan.ofSource d Position.start source.toList = .ok scan ∧
      Node.texts template.nodes =
        Text.select (fun offset => !scan.tags.any (·.removes source.toList offset)) 0
          source.toList ∧
      Node.inclusions template.nodes =
        (scan.tags.filter (·.kind = .inclusion)).map (fun tag =>
          (tag.name, String.ofList ((tag.margin source.toList).getD []), tag.span)) ∧
      (Layout.ofScan scan).rest.map (·.1) =
        scan.tags.map fun tag => ⟨tag, tag.margin source.toList⟩ := by
  obtain ⟨scan, hscan, hnodes⟩ := compile_eq_ok_iff.1 (parse_eq_ok_iff.1 h).1
  obtain ⟨hlines, hmargins⟩ := Layout.ofScan_lines hscan
  refine ⟨scan, hscan, (Tree.texts_ofLayout hnodes).trans hlines, ?_, hmargins⟩
  rw [Tree.inclusions_ofLayout hnodes, hmargins, List.filter_map, List.map_map]
  rfl

/-- Tags on lines of their own and not: a comment over two lines, an indented partial, two tags
side by side, and a last line without an end. -/
def Script.lines : Script :=
  ⟨"x\r\n  ".toList,
    [(⟨.bang, " a\n b ".toList, .braces⟩, " \r\n\t".toList),
      (⟨.angle, ['p'], .braces⟩, ['\n']),
      (⟨.hash, ['s'], .braces⟩, []),
      (⟨.slash, ['s'], .braces⟩, "\n ".toList),
      (⟨.equals, "<% %>".toList, .percents⟩, [])]⟩

theorem Template.parse_lines :
    let template : Template :=
      ⟨none, [.literal "x\r\n", .inclusion "p" "\t" ⟨20, 26, 4, 2⟩,
        .block ⟨["s"]⟩ false [] "" .braces ⟨27, 33, 5, 1⟩, .literal "\n"]⟩
    Template.parse (String.ofList (Script.lines.text .braces)) none .braces = .ok template ∧
      Node.texts template.nodes = "x\r\n\n".toList ∧
      Node.inclusions template.nodes = [("p", "\t", ⟨20, 26, 4, 2⟩)] := by
  intro template
  have hlegible : Script.lines.Legible .braces := by decide
  have h : parse (String.ofList (Script.lines.text .braces)) none .braces = .ok template :=
    parse_text none hlegible rfl
  obtain ⟨scan, hs, htexts, hinclusions, _⟩ := parse_standAlone h
  rw [String.toList_ofList, Scan.ofSource_text hlegible] at hs
  cases hs
  exact ⟨h, htexts.trans (by decide +kernel), hinclusions.trans (by decide +kernel)⟩

end Mustache
