import Mustache.Proofs.Indentation
import Mustache.Proofs.Returned

/-!
# Mustache.Proofs.LineEnds

Compiling sources whose lines end in carriage return and line feed. Offsets drift apart at every
line, but the same tags are read at the same lines and columns, the same tags stand alone, and the
instructions differ in nothing but the line ends of their texts.
-/

namespace Mustache

variable {source : List Char}

/-! ## Scans -/

/-- The extents begin on the same line and in the same column. -/
def Span.Aligned (span span' : Span) : Prop :=
  span'.line = span.line ∧ span'.column = span.column

/-- A tag of a source and the same tag of the source with carriage returns. -/
structure Tag.Returned (source : List Char) (tag tag' : Tag) : Prop where
  kind : tag'.kind = tag.kind
  name : tag.kind.hasName = true → tag'.name = tag.name
  delimiters : tag'.delimiters = tag.delimiters
  lies : ∃ before text after, source = before ++ text ++ after ∧
    tag.span = .ofText before text ∧
    tag'.span = .ofText (Text.returned before) (Text.returned text)

theorem Position.after_returned (cs : List Char) :
    (start.after (Text.returned cs)).line = (start.after cs).line ∧
      (start.after (Text.returned cs)).column = (start.after cs).column := by
  rw [← Prod.mk.injEq, place_after, place_after, Text.place_returned]

theorem Tag.Returned.aligned {tag tag' : Tag} (h : Returned source tag tag') :
    tag.span.Aligned tag'.span := by
  obtain ⟨before, text, after, _, hspan, hspan'⟩ := h.lies
  rw [hspan, hspan']
  exact Position.after_returned before

/-- What the tags of a section enclose. -/
theorem Tag.Returned.inner {opener opener' closer closer' : Tag}
    (hopener : Returned source opener opener') (hcloser : Returned source closer closer') :
    opener'.inner (Text.returned source) closer' =
      String.ofList (Text.returned (opener.inner source closer).toList) := by
  obtain ⟨before, text, after, hsource, hspan, hspan'⟩ := hopener.lies
  obtain ⟨front, _, back, hsource', hend, hend'⟩ := hcloser.lies
  have hcut := @Text.slice_returned (before ++ text) front source ⟨after, hsource.symm⟩
    ⟨_, by rw [hsource', List.append_assoc]⟩
  rw [Text.returned_append] at hcut
  rw [Tag.inner, Tag.inner, String.toList_ofList, hspan, hspan', hend, hend']
  exact congrArg String.ofList hcut

namespace Scan

/-- The places are behind the same text of a source and of the source with carriage returns. -/
def InReturned (source : List Char) (place place' : Position) (tail tail' : List Char) : Prop :=
  ∃ gone, source = gone ++ tail ∧ tail' = Text.returned tail ∧ place = Position.start.after gone ∧
    place' = Position.start.after (Text.returned gone)

/-- A run without carriage returns, and the same run with one before every line feed. -/
def RunReturned (run run' : List Char) : Prop :=
  run' = Text.returned run ∧ '\r' ∉ run

/-- A scan and the scan of the source with carriage returns. -/
structure Returned (source : List Char) (scan scan' : Scan) : Prop where
  head : RunReturned scan.head scan'.head
  rest : List.Forall₂ (fun entry entry' => Tag.Returned source entry.1 entry'.1 ∧
    RunReturned entry.2 entry'.2) scan.rest scan'.rest

theorem step_returned (hfeeds : '\r' ∉ source) (d : Delimiters) (place place' : Position)
    (tail tail' : List Char) (h : InReturned source place place' tail tail') :
    Step (fun located located' => located' = located) RunReturned
      (fun tag tag' => (tag.kind.hasName = true → '\n' ∉ tag.name.toList) →
        Tag.Returned source tag tag')
      (InReturned source) d place place' tail tail' := by
  obtain ⟨gone, hsource, rfl, rfl, rfl⟩ := h
  have hcut := @Text.cut?_returned d.opening.toList d.opening_ne_nil d.not_isBlank.1 tail
  have htail : '\r' ∉ tail := fun hmem => hfeeds (hsource ▸ List.mem_append_right _ hmem)
  cases hc : Text.cut? d.opening.toList tail with
  | none =>
    rw [hc] at hcut
    exact .last hc hcut ⟨rfl, htail⟩
  | some found =>
    obtain ⟨run, body⟩ := found
    rw [hc] at hcut
    have htext := Text.eq_of_cut? hc
    have hrun : '\r' ∉ run := by
      rw [htext, List.append_assoc] at htail
      exact fun hmem => htail (List.mem_append_left _ hmem)
    have hopening : (Position.start.after gone).after run = Position.start.after (gone ++ run) :=
      (Position.after_append _ _ _).symm
    have hopening' : (Position.start.after (Text.returned gone)).after (Text.returned run) =
        Position.start.after (Text.returned (gone ++ run)) := by
      rw [Text.returned_append, Position.after_append]
    obtain ⟨fault, hread, hread'⟩ | ⟨text, tag, tag', rest, hbody, hread, hread', hkind, hname,
        hdelimiters, hspan, hspan'⟩ :=
      Tag.read_returned d ((Position.start.after gone).after run)
        ((Position.start.after (Text.returned gone)).after (Text.returned run)) body
    · refine .fault hc hcut hread hread' ?_
      obtain ⟨hline, hcolumn⟩ := Position.after_returned (gone ++ run)
      rw [hopening, hopening', hline, hcolumn]
    · rw [hopening, ← Position.after_append, Span.between_after] at hspan
      rw [hopening', ← Position.after_append, Span.between_after] at hspan'
      have hsource' : source = gone ++ run ++ text ++ rest := by
        rw [hsource, htext, List.append_assoc run, hbody]
        simp only [List.append_assoc]
      refine .tag hc hcut hread hread' ⟨rfl, hrun⟩ ?_ hdelimiters ?_
      · -- a carriage return can only get into a name that goes on over a line break
        intro hline
        refine ⟨hkind, ?_, hdelimiters, gone ++ run, text, rest, hsource', hspan, hspan'⟩
        intro hnamed
        rw [hname, Text.returned_eq_self (hline hnamed), String.ofList_toList]
      · refine ⟨gone ++ run ++ text, hsource', rfl, ?_, ?_⟩
        · rw [hopening, ← Position.after_append]
        · rw [hopening', ← Position.after_append, ← Text.returned_append]

/-- The source with carriage returns is scanned into the same tags, or with the same fault. -/
theorem ofSource_returned (hfeeds : '\r' ∉ source) (d : Delimiters) :
    Agree (fun located located' => located' = located)
      (fun scan scan' => scan.Unbroken → scan.Returned source scan')
      (ofSource d .start source) (ofSource d .start (Text.returned source)) := by
  have hstart : InReturned source .start .start source (Text.returned source) :=
    ⟨[], rfl, rfl, rfl, rfl⟩
  refine (agree_of_steps (step_returned hfeeds) d hstart).imp (fun _ _ h => h) ?_
  rintro scan scan' ⟨hhead, hrest⟩ hunbroken
  have hlines : ∀ entry ∈ scan.rest, entry.1.kind.hasName = true → '\n' ∉ entry.1.name.toList :=
    List.forall_mem_map.1 hunbroken
  refine ⟨hhead, ((List.forall₂_and_left _ _).2 ⟨hlines, hrest⟩).imp ?_⟩
  rintro entry entry' ⟨hline, htag, hrun⟩
  exact ⟨htag hline, hrun⟩

end Scan

/-! ## Layouts -/

/-- A tag of a layout and the same tag of the layout of the source with carriage returns. -/
structure PlacedTag.Returned (source : List Char) (placed placed' : PlacedTag) : Prop where
  tag : Tag.Returned source placed.tag placed'.tag
  margin : placed'.margin = placed.margin

/-- A layout and the layout of the source with carriage returns. -/
structure Layout.Returned (source : List Char) (layout layout' : Layout) : Prop where
  head : layout'.head = Text.returned layout.head
  rest : List.Forall₂ (fun item item' => PlacedTag.Returned source item.1 item'.1 ∧
    item'.2 = Text.returned item.2) layout.rest layout'.rest

/-- The same tags stand alone with the same margins, and the runs are cut at the same text. -/
theorem Layout.ofRuns_returned {opens : Bool} {run gone kept : List Char}
    {rest rest' : List (Tag × List Char)} (hrun : run = gone ++ kept)
    (hrest : List.Forall₂ (fun entry entry' => Tag.Returned source entry.1 entry'.1 ∧
      Scan.RunReturned entry.2 entry'.2) rest rest') :
    Returned source (ofRuns opens run (Text.byteSize gone) rest)
      (ofRuns opens (Text.returned run) (Text.byteSize (Text.returned gone)) rest') := by
  induction hrest generalizing opens run gone kept with
  | nil =>
    refine ⟨?_, .nil⟩
    rw [ofRuns, ofRuns, hrun, Text.dropBytes_returned, Text.dropBytes_byteSize]
  | @cons entry entry' rest rest' hentry hrest ih =>
    obtain ⟨tag, next⟩ := entry
    obtain ⟨tag', next'⟩ := entry'
    obtain ⟨htag, hnext', hnext⟩ := hentry
    obtain rfl : next' = Text.returned next := hnext'
    have hempty : rest'.isEmpty = rest.isEmpty := by
      cases hrest <;> rfl
    -- the cuts fall at different octets, but behind the same text
    obtain ⟨front, margin, tail, more, hfront, hmargin, htail, hcuts, hcuts'⟩ | ⟨hcuts, hcuts'⟩ :=
      Tag.cuts?_returned htag.kind run hnext opens rest.isEmpty
    · rw [← hempty] at hcuts'
      obtain ⟨hhead, hitems⟩ := @ih false next tail more htail
      rw [ofRuns_of_cuts hcuts, ofRuns_of_cuts hcuts']
      refine ⟨Text.slice_returned ⟨kept, hrun.symm⟩ ⟨margin, hfront.symm⟩,
        .cons ⟨⟨htag, ?_⟩, hhead⟩ hitems⟩
      rw [hfront, Text.dropBytes_returned, Text.dropBytes_byteSize, Text.returned_eq_self hmargin]
    · rw [← hempty] at hcuts'
      obtain ⟨hhead, hitems⟩ := @ih false next [] next rfl
      rw [ofRuns_of_no_cuts hcuts, ofRuns_of_no_cuts hcuts']
      refine ⟨?_, .cons ⟨⟨htag, rfl⟩, hhead⟩ hitems⟩
      rw [hrun, Text.dropBytes_returned, Text.dropBytes_byteSize]

theorem Layout.ofScan_returned {scan scan' : Scan} (h : scan.Returned source scan') :
    Returned source (ofScan scan) (ofScan scan') := by
  rw [ofScan, ofScan, h.head.1]
  exact @ofRuns_returned source true scan.head [] scan.head _ _ rfl h.rest

/-! ## Trees -/

/-- The instructions are the same, on the same lines and in the same columns, but for their
offsets and for carriage returns before the line feeds of their texts. -/
inductive Node.Returned : Node → Node → Prop
  | literal (text : String) :
      Returned (.literal text) (.literal (String.ofList (Text.returned text.toList)))
  | interpolation (path : Path) (escape : Escape) {span span' : Span} (h : span.Aligned span') :
      Returned (.interpolation path escape span) (.interpolation path escape span')
  | block (path : Path) (inverted : Bool) (inner : String) (delimiters : Delimiters)
      {children children' : List Node} {span span' : Span}
      (hchildren : List.Forall₂ Returned children children') (h : span.Aligned span') :
      Returned (.block path inverted children inner delimiters span)
        (.block path inverted children' (String.ofList (Text.returned inner.toList)) delimiters
          span')
  | inclusion (name indentation : String) {span span' : Span} (h : span.Aligned span') :
      Returned (.inclusion name indentation span) (.inclusion name indentation span')

theorem Node.Returned.ofList (text : List Char) :
    Returned (.literal (String.ofList text)) (.literal (String.ofList (Text.returned text))) := by
  have h := Returned.literal (String.ofList text)
  rwa [String.toList_ofList] at h

theorem Tree.addText_returned (text : List Char) {nodes nodes' : List Node}
    (h : List.Forall₂ Node.Returned nodes nodes') :
    List.Forall₂ Node.Returned (addText text nodes) (addText (Text.returned text) nodes') := by
  have hempty : (Text.returned text).isEmpty = text.isEmpty := Text.respaces_returned.isEmpty text
  unfold addText
  rw [hempty]
  cases text.isEmpty with
  | true => exact h
  | false =>
    have hadded := List.Forall₂.cons (Node.Returned.ofList text) h
    cases h with
    | nil => exact hadded
    | cons hnode hnodes =>
      cases hnode with
      | literal before =>
        have hmerged := Node.Returned.literal (before ++ String.ofList text)
        rw [String.toList_append, String.toList_ofList, Text.returned_append,
          String.ofList_append] at hmerged
        exact .cons hmerged hnodes
      | interpolation | block | inclusion => exact hadded

/-- The instruction that a tag becomes. -/
theorem PlacedTag.Returned.node {placed placed' : PlacedTag} {node node' : Node}
    (h : Returned source placed placed') (hnode : placed.node? = some node)
    (hnode' : placed'.node? = some node') : Node.Returned node node' := by
  obtain ⟨escape, hkind, rfl, rfl⟩ | ⟨hkind, rfl, rfl⟩ :=
    PlacedTag.node?_cases h.tag.kind hnode hnode'
  · rw [h.tag.name (by rw [hkind]; rfl)]
    exact .interpolation _ escape h.tag.aligned
  · rw [h.tag.name (by rw [hkind]; rfl), h.margin]
    exact .inclusion _ _ h.tag.aligned

theorem Tree.coupling_returned (source : List Char) :
    Tree.Coupling source (Text.returned source) (PlacedTag.Returned source)
      (fun text text' => text' = Text.returned text)
      fun _ nodes nodes' => List.Forall₂ Node.Returned nodes nodes' where
  kind h := h.tag.kind
  name_iff hopener hkind hcloser hkind' := by
    rw [hopener.tag.name (by rw [hkind]; rfl), hcloser.tag.name (by rw [hkind']; rfl)]
  nil := .nil
  text := by
    rintro level text _ nodes nodes' rfl h
    exact addText_returned text h
  node h hnode hnode' hnodes := .cons (h.node hnode hnode') hnodes
  block := by
    intro level opener opener' closer closer' inverted children children' nodes nodes' hopener hkind
      hcloser _ hchildren hnodes
    rw [Tag.block, Tag.block, hopener.tag.inner hcloser.tag, hopener.tag.kind,
      hopener.tag.delimiters, hopener.tag.name (by rw [hkind]; rfl)]
    exact .cons (.block _ _ _ _ (List.forall₂_reverse_iff.2 hchildren) hopener.tag.aligned) hnodes

theorem Tree.SameFault.of_returned {fault fault' : LocatedFault}
    (h : SameFault (PlacedTag.Returned source) fault fault') : fault' = fault := by
  have hplace {tag tag' : Tag} (h : tag.span.Aligned tag'.span) (fault : ParseFault) :
      faultAt tag' fault = faultAt tag fault := by
    rw [faultAt, faultAt, h.1, h.2]
  cases h with
  | unopened h hkind => rw [hplace h.tag.aligned, h.tag.name (by rw [hkind]; rfl)]
  | mismatched hopener hkind h hcloser =>
    rw [hplace h.tag.aligned, h.tag.name (by rw [hcloser]; rfl),
      hopener.tag.name (by rw [hkind]; rfl)]
  | unclosed h hkind => rw [hplace h.tag.aligned, h.tag.name (by rw [hkind]; rfl)]

theorem Snippet.ofSource_returned {source : String} (hfeeds : '\r' ∉ source.toList)
    (line column : Nat) :
    ofSource (String.ofList (Text.returned source.toList)) line column =
      ofSource source line column := by
  rw [ofSource, ofSource, String.toList_ofList, Text.lines_returned hfeeds]

namespace Template

theorem compile_returned (hfeeds : '\r' ∉ source) {d : Delimiters}
    (hunbroken : ∀ scan, Scan.ofSource d .start source = .ok scan → scan.Unbroken) :
    (∃ fault, compile source d = .error fault ∧
      compile (Text.returned source) d = .error fault) ∨
    ∃ scan scan' nodes nodes', Scan.ofSource d .start source = .ok scan ∧
      Scan.ofSource d .start (Text.returned source) = .ok scan' ∧
      compile source d = .ok nodes ∧ compile (Text.returned source) d = .ok nodes' ∧
      List.Forall₂ (PlacedTag.Returned source) ((Layout.ofScan scan).rest.map (·.1))
        ((Layout.ofScan scan').rest.map (·.1)) ∧
      List.Forall₂ Node.Returned nodes nodes' := by
  have hscans := Scan.ofSource_returned hfeeds d
  simp only [compile]
  generalize hscan : Scan.ofSource d .start source = scanned at hscans ⊢
  generalize Scan.ofSource d .start (Text.returned source) = scanned' at hscans ⊢
  cases hscans with
  | error h => exact .inl ⟨_, rfl, congrArg Except.error h⟩
  | @ok scan scan' h =>
    obtain ⟨hhead, hitems⟩ := Layout.ofScan_returned (h (hunbroken scan hscan))
    have hc := Tree.coupling_returned source
    have hstart := Tree.addText_returned (Layout.ofScan scan).head .nil
    rw [← hhead] at hstart
    obtain ⟨nodes, nodes', hnodes, hnodes', hsame⟩ | ⟨fault, fault', hfault, hfault', hsame⟩ :=
      hc.build hitems (.bottom hstart)
    · rw [List.forall₂_reverse_iff] at hsame
      refine .inr ⟨scan, scan', nodes, nodes', rfl, rfl, hnodes, hnodes', ?_, hsame⟩
      rw [List.forall₂_map_left_iff, List.forall₂_map_right_iff]
      exact hitems.imp fun _ _ h => h.1
    · rw [hsame.of_returned] at hfault'
      exact .inl ⟨fault, hfault, hfault'⟩

/-- How lines end does not change what a source means. Put a carriage return before every line feed
of a source that has none. If no name of a tag goes on over a line break, the source compiles with
the same error as before, or as before to the same instructions, but for their offsets and for the
line ends in their texts: the same tags are read under the same delimiters, and the same of them
stand alone, with the same text before them on their lines. -/
theorem parse_returned {source : String} {d : Delimiters} (hfeeds : '\r' ∉ source.toList)
    (hunbroken : ∀ scan, Scan.ofSource d .start source.toList = .ok scan → scan.Unbroken)
    (name : Option String) :
    let returned := String.ofList (Text.returned source.toList)
    ((∃ template, parse returned name d = .ok template) ↔
      ∃ template, parse source name d = .ok template) ∧
    (∀ error, parse returned name d = .error error ↔ parse source name d = .error error) ∧
    ∀ template template', parse source name d = .ok template →
      parse returned name d = .ok template' →
        template'.name = template.name ∧
        List.Forall₂ Node.Returned template.nodes template'.nodes ∧
        ∃ scan scan', Scan.ofSource d .start source.toList = .ok scan ∧
          Scan.ofSource d .start returned.toList = .ok scan' ∧
          List.Forall₂ (fun placed placed' : PlacedTag =>
            placed'.tag.kind = placed.tag.kind ∧
            (placed.tag.kind.hasName = true → placed'.tag.name = placed.tag.name) ∧
            placed'.tag.delimiters = placed.tag.delimiters ∧ placed'.margin = placed.margin)
            ((Layout.ofScan scan).rest.map (·.1)) ((Layout.ofScan scan').rest.map (·.1)) := by
  intro returned
  have hreturned : returned.toList = Text.returned source.toList := String.toList_ofList
  rw [hreturned]
  obtain ⟨fault, hfault, hfault'⟩ |
    ⟨scan, scan', nodes, nodes', hscan, hscan', hnodes, hnodes', hplaced, hsame⟩ :=
    compile_returned hfeeds hunbroken
  · have herror := parse_of_compile_error name hfault
    rw [← hreturned] at hfault'
    have herror' := parse_of_compile_error name hfault'
    rw [Snippet.ofSource_returned hfeeds] at herror'
    rw [herror, herror']
    exact ⟨⟨nofun, nofun⟩, fun _ => Iff.rfl, nofun⟩
  · have hok : parse source name d = .ok ⟨name, nodes⟩ := parse_eq_ok_iff.2 ⟨hnodes, rfl⟩
    rw [← hreturned] at hnodes'
    have hok' : parse returned name d = .ok ⟨name, nodes'⟩ := parse_eq_ok_iff.2 ⟨hnodes', rfl⟩
    rw [hok, hok']
    refine ⟨⟨fun _ => ⟨_, rfl⟩, fun _ => ⟨_, rfl⟩⟩, fun _ => ⟨nofun, nofun⟩, ?_⟩
    rintro _ _ ⟨⟩ ⟨⟩
    refine ⟨rfl, hsame, scan, scan', hscan, hscan', hplaced.imp ?_⟩
    intro placed placed' h
    exact ⟨h.tag.kind, h.tag.name, h.tag.delimiters, h.margin⟩

end Template

/-- Tags on lines that end in line feeds: a comment over two lines, an indented partial, and a
section that ends on a line of its own. -/
def Script.feeds : Script :=
  ⟨"x\n  ".toList,
    [(⟨.bang, " a\n b ".toList, .braces⟩, " \n\t".toList),
      (⟨.angle, ['p'], .braces⟩, ['\n']),
      (⟨.hash, ['s'], .braces⟩, "y\n".toList),
      (⟨.slash, ['s'], .braces⟩, ['\n'])]⟩

theorem Template.parse_feeds :
    let source := String.ofList (Script.feeds.text .braces)
    ∃ template', parse (String.ofList (Text.returned source.toList)) none .braces =
        .ok template' ∧
      List.Forall₂ Node.Returned
        [.literal "x\n", .inclusion "p" "\t" ⟨18, 24, 4, 2⟩,
          .block ⟨["s"]⟩ false [.literal "y\n"] "y\n" .braces ⟨25, 31, 5, 1⟩]
        template'.nodes := by
  intro source
  have hlegible : Script.feeds.Legible .braces := by decide
  let template : Template :=
    ⟨none, [.literal "x\n", .inclusion "p" "\t" ⟨18, 24, 4, 2⟩,
      .block ⟨["s"]⟩ false [.literal "y\n"] "y\n" .braces ⟨25, 31, 5, 1⟩]⟩
  have h : parse source none .braces = .ok template := parse_text none hlegible rfl
  have hfeeds : '\r' ∉ source.toList := by
    rw [String.toList_ofList]
    decide
  have hunbroken : ∀ scan, Scan.ofSource .braces .start source.toList = .ok scan →
      scan.Unbroken := by
    rw [String.toList_ofList, Scan.ofSource_text hlegible]
    rintro _ ⟨⟩
    unfold Scan.Unbroken
    decide
  obtain ⟨hiff, _, hsame⟩ := parse_returned hfeeds hunbroken none
  obtain ⟨template', h'⟩ := hiff.2 ⟨template, h⟩
  obtain ⟨_, hnodes, _⟩ := hsame template template' h h'
  exact ⟨template', h', hnodes⟩

end Mustache
