import Mustache.Proofs.IndentedScan
import Mustache.Proofs.Sketch

/-!
# Mustache.Proofs.Indentation

Compiling indented sources. Indenting a source changes nothing in the sketch of its instructions
but the indentation of stand-alone partials.
-/

namespace Mustache

/-- Whether a tag of the kind has a name: comments and set-delimiter tags have none. -/
def TagKind.hasName : TagKind → Bool
  | .comment | .setDelimiters => false
  | .interpolation _ | .opener _ | .closer | .inclusion => true

/-- No name of a tag goes on over a line break. -/
def Scan.Unbroken (scan : Scan) : Prop :=
  ∀ tag ∈ scan.tags, tag.kind.hasName = true → '\n' ∉ tag.name.toList

/-- The indentation of a partial of an indented source, by where the partial stands in the source
as it was: a partial on a line of its own is indented further, any other one not at all. -/
def Node.deeper (w source : List Char) (indentation : String) (span : Span) : String :=
  if span.standsAlone source then String.ofList w ++ indentation else ""

/-- Leaves text out of a sketch. -/
def Node.withoutText (_ : String) : List Node := []

/-- Leaves the indentation of a partial as it is. -/
def Node.asIndented (indentation : String) (_ : Span) : String := indentation

theorem Node.splits_withoutText : Node.Splits Node.withoutText :=
  ⟨rfl, fun _ _ => rfl⟩

/-- A tag of a layout and the same tag of the layout of the indented source. -/
structure PlacedTag.Indented (w source : List Char) (unbroken : Prop) (placed placed' : PlacedTag) :
    Prop where
  tag : Tag.Indented w source placed.tag placed'.tag
  margin : placed.margin = placed.tag.margin source
  margin' : placed'.margin = placed'.tag.margin (Text.indentFrom w true source)
  same : unbroken → placed.tag.kind.hasName = true → placed'.tag.name = placed.tag.name

variable {w source : List Char} {unbroken : Prop}

theorem PlacedTag.Indented.name_iff {opener opener' closer closer' : PlacedTag}
    (h : Indented w source unbroken opener opener')
    (h' : Indented w source unbroken closer closer') :
    opener'.tag.name = closer'.tag.name ↔ opener.tag.name = closer.tag.name := by
  rw [h.tag.name, h'.tag.name, String.ofList_inj]
  constructor
  · intro heq
    exact String.toList_inj.1 (Text.weave_injective w heq)
  · intro heq
    rw [heq]

/-- The instruction that a tag becomes has the same sketch. -/
theorem PlacedTag.Indented.sketch_node (hw : w.all Text.isSpace = true) {placed placed' : PlacedTag}
    (h : Indented w source unbroken placed placed') (hunbroken : unbroken) {node node' : Node}
    (hnode : placed.node? = some node) (hnode' : placed'.node? = some node') :
    node.sketch Node.withoutText (Node.deeper w source) =
      node'.sketch Node.withoutText Node.asIndented := by
  have hsame := h.same hunbroken
  obtain ⟨escape, hkind, rfl, rfl⟩ | ⟨hkind, rfl, rfl⟩ :=
    PlacedTag.node?_cases h.tag.kind hnode hnode'
  · rw [Node.sketch, Node.sketch, hsame (by rw [hkind]; rfl)]
  · have hmargin : String.ofList (placed'.margin.getD []) =
        Node.deeper w source (String.ofList (placed.margin.getD [])) placed.tag.span := by
      rw [h.margin', h.tag.margin hw, h.margin, Node.deeper, Tag.margin, Tag.standsAlone_eq, hkind]
      cases placed.tag.span.standsAlone source with
      | true => exact String.ofList_append
      | false => rfl
    rw [Node.sketch, Node.sketch, hsame (by rw [hkind]; rfl), hmargin, Node.asIndented]

theorem Tree.correspondence_indented (hw : w.all Text.isSpace = true) :
    Tree.Correspondence (PlacedTag.Indented w source unbroken) (fun _ _ => True)
      fun _ nodes nodes' => unbroken →
        Node.sketches Node.withoutText (Node.deeper w source) nodes.reverse =
          Node.sketches Node.withoutText Node.asIndented nodes'.reverse where
  kind h := h.tag.kind
  name_iff h h' := h.name_iff h'
  nil := fun _ => rfl
  text := by
    intro level text text' nodes nodes' _ h hunbroken
    rw [Node.sketches_addText Node.splits_withoutText,
      Node.sketches_addText Node.splits_withoutText, h hunbroken]
    rfl
  node := by
    intro level placed placed' node node' nodes nodes' h hnode hnode' hnodes hunbroken
    rw [Node.sketches_reverse_cons, Node.sketches_reverse_cons,
      h.sketch_node hw hunbroken hnode hnode', hnodes hunbroken]
  block := by
    intro level opener opener' inverted children children' nodes nodes' inner inner' h hkind
      hchildren hnodes hunbroken
    have hsame := h.same hunbroken (by rw [hkind]; rfl)
    rw [Node.sketches_reverse_cons, Node.sketches_reverse_cons, hnodes hunbroken, Tag.block,
      Tag.block, Node.sketch, Node.sketch, hchildren hunbroken, hsame, h.tag.kind,
      h.tag.delimiters]

theorem Tree.SameFault.moved (hw : w.all Text.isSpace = true) (hunbroken : unbroken)
    {fault fault' : LocatedFault}
    (h : Tree.SameFault (PlacedTag.Indented w source unbroken) fault fault') :
    LocatedFault.Moved w.length fault fault' := by
  have hsame {placed placed' : PlacedTag} (h : PlacedTag.Indented w source unbroken placed placed')
      (hkind : placed.tag.kind.hasName = true) := h.same hunbroken hkind
  cases h with
  | unopened h hkind =>
    obtain ⟨hline, hcolumn⟩ := h.tag.moved hw
    refine ⟨?_, hline, hcolumn⟩
    simp only [Tree.faultAt, hsame h (by rw [hkind]; rfl)]
  | mismatched hopener hkind h hcloser =>
    obtain ⟨hline, hcolumn⟩ := h.tag.moved hw
    refine ⟨?_, hline, hcolumn⟩
    simp only [Tree.faultAt, hsame h (by rw [hcloser]; rfl), hsame hopener (by rw [hkind]; rfl)]
  | unclosed h hkind =>
    obtain ⟨hline, hcolumn⟩ := h.tag.moved hw
    refine ⟨?_, hline, hcolumn⟩
    simp only [Tree.faultAt, hsame h (by rw [hkind]; rfl)]

/-- The tags of both layouts, side by side. -/
theorem Layout.ofScan_indented {d : Delimiters} {scan scan' : Scan}
    (hscan : Scan.ofSource d .start source = .ok scan)
    (hscan' : Scan.ofSource d .start (Text.indentFrom w true source) = .ok scan')
    (htags : List.Forall₂ (Tag.Indented w source) scan.tags scan'.tags)
    (hunbroken : unbroken → scan.Unbroken) :
    List.Forall₂ (PlacedTag.Indented w source unbroken) ((ofScan scan).rest.map (·.1))
      ((ofScan scan').rest.map (·.1)) := by
  rw [(ofScan_lines hscan).2, (ofScan_lines hscan').2, List.forall₂_map_left_iff,
    List.forall₂_map_right_iff]
  have hsame : unbroken → ∀ tag ∈ scan.tags, tag.kind.hasName = true → '\n' ∉ tag.name.toList :=
    hunbroken
  generalize scan.tags = tags at htags hsame
  generalize scan'.tags = tags' at htags
  induction htags with
  | nil => exact .nil
  | @cons tag tag' tags tags' htag _ ih =>
    refine .cons ⟨htag, rfl, rfl, ?_⟩ (ih fun h => (List.forall_mem_cons.1 (hsame h)).2)
    intro h hkind
    have hname := htag.name
    rwa [Text.weave_eq_self w ((List.forall_mem_cons.1 (hsame h)).1 hkind), String.ofList_toList]
      at hname

namespace Template

theorem compile_indent (hw : w.all Text.isSpace = true) (d : Delimiters) (source : List Char) :
    let unbroken := ∀ scan, Scan.ofSource d .start source = .ok scan → scan.Unbroken
    (∃ fault fault', compile source d = .error fault ∧
      compile (Text.indent w source) d = .error fault' ∧
      (unbroken → fault.Moved w.length fault')) ∨
    ∃ scan scan' nodes nodes', Scan.ofSource d .start source = .ok scan ∧
      Scan.ofSource d .start (Text.indent w source) = .ok scan' ∧
      compile source d = .ok nodes ∧ compile (Text.indent w source) d = .ok nodes' ∧
      List.Forall₂ (PlacedTag.Indented w source unbroken) ((Layout.ofScan scan).rest.map (·.1))
        ((Layout.ofScan scan').rest.map (·.1)) ∧
      (unbroken → Node.sketches Node.withoutText (Node.deeper w source) nodes =
        Node.sketches Node.withoutText Node.asIndented nodes') := by
  intro unbroken
  rw [Text.indent_eq]
  have hscans := Scan.ofSource_indentFrom hw source d
  simp only [compile]
  generalize hscan : Scan.ofSource d .start source = scanned at hscans ⊢
  generalize hscan' : Scan.ofSource d .start (Text.indentFrom w true source) = scanned' at hscans ⊢
  cases hscans with
  | error h => exact .inl ⟨_, _, rfl, rfl, fun _ => h⟩
  | @ok scan scan' htags =>
    have hplaced : List.Forall₂ (PlacedTag.Indented w source unbroken) _ _ :=
      Layout.ofScan_indented hscan hscan' htags fun h => h scan hscan
    have hc := @Tree.correspondence_indented w source unbroken hw
    have hitems : List.Forall₂ (fun item item' : PlacedTag × List Char =>
        PlacedTag.Indented w source unbroken item.1 item'.1 ∧ True)
        (Layout.ofScan scan).rest (Layout.ofScan scan').rest := by
      simpa only [List.forall₂_map_left_iff, List.forall₂_map_right_iff, and_true] using hplaced
    have hhead := @Tree.Correspondence.text _ _ _ hc 0 (Layout.ofScan scan).head
      (Layout.ofScan scan').head [] [] trivial fun _ => rfl
    obtain ⟨nodes, nodes', hnodes, hnodes', hsketch⟩ | ⟨fault, fault', hfault, hfault', hsame⟩ :=
      (hc.coupling source (Text.indentFrom w true source)).build hitems (.bottom hhead)
    · refine .inr ⟨scan, scan', nodes, nodes', rfl, rfl, hnodes, hnodes', hplaced, ?_⟩
      rwa [List.reverse_reverse, List.reverse_reverse] at hsketch
    · exact .inl ⟨fault, fault', hfault, hfault', fun h => hsame.moved hw h⟩

theorem parse_of_compile_error {source : String} {d : Delimiters} {located : LocatedFault}
    (name : Option String) (h : compile source.toList d = .error located) :
    parse source name d = .error ⟨located.fault, located.line, located.column, name,
      Snippet.ofSource source located.line located.column⟩ := by
  rw [parse, h]

/-- A partial with something else on its line is not indented. -/
theorem indentation_of_compile {source : List Char} {d : Delimiters} {nodes : List Node}
    (h : compile source d = .ok nodes) :
    ∀ placed ∈ Node.inclusions nodes, placed.2.2.standsAlone source = false → placed.2.1 = "" := by
  obtain ⟨scan, hscan, hnodes⟩ := compile_eq_ok_iff.1 h
  rw [Tree.inclusions_ofLayout hnodes, (Layout.ofScan_lines hscan).2]
  intro placed hmem halone
  simp only [List.mem_map, List.mem_filter, decide_eq_true_eq] at hmem
  obtain ⟨_, ⟨⟨tag, _, rfl⟩, _⟩, rfl⟩ := hmem
  simp only at halone
  simp only [Tag.margin, Tag.standsAlone_eq, halone, Bool.and_false, Bool.false_eq_true, if_false]
  rfl

/-- Indentation changes nothing in what a source means. The indented source compiles exactly when
the source does. If they do not, and no name of a tag goes on over a line break, the fault and its
line are the same and its column is further right by the length of the indentation. If they do,
the same instructions come of both but for their text: the same tags stand alone, a partial that
does is indented by what was put before its line and then as before, and no other one is. -/
theorem parse_indent (hw : w.all Text.isSpace = true) (source : String) (name : Option String)
    (d : Delimiters) :
    let indented := String.ofList (Text.indent w source.toList)
    ((∃ template, parse indented name d = .ok template) ↔
      ∃ template, parse source name d = .ok template) ∧
    ((∀ scan, Scan.ofSource d .start source.toList = .ok scan → scan.Unbroken) →
      (∀ error error', parse source name d = .error error →
        parse indented name d = .error error' →
          error'.fault = error.fault ∧ error'.line = error.line ∧
            error'.column = error.column + w.length) ∧
      ∀ template template', parse source name d = .ok template →
        parse indented name d = .ok template' →
          Node.sketches Node.withoutText (Node.deeper w source.toList) template.nodes =
            Node.sketches Node.withoutText Node.asIndented template'.nodes ∧
          (∀ placed ∈ Node.inclusions template.nodes,
            placed.2.2.standsAlone source.toList = false → placed.2.1 = "") ∧
          ∃ scan scan', Scan.ofSource d .start source.toList = .ok scan ∧
            Scan.ofSource d .start indented.toList = .ok scan' ∧
            List.Forall₂ (fun placed placed' : PlacedTag =>
              placed'.tag.kind = placed.tag.kind ∧
              (placed.tag.kind.hasName = true → placed'.tag.name = placed.tag.name) ∧
              placed'.tag.delimiters = placed.tag.delimiters ∧
              placed'.margin = placed.margin.map (w ++ ·))
              ((Layout.ofScan scan).rest.map (·.1)) ((Layout.ofScan scan').rest.map (·.1))) := by
  intro indented
  have hindented : indented.toList = Text.indent w source.toList := String.toList_ofList
  rw [hindented]
  obtain ⟨fault, fault', hfault, hfault', hmoved⟩ |
    ⟨scan, scan', nodes, nodes', hscan, hscan', hnodes, hnodes', hplaced, hsketch⟩ :=
    compile_indent hw d source.toList
  · have herror := parse_of_compile_error name hfault
    rw [← hindented] at hfault'
    have herror' := parse_of_compile_error name hfault'
    rw [herror, herror']
    refine ⟨⟨nofun, nofun⟩, ?_⟩
    intro hunbroken
    refine ⟨?_, nofun⟩
    rintro _ _ ⟨⟩ ⟨⟩
    obtain ⟨hsame, hline, hcolumn⟩ := hmoved hunbroken
    exact ⟨hsame, hline, hcolumn⟩
  · have hok : parse source name d = .ok ⟨name, nodes⟩ := parse_eq_ok_iff.2 ⟨hnodes, rfl⟩
    rw [← hindented] at hnodes'
    have hok' : parse indented name d = .ok ⟨name, nodes'⟩ := parse_eq_ok_iff.2 ⟨hnodes', rfl⟩
    rw [hok, hok']
    refine ⟨⟨fun _ => ⟨_, rfl⟩, fun _ => ⟨_, rfl⟩⟩, ?_⟩
    intro hunbroken
    constructor
    · intro error error' herror
      cases herror
    rintro _ _ ⟨⟩ ⟨⟩
    refine ⟨hsketch hunbroken, ?_, scan, scan', hscan, hscan', ?_⟩
    · exact indentation_of_compile hnodes
    · refine hplaced.imp ?_
      intro placed placed' h
      refine ⟨h.tag.kind, h.same hunbroken, h.tag.delimiters, ?_⟩
      rw [h.margin', h.margin, h.tag.margin hw]

/-- Indentation lands in a comment, before a partial and in front of a line with two tags. -/
theorem parse_indented_lines :
    let source := String.ofList (Script.lines.text .braces)
    ∃ template', parse (String.ofList (Text.indent [' ', ' '] source.toList)) none .braces =
        .ok template' ∧
      Node.sketches Node.withoutText Node.asIndented template'.nodes =
        [.inclusion "p" "  \t" default, .block ⟨["s"]⟩ false [] "" .braces default] := by
  intro source
  have hlegible : Script.lines.Legible .braces := by decide
  let template : Template :=
    ⟨none, [.literal "x\r\n", .inclusion "p" "\t" ⟨20, 26, 4, 2⟩,
      .block ⟨["s"]⟩ false [] "" .braces ⟨27, 33, 5, 1⟩, .literal "\n"]⟩
  have h : parse source none .braces = .ok template := parse_text none hlegible rfl
  have hspaces : [' ', ' '].all Text.isSpace = true := rfl
  obtain ⟨hiff, hsame⟩ := parse_indent hspaces source none .braces
  obtain ⟨template', h'⟩ := hiff.2 ⟨template, h⟩
  have hunbroken : ∀ scan, Scan.ofSource .braces .start source.toList = .ok scan →
      scan.Unbroken := by
    rw [String.toList_ofList, Scan.ofSource_text hlegible]
    rintro _ ⟨⟩
    unfold Scan.Unbroken
    decide
  obtain ⟨_, htrees⟩ := hsame hunbroken
  obtain ⟨hsketch, _⟩ := htrees template template' h h'
  refine ⟨template', h', hsketch.symm.trans ?_⟩
  rw [String.toList_ofList]
  rfl

end Template

end Mustache
