import Mustache.Proofs.Excerpt
import Mustache.Proofs.Merging

/-!
# Mustache.Proofs.Mirror

What compiles mirrors its source. The instructions are the tags that leave one, in the order of the
source; the raw text of a section is what stands between its two tags, around everything inside it
and in front of everything behind it; and all text is merged (`Template.parse_mirrors`).
-/

namespace Mustache

variable {source : List Char} {offset : Nat}

/-- What an instruction has from its tag: what it is, and the octets that the tag takes up. -/
inductive Mark where
  | interpolation (path : Path) (escape : Escape) (start stop : Nat)
  | opener (path : Path) (inverted : Bool) (delimiters : Delimiters) (start stop : Nat)
  | inclusion (name : String) (start stop : Nat)

namespace Mark

def start : Mark → Nat
  | .interpolation _ _ start _ | .opener _ _ _ start _ | .inclusion _ start _ => start

def stop : Mark → Nat
  | .interpolation _ _ _ stop | .opener _ _ _ _ stop | .inclusion _ _ stop => stop

/-- The one stands before the other in the source, and they share no octet. -/
def Before (mark later : Mark) : Prop :=
  mark.stop ≤ later.start

end Mark

/-- What a tag leaves behind, if it leaves an instruction. -/
def Tag.mark? (tag : Tag) : Option Mark :=
  match tag.kind with
  | .interpolation escape =>
    some (.interpolation (Path.parse tag.name) escape tag.span.start tag.span.stop)
  | .opener inverted =>
    some (.opener (Path.parse tag.name) inverted tag.delimiters tag.span.start tag.span.stop)
  | .inclusion => some (.inclusion tag.name tag.span.start tag.span.stop)
  | .closer | .comment | .setDelimiters => none

theorem Tag.extent_of_mark? {tag : Tag} {mark : Mark} (h : tag.mark? = some mark) :
    mark.start = tag.span.start ∧ mark.stop = tag.span.stop := by
  unfold Tag.mark? at h
  split at h
  · cases h
    exact ⟨rfl, rfl⟩
  · cases h
    exact ⟨rfl, rfl⟩
  · cases h
    exact ⟨rfl, rfl⟩
  · cases h
  · cases h
  · cases h

mutual

/-- The instruction and all that is inside it, in the order of the source. -/
def Node.marks : Node → List Mark
  | .literal _ => []
  | .interpolation path escape span => [.interpolation path escape span.start span.stop]
  | .block path inverted children _ delimiters span =>
    .opener path inverted delimiters span.start span.stop :: Node.allMarks children
  | .inclusion name _ span => [.inclusion name span.start span.stop]

def Node.allMarks : List Node → List Mark
  | [] => []
  | node :: nodes => node.marks ++ Node.allMarks nodes

end

/-- Where a section lies in the source: its raw text goes from its opening tag to the closing one,
around all that is inside it; what follows it stands behind the closing tag. -/
structure Node.Encloses (source : List Char) (span : Span) (inner : String) (closing : Span)
    (children behind : List Node) : Prop where
  text : ∃ before after, source = before ++ inner.toList ++ after ∧
    Text.byteSize before = span.stop
  closed : closing.start = span.stop + Text.byteSize inner.toList ∧ closing.start < closing.stop
  inside : ∀ mark ∈ allMarks children,
    span.stop ≤ mark.start ∧ mark.stop ≤ span.stop + Text.byteSize inner.toList
  behind : ∀ mark ∈ allMarks behind, closing.stop ≤ mark.start

/-! ## Tags in order -/

namespace Scan

theorem CoversFrom.ordered {run : List Char} {rest : List (Tag × List Char)}
    (h : CoversFrom source offset run rest) :
    (∀ tag ∈ rest.map (·.1), offset ≤ tag.span.start ∧ tag.span.start < tag.span.stop) ∧
      (rest.map (·.1)).Pairwise fun tag later => tag.span.stop ≤ later.span.start := by
  induction rest generalizing offset run with
  | nil => exact ⟨nofun, .nil⟩
  | cons entry rest ih =>
    obtain ⟨tag, next⟩ := entry
    obtain ⟨-, hstart, hstop, hrest⟩ := h
    obtain ⟨hlater, hordered⟩ := ih hrest
    refine ⟨?_, .cons (fun later hmem => (hlater later hmem).1) hordered⟩
    intro later hmem
    obtain rfl | hmem := List.mem_cons.1 hmem
    · exact ⟨by omega, hstop⟩
    · obtain ⟨hfrom, hextent⟩ := hlater later hmem
      exact ⟨by omega, hextent⟩

/-- Tags stand one behind the other. -/
theorem ordered_tags {d : Delimiters} {scan : Scan}
    (h : ofSource d Position.start source = .ok scan) :
    (∀ tag ∈ scan.tags, tag.span.start < tag.span.stop) ∧
      scan.tags.Pairwise fun tag later => tag.span.stop ≤ later.span.start := by
  obtain ⟨-, hcovers⟩ := (ofSource_eq_ok_iff_text d source scan).2 h
  obtain ⟨hextent, hordered⟩ := hcovers.ordered
  exact ⟨fun tag hmem => (hextent tag hmem).2, hordered⟩

end Scan

/-! ## Instructions in order -/

/-- Behind text, the first instruction of an outline and the others. -/
theorem Node.exists_of_outlines {nodes : List Node} {outline : Outline} {outlines : List Outline}
    (h : Node.outlines offset nodes = outline :: outlines) :
    ∃ (node : Node) (rest : List Node), node.outline offset = [outline] ∧
      Node.outlines offset rest = outlines ∧ allMarks nodes = node.marks ++ allMarks rest := by
  induction nodes with
  | nil => cases h
  | cons node nodes ih =>
    rw [Node.outlines] at h
    cases node with
    | literal text =>
      obtain ⟨node, rest, hnode, hrest, hmarks⟩ := ih h
      exact ⟨node, rest, hnode, hrest, hmarks⟩
    | interpolation | block | inclusion =>
      obtain ⟨rfl, hrest⟩ := List.cons.inj h
      exact ⟨_, nodes, rfl, hrest, rfl⟩

theorem Node.allMarks_of_outlines {nodes : List Node} (h : Node.outlines offset nodes = []) :
    allMarks nodes = [] := by
  induction nodes with
  | nil => rfl
  | cons node nodes ih =>
    cases node with
    | literal text => exact ih h
    | interpolation | block | inclusion => cases h

/-- Tags that nest leave their instructions in order. -/
theorem Nests.allMarks {tags : List Tag} {outlines : List Outline}
    (h : Nests source 0 tags outlines) {nodes : List Node}
    (hnodes : Node.outlines 0 nodes = outlines) :
    Node.allMarks nodes = tags.filterMap Tag.mark? := by
  induction h generalizing nodes with
  | nil => exact Node.allMarks_of_outlines hnodes
  | @idle tag _ _ hkind _ ih =>
    have hmark : tag.mark? = none := by
      obtain hkind | hkind := hkind
      · simp only [Tag.mark?, hkind]
      · simp only [Tag.mark?, hkind]
    rw [List.filterMap_cons_none hmark]
    exact ih hnodes
  | @interpolation tag _ _ escape hkind _ ih =>
    obtain ⟨node, rest, hnode, hrest, hmarks⟩ := Node.exists_of_outlines hnodes
    have hmark : tag.mark? = some (.interpolation (Path.parse tag.name) escape tag.span.start
        tag.span.stop) := by
      simp only [Tag.mark?, hkind]
    rw [hmarks, ih hrest, List.filterMap_cons_some hmark]
    cases node with
    | interpolation =>
      simp only [Node.outline, Nat.zero_add, List.cons.injEq, Outline.interpolation.injEq] at hnode
      simp [Node.marks, hnode]
    | literal | block | inclusion => cases hnode
  | @inclusion tag _ _ hkind _ ih =>
    obtain ⟨node, rest, hnode, hrest, hmarks⟩ := Node.exists_of_outlines hnodes
    have hmark : tag.mark? = some (.inclusion tag.name tag.span.start tag.span.stop) := by
      simp only [Tag.mark?, hkind]
    rw [hmarks, ih hrest, List.filterMap_cons_some hmark]
    cases node with
    | inclusion =>
      simp only [Node.outline, Nat.zero_add, List.cons.injEq, Outline.inclusion.injEq] at hnode
      simp [Node.marks, hnode]
    | literal | interpolation | block => cases hnode
  | @block opener closer _ _ _ _ inverted hopener hcloser _ _ _ ihbody ih =>
    obtain ⟨node, rest, hnode, hrest, hmarks⟩ := Node.exists_of_outlines hnodes
    have hmark : opener.mark? = some (.opener (Path.parse opener.name) inverted opener.delimiters
        opener.span.start opener.span.stop) := by
      simp only [Tag.mark?, hopener]
    have hnone : closer.mark? = none := by
      simp only [Tag.mark?, hcloser]
    rw [hmarks, ih hrest, List.filterMap_cons_some hmark, List.filterMap_append,
      List.filterMap_cons_none hnone]
    cases node with
    | block =>
      simp only [Node.outline, Tag.section, Nat.zero_add, List.cons.injEq,
        Outline.block.injEq] at hnode
      simp [Node.marks, hnode, ihbody hnode.1.2.2.1]
    | literal | interpolation | inclusion => cases hnode

theorem Nests.ordered_marks {tags : List Tag} {nodes : List Node}
    (h : Nests source 0 tags (Node.outlines 0 nodes))
    (hextent : ∀ tag ∈ tags, tag.span.start < tag.span.stop)
    (hordered : tags.Pairwise fun tag later => tag.span.stop ≤ later.span.start) :
    (∀ mark ∈ Node.allMarks nodes, mark.start < mark.stop) ∧
      (Node.allMarks nodes).Pairwise Mark.Before := by
  rw [h.allMarks rfl, List.pairwise_filterMap]
  constructor
  · intro mark hmark
    obtain ⟨tag, htag, hmark⟩ := List.mem_filterMap.1 hmark
    obtain ⟨hstart, hstop⟩ := Tag.extent_of_mark? hmark
    rw [hstart, hstop]
    exact hextent tag htag
  · refine hordered.imp ?_
    intro tag later hbefore mark hmark mark' hmark'
    rw [Mark.Before, (Tag.extent_of_mark? hmark).2, (Tag.extent_of_mark? hmark').1]
    exact hbefore

/-- Every instruction takes up the octets of one of the tags. -/
theorem Nests.exists_tag {tags : List Tag} {nodes : List Node}
    (h : Nests source 0 tags (Node.outlines 0 nodes)) :
    ∀ mark ∈ Node.allMarks nodes,
      ∃ tag ∈ tags, mark.start = tag.span.start ∧ mark.stop = tag.span.stop := by
  intro mark hmark
  rw [h.allMarks rfl] at hmark
  obtain ⟨tag, htag, hmark⟩ := List.mem_filterMap.1 hmark
  exact ⟨tag, htag, Tag.extent_of_mark? hmark⟩

/-! ## Sections among their siblings -/

/-- The tags of two stretches of instructions are two stretches of tags. -/
theorem Nests.exists_append {tags : List Tag} {outlines : List Outline}
    (h : Nests source offset tags outlines) {front back : List Outline}
    (houtlines : outlines = front ++ back) :
    ∃ before behind, tags = before ++ behind ∧ Nests source offset before front ∧
      Nests source offset behind back := by
  induction h generalizing front with
  | nil =>
    obtain ⟨rfl, rfl⟩ := List.append_eq_nil_iff.1 houtlines.symm
    exact ⟨[], [], rfl, .nil, .nil⟩
  | @idle tag _ _ hkind _ ih =>
    obtain ⟨before, behind, rfl, hfront, hback⟩ := ih houtlines
    exact ⟨tag :: before, behind, rfl, .idle hkind hfront, hback⟩
  | @interpolation tag _ _ _ hkind hrest ih =>
    obtain ⟨rfl, rfl⟩ | ⟨front, rfl, hfollowing⟩ := List.cons_eq_append_iff.1 houtlines
    · exact ⟨[], _, rfl, .nil, .interpolation hkind hrest⟩
    · obtain ⟨before, behind, rfl, hfront, hback⟩ := ih hfollowing
      exact ⟨tag :: before, behind, rfl, .interpolation hkind hfront, hback⟩
  | @inclusion tag _ _ hkind hrest ih =>
    obtain ⟨rfl, rfl⟩ | ⟨front, rfl, hfollowing⟩ := List.cons_eq_append_iff.1 houtlines
    · exact ⟨[], _, rfl, .nil, .inclusion hkind hrest⟩
    · obtain ⟨before, behind, rfl, hfront, hback⟩ := ih hfollowing
      exact ⟨tag :: before, behind, rfl, .inclusion hkind hfront, hback⟩
  | @block opener closer body _ _ _ _ hopener hcloser hname hbody hrest _ ih =>
    obtain ⟨rfl, rfl⟩ | ⟨front, rfl, hfollowing⟩ := List.cons_eq_append_iff.1 houtlines
    · exact ⟨[], _, rfl, .nil, .block hopener hcloser hname hbody hrest⟩
    · obtain ⟨before, behind, rfl, hfront, hback⟩ := ih hfollowing
      refine ⟨opener :: (body ++ closer :: before), behind, ?_,
        .block hopener hcloser hname hbody hfront, hback⟩
      simp only [List.cons_append, List.append_assoc]

/-- A section in front of other instructions: its two tags, those between them, and those behind. -/
theorem Nests.exists_section {tags : List Tag} {outlines : List Outline}
    (h : Nests source offset tags outlines) {path : Path} {inverted : Bool}
    {children back : List Outline} {inner : String} {delimiters : Delimiters} {start stop : Nat}
    (houtlines : outlines = .block path inverted children inner delimiters start stop :: back) :
    ∃ idle opener body closer behind, tags = idle ++ opener :: (body ++ closer :: behind) ∧
      closer.kind = .closer ∧ path = Path.parse closer.name ∧
      inner = String.ofList (Text.slice opener.span.stop closer.span.start source) ∧
      stop = offset + opener.span.stop ∧ Nests source offset body children ∧
      Nests source offset behind back := by
  induction h with
  | nil => cases houtlines
  | @idle tag _ _ _ _ ih =>
    obtain ⟨idle, opener, body, closer, behind, rfl, hsection⟩ := ih houtlines
    exact ⟨tag :: idle, opener, body, closer, behind, rfl, hsection⟩
  | interpolation | inclusion => cases houtlines
  | @block opener closer body behind _ _ _ _ hcloser hname hbody hrest _ _ =>
    cases houtlines
    exact ⟨[], opener, body, closer, behind, rfl, hcloser, by rw [hname], rfl, rfl, hbody, hrest⟩

/-- The tags of a list of instructions are a stretch of all tags. -/
theorem Nests.exists_of_level {tags : List Tag} {siblings nodes : List Node}
    (h : Nests source offset tags (Node.outlines offset nodes))
    (hlevel : Node.Level siblings nodes) :
    ∃ gone within rest, tags = gone ++ within ++ rest ∧
      Nests source offset within (Node.outlines offset siblings) := by
  induction hlevel generalizing tags with
  | here => exact ⟨[], tags, [], by simp, h⟩
  | inside hmem _ ih =>
    obtain ⟨gone, opener, body, closer, rest, rfl, -, -, -, hbody⟩ :=
      h.hasSection (Node.mem_outlines hmem (List.mem_singleton_self _))
    obtain ⟨gone', within, rest', rfl, hwithin⟩ := ih hbody
    exact ⟨gone ++ opener :: gone', within, rest' ++ closer :: rest, by simp, hwithin⟩

/-! ## Templates -/

namespace Template

variable {d : Delimiters}

theorem encloses_of_split {scan : Scan}
    (hscan : Scan.ofSource d Position.start source = .ok scan) {gone rest : List Tag}
    {front children back : List Node} {path : Path} {inverted : Bool} {inner : String}
    {delimiters : Delimiters} {span : Span} {within : List Tag}
    (htags : scan.tags = gone ++ within ++ rest)
    (hnests : Nests source 0 within (Node.outlines 0
      (front ++ .block path inverted children inner delimiters span :: back))) :
    ∃ closer ∈ scan.tags, closer.kind = .closer ∧ path = Path.parse closer.name ∧
      Node.Encloses source span inner closer.span children back := by
  obtain ⟨hextent, hordered⟩ := Scan.ordered_tags hscan
  rw [Node.outlines_append] at hnests
  obtain ⟨before, behind, rfl, -, hbehind⟩ := hnests.exists_append rfl
  obtain ⟨idle, opener, body, closer, after, rfl, hkind, hpath, hinner, hstop, hbody, hback⟩ :=
    hbehind.exists_section rfl
  have hsplit : scan.tags =
      (gone ++ before ++ idle) ++ opener :: (body ++ closer :: (after ++ rest)) := by
    rw [htags]
    simp only [List.append_assoc, List.cons_append]
  obtain ⟨text, excerpt, tail, -, hsource, hopener, hcloser, -, -⟩ :=
    Scan.exists_excerpt hscan hsplit
  have hexcerpt : inner.toList = excerpt := by
    rw [hinner, hopener, hcloser, hsource, Text.slice_append, String.toList_ofList]
  have hmem : closer ∈ scan.tags := by
    rw [hsplit]
    simp
  rw [hsplit] at hordered
  obtain ⟨-, hordered, -⟩ := List.pairwise_append.1 hordered
  obtain ⟨hinside, hordered⟩ := List.pairwise_cons.1 hordered
  obtain ⟨-, hordered, hbefore⟩ := List.pairwise_append.1 hordered
  obtain ⟨hafter, -⟩ := List.pairwise_cons.1 hordered
  rw [Nat.zero_add, Nat.zero_add] at hstop
  refine ⟨closer, hmem, hkind, hpath, ?_, ?_, ?_, ?_⟩
  · exact ⟨text, tail, by rw [hexcerpt, hsource], by rw [hstop, hopener]⟩
  · exact ⟨by rw [hexcerpt, hcloser, hstop, hopener], hextent closer hmem⟩
  · intro mark hmark
    obtain ⟨tag, htag, hfrom, hto⟩ := hbody.exists_tag mark hmark
    rw [hfrom, hto, hexcerpt, hstop, hopener, ← hcloser, ← hopener]
    exact ⟨hinside tag (List.mem_append_left _ htag), hbefore tag htag closer List.mem_cons_self⟩
  · intro mark hmark
    obtain ⟨tag, htag, hfrom, -⟩ := hback.exists_tag mark hmark
    rw [hfrom]
    exact hafter tag (List.mem_append_left _ htag)

/-- What compiles mirrors its source. Its instructions are, in the order of the source, those of
the tags that leave one, one for each of these tags; their extents follow each other and do not
overlap. In every list of instructions, at any depth, text is merged; and a section in it lies
between its opening tag and a closing tag of the same name, with all that is inside it, while all
that follows it lies behind. -/
theorem parse_mirrors {source : String} {name : Option String} {template : Template}
    (h : parse source name d = .ok template) :
    ∃ scan, Scan.ofSource d Position.start source.toList = .ok scan ∧
      Node.allMarks template.nodes = scan.tags.filterMap Tag.mark? ∧
      (∀ mark ∈ Node.allMarks template.nodes, mark.start < mark.stop) ∧
      (Node.allMarks template.nodes).Pairwise Mark.Before ∧
      ∀ siblings, Node.Level siblings template.nodes →
        Node.Merged siblings ∧
        ∀ front path inverted children inner delimiters span back,
          siblings = front ++ .block path inverted children inner delimiters span :: back →
          ∃ closer ∈ scan.tags, closer.kind = .closer ∧ path = Path.parse closer.name ∧
            Node.Encloses source.toList span inner closer.span children back := by
  obtain ⟨hcompile, -⟩ := parse_eq_ok_iff.1 h
  obtain ⟨scan, hscan, hnests⟩ := exists_nests_of_compile hcompile
  obtain ⟨hextent, hordered⟩ := Scan.ordered_tags hscan
  obtain ⟨hmarks, hbefore⟩ := hnests.ordered_marks hextent hordered
  refine ⟨scan, hscan, hnests.allMarks rfl, hmarks, hbefore, ?_⟩
  intro siblings hlevel
  refine ⟨normal_of_compile hcompile siblings hlevel, ?_⟩
  rintro front path inverted children inner delimiters span back rfl
  obtain ⟨gone, within, rest, htags, hwithin⟩ := hnests.exists_of_level hlevel
  exact encloses_of_split hscan htags hwithin

end Template

/-- A script with a comment inside a text, a section over lines of its own, and new delimiters
behind it. -/
def Script.mirrored : Script :=
  ⟨['a'],
    [(⟨.bang, ['c'], .braces⟩, "b\n".toList),
      (⟨.hash, ['s'], .braces⟩, "\n ".toList),
      (⟨.angle, ['p'], .braces⟩, ['\n']),
      (⟨.plain, ['x'], .braces⟩, []),
      (⟨.slash, ['s'], .braces⟩, []),
      (⟨.equals, "<% %>".toList, .percents⟩, []),
      (⟨.ampersand, ['v'], .percents⟩, [])]⟩

theorem Template.parse_mirrored :
    let source := String.ofList (Script.mirrored.text .braces)
    let inner := "\n \x7b\x7b>p\x7d\x7d\n\x7b\x7bx\x7d\x7d"
    let children : List Node := [.inclusion "p" " " ⟨17, 23, 3, 2⟩,
      .interpolation ⟨["x"]⟩ .html ⟨24, 29, 4, 1⟩]
    let last : Node := .interpolation ⟨["v"]⟩ .raw ⟨46, 52, 4, 23⟩
    let nodes : List Node :=
      [.literal "ab\n", .block ⟨["s"]⟩ false children inner .braces ⟨9, 15, 2, 1⟩, last]
    parse source none .braces = .ok ⟨none, nodes⟩ ∧ Node.Merged nodes ∧
      (Node.allMarks nodes).map (fun mark => (mark.start, mark.stop)) =
        [(9, 15), (17, 23), (24, 29), (46, 52)] ∧
      (Node.allMarks nodes).Pairwise Mark.Before ∧
      ∃ closing, Node.Encloses source.toList ⟨9, 15, 2, 1⟩ inner closing children [last] := by
  intro source inner children last nodes
  have h : parse source none .braces = .ok ⟨none, nodes⟩ := parse_text none (by decide) rfl
  obtain ⟨scan, hscan, hmarks, -, hordered, hlevel⟩ := parse_mirrors h
  obtain ⟨hmerged, hsections⟩ := hlevel nodes .here
  obtain ⟨closer, -, -, -, hencloses⟩ := hsections [.literal "ab\n"] _ _ _ _ _ _ [last] rfl
  exact ⟨h, hmerged, rfl, hordered, closer.span, hencloses⟩

end Mustache
