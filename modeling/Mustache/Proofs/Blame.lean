import Mustache.Proofs.Brackets
import Mustache.Proofs.Excerpt
import Mustache.Proofs.Places

/-!
# Mustache.Proofs.Blame

What errors point at. Every error of a source is about one tag: the first one that cannot be read
(`Tag.Unreadable`), or a bracket that is misplaced among tags that all can. Line and column are
those of the first character of its opening delimiter, and so are those of every instruction
(`Template.parse_places`).
-/

namespace Mustache

variable {d active : Delimiters} {source before body run : List Char} {fault : ParseFault}

/-! ## Tags that open -/

namespace Script

/-- Behind the last run an opening delimiter is met, and up to there all is legible. -/
def OpensFrom (d : Delimiters) (run : List Char) : List (WrittenTag × List Char) → Prop
  | [] => Text.MetFirstAfter d.opening.toList run
  | (w, next) :: rest =>
    Text.MetFirstAfter d.opening.toList run ∧ w.Legible d ∧ OpensFrom w.after next rest

/-- Up to each of its tags a legible script is legible, and there that tag opens. -/
theorem LegibleFrom.opensFrom {w : WrittenTag} {next : List Char}
    {front back : List (WrittenTag × List Char)}
    (h : LegibleFrom d run (front ++ (w, next) :: back)) : OpensFrom d run front := by
  induction front generalizing d run with
  | nil => exact h.1
  | cons entry front ih =>
    obtain ⟨hrun, hw, hrest⟩ := h
    exact ⟨hrun, hw, ih hrest⟩

end Script

namespace Tag

/-- A tag opens in the source behind `before`, with `active` in force there and `body` behind its
opening delimiter: all tags before it are read. -/
structure OpensAt (d : Delimiters) (source before : List Char) (active : Delimiters)
    (body : List Char) : Prop where
  source : source = before ++ active.opening.toList ++ body
  front : ∃ script : Script, script.text d = before ∧
    Script.OpensFrom d script.head script.rest ∧ Script.delimitersFrom d script.rest = active

/-! ## Tags that cannot be read -/

/-- The content of the tag whose opening delimiter stands before `body`: what stands between its
sign and the first place that ends such a tag. -/
def HasContent (d : Delimiters) (body content : List Char) : Prop :=
  let head := Head.ofBody body
  let terminator := head.mark ++ d.closing.toList
  Text.MetFirstAfter terminator content ∧ head.sign ++ content ++ terminator <+: body

/-- What is wrong with the tag whose opening delimiter stands before `body`: nothing ends it, or
there is no name in it where one is due, or it is to set delimiters and does not hold two words, or
these are no usable pair. -/
inductive Unreadable (d : Delimiters) (body : List Char) : ParseFault → Prop
  | unclosed (h : ¬ (Head.ofBody body).mark ++ d.closing.toList <:+:
      body.drop (Head.ofBody body).sign.length) : Unreadable d body .unclosedTag
  | unnamed {content : List Char} (h : HasContent d body content)
      (hkind : (Head.ofBody body).kind ∉ [.comment, .setDelimiters])
      (hblank : Text.trim content = []) : Unreadable d body .emptyName
  | malformed {content : List Char} (h : HasContent d body content)
      (hkind : (Head.ofBody body).kind = .setDelimiters)
      (hwords : (Text.words content).length ≠ 2) : Unreadable d body .malformedSetDelimiters
  | unusable {content : List Char} {opening closing : String} {fault : DelimiterFault}
      (h : HasContent d body content) (hkind : (Head.ofBody body).kind = .setDelimiters)
      (hwords : Text.words content = [opening.toList, closing.toList])
      (hfault : DelimiterFault.of? opening closing = some fault) :
      Unreadable d body (.badDelimiters opening closing fault)

theorem hasContent_of_cut? {content rest : List Char}
    (h : Text.cut? ((Head.ofBody body).mark ++ d.closing.toList)
      (body.drop (Head.ofBody body).sign.length) = some (content, rest)) :
    HasContent d body content := by
  obtain ⟨hrest, hends⟩ := (Text.cut?_eq_some_iff
    (List.append_ne_nil_of_right_ne_nil _ d.closing_ne_nil)).1 h
  refine ⟨hends, rest, ?_⟩
  have hbody := Head.sign_append_drop body
  rw [hrest] at hbody
  simpa only [List.append_assoc] using hbody

theorem Unreadable.of_newDelimiters {content : List Char} (h : HasContent d body content)
    (hkind : (Head.ofBody body).kind = .setDelimiters)
    (hfault : newDelimiters content = .error fault) : Unreadable d body fault := by
  unfold newDelimiters at hfault
  split at hfault
  · next opening closing hwords =>
    simp only [Delimiters.ofPair] at hfault
    split at hfault
    · cases hfault
    · next pairFault hpair =>
      cases hfault
      split at hpair
      · cases hpair
      · next hfault =>
        cases hpair
        refine .unusable h hkind ?_ hfault
        rw [String.toList_ofList, String.toList_ofList, hwords]
  · next hwords =>
    cases hfault
    refine .malformed h hkind ?_
    intro htwo
    obtain ⟨opening, closing, hpair⟩ := List.length_eq_two.1 htwo
    exact hwords opening closing hpair

/-- A tag is not read for one of these reasons. -/
theorem Unreadable.of_read {place : Position} (h : read d place body = .error fault) :
    Unreadable d body fault := by
  obtain ⟨hcut, hread⟩ | ⟨content, rest, hcut, -, hread⟩ := read_cases d place body
  · rw [hread] at h
    cases h
    exact .unclosed ((Text.cut?_eq_none_iff
      (List.append_ne_nil_of_right_ne_nil _ d.closing_ne_nil)).1 hcut)
  · have hcontent := hasContent_of_cut? hcut
    rw [hread] at h
    split at h
    · next fault' hafter =>
      cases h
      have hname (hkind : (Head.ofBody body).kind ∉ [.comment, .setDelimiters])
          (hafter : (if (Text.trim content).isEmpty then .error .emptyName else .ok d :
            Except ParseFault Delimiters) = .error fault) : Unreadable d body fault := by
        split at hafter
        · next hblank =>
          cases hafter
          exact .unnamed hcontent hkind (List.isEmpty_iff.1 hblank)
        · cases hafter
      unfold delimitersAfter at hafter
      cases hkind : (Head.ofBody body).kind with
      | setDelimiters =>
        rw [hkind] at hafter
        exact .of_newDelimiters hcontent hkind hafter
      | comment =>
        rw [hkind] at hafter
        cases hafter
      | interpolation | opener | closer | inclusion =>
        rw [hkind] at hafter hname
        exact hname (by simp) hafter
    · cases h

end Tag

/-! ## Scans that fail -/

/-- A source is not scanned for a tag that opens in it and cannot be read, and the fault is located
where that tag opens. -/
theorem Scan.exists_unreadable {place : Position} {located : LocatedFault}
    (h : ofSource d place source = .error located) :
    ∀ before, place = Position.start.after before →
      ∃ run rest body, source = Script.textFrom d run rest ++
          (Script.delimitersFrom d rest).opening.toList ++ body ∧
        Script.OpensFrom d run rest ∧
        Tag.Unreadable (Script.delimitersFrom d rest) body located.fault ∧
        (located.line, located.column) = Text.place (before ++ Script.textFrom d run rest) := by
  fun_induction ofSource d place source with
  | case1 => cases h
  | case2 d place source run body hc opening fault hread =>
    rintro before rfl
    cases h
    obtain ⟨hsource, hrun⟩ := (Text.cut?_eq_some_iff d.opening_ne_nil).1 hc
    refine ⟨run, [], body, hsource, hrun, .of_read hread, ?_⟩
    rw [Script.textFrom, ← Position.place_after, Position.after_append]
  | case3 d place source run body hc opening tag past tail hread fault hrest ih =>
    rintro before rfl
    cases h
    obtain ⟨w, hw, rfl, rfl, rfl⟩ := Tag.exists_written hread
    obtain ⟨hsource, hrun⟩ := (Text.cut?_eq_some_iff d.opening_ne_nil).1 hc
    obtain ⟨next, rest, body', htail, hopens, hunreadable, hplace⟩ :=
      ih hrest (before ++ run ++ w.text d) (by simp only [opening, Position.after_append])
    refine ⟨run, (w, next) :: rest, body', ?_, ⟨hrun, hw, hopens⟩, hunreadable, ?_⟩
    · rw [hsource, htail]
      simp only [Script.textFrom, Script.delimitersFrom, WrittenTag.text, List.append_assoc]
    · rw [hplace]
      simp only [Script.textFrom, List.append_assoc]
  | case4 => cases h

/-- A tag of a scan, as it is written in the source. -/
theorem Scan.exists_tag {scan : Scan} (h : ofSource d Position.start source = .ok scan) {tag : Tag}
    (htag : tag ∈ scan.tags) :
    ∃ (script : Script) (front : List (WrittenTag × List Char)) (w : WrittenTag)
      (next : List Char) (back : List (WrittenTag × List Char)),
      script.Legible d ∧ script.text d = source ∧ script.scan d = scan ∧
      script.rest = front ++ (w, next) :: back ∧
      tag = w.toTag (Script.delimitersFrom d front) (Script.textFrom d script.head front) := by
  obtain ⟨rest, hlegible, htext, hrest⟩ := exists_script h [] rfl
  obtain ⟨gone, tags, hsplit⟩ := List.append_of_mem htag
  rw [Scan.tags, hrest] at hsplit
  obtain ⟨front, w, next, back, hfront, htag, -⟩ := Script.exists_of_tagsFrom hsplit
  refine ⟨⟨scan.head, rest⟩, front, w, next, back, hlegible, htext, ?_, hfront, htag⟩
  rw [Script.scan, ← hrest]

namespace Template

/-! ## What errors are about -/

/-- What is wrong with the tag that opens behind `before`: it cannot be read, or every tag of the
source can and it is a misplaced bracket. -/
inductive Blames (d : Delimiters) (source before : List Char) (active : Delimiters)
    (body : List Char) : ParseFault → Prop
  | unreadable {fault : ParseFault} (h : Tag.Unreadable active body fault) :
    Blames d source before active body fault
  | misplaced {script : Script} {front : List (WrittenTag × List Char)} {w : WrittenTag}
      {next : List Char} {back : List (WrittenTag × List Char)} {fault : ParseFault}
      (hlegible : script.Legible d) (htext : script.text d = source)
      (hrest : script.rest = front ++ (w, next) :: back)
      (hbefore : Script.textFrom d script.head front = before)
      (hactive : Script.delimitersFrom d front = active)
      (h : Misplaced (script.scan d).brackets (w.toTag active before) fault) :
    Blames d source before active body fault

end Template

theorem Misplaced.mem {brackets : List Tag} {tag : Tag} (h : Misplaced brackets tag fault) :
    tag ∈ brackets := by
  cases h with
  | unopened hsplit | mismatched hsplit =>
    rw [hsplit]
    exact List.mem_append_right _ List.mem_cons_self
  | unclosed _ hopener =>
    obtain ⟨outer, inside, hsplit, _⟩ := hopener.split
    rw [hsplit]
    exact List.mem_append_right _ List.mem_cons_self

/-- Each tag of a legible script opens where it is printed. -/
theorem Script.Legible.opensAt {script : Script} (h : script.Legible d)
    {front back : List (WrittenTag × List Char)} {w : WrittenTag} {next : List Char}
    (hrest : script.rest = front ++ (w, next) :: back) :
    let active := delimitersFrom d front
    Tag.OpensAt d (script.text d) (textFrom d script.head front) active
      (w.body active ++ textFrom w.after next back) := by
  rw [Script.Legible, hrest] at h
  refine ⟨?_, ⟨script.head, front⟩, rfl, h.opensFrom, rfl⟩
  rw [Script.text, hrest, textFrom_append, WrittenTag.text]
  simp only [List.append_assoc]

theorem WrittenTag.place_span (active : Delimiters) (before : List Char) (w : WrittenTag) :
    ((w.toTag active before).span.line, (w.toTag active before).span.column) =
      Text.place before :=
  Position.place_after before

theorem Template.blames_of_compile {located : LocatedFault}
    (h : compile source d = .error located) :
    ∃ before active body, Tag.OpensAt d source before active body ∧
      Blames d source before active body located.fault ∧
      (located.line, located.column) = Text.place before := by
  cases hscan : Scan.ofSource d Position.start source with
  | error located' =>
    rw [compile, hscan] at h
    cases h
    obtain ⟨run, rest, body, hsource, hopens, hunreadable, hplace⟩ :=
      Scan.exists_unreadable hscan [] rfl
    exact ⟨_, _, body, ⟨hsource, ⟨run, rest⟩, rfl, hopens, rfl⟩, .unreadable hunreadable, hplace⟩
  | ok scan =>
    obtain ⟨hnodes, hfault⟩ := compile_of_scan hscan
    have hbrackets : ∀ tag ∈ scan.brackets, tag.kind.isBracket = true :=
      fun tag htag => (List.mem_filter.1 htag).2
    obtain hclosed | ⟨tag, fault, hmisplaced⟩ := wellBracketed_or_misplaced hbrackets
    · obtain ⟨nodes, hcompile⟩ := hnodes hclosed
      rw [hcompile] at h
      cases h
    · rw [hfault tag fault hmisplaced] at h
      cases h
      obtain ⟨script, front, w, next, back, hlegible, rfl, rfl, hrest, rfl⟩ :=
        Scan.exists_tag hscan (List.mem_filter.1 hmisplaced.mem).1
      exact ⟨_, _, _, hlegible.opensAt hrest,
        .misplaced hlegible rfl hrest rfl rfl hmisplaced,
        WrittenTag.place_span (Script.delimitersFrom d front) (Script.textFrom d script.head front) w⟩

/-! ## Where instructions are -/

mutual

/-- The places of the tags that the instruction comes from, at any depth. -/
def Node.spans : Node → List Span
  | .literal _ => []
  | .interpolation _ _ span | .inclusion _ _ span => [span]
  | .block _ _ children _ _ span => span :: Node.allSpans children

def Node.allSpans : List Node → List Span
  | [] => []
  | node :: nodes => node.spans ++ Node.allSpans nodes

end

namespace Tree

theorem mem_allSpans {span : Span} {nodes : List Node} :
    span ∈ Node.allSpans nodes ↔ ∃ node ∈ nodes, span ∈ node.spans := by
  induction nodes with
  | nil => simp [Node.allSpans]
  | cons node nodes ih => simp [Node.allSpans, ih]

/-- The places in a tree under construction, with those of the sections open in it. -/
def HasSpan (tree : Tree) (span : Span) : Prop :=
  span ∈ Node.allSpans tree.nodes ∨
    ∃ entry ∈ tree.enclosing, span = entry.1.span ∨ span ∈ Node.allSpans entry.2

theorem mem_allSpans_addText {span : Span} {text : List Char} {nodes : List Node}
    (h : span ∈ Node.allSpans (addText text nodes)) : span ∈ Node.allSpans nodes := by
  unfold addText at h
  split at h
  · exact h
  · split at h
    · simpa [Node.allSpans, Node.spans] using h
    · simpa [Node.allSpans, Node.spans] using h

/-- A section that is closed was open with its place and its children. -/
theorem hasSpan_of_close {tag : Tag} {tree tree' : Tree} (h : close source tag tree = .ok tree')
    {span : Span} (hspan : tree'.HasSpan span) : tree.HasSpan span := by
  unfold close at h
  split at h
  · cases h
  · next opener before enclosing henclosing =>
    split at h
    · cases h
      have hopen : (opener, before) ∈ tree.enclosing := by
        rw [henclosing]
        exact List.mem_cons_self
      obtain hnodes | ⟨entry, hentry, hspan⟩ := hspan
      · rw [Node.allSpans, List.mem_append, Node.spans, List.mem_cons, mem_allSpans] at hnodes
        obtain (hopener | ⟨node, hnode, hspan⟩) | hbefore := hnodes
        · exact .inr ⟨_, hopen, .inl hopener⟩
        · exact .inl (mem_allSpans.2 ⟨node, List.mem_reverse.1 hnode, hspan⟩)
        · exact .inr ⟨_, hopen, .inr hbefore⟩
      · refine .inr ⟨entry, ?_, hspan⟩
        rw [henclosing]
        exact List.mem_cons_of_mem _ hentry
    · cases h

/-- A tag brings in no place but its own. -/
theorem hasSpan_of_addTag {placed : PlacedTag} {tree tree' : Tree}
    (h : tree.addTag source placed = .ok tree') {span : Span} (hspan : tree'.HasSpan span) :
    tree.HasSpan span ∨ span = placed.tag.span := by
  unfold addTag at h
  cases hkind : placed.tag.kind with
  | interpolation escape | inclusion =>
    simp only [hkind] at h
    cases h
    simpa [HasSpan, Node.allSpans, Node.spans, or_assoc, or_comm, or_left_comm] using hspan
  | opener inverted =>
    simp only [hkind] at h
    cases h
    obtain hnodes | ⟨entry, hentry, hspan⟩ := hspan
    · cases hnodes
    · obtain rfl | hentry := List.mem_cons.1 hentry
      · obtain hopener | hnodes := hspan
        · exact .inr hopener
        · exact .inl (.inl hnodes)
      · exact .inl (.inr ⟨entry, hentry, hspan⟩)
  | closer =>
    simp only [hkind] at h
    exact .inl (hasSpan_of_close h hspan)
  | comment | setDelimiters =>
    simp only [hkind] at h
    cases h
    exact .inl hspan

theorem mem_of_build {rest : List (PlacedTag × List Char)} {tree : Tree} {nodes : List Node}
    (h : build source tree rest = .ok nodes) {span : Span} (hspan : span ∈ Node.allSpans nodes) :
    tree.HasSpan span ∨ ∃ tag ∈ rest.map (·.1.tag), span = tag.span := by
  induction rest generalizing tree with
  | nil =>
    unfold build finish at h
    split at h
    · cases h
      obtain ⟨node, hnode, hspan⟩ := mem_allSpans.1 hspan
      exact .inl (.inl (mem_allSpans.2 ⟨node, List.mem_reverse.1 hnode, hspan⟩))
    · cases h
  | cons entry rest ih =>
    obtain ⟨placed, text⟩ := entry
    unfold build at h
    split at h
    · cases h
    · next tree' htag =>
      rw [List.map_cons]
      obtain hspan | ⟨tag, htag, hspan⟩ := ih h
      · have hspan : tree'.HasSpan span := hspan.imp_left mem_allSpans_addText
        obtain hspan | hspan := hasSpan_of_addTag htag hspan
        · exact .inl hspan
        · exact .inr ⟨placed.tag, List.mem_cons_self, hspan⟩
      · exact .inr ⟨tag, List.mem_cons_of_mem _ htag, hspan⟩

end Tree

/-- The place of an instruction is that of a tag. -/
theorem Template.exists_tag_of_span {nodes : List Node} (h : compile source d = .ok nodes)
    {span : Span} (hspan : span ∈ Node.allSpans nodes) :
    ∃ scan, Scan.ofSource d Position.start source = .ok scan ∧
      ∃ tag ∈ scan.tags, span = tag.span := by
  obtain ⟨scan, hscan, hnodes⟩ := compile_eq_ok_iff.1 h
  refine ⟨scan, hscan, ?_⟩
  obtain hspan | hspan := Tree.mem_of_build hnodes hspan
  · obtain hhead | ⟨entry, hentry, _⟩ := hspan
    · have hhead : span ∈ Node.allSpans (Tree.addText (Layout.ofScan scan).head []) := hhead
      cases Tree.mem_allSpans_addText hhead
    · cases hentry
  · rwa [Layout.ofScan, Layout.map_tag_ofRuns] at hspan

/-- The line where a tag opens holds its opening delimiter, from the column where it opens. -/
theorem Tag.OpensAt.exists_line (h : OpensAt d source before active body)
    {rows : List (List Char)} (hrows : Text.Lined source rows) :
    ∃ row, rows[before.count '\n']? = some row ∧
      active.opening.toList <+: row.drop (Text.lineHead before).length := by
  have hblank (c : Char) (hc : Text.isBlank c = true) : c ∉ active.opening.toList := by
    intro hmem
    rw [active.not_isBlank.1 c hmem] at hc
    cases hc
  obtain ⟨row, hrow, behind, rfl⟩ := hrows.exists_line active.opening_ne_nil
    (hblank '\n' (by decide)) (hblank '\r' (by decide)) h.source
  refine ⟨_, hrow, behind, ?_⟩
  rw [List.append_assoc, List.drop_left]

/-- An error of a source is about a tag, and its line and column are those of the first character
of the opening delimiter of that tag; the snippet shows the lines around, that line among them, and
there the delimiter stands at that column. The line and the column of an instruction are those of
its tag too, which stands nowhere else. -/
theorem Template.parse_places (source : String) (name : Option String) (d : Delimiters) :
    (∀ error, parse source name d = .error error →
      ∃ before active body, Tag.OpensAt d source.toList before active body ∧
        Blames d source.toList before active body error.fault ∧
        (error.line, error.column) = Text.place before ∧
        ∃ rows, Text.Lined source.toList rows ∧
          error.snippet.Shows rows error.line error.column ∧
          ∃ text, (error.line, text) ∈ error.snippet.lines ∧
            active.opening.toList <+: text.toList.drop (error.column - 1)) ∧
    ∀ template, parse source name d = .ok template →
      ∀ span ∈ Node.allSpans template.nodes,
        ∃ before active body, Tag.OpensAt d source.toList before active body ∧
          span.start = Text.byteSize before ∧ (span.line, span.column) = Text.place before ∧
          ∀ front, front <+: source.toList → Text.place front = (span.line, span.column) →
            Text.byteSize front = span.start := by
  constructor
  · intro error hparse
    rw [parse] at hparse
    split at hparse
    · cases hparse
    · next fault line column hcompile =>
      cases hparse
      obtain ⟨before, active, body, hopens, hblames, hplace⟩ := blames_of_compile hcompile
      have hrows := Text.lined_lines source.toList
      obtain ⟨row, hrow, hdelimiter⟩ := hopens.exists_line hrows
      obtain ⟨rfl, rfl⟩ := Prod.mk.inj hplace
      refine ⟨before, active, body, hopens, hblames, rfl, _, hrows,
        Snippet.shows_ofSource source _ _, String.ofList row, ?_, ?_⟩
      · exact Snippet.mem_lines_ofSource (Nat.succ_pos _) hrow _
      · rw [String.toList_ofList]
        exact hdelimiter
  · intro template hparse span hspan
    obtain ⟨hcompile, -⟩ := parse_eq_ok_iff.1 hparse
    obtain ⟨scan, hscan, tag, htag, rfl⟩ := exists_tag_of_span hcompile hspan
    obtain ⟨script, front, w, next, back, hlegible, htext, -, hrest, rfl⟩ :=
      Scan.exists_tag hscan htag
    have hopens := hlegible.opensAt hrest
    have hplace := WrittenTag.place_span (Script.delimitersFrom d front)
      (Script.textFrom d script.head front) w
    rw [htext] at hopens
    refine ⟨_, _, _, hopens, rfl, hplace, ?_⟩
    rintro other ⟨behind, hother⟩ hsame
    rw [hplace] at hsame
    have hsource := hopens.source
    rw [← hother, List.append_assoc] at hsource
    rw [Text.place_inj hsource hsame]
    rfl

/-- A section that stays open, behind two lines that end with carriage returns and a character of
two octets. -/
def Script.leftOpen : Script :=
  ⟨"é\r\n".toList, [(⟨.plain, ['a'], .braces⟩, "\r\nü ".toList),
    (⟨.hash, ['b'], .braces⟩, "\r\n".toList)]⟩

theorem Template.parse_leftOpen :
    let source := String.ofList (Script.leftOpen.text .braces)
    ∃ error, parse source none .braces = .error error ∧
      error.fault.message = "unclosed section \"b\"" ∧ (error.line, error.column) = (3, 3) ∧
      error.snippet.lines = [(1, "é"), (2, "\x7b\x7ba\x7d\x7d"), (3, "ü \x7b\x7b#b\x7d\x7d")] ∧
      ∃ before active body, Tag.OpensAt .braces source.toList before active body ∧
        Text.place before = (3, 3) := by
  intro source
  let opener : Tag := ⟨.opener false, "b", ⟨14, 20, 3, 3⟩, .braces⟩
  have hscan : Scan.ofSource .braces .start source.toList = .ok (Script.leftOpen.scan .braces) := by
    rw [String.toList_ofList]
    exact Scan.ofSource_text (by decide)
  have hopener : opener.Innermost (Script.leftOpen.scan .braces).brackets :=
    ⟨⟨false, rfl⟩, [], [], rfl, .nil⟩
  have hfit : ClosersFit (Script.leftOpen.scan .braces).brackets := ClosersFit.nil.concat nofun
  have hcompile := (compile_of_scan hscan).2 opener _ (.unclosed hfit hopener)
  have hparse : parse source none .braces =
      .error ⟨.unclosedSection "b", 3, 3, none, Snippet.ofSource source 3 3⟩ := by
    rw [parse, hcompile]
    rfl
  obtain ⟨before, active, body, hopens, _, hplace, _⟩ := (parse_places source none .braces).1 _ hparse
  exact ⟨_, hparse, rfl, rfl, by decide, before, active, body, hopens, hplace.symm⟩

end Mustache
