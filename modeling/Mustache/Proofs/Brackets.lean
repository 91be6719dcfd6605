import Mathlib.Data.List.Induction
import Mustache.Proofs.Nesting
import Mustache.Proofs.Scanning

/-!
# Mustache.Proofs.Brackets

Openers and closers of sections as brackets, apart from all other tags. A source that is scanned
compiles exactly when they are well bracketed; if they are not, `Misplaced` says which of them is
to blame and for what, and the error points there.
-/

namespace Mustache

def TagKind.isBracket : TagKind → Bool
  | .opener _ | .closer => true
  | .interpolation _ | .comment | .inclusion | .setDelimiters => false

/-- The tags that open and close sections, in the order of the source. -/
def Scan.brackets (scan : Scan) : List Tag :=
  scan.tags.filter (·.kind.isBracket)

/-- Each opener has a closer of its name, each closer an opener, and pairs do not cross. -/
inductive WellBracketed : List Tag → Prop
  | nil : WellBracketed []
  | block {opener closer : Tag} {body rest : List Tag} {inverted : Bool}
      (hopener : opener.kind = .opener inverted) (hcloser : closer.kind = .closer)
      (hname : opener.name = closer.name) (hbody : WellBracketed body)
      (hrest : WellBracketed rest) : WellBracketed (opener :: (body ++ closer :: rest))

namespace Tag

/-- The opener is that of the innermost section open behind the brackets. -/
structure Innermost (brackets : List Tag) (opener : Tag) : Prop where
  kind : ∃ inverted, opener.kind = .opener inverted
  split : ∃ outer body, brackets = outer ++ opener :: body ∧ WellBracketed body

/-- The closer has the name of the innermost section open behind the brackets. -/
def Closes (before : List Tag) (closer : Tag) : Prop :=
  ∃ opener, Innermost before opener ∧ opener.name = closer.name

end Tag

/-- Every closer among the brackets closes the innermost section open there. -/
def ClosersFit (brackets : List Tag) : Prop :=
  ∀ before closer after, brackets = before ++ closer :: after → closer.kind = .closer →
    closer.Closes before

/-- What is wrong with brackets, and where: the first closer that closes nothing or something
else, or else the opener of the innermost section that is still open at the end. -/
inductive Misplaced (brackets : List Tag) : Tag → ParseFault → Prop
  | unopened {before after : List Tag} {closer : Tag} (h : brackets = before ++ closer :: after)
      (hkind : closer.kind = .closer) (hfirst : ClosersFit before)
      (hnone : ∀ opener, ¬ Tag.Innermost before opener) :
    Misplaced brackets closer (.unopenedSection closer.name)
  | mismatched {before after : List Tag} {opener closer : Tag}
      (h : brackets = before ++ closer :: after) (hkind : closer.kind = .closer)
      (hfirst : ClosersFit before) (hopener : opener.Innermost before)
      (hname : opener.name ≠ closer.name) :
    Misplaced brackets closer (.mismatchedSection opener.name closer.name)
  | unclosed {opener : Tag} (hall : ClosersFit brackets) (hopener : opener.Innermost brackets) :
    Misplaced brackets opener (.unclosedSection opener.name)

/-! ## Brackets as words -/

theorem WellBracketed.append {tags tags' : List Tag} (h : WellBracketed tags)
    (h' : WellBracketed tags') : WellBracketed (tags ++ tags') := by
  induction h with
  | nil => exact h'
  | block hopener hcloser hname hbody _ _ ih =>
    have := WellBracketed.block hopener hcloser hname hbody ih
    rwa [List.cons_append, List.append_assoc, List.cons_append]

theorem Tag.Innermost.append {tags tags' : List Tag} {opener : Tag} (h : opener.Innermost tags)
    (h' : WellBracketed tags') : opener.Innermost (tags ++ tags') := by
  obtain ⟨hkind, outer, body, rfl, hbody⟩ := h
  refine ⟨hkind, outer, body ++ tags', ?_, hbody.append h'⟩
  rw [List.append_assoc, List.cons_append]

namespace ClosersFit

theorem nil : ClosersFit [] := by
  intro before closer after h
  simp at h

theorem of_append {tags tags' : List Tag} (h : ClosersFit (tags ++ tags')) : ClosersFit tags := by
  rintro before closer after rfl
  exact h before closer (after ++ tags') (by simp)

theorem concat {tags : List Tag} {tag : Tag} (h : ClosersFit tags)
    (htag : tag.kind = .closer → tag.Closes tags) : ClosersFit (tags ++ [tag]) := by
  intro before closer after hsplit hkind
  obtain rfl | ⟨after, last, rfl⟩ := List.eq_nil_or_concat after
  · obtain ⟨rfl, hlast⟩ := List.append_inj' hsplit rfl
    cases hlast
    exact htag hkind
  · have hsplit' : tags ++ [tag] = (before ++ closer :: after) ++ [last] := by simpa using hsplit
    obtain ⟨rfl, _⟩ := List.append_inj' hsplit' rfl
    exact h before closer after rfl hkind

/-- Where every closer fits, all sections are closed or there is an innermost open one. -/
theorem closed_or_open {tags : List Tag} (h : ClosersFit tags)
    (hbrackets : ∀ tag ∈ tags, tag.kind.isBracket = true) :
    WellBracketed tags ∨ ∃ opener, Tag.Innermost tags opener := by
  obtain rfl | ⟨before, tag, hconcat⟩ := List.eq_nil_or_concat tags
  · exact .inl .nil
  · rw [List.concat_eq_append] at hconcat
    subst hconcat
    have htag := hbrackets tag (by simp)
    cases hkind : tag.kind with
    | opener inverted => exact .inr ⟨tag, ⟨inverted, hkind⟩, before, [], rfl, .nil⟩
    | closer =>
      obtain ⟨opener, ⟨⟨inverted, hopener⟩, outer, body, rfl, hbody⟩, hname⟩ :=
        h before tag [] rfl hkind
      -- the closer and its opener go together, and what stands before them decides
      have hblock := WellBracketed.block hopener hkind hname hbody .nil
      have hsplit : outer ++ opener :: body ++ [tag] = outer ++ opener :: (body ++ [tag]) := by
        simp
      have houter : ClosersFit outer := of_append (of_append h)
      have hbrackets' : ∀ tag ∈ outer, tag.kind.isBracket = true := by
        intro tag htag
        exact hbrackets tag (by simp [htag])
      rw [hsplit]
      obtain hclosed | ⟨opener', hopen⟩ := closed_or_open houter hbrackets'
      · exact .inl (hclosed.append hblock)
      · exact .inr ⟨opener', hopen.append hblock⟩
    | interpolation | comment | inclusion | setDelimiters =>
      rw [hkind] at htag
      cases htag
termination_by tags.length
decreasing_by
  subst_vars
  simp

end ClosersFit

/-- Every closer fits, or there is a first one that does not. -/
theorem closersFit_or_first (tags : List Tag) :
    ClosersFit tags ∨ ∃ before closer after, tags = before ++ closer :: after ∧
      closer.kind = .closer ∧ ClosersFit before ∧ ¬ closer.Closes before := by
  induction tags using List.reverseRecOn with
  | nil => exact .inl .nil
  | append_singleton before tag ih =>
    obtain hfit | ⟨front, closer, after, rfl, hkind, hfront, hcloses⟩ := ih
    · by_cases htag : tag.kind = .closer → tag.Closes before
      · exact .inl (hfit.concat htag)
      · rw [Classical.not_imp] at htag
        exact .inr ⟨before, tag, [], rfl, htag.1, hfit, htag.2⟩
    · refine .inr ⟨front, closer, after ++ [tag], ?_, hkind, hfront, hcloses⟩
      rw [List.append_assoc, List.cons_append]

/-- Brackets that are not well bracketed have one that is misplaced. -/
theorem wellBracketed_or_misplaced {tags : List Tag}
    (hbrackets : ∀ tag ∈ tags, tag.kind.isBracket = true) :
    WellBracketed tags ∨ ∃ tag fault, Misplaced tags tag fault := by
  obtain hfit | ⟨before, closer, after, hsplit, hkind, hfit, hcloses⟩ := closersFit_or_first tags
  · obtain hclosed | ⟨opener, hopener⟩ := hfit.closed_or_open hbrackets
    · exact .inl hclosed
    · exact .inr ⟨opener, _, .unclosed hfit hopener⟩
  · by_cases hopen : ∃ opener, Tag.Innermost before opener
    · obtain ⟨opener, hopener⟩ := hopen
      have hname : opener.name ≠ closer.name := fun hname => hcloses ⟨opener, hopener, hname⟩
      exact .inr ⟨closer, _, .mismatched hsplit hkind hfit hopener hname⟩
    · exact .inr ⟨closer, _, .unopened hsplit hkind hfit (not_exists.1 hopen)⟩

/-! ## Brackets among other tags -/

variable {source : List Char} {offset : Nat}

theorem Nests.of_no_brackets {tags : List Tag} (h : ∀ tag ∈ tags, ¬ tag.kind.isBracket = true) :
    ∃ outlines, Nests source offset tags outlines := by
  induction tags with
  | nil => exact ⟨[], .nil⟩
  | cons tag tags ih =>
    rw [List.forall_mem_cons] at h
    obtain ⟨outlines, hrest⟩ := ih h.2
    cases hkind : tag.kind with
    | interpolation escape => exact ⟨_, .interpolation hkind hrest⟩
    | inclusion => exact ⟨_, .inclusion hkind hrest⟩
    | comment => exact ⟨_, .idle (.inl hkind) hrest⟩
    | setDelimiters => exact ⟨_, .idle (.inr hkind) hrest⟩
    | opener inverted => exact absurd (by rw [hkind]; rfl) h.1
    | closer => exact absurd (by rw [hkind]; rfl) h.1

/-- Tags nest if the brackets among them are well bracketed. -/
theorem WellBracketed.exists_nests {brackets tags : List Tag} (h : WellBracketed brackets)
    (htags : tags.filter (·.kind.isBracket) = brackets) :
    ∃ outlines, Nests source offset tags outlines := by
  induction h generalizing tags with
  | nil => exact Nests.of_no_brackets (List.filter_eq_nil_iff.1 htags)
  | block hopener hcloser hname _ _ ihbody ihrest =>
    obtain ⟨idle, within, rfl, hidle, _, hwithin⟩ := List.filter_eq_cons_iff.1 htags
    obtain ⟨body, rest, rfl, hbody, hrest⟩ := List.filter_eq_append_iff.1 hwithin
    obtain ⟨idle', rest, rfl, hidle', _, hrest⟩ := List.filter_eq_cons_iff.1 hrest
    obtain ⟨outlines₁, h₁⟩ := @Nests.of_no_brackets source offset _ hidle
    obtain ⟨outlines₂, h₂⟩ := ihbody hbody
    obtain ⟨outlines₃, h₃⟩ := @Nests.of_no_brackets source offset _ hidle'
    obtain ⟨outlines₄, h₄⟩ := ihrest hrest
    have hblock := Nests.block hopener hcloser hname (h₂.append h₃) h₄
    rw [List.append_assoc] at hblock
    exact ⟨_, h₁.append hblock⟩

namespace Tree

/-- The openers and closers among tags that are laid out. -/
def brackets (items : List (PlacedTag × List Char)) : List Tag :=
  (items.map (·.1.tag)).filter (·.kind.isBracket)

theorem isBracket_of_mem {items : List (PlacedTag × List Char)} :
    ∀ tag ∈ brackets items, tag.kind.isBracket = true := by
  intro tag htag
  exact (List.mem_filter.1 htag).2

theorem exists_of_brackets {items : List (PlacedTag × List Char)} {before after : List Tag}
    {tag : Tag} (h : brackets items = before ++ tag :: after) :
    ∃ front placed text back, items = front ++ (placed, text) :: back ∧ placed.tag = tag ∧
      brackets front = before ∧ brackets back = after := by
  obtain ⟨tags, tags', htags, hbefore, htags'⟩ := List.filter_eq_append_iff.1 h
  obtain ⟨idle, after', rfl, hidle, _, hafter⟩ := List.filter_eq_cons_iff.1 htags'
  rw [← List.append_assoc] at htags
  obtain ⟨front, rest, rfl, hfront, hrest⟩ := List.map_eq_append_iff.1 htags
  obtain ⟨⟨placed, text⟩, back, rfl, rfl, rfl⟩ := List.map_eq_cons_iff.1 hrest
  refine ⟨front, placed, text, back, rfl, rfl, ?_, hafter⟩
  rw [brackets, hfront, List.filter_append, hbefore, List.filter_eq_nil_iff.2 hidle,
    List.append_nil]

/-- Tags whose brackets are well bracketed leave the sections around them alone. -/
theorem build_of_wellBracketed {items : List (PlacedTag × List Char)}
    (h : WellBracketed (brackets items)) (tree : Tree) (rest : List (PlacedTag × List Char)) :
    ∃ nodes, build source tree (items ++ rest) = build source ⟨nodes, tree.enclosing⟩ rest := by
  obtain ⟨outlines, hnests⟩ := @WellBracketed.exists_nests source 0 _ _ h rfl
  obtain ⟨nodes, _, hbuild⟩ := build_of_nests hnests rfl rest tree
  exact ⟨nodes, hbuild⟩

/-- Behind tags whose closers fit, the innermost open section is on top. -/
theorem build_of_innermost {items : List (PlacedTag × List Char)} {opener : Tag}
    (hfit : ClosersFit (brackets items)) (hopener : opener.Innermost (brackets items))
    (tree : Tree) (rest : List (PlacedTag × List Char)) :
    ∃ nodes before enclosing, build source tree (items ++ rest) =
      build source ⟨nodes, (opener, before) :: enclosing⟩ rest := by
  obtain ⟨⟨inverted, hkind⟩, outer, body, hsplit, hbody⟩ := hopener
  obtain ⟨front, placed, text, back, rfl, rfl, hfront, hback⟩ := exists_of_brackets hsplit
  have hfit' : ClosersFit (brackets front) := by
    rw [hfront]
    rw [hsplit] at hfit
    exact hfit.of_append
  let rest' := (placed, text) :: (back ++ rest)
  have hbuild : ∃ tree', build source tree (front ++ rest') = build source tree' rest' := by
    obtain hclosed | ⟨opener', hopen⟩ := hfit'.closed_or_open isBracket_of_mem
    · obtain ⟨nodes, hbuild⟩ := build_of_wellBracketed hclosed tree rest'
      exact ⟨_, hbuild⟩
    · obtain ⟨nodes, before, enclosing, hbuild⟩ := build_of_innermost hfit' hopen tree rest'
      exact ⟨_, hbuild⟩
  obtain ⟨tree', hbuild⟩ := hbuild
  rw [← hback] at hbody
  obtain ⟨nodes, hinside⟩ := @build_of_wellBracketed source _ hbody
    ⟨addText text [], (placed.tag, tree'.nodes) :: tree'.enclosing⟩ rest
  refine ⟨nodes, tree'.nodes, tree'.enclosing, ?_⟩
  rw [List.append_assoc, List.cons_append, hbuild, build, addTag]
  simp only [hkind]
  exact hinside
termination_by items.length
decreasing_by
  subst_vars
  simp

/-- The fault of a misplaced bracket is what building comes to. -/
theorem build_of_misplaced {items : List (PlacedTag × List Char)} {tag : Tag} {fault : ParseFault}
    (h : Misplaced (brackets items) tag fault) (nodes : List Node) :
    build source ⟨nodes, []⟩ items = .error (faultAt tag fault) := by
  cases h with
  | unopened hsplit hkind hfirst hnone =>
    obtain ⟨front, placed, text, back, rfl, rfl, rfl, _⟩ := exists_of_brackets hsplit
    obtain hclosed | ⟨opener, hopen⟩ := hfirst.closed_or_open isBracket_of_mem
    · obtain ⟨nodes', hbuild⟩ := build_of_wellBracketed hclosed ⟨nodes, []⟩
        ((placed, text) :: back)
      rw [hbuild, build, addTag]
      simp only [hkind]
      rfl
    · exact absurd hopen (hnone opener)
  | mismatched hsplit hkind hfirst hopener hname =>
    obtain ⟨front, placed, text, back, rfl, rfl, rfl, _⟩ := exists_of_brackets hsplit
    obtain ⟨nodes', before, enclosing, hbuild⟩ := build_of_innermost hfirst
      hopener ⟨nodes, []⟩ ((placed, text) :: back)
    rw [hbuild, build, addTag]
    simp only [hkind, close, if_neg hname]
  | unclosed hall hopener =>
    obtain ⟨nodes', before, enclosing, hbuild⟩ := build_of_innermost hall
      hopener ⟨nodes, []⟩ []
    rw [List.append_nil] at hbuild
    rw [hbuild]
    rfl

end Tree

/-! ## Templates -/

namespace Template

theorem brackets_ofScan (scan : Scan) : Tree.brackets (Layout.ofScan scan).rest = scan.brackets := by
  rw [Tree.brackets, Layout.ofScan, Layout.map_tag_ofRuns]
  rfl

theorem compile_of_scan {d : Delimiters} {scan : Scan}
    (hscan : Scan.ofSource d Position.start source = .ok scan) :
    (WellBracketed scan.brackets → ∃ nodes, compile source d = .ok nodes) ∧
      ∀ tag fault, Misplaced scan.brackets tag fault →
        compile source d = .error (Tree.faultAt tag fault) := by
  constructor
  · intro h
    obtain ⟨outlines, hnests⟩ := @WellBracketed.exists_nests source 0 _ _ h rfl
    obtain ⟨nodes, hnodes, _⟩ := exists_compile_of_nests hscan hnests
    exact ⟨nodes, hnodes⟩
  · intro tag fault h
    rw [← brackets_ofScan] at h
    rw [compile, hscan]
    exact Tree.build_of_misplaced h _

/-- A source that is scanned compiles exactly when the openers and closers of its sections are
well bracketed. If they are not, its error is that of a misplaced one: the first closer, in the
order of the source, with no section open or with another name than the innermost open section, or
if there is none, the opener of the innermost section that is open at the end. -/
theorem parse_brackets {source : String} {d : Delimiters} {scan : Scan}
    (hscan : Scan.ofSource d Position.start source.toList = .ok scan) (name : Option String) :
    ((∃ template, parse source name d = .ok template) ↔ WellBracketed scan.brackets) ∧
    ∀ error, parse source name d = .error error ↔
      ∃ tag fault, Misplaced scan.brackets tag fault ∧
        error = ⟨fault, tag.span.line, tag.span.column, name,
          Snippet.ofSource source tag.span.line tag.span.column⟩ := by
  obtain ⟨hnodes, hfault⟩ := compile_of_scan hscan
  have hok : WellBracketed scan.brackets → ∃ template, parse source name d = .ok template := by
    intro h
    obtain ⟨nodes, hnodes⟩ := hnodes h
    exact ⟨⟨name, nodes⟩, parse_eq_ok_iff.2 ⟨hnodes, rfl⟩⟩
  have herror (tag : Tag) (fault : ParseFault) (h : Misplaced scan.brackets tag fault) :
      parse source name d = .error ⟨fault, tag.span.line, tag.span.column, name,
        Snippet.ofSource source tag.span.line tag.span.column⟩ := by
    rw [parse, hfault tag fault h]
    rfl
  have hbrackets : ∀ tag ∈ scan.brackets, tag.kind.isBracket = true :=
    fun tag htag => (List.mem_filter.1 htag).2
  refine ⟨⟨?_, hok⟩, fun error => ⟨?_, ?_⟩⟩
  · rintro ⟨template, htemplate⟩
    obtain hclosed | ⟨tag, fault, hmisplaced⟩ := wellBracketed_or_misplaced hbrackets
    · exact hclosed
    · rw [herror tag fault hmisplaced] at htemplate
      cases htemplate
  · intro hparse
    obtain hclosed | ⟨tag, fault, hmisplaced⟩ := wellBracketed_or_misplaced hbrackets
    · obtain ⟨template, htemplate⟩ := hok hclosed
      rw [htemplate] at hparse
      cases hparse
    · rw [herror tag fault hmisplaced] at hparse
      cases hparse
      exact ⟨tag, fault, hmisplaced, rfl⟩
  · rintro ⟨tag, fault, hmisplaced, rfl⟩
    exact herror tag fault hmisplaced

end Template

/-- Two sections that cross, with other tags between their brackets. -/
def Script.crossed : Script :=
  ⟨[], [(⟨.hash, ['a'], .braces⟩, ['\n']), (⟨.caret, " b ".toList, .braces⟩, []),
    (⟨.bang, ['#'], .braces⟩, ['x']), (⟨.slash, ['a'], .braces⟩, []),
    (⟨.slash, ['b'], .braces⟩, [])]⟩

theorem Template.parse_crossed :
    let source := String.ofList (Script.crossed.text .braces)
    ∃ error, parse source none .braces = .error error ∧
      error.fault.message = "section \"b\" closed by \"a\"" ∧
      (error.line, error.column) = (2, 16) := by
  intro source
  let scan := Script.crossed.scan .braces
  let a : Tag := ⟨.opener false, "a", ⟨0, 6, 1, 1⟩, .braces⟩
  let b : Tag := ⟨.opener true, "b", ⟨7, 15, 2, 1⟩, .braces⟩
  let closer : Tag := ⟨.closer, "a", ⟨22, 28, 2, 16⟩, .braces⟩
  have hscan : Scan.ofSource .braces .start source.toList = .ok scan := by
    rw [String.toList_ofList]
    exact Scan.ofSource_text (by decide)
  have hsplit : scan.brackets = [a, b] ++ closer :: [⟨.closer, "b", ⟨28, 34, 2, 22⟩, .braces⟩] := rfl
  have ha : ClosersFit [a] := ClosersFit.nil.concat nofun
  have hfirst : ClosersFit [a, b] := ha.concat nofun
  have hopener : b.Innermost [a, b] := ⟨⟨true, rfl⟩, [a], [], rfl, .nil⟩
  have hmisplaced := Misplaced.mismatched hsplit rfl hfirst hopener (by decide)
  obtain ⟨_, herror⟩ := parse_brackets hscan none
  exact ⟨_, (herror _).2 ⟨closer, _, hmisplaced, rfl⟩, rfl, rfl⟩

end Mustache
