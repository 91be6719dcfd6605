import Mustache.Proofs.Excerpt
import Mustache.Proofs.Failing

/-!
# Mustache.Proofs.Inner

The raw text of a section compiles again, to the same instructions.
-/

namespace Mustache

namespace Template

/-- The text between the tags of a section, at any depth, compiles under the delimiters of the
section, and what it compiles to has the outline of the section's children. So a lambda that has
this text rendered is told of no fault in it: a parse error that it is told of is that of a
partial, or is what the source of partials answers with. -/
theorem parse_inner {source : String} {name : Option String} {d : Delimiters}
    {template : Template} {path : Path} {inverted : Bool} {children : List Node} {inner : String}
    {delimiters : Delimiters} {span : Span} (h : parse source name d = .ok template)
    (hwithin : Node.Within (.block path inverted children inner delimiters span)
      template.nodes) :
    ∃ nodes, (∀ name', parse inner name' delimiters = .ok ⟨name', nodes⟩) ∧
      Node.outlines span.stop nodes = Node.outlines 0 children ∧
      ∀ (σ : Type) (engine : Engine) (fuel depth : Nat) (scratch : Sink String)
        (frames : List (Value σ)) (escape : Escape) (out out' : Output String σ)
        (error : ParseError),
        (scratchHost scratch (engine.renderNested fuel depth) frames).render inner delimiters
            escape out = (.ok (.error (.parse error)), out') →
          ∃ faulty, engine.partials faulty = .error (.parse error) ∨
            ∃ indentation text, engine.partials faulty = .ok (some text) ∧
              engine.parsePartial faulty indentation text = .error error := by
  obtain ⟨scan, hscan, hnests⟩ := exists_nests_of_compile (parse_eq_ok_iff.1 h).1
  obtain ⟨gone, opener, body, closer, rest, htags, hinner, rfl, hstop, hbody⟩ :=
    hnests.hasSection_of_within hwithin
  obtain ⟨before, excerpt, after, scan', hsource, hopener, hcloser, hscan', hshifted⟩ :=
    Scan.exists_excerpt hscan htags
  have hexcerpt : inner = String.ofList excerpt := by
    rw [hinner, hopener, hcloser, hsource, Text.slice_append]
  rw [hsource] at hbody
  obtain ⟨nodes, hnodes, houtlines⟩ := exists_compile_of_nests hscan' (hbody.excerpt hshifted)
  have hparse (name' : Option String) : parse inner name' opener.delimiters = .ok ⟨name', nodes⟩ := by
    rw [parse_eq_ok_iff, hexcerpt, String.toList_ofList]
    exact ⟨hnodes, rfl⟩
  refine ⟨nodes, hparse, ?_, ?_⟩
  · rw [← houtlines, ← hopener, ← Nat.zero_add opener.span.stop, ← hstop, Nat.zero_add]
  · intro σ engine fuel depth scratch frames escape out out' error hrender
    cases engine.raises_of_render (hparse none) hrender with
    | loading hfaulty => exact ⟨_, .inl hfaulty⟩
    | parsing htext hfaulty => exact ⟨_, .inr ⟨_, _, htext, hfaulty⟩⟩

end Template

/-- A script that sets delimiters before a section and in it. -/
def Script.nested : Script :=
  ⟨[],
    [(⟨.equals, "<% %>".toList, .percents⟩, []),
      (⟨.hash, ['s'], .percents⟩, "\n ".toList),
      (⟨.equals, "\x7b\x7b \x7d\x7d".toList, .braces⟩, ['\n']),
      (⟨.caret, ['t'], .braces⟩, "<%".toList),
      (⟨.angle, ['p'], .braces⟩, []),
      (⟨.slash, ['t'], .braces⟩, []),
      (⟨.slash, ['s'], .braces⟩, [])]⟩

theorem Template.parse_nested_inner :
    let inner := "\n <%=\x7b\x7b \x7d\x7d=%>\n\x7b\x7b^t\x7d\x7d<%\x7b\x7b>p\x7d\x7d\x7b\x7b/t\x7d\x7d"
    let block : Node := .block ⟨["t"]⟩ true [.literal "<%", .inclusion "p" "" ⟨39, 45, 3, 9⟩]
      "<%\x7b\x7b>p\x7d\x7d" .braces ⟨31, 37, 3, 1⟩
    let template : Template :=
      ⟨none, [.block ⟨["s"]⟩ false [.literal "\n", block] inner .percents ⟨11, 17, 1, 12⟩]⟩
    Template.parse (String.ofList (Script.nested.text .braces)) none .braces = .ok template ∧
      ∃ nodes, (∀ name, Template.parse inner name .percents = .ok ⟨name, nodes⟩) ∧
        Node.outlines 17 nodes = Node.outlines 0 [block] := by
  intro inner block template
  have h : parse (String.ofList (Script.nested.text .braces)) none .braces = .ok template :=
    parse_text none (by decide) rfl
  obtain ⟨nodes, hnodes, houtlines, _⟩ := parse_inner h (.here (List.mem_singleton_self _))
  exact ⟨h, nodes, hnodes, houtlines⟩

/-- A section that includes a partial. -/
def Script.including : Script :=
  ⟨[], [(⟨.hash, ['f'], .braces⟩, []), (⟨.angle, ['p'], .braces⟩, []),
    (⟨.slash, ['f'], .braces⟩, [])]⟩

/-- The text of that section. -/
def Script.included : Script :=
  ⟨[], [(⟨.angle, ['p'], .braces⟩, [])]⟩

/-- A section that is not closed. -/
def Script.unclosed : Script :=
  ⟨[], [(⟨.hash, ['x'], .braces⟩, [])]⟩

/-- Rendering the text of a section comes to a parse error if a partial in it does not compile. -/
theorem Template.render_inner_unclosed :
    let source := String.ofList (Script.unclosed.text .braces)
    let inner := String.ofList (Script.included.text .braces)
    let engine : Engine := ⟨fun _ => .ok (some source), .standard⟩
    let error : ParseError := ⟨.unclosedSection "x", 1, 1, some "p", ⟨[(1, source)], 1, 1⟩⟩
    Template.parse (String.ofList (Script.including.text .braces)) none .braces =
        .ok ⟨none, [.block ⟨["f"]⟩ false [.inclusion "p" "" ⟨6, 12, 1, 7⟩] inner .braces
          ⟨0, 6, 1, 1⟩]⟩ ∧
      (scratchHost Sink.text (engine.renderNested 1 1) []).render inner .braces .raw ⟨"", ()⟩ =
        (.ok (.error (.parse error)), ⟨"", ()⟩) := by
  intro source inner engine error
  have hinner : parse inner none .braces = .ok ⟨none, [.inclusion "p" "" ⟨0, 6, 1, 1⟩]⟩ :=
    parse_text none (by decide) rfl
  have hsource : engine.parsePartial "p" "" source = .error error := by
    have hindent : Text.indent "".toList source.toList = Script.unclosed.text .braces := by
      decide
    have hdelimiters : engine.options.delimiters = .braces := rfl
    simp only [Engine.parsePartial, hindent, hdelimiters]
    rw [parse, String.toList_ofList,
      compile_text (by decide : Script.unclosed.Legible .braces)]
    rfl
  have hload : engine.partials "p" = .ok (some source) := rfl
  constructor
  · exact parse_text none (by decide) rfl
  · simp only [scratchHost, Render.attempt, renderTemplate, hinner, Engine.renderNested,
      Engine.renderWithin, renderNodes, renderNode, hload, hsource]
    rfl

end Mustache
