import Mustache.Proofs.LambdaFree
import Mustache.Template.Tree

/-!
# Mustache.Proofs.Refinement

Renders that succeed whenever others do, with the same output. Instructions are refined in this
sense part by part. Over data without lambdas neither their places nor the raw text of sections
matter, more open partials do no harm, and a partial is refined by its instructions.
-/

namespace Mustache

variable {ω σ α β : Type}

/-- Where the first step succeeds, so does the second, with the same result and output. -/
def Render.Refines (step step' : Render ω σ α) : Prop :=
  ∀ out a out', step out = (.ok a, out') → step' out = (.ok a, out')

namespace Render.Refines

theorem refl (step : Render ω σ α) : Refines step step :=
  fun _ _ _ h => h

theorem trans {step step' step'' : Render ω σ α} (h : Refines step step')
    (h' : Refines step' step'') : Refines step step'' := by
  intro out a out' hstep
  exact h' out a out' (h out a out' hstep)

theorem fail (error : Error) (step : Render ω σ α) : Refines (Render.fail error) step := by
  intro out a out' h
  cases h

theorem bind {step step' : Render ω σ α} {next next' : α → Render ω σ β} (h : Refines step step')
    (hnext : ∀ a, Refines (next a) (next' a)) : Refines (step >>= next) (step' >>= next') := by
  intro out b out' hb
  obtain ⟨a, out₁, hstep, hb⟩ := bind_eq_ok_iff.1 hb
  exact bind_eq_ok_iff.2 ⟨a, out₁, h _ _ _ hstep, hnext a _ _ _ hb⟩

theorem congruence (sink : Sink ω) : Render.Congruence (σ := σ) sink sink fun _ => Refines :=
  ⟨fun _ => refl _, bind, fun _ => refl _⟩

end Render.Refines

/-! ## Text -/

/-- Two texts in a row are written like one. -/
theorem Render.emit_append (text text' : String) :
    (do
      emit (σ := σ) Sink.text text
      emit Sink.text text') = emit Sink.text (text ++ text') := by
  funext out
  show (Except.ok (), (⟨out.sink ++ text ++ text', out.store⟩ : Output String σ)) = _
  rw [String.append_assoc]
  rfl

/-- Text that is added to instructions is written like an instruction of its own. -/
theorem renderNodes_addText (escape : Escape) (k : Continuation String σ) (text : List Char)
    (nodes : List Node) (frames : List (Value σ)) :
    renderNodes Sink.text escape k (Tree.addText text nodes).reverse frames =
      renderNodes Sink.text escape k (nodes.reverse ++ [.literal (String.ofList text)]) frames := by
  unfold Tree.addText
  split
  · next hempty =>
    have hnothing : Render.emit (σ := σ) Sink.text (String.ofList []) = pure () := by
      funext out
      show (Except.ok (), (⟨out.sink ++ "", out.store⟩ : Output String σ)) = _
      rw [String.append_empty]
      rfl
    rw [List.isEmpty_iff.1 hempty, renderNodes_append, renderNodes_singleton, renderNode, hnothing]
    exact bind_pure_unit.symm
  · split
    · next before rest =>
      rw [List.reverse_cons, List.reverse_cons, List.append_assoc, renderNodes_append,
        renderNodes_append, renderNodes_append, renderNodes_singleton, renderNodes_singleton,
        renderNodes_singleton, renderNode, renderNode, renderNode, Render.emit_append]
    · rw [List.reverse_cons]

namespace Engine

/-- Over data without lambdas the second instructions refine the first, with as many partials
allowed to be open. -/
def Refines (engine : Engine) (sink : Sink ω) (nested : Nat → Nested σ) (nodes nodes' : List Node) :
    Prop :=
  ∀ depth frames, LambdaFree frames →
    Render.Refines (engine.renderWithin sink nested depth nodes frames)
      (engine.renderWithin sink nested depth nodes' frames)

variable {engine : Engine} {sink : Sink ω} {nested : Nat → Nested σ}

namespace Refines

theorem refl (nodes : List Node) : engine.Refines sink nested nodes nodes :=
  fun _ _ _ => .refl _

theorem trans {nodes nodes' nodes'' : List Node} (h : engine.Refines sink nested nodes nodes')
    (h' : engine.Refines sink nested nodes' nodes'') :
    engine.Refines sink nested nodes nodes'' :=
  fun depth frames hframes => (h depth frames hframes).trans (h' depth frames hframes)

theorem append {nodes nodes' more more' : List Node} (h : engine.Refines sink nested nodes nodes')
    (hmore : engine.Refines sink nested more more') :
    engine.Refines sink nested (nodes ++ more) (nodes' ++ more') := by
  intro depth frames hframes
  have hnodes := h depth frames hframes
  have hmore := hmore depth frames hframes
  rw [renderWithin_eq] at hnodes hmore ⊢
  rw [renderNodes_append, renderNodes_append]
  exact hnodes.bind fun _ => hmore

/-- A section is refined by one with refined instructions, whatever its raw text. -/
theorem block {children children' : List Node} (h : engine.Refines sink nested children children')
    (path : Path) (inverted : Bool) (inner inner' : String) (d d' : Delimiters)
    (span span' : Span) :
    engine.Refines sink nested [.block path inverted children inner d span]
      [.block path inverted children' inner' d' span'] := by
  intro depth frames hframes
  have hchildren (frames : List (Value σ)) := h depth frames
  rw [renderWithin_eq] at hchildren ⊢
  rw [renderNodes_singleton, renderNodes_singleton]
  cases inverted with
  | true =>
    rw [renderNode, renderNode, if_pos rfl, if_pos rfl]
    split
    · exact .refl _
    · exact hchildren frames hframes
  | false =>
    rw [renderNode_section, renderNode_section]
    cases hentries : sectionEntries frames path with
    | none => exact .refl _
    | some entries =>
      cases entries with
      | lambda f => exact absurd hentries (sectionEntries_ne_lambda hframes f)
      | each values =>
        exact (Render.Refines.congruence sink).forM fun value hvalue =>
          hchildren (value :: frames) (Contexts.lambdaFree.each hframes hentries value hvalue)

theorem addText {front nodes nodes' : List Node}
    (h : engine.Refines Sink.text nested (front ++ nodes.reverse) nodes'.reverse)
    (text : List Char) :
    engine.Refines Sink.text nested (front ++ (Tree.addText text nodes).reverse)
      (Tree.addText text nodes').reverse := by
  intro depth frames hframes
  have hliteral := h.append (refl [.literal (String.ofList text)]) depth frames hframes
  rw [renderWithin_eq] at hliteral ⊢
  rwa [renderNodes_append, renderNodes_addText, renderNodes_addText, ← renderNodes_append,
    ← List.append_assoc]

end Refines

theorem renderWithin_of_inclusion {depth depth' : Nat}
    (h : ∀ frames name indentation, LambdaFree frames →
      Render.Refines ((engine.continuation sink nested depth).inclusion frames name indentation)
        ((engine.continuation sink nested depth').inclusion frames name indentation))
    (nodes : List Node) {frames : List (Value σ)} (hframes : LambdaFree frames) :
    Render.Refines (engine.renderWithin sink nested depth nodes frames)
      (engine.renderWithin sink nested depth' nodes frames) := by
  rw [renderWithin_eq, renderWithin_eq]
  exact (Render.Refines.congruence sink).renderNodes_of_inclusion h _ nodes hframes

/-- More partials may be open. -/
theorem renderWithin_deeper (engine : Engine) (sink : Sink ω) (nested : Nat → Nested σ)
    (depth : Nat) (nodes : List Node) {frames : List (Value σ)} (hframes : LambdaFree frames) :
    Render.Refines (engine.renderWithin sink nested depth nodes frames)
      (engine.renderWithin sink nested (depth + 1) nodes frames) := by
  induction depth generalizing nodes frames with
  | zero =>
    refine renderWithin_of_inclusion ?_ nodes hframes
    intro frames name indentation _
    exact .fail _ _
  | succ depth ih =>
    refine renderWithin_of_inclusion ?_ nodes hframes
    intro frames name indentation hframes
    simp only [continuation]
    split
    · exact .refl _
    · exact .refl _
    · split
      · exact .refl _
      · next template _ => exact ih template.nodes hframes

/-- A partial that compiles is rendered with one less allowed to be open. -/
theorem inclusion_eq {name indentation source : String} {template : Template}
    (hsource : engine.partials name = .ok (some source))
    (htemplate : engine.parsePartial name indentation source = .ok template) (depth : Nat)
    (frames : List (Value σ)) :
    (engine.continuation sink nested (depth + 1)).inclusion frames name indentation =
      engine.renderWithin sink nested depth template.nodes frames := by
  simp only [continuation, hsource, htemplate]

/-- A partial is refined by its instructions in its place. -/
theorem Refines.inclusion {name indentation source : String} {template : Template}
    (hsource : engine.partials name = .ok (some source))
    (htemplate : engine.parsePartial name indentation source = .ok template) (span : Span) :
    engine.Refines sink nested [.inclusion name indentation span] template.nodes := by
  intro depth frames hframes
  cases depth with
  | zero =>
    rw [renderWithin_eq, renderNodes_singleton, renderNode]
    exact .fail _ _
  | succ depth =>
    rw [renderWithin_eq, renderNodes_singleton, renderNode, inclusion_eq hsource htemplate,
      ← renderWithin_eq]
    exact engine.renderWithin_deeper sink nested depth template.nodes hframes

end Engine

end Mustache
