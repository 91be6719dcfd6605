import Mustache.Proofs.Enumeration

/-!
# Mustache.Proofs.Congruence

Relations of steps that rendering keeps. A relation that holds of doing nothing, of writing a
chunk and of steps in sequence holds of the renders of the same instructions, as long as partials
and calls of lambdas are related. `Contexts` names what is known of the contexts on the way; where
they hold no lambda, nothing has to be known of calls.
-/

namespace Mustache

variable {ω₁ ω₂ σ α : Type}

/-- A relation of steps that write to two sinks, kept by all that instructions are made of. -/
structure Render.Congruence (sink₁ : Sink ω₁) (sink₂ : Sink ω₂)
    (P : (α : Type) → Render ω₁ σ α → Render ω₂ σ α → Prop) : Prop where
  pure : ∀ {α : Type} (a : α), P α (Pure.pure a) (Pure.pure a)
  bind : ∀ {α β : Type} {step₁ : Render ω₁ σ α} {step₂ : Render ω₂ σ α}
    {next₁ : α → Render ω₁ σ β} {next₂ : α → Render ω₂ σ β}, P α step₁ step₂ →
    (∀ a, P β (next₁ a) (next₂ a)) → P β (step₁ >>= next₁) (step₂ >>= next₂)
  emit : ∀ chunk, P Unit (Render.emit sink₁ chunk) (Render.emit sink₂ chunk)

/-- A property of stacks of contexts that stays true when a section adds a context. -/
structure Contexts (G : List (Value σ) → Prop) : Prop where
  each : ∀ {frames : List (Value σ)} {path : Path} {values : List (Value σ)}, G frames →
    sectionEntries frames path = some (.each values) → ∀ value ∈ values, G (value :: frames)

theorem Contexts.any : Contexts fun _ : List (Value σ) => True :=
  ⟨fun _ _ _ _ => trivial⟩

namespace Render.Congruence

variable {sink₁ : Sink ω₁} {sink₂ : Sink ω₂}
variable {P : (α : Type) → Render ω₁ σ α → Render ω₂ σ α → Prop}

theorem emitAll (h : Congruence sink₁ sink₂ P) (chunks : List String) :
    P Unit (Render.emitAll sink₁ chunks) (Render.emitAll sink₂ chunks) := by
  induction chunks with
  | nil => exact h.pure ()
  | cons chunk chunks ih => exact h.bind (h.emit chunk) fun _ => ih

theorem forM (h : Congruence sink₁ sink₂ P) {body₁ : α → Render ω₁ σ Unit}
    {body₂ : α → Render ω₂ σ Unit} {values : List α}
    (hbody : ∀ value ∈ values, P Unit (body₁ value) (body₂ value)) :
    P Unit (values.forM body₁) (values.forM body₂) := by
  induction values with
  | nil => exact h.pure ()
  | cons value values ih =>
    rw [List.forall_mem_cons] at hbody
    exact h.bind hbody.1 fun _ => ih hbody.2

section

variable {k₁ : Continuation ω₁ σ} {k₂ : Continuation ω₂ σ} {G : List (Value σ) → Prop}

variable (k₁ k₂)

mutual

theorem renderNode (h : Congruence sink₁ sink₂ P) (escape : Escape) (hG : Contexts G)
    (hinclusion : ∀ frames name indentation, G frames →
      P Unit (k₁.inclusion frames name indentation) (k₂.inclusion frames name indentation))
    (hexpansion : ∀ frames path f call, G frames →
      sectionEntries frames path = some (.lambda f) →
      P Unit (k₁.expansion frames f call) (k₂.expansion frames f call)) :
    ∀ (node : Node) (frames : List (Value σ)), G frames →
      P Unit (Mustache.renderNode sink₁ escape k₁ node frames)
        (Mustache.renderNode sink₂ escape k₂ node frames)
  | .literal text, frames, _ => h.emit text
  | .interpolation path tagEscape span, frames, hframes => by
    rw [renderNode_interpolation, renderNode_interpolation]
    cases hlocation : locateFrames frames path none with
    | missing | broken | consumed => exact h.pure ()
    | field value => exact h.emitAll _
    | lambda f =>
      refine hexpansion frames path f _ hframes ?_
      rw [sectionEntries, hlocation]
  | .block path true children inner delimiters span, frames, hframes => by
    rw [Mustache.renderNode, Mustache.renderNode, if_pos rfl, if_pos rfl]
    split
    · exact h.pure ()
    · exact renderNodes h escape hG hinclusion hexpansion children frames hframes
  | .block path false children inner delimiters span, frames, hframes => by
    rw [renderNode_section, renderNode_section]
    cases hentries : sectionEntries frames path with
    | none => exact h.pure ()
    | some entries =>
      cases entries with
      | each values =>
        exact h.forM fun value hvalue =>
          renderNodes h escape hG hinclusion hexpansion children (value :: frames)
            (hG.each hframes hentries value hvalue)
      | lambda f => exact hexpansion frames path f _ hframes hentries
  | .inclusion name indentation span, frames, hframes =>
    hinclusion frames name indentation hframes

theorem renderNodes (h : Congruence sink₁ sink₂ P) (escape : Escape) (hG : Contexts G)
    (hinclusion : ∀ frames name indentation, G frames →
      P Unit (k₁.inclusion frames name indentation) (k₂.inclusion frames name indentation))
    (hexpansion : ∀ frames path f call, G frames →
      sectionEntries frames path = some (.lambda f) →
      P Unit (k₁.expansion frames f call) (k₂.expansion frames f call)) :
    ∀ (nodes : List Node) (frames : List (Value σ)), G frames →
      P Unit (Mustache.renderNodes sink₁ escape k₁ nodes frames)
        (Mustache.renderNodes sink₂ escape k₂ nodes frames)
  | [], _, _ => h.pure ()
  | node :: nodes, frames, hframes =>
    h.bind (renderNode h escape hG hinclusion hexpansion node frames hframes) fun _ =>
      renderNodes h escape hG hinclusion hexpansion nodes frames hframes

end

variable {k₁ k₂}

/-- With as many partials allowed, the same instructions are rendered alike. -/
theorem renderWithin (h : Congruence sink₁ sink₂ P)
    (hfail : ∀ error, P Unit (Render.fail error) (Render.fail error)) (hG : Contexts G)
    (engine : Engine) {nested₁ nested₂ : Nat → Nested σ}
    (hexpansion : ∀ depth frames path f call, G frames →
      sectionEntries frames path = some (.lambda f) →
      P Unit (expandLambda sink₁ (nested₁ depth) frames f call)
        (expandLambda sink₂ (nested₂ depth) frames f call)) (depth : Nat) :
    ∀ (nodes : List Node) (frames : List (Value σ)), G frames →
      P Unit (engine.renderWithin sink₁ nested₁ depth nodes frames)
        (engine.renderWithin sink₂ nested₂ depth nodes frames) := by
  induction depth with
  | zero =>
    refine renderNodes _ _ h _ hG ?_ (hexpansion 0)
    intro frames name indentation _
    exact hfail _
  | succ depth ih =>
    refine renderNodes _ _ h _ hG ?_ (hexpansion (depth + 1))
    intro frames name indentation hframes
    simp only
    split
    · exact hfail _
    · exact h.pure ()
    · split
      · exact hfail _
      · next template _ => exact ih template.nodes frames hframes

end

end Render.Congruence
end Mustache
