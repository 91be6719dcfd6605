import Mustache.Proofs.Cutoff

/-!
# Mustache.Proofs.Missing

Partials that are missing. As long as one more partial may be open, a missing one renders nothing,
and the instructions are rendered the same without it. Where no more may be open it ends the
render like any other partial, since the limit comes before the lookup.
-/

namespace Mustache

variable {ω σ : Type}

/-! ## Leaving partials out -/

mutual

/-- The instruction without the partials that `p` names, at any depth. -/
def Node.without (p : String → Bool) : Node → List Node
  | .literal text => [.literal text]
  | .interpolation path escape span => [.interpolation path escape span]
  | .block path inverted children inner delimiters span =>
    [.block path inverted (Node.withoutAll p children) inner delimiters span]
  | .inclusion name indentation span =>
    if p name then [] else [.inclusion name indentation span]

/-- The instructions without the partials that `p` names, at any depth. -/
def Node.withoutAll (p : String → Bool) : List Node → List Node
  | [] => []
  | node :: nodes => node.without p ++ Node.withoutAll p nodes

end

/-- Goes on the same, but does nothing for partials that `p` names. -/
def Continuation.skipping (k : Continuation ω σ) (p : String → Bool) : Continuation ω σ where
  inclusion frames name indentation :=
    if p name then pure () else k.inclusion frames name indentation
  expansion := k.expansion

section

variable (sink : Sink ω) (escape : Escape) (k : Continuation ω σ) (p : String → Bool)

mutual

theorem renderNodes_without :
    ∀ (node : Node) (frames : List (Value σ)),
      renderNodes sink escape k (node.without p) frames =
        renderNode sink escape (k.skipping p) node frames
  | .literal text, frames => renderNodes_singleton sink escape k _ frames
  | .interpolation path tagEscape span, frames => renderNodes_singleton sink escape k _ frames
  | .block path true children inner delimiters span, frames => by
    rw [Node.without, renderNodes_singleton, renderNode, renderNode, if_pos rfl, if_pos rfl,
      renderNodes_withoutAll children frames]
  | .block path false children inner delimiters span, frames => by
    rw [Node.without, renderNodes_singleton, renderNode_section, renderNode_section]
    simp only [renderNodes_withoutAll children]
    rfl
  | .inclusion name indentation span, frames => by
    rw [Node.without, renderNode]
    simp only [Continuation.skipping]
    split
    · rw [renderNodes]
    · rw [renderNodes_singleton, renderNode]

/-- Leaving partials out of instructions is the same as skipping them. -/
theorem renderNodes_withoutAll :
    ∀ (nodes : List Node) (frames : List (Value σ)),
      renderNodes sink escape k (Node.withoutAll p nodes) frames =
        renderNodes sink escape (k.skipping p) nodes frames
  | [], _ => rfl
  | node :: nodes, frames => by
    rw [Node.withoutAll, renderNodes_append, renderNodes_without node frames,
      renderNodes_withoutAll nodes frames, renderNodes]

end

end

namespace Engine

/-! ## Missing partials -/

def lacks (engine : Engine) (name : String) : Bool :=
  match engine.partials name with
  | .ok none => true
  | .ok (some _) | .error _ => false

/-- The instructions without the partials that are missing. -/
def prune (engine : Engine) (nodes : List Node) : List Node :=
  Node.withoutAll engine.lacks nodes

theorem partials_of_lacks {engine : Engine} {name : String} (h : engine.lacks name = true) :
    engine.partials name = .ok none := by
  unfold lacks at h
  split at h
  · assumption
  · cases h
  · cases h

theorem load_of_lacks {engine : Engine} {name : String} (h : engine.lacks name = true)
    (indentation : String) : engine.load name indentation = .ok none := by
  rw [load, partials_of_lacks h]

/-- Below the limit nothing is done for a missing partial anyway. -/
theorem skipping_lacks (engine : Engine) (sink : Sink ω) (nested : Nat → Nested σ) (depth : Nat) :
    (engine.continuation sink nested (depth + 1)).skipping engine.lacks =
      engine.continuation sink nested (depth + 1) := by
  have hinclusion (frames : List (Value σ)) (name indentation : String) :
      ((engine.continuation sink nested (depth + 1)).skipping engine.lacks).inclusion frames name
        indentation = (engine.continuation sink nested (depth + 1)).inclusion frames name
        indentation := by
    simp only [Continuation.skipping]
    split
    · next hlacks => rw [inclusion_succ, load_of_lacks hlacks]
    · rfl
  exact congrArg (Continuation.mk · (engine.continuation sink nested (depth + 1)).expansion)
    (funext fun frames => funext fun name => funext (hinclusion frames name))

theorem renderWithin_prune (engine : Engine) (sink : Sink ω) (nested : Nat → Nested σ)
    {depth : Nat} (hdepth : 0 < depth) (nodes : List Node) (frames : List (Value σ)) :
    engine.renderWithin sink nested depth (engine.prune nodes) frames =
      engine.renderWithin sink nested depth nodes frames := by
  obtain ⟨depth, rfl⟩ := Nat.exists_eq_succ_of_ne_zero (Nat.ne_of_gt hdepth)
  rw [renderWithin_eq, prune, renderNodes_withoutAll, skipping_lacks]

/-! ## Everywhere at once -/

/-- Renders without the missing partials, and includes partials without those that they miss. -/
def renderPruned (engine : Engine) (sink : Sink ω) (nested : Nat → Nested σ) :
    Nat → List Node → List (Value σ) → Render ω σ Unit
  | 0, nodes, frames => engine.renderWithin sink nested 0 (engine.prune nodes) frames
  | depth + 1, nodes, frames =>
    renderNodes sink engine.options.escape
      { inclusion := fun frames name indentation =>
          match engine.load name indentation with
          | .error error => Render.fail error
          | .ok none => pure ()
          | .ok (some template) => renderPruned engine sink nested depth template.nodes frames
        expansion := fun frames f call => expandLambda sink (nested (depth + 1)) frames f call }
      (engine.prune nodes) frames

/-- Without the missing partials a render does the same, unless it ends at one of them because of
the limit. -/
theorem renderPruned_outlasts (engine : Engine) (sink : Sink ω) (nested : Nat → Nested σ)
    (depth : Nat) (nodes : List Node) (frames : List (Value σ)) :
    Render.Outlasts sink
      (fun error => ∃ name, engine.partials name = .ok none ∧
        error = .partialDepth name engine.options.maxPartialDepth)
      (engine.renderWithin sink nested depth nodes frames)
      (engine.renderPruned sink nested depth nodes frames) := by
  have hexpansion (depth : Nat) (frames : List (Value σ)) (f : Lambda σ) (call : Call)
      (out : Output ω σ) :=
    (Render.Follows.expandLambda sink (nested depth) frames f call).grows out
  induction depth generalizing nodes frames with
  | zero =>
    rw [renderPruned, renderWithin_eq, prune, renderNodes_withoutAll]
    refine Render.Outlasts.congruence.renderNodes _ _ _ .any ?_ ?_ nodes frames trivial
    · intro frames name indentation _
      simp only [Continuation.skipping]
      split
      · next hlacks => exact .fail ⟨name, partials_of_lacks hlacks, rfl⟩ fun _ => .refl
      · exact .refl fun _ => .refl
    · intro frames path f call _ _
      exact .refl (hexpansion 0 frames f call)
  | succ depth ih =>
    rw [renderPruned, renderWithin_eq, prune, renderNodes_withoutAll]
    refine Render.Outlasts.congruence.renderNodes _ _ _ .any ?_ ?_ nodes frames trivial
    · intro frames name indentation _
      rw [inclusion_succ]
      simp only [Continuation.skipping]
      by_cases hlacks : engine.lacks name = true
      · rw [if_pos hlacks, load_of_lacks hlacks]
        exact .pure ()
      · rw [if_neg hlacks]
        cases engine.load name indentation with
        | error error => exact .refl fun _ => .refl
        | ok template =>
          cases template with
          | none => exact .pure ()
          | some template => exact ih template.nodes frames
    · intro frames path f call _ _
      exact .refl (hexpansion (depth + 1) frames f call)

/-- A missing partial renders nothing, as long as one more partial may be open: the template can do
without it, and so can the instructions of any partial that is open. All missing partials can be
left out at once, in the template and in all partials, and nothing changes, unless the limit is
reached and the render ends with its error at a missing partial; then what is written is the
beginning of what is written without the missing partials. -/
theorem renderTo_withoutMissing (engine : Engine) (fuel : Nat) (sink : Sink ω) :
    let limit := engine.options.maxPartialDepth
    let nested : Nat → Nested σ := engine.renderNested fuel
    (0 < limit → ∀ (template : Template) (data : Data σ),
      engine.renderTo fuel sink ⟨template.name, engine.prune template.nodes⟩ data =
        engine.renderTo fuel sink template data) ∧
    (∀ opened < limit, ∀ nodes frames,
      engine.renderWithin sink nested (limit - opened) (engine.prune nodes) frames =
        engine.renderWithin sink nested (limit - opened) nodes frames) ∧
    ∀ (template : Template) (data : Data σ) (out : Output ω σ),
      let whole := engine.renderTo fuel sink template data out
      let pruned := engine.renderPruned sink nested limit template.nodes [.host data] out
      ((∀ name, engine.partials name = .ok none →
          whole.1 ≠ .error (.failed (.partialDepth name limit))) → pruned = whole) ∧
        sink.Grows whole.2.sink pruned.2.sink := by
  intro limit nested
  refine ⟨?_, ?_, ?_⟩
  · intro hlimit template data
    exact engine.renderWithin_prune sink nested hlimit template.nodes [.host data]
  · intro opened hopened nodes frames
    exact engine.renderWithin_prune sink nested (Nat.sub_pos_of_lt hopened) nodes frames
  · intro template data out whole pruned
    have houtlasts :=
      engine.renderPruned_outlasts sink nested limit template.nodes [.host data]
    refine ⟨?_, houtlasts.grows_from out⟩
    intro hne
    refine houtlasts.eq_of_ne ?_
    rintro _ ⟨name, hmissing, rfl⟩
    exact hne name hmissing

/-- A missing partial in a section, and beside it a partial that is there. -/
theorem renderTo_withoutMissing_section :
    let engine : Engine :=
      ⟨fun name => .ok (if name = "q" then some "x" else none), ⟨.html, .braces, 1⟩⟩
    let section' (children : List Node) : List Node :=
      [.literal "a", .block ⟨["s"]⟩ false children "\x7b\x7b>p\x7d\x7d" .braces ⟨1, 7, 1, 2⟩,
        .inclusion "q" "" ⟨19, 25, 1, 20⟩]
    let template : Template := ⟨none, section' [.inclusion "p" "" ⟨7, 13, 1, 8⟩]⟩
    let data : Data Unit := .record [("s", .bool true)] []
    engine.renderTo 0 Sink.text ⟨none, section' []⟩ data =
        engine.renderTo 0 Sink.text template data ∧
      engine.renderPruned Sink.text (engine.renderNested 0) 1 template.nodes [.host data] ⟨"", ()⟩ =
        (.ok (), ⟨"ax", ()⟩) := by
  intro engine section' template data
  have hload : engine.load "q" "" = .ok (some ⟨some "q", [.literal "x"]⟩) := by cbv
  have hwhole : engine.renderTo 0 Sink.text template data ⟨"", ()⟩ = (.ok (), ⟨"ax", ()⟩) := by
    show engine.renderWithin Sink.text _ 1 _ _ _ = _
    rw [renderWithin_eq]
    simp only [template, section', renderNodes, renderNode, inclusion_succ, hload]
    rfl
  obtain ⟨htemplate, _, hall⟩ := engine.renderTo_withoutMissing 0 Sink.text
  obtain ⟨hpruned, _⟩ := hall template data ⟨"", ()⟩
  refine ⟨htemplate Nat.one_pos template data, (hpruned ?_).trans hwhole⟩
  rw [hwhole]
  rintro _ _ ⟨⟩

/-- At the limit a missing partial ends the render. -/
theorem renderTo_missing_at_limit :
    let engine : Engine := ⟨fun _ => .ok none, ⟨.html, .braces, 0⟩⟩
    let template : Template :=
      ⟨none, [.literal "a", .inclusion "p" "" ⟨1, 7, 1, 2⟩, .literal "b"]⟩
    let data : Data Unit := .record [] []
    engine.renderTo 0 Sink.text template data ⟨"", ()⟩ =
        (.error (.failed (.partialDepth "p" 0)), ⟨"a", ()⟩) ∧
      engine.renderTo 0 Sink.text ⟨none, engine.prune template.nodes⟩ data ⟨"", ()⟩ =
        (.ok (), ⟨"ab", ()⟩) :=
  ⟨rfl, rfl⟩

end Engine

end Mustache
