import Mustache.Proofs.Cutoff
import Mustache.Proofs.LambdaFree

/-!
# Mustache.Proofs.Limit

How many partials may be open. A higher limit changes nothing in a render that does not run into
the lower one; a render that does is cut off there, and the render with the higher limit goes on.
-/

namespace Mustache

variable {ω σ : Type}

namespace Engine

/-- The engine with another limit on open partials. -/
def withLimit (engine : Engine) (limit : Nat) : Engine :=
  { engine with options := { engine.options with maxPartialDepth := limit } }

theorem load_withLimit (engine : Engine) (limit : Nat) :
    (engine.withLimit limit).load = engine.load :=
  rfl

theorem inclusion_grows (engine : Engine) (sink : Sink ω) (nested : Nat → Nested σ) (depth : Nat)
    (frames : List (Value σ)) (name indentation : String) (out : Output ω σ) :
    sink.Grows out.sink
      ((engine.continuation sink nested depth).inclusion frames name indentation out).2.sink := by
  have hgrows := engine.renderWithin_grows sink nested depth
    [.inclusion name indentation ⟨0, 0, 1, 1⟩] frames out
  rwa [renderWithin_eq, renderNodes_singleton, renderNode] at hgrows

/-- With more partials allowed to be open a render does the same, unless it is cut off by the lower
limit. -/
theorem renderWithin_outlasts (engine : Engine) (sink : Sink ω) (nested nested' : Nat → Nested σ)
    (m n : Nat) {depth depth' : Nat} (hdepth : depth ≤ depth') (nodes : List Node)
    {frames : List (Value σ)} (hframes : LambdaFree frames) :
    Render.Outlasts sink (fun error => ∃ name, error = .partialDepth name m)
      ((engine.withLimit m).renderWithin sink nested depth nodes frames)
      ((engine.withLimit n).renderWithin sink nested' depth' nodes frames) := by
  induction depth generalizing depth' nodes frames with
  | zero =>
    rw [renderWithin_eq, renderWithin_eq]
    refine Render.Outlasts.congruence.renderNodes_of_inclusion ?_ _ nodes hframes
    intro frames name indentation _
    exact .fail ⟨name, rfl⟩
      ((engine.withLimit n).inclusion_grows sink nested' depth' frames name indentation)
  | succ depth ih =>
    cases depth' with
    | zero => exact absurd hdepth (Nat.not_succ_le_zero depth)
    | succ depth' =>
      rw [renderWithin_eq, renderWithin_eq]
      refine Render.Outlasts.congruence.renderNodes_of_inclusion ?_ _ nodes hframes
      intro frames name indentation hframes
      rw [inclusion_succ, inclusion_succ, load_withLimit, load_withLimit]
      cases engine.load name indentation with
      | error error =>
        exact .refl fun _ => .refl
      | ok template =>
        cases template with
        | none => exact .pure ()
        | some template => exact ih (Nat.le_of_succ_le_succ hdepth) template.nodes hframes

theorem renderTo_outlasts (engine : Engine) {m n : Nat} (hlimit : m ≤ n) (fuel : Nat)
    (sink : Sink ω) (template : Template) {data : Data σ} (hdata : data.lambdaFree = true) :
    Render.Outlasts sink (fun error => ∃ name, error = .partialDepth name m)
      ((engine.withLimit m).renderTo fuel sink template data)
      ((engine.withLimit n).renderTo fuel sink template data) :=
  engine.renderWithin_outlasts sink _ _ m n hlimit template.nodes (.of_data hdata)

/-- Raising the limit on open partials changes nothing in a render over data without lambdas that
the limit does not stop. Whatever is written under the lower limit is the beginning of what is
written under the higher one, and so is what the sink is offered and answers. -/
theorem renderTo_withLimit (engine : Engine) {m n : Nat} (hlimit : m ≤ n) (fuel : Nat)
    (sink : Sink ω) (template : Template) {data : Data σ} (hdata : data.lambdaFree = true)
    (held : ω) (store : σ) :
    let lower := (engine.withLimit m).renderTo fuel sink template data ⟨held, store⟩
    let higher := (engine.withLimit n).renderTo fuel sink template data ⟨held, store⟩
    let lowerNoted :=
      (engine.withLimit m).renderTo fuel sink.noting template data ⟨⟨held, []⟩, store⟩
    let higherNoted :=
      (engine.withLimit n).renderTo fuel sink.noting template data ⟨⟨held, []⟩, store⟩
    ((∀ name limit, lower.1 ≠ .error (.failed (.partialDepth name limit))) → higher = lower) ∧
      sink.Grows lower.2.sink higher.2.sink ∧
      lowerNoted.2.sink.offers <+: higherNoted.2.sink.offers := by
  intro lower higher lowerNoted higherNoted
  have houtlasts := engine.renderTo_outlasts hlimit fuel sink template hdata
  have hnoted := engine.renderTo_outlasts hlimit fuel sink.noting template hdata
  refine ⟨?_, houtlasts.grows_from _, (hnoted.grows_from _).offers⟩
  intro hne
  refine houtlasts.eq_of_ne ?_
  rintro _ ⟨name, rfl⟩
  exact hne name m

/-- What is written before the limit stops a render is the beginning of what a higher one allows. -/
theorem renderTo_withLimit_one :
    let engine : Engine := ⟨fun _ => .ok (some "x"), .standard⟩
    let template : Template := ⟨none, [.literal "a", .inclusion "p" "" ⟨1, 7, 1, 2⟩]⟩
    let data : Data Unit := .record [] []
    let lower := (engine.withLimit 0).renderTo 0 Sink.text template data ⟨"", ()⟩
    let higher := (engine.withLimit 1).renderTo 0 Sink.text template data ⟨"", ()⟩
    lower = (.error (.failed (.partialDepth "p" 0)), ⟨"a", ()⟩) ∧ higher = (.ok (), ⟨"ax", ()⟩) ∧
      ∃ rest, higher.2.sink = lower.2.sink ++ rest := by
  intro engine template data lower higher
  have hload : engine.load "p" "" = .ok (some ⟨some "p", [.literal "x"]⟩) := by cbv
  have hhigher : higher = (.ok (), ⟨"ax", ()⟩) := by
    show (engine.withLimit 1).renderWithin Sink.text _ 1 _ _ _ = _
    rw [renderWithin_eq]
    simp only [template, renderNodes, renderNode, inclusion_succ, load_withLimit, hload]
    rfl
  have hgrows := (engine.renderTo_withLimit (Nat.zero_le 1) 0 Sink.text template
    (rfl : data.lambdaFree = true) "" ()).2.1
  exact ⟨rfl, hhigher, hgrows.text⟩

end Engine

end Mustache
