import Mustache.Proofs.Congruence

/-!
# Mustache.Proofs.Related

Rendering the same instructions to two sinks. If the sinks answer alike as long as their contents
are related by `R`, then so do the renders, and the contents stay related.
-/

namespace Mustache

variable {ω ω₁ ω₂ σ α β : Type} {R : ω₁ → ω₂ → Prop}

/-- From related contents and the same state, both steps come to the same answer and state, and to
related contents. -/
def Render.Related (R : ω₁ → ω₂ → Prop) (step₁ : Render ω₁ σ α) (step₂ : Render ω₂ σ α) : Prop :=
  ∀ held₁ held₂ store, R held₁ held₂ → ∃ answer held₁' held₂' store',
    step₁ ⟨held₁, store⟩ = (answer, ⟨held₁', store'⟩) ∧
      step₂ ⟨held₂, store⟩ = (answer, ⟨held₂', store'⟩) ∧ R held₁' held₂'

structure Sink.Alike (R : ω₁ → ω₂ → Prop) (sink₁ : Sink ω₁) (sink₂ : Sink ω₂) : Prop where
  write : ∀ chunk held₁ held₂, R held₁ held₂ → ∃ answer held₁' held₂',
    sink₁.write chunk held₁ = (answer, held₁') ∧ sink₂.write chunk held₂ = (answer, held₂') ∧
      R held₁' held₂'
  recognize : sink₁.recognize = sink₂.recognize

namespace Render.Related

theorem pure (a : α) :
    Related R (Pure.pure a : Render ω₁ σ α) (Pure.pure a : Render ω₂ σ α) := by
  intro held₁ held₂ store h
  exact ⟨.ok a, held₁, held₂, store, rfl, rfl, h⟩

theorem fail (error : Error) :
    Related R (Render.fail error : Render ω₁ σ α) (Render.fail error : Render ω₂ σ α) := by
  intro held₁ held₂ store h
  exact ⟨.error (.failed error), held₁, held₂, store, rfl, rfl, h⟩

theorem bind {step₁ : Render ω₁ σ α} {step₂ : Render ω₂ σ α} {next₁ : α → Render ω₁ σ β}
    {next₂ : α → Render ω₂ σ β} (h : Related R step₁ step₂)
    (hnext : ∀ a, Related R (next₁ a) (next₂ a)) :
    Related R (step₁ >>= next₁) (step₂ >>= next₂) := by
  intro held₁ held₂ store hheld
  obtain ⟨answer, held₁', held₂', store', h₁, h₂, hheld'⟩ := h held₁ held₂ store hheld
  cases answer with
  | ok a =>
    rw [bind_of_ok h₁, bind_of_ok h₂]
    exact hnext a held₁' held₂' store' hheld'
  | error halt =>
    rw [bind_of_error h₁, bind_of_error h₂]
    exact ⟨.error halt, held₁', held₂', store', rfl, rfl, hheld'⟩

theorem emit {sink₁ : Sink ω₁} {sink₂ : Sink ω₂} (h : sink₁.Alike R sink₂) (chunk : String) :
    Related R (Render.emit sink₁ chunk : Render ω₁ σ Unit) (Render.emit sink₂ chunk) := by
  intro held₁ held₂ store hheld
  obtain ⟨answer, held₁', held₂', h₁, h₂, hheld'⟩ := h.write chunk held₁ held₂ hheld
  cases answer with
  | ok done =>
    refine ⟨.ok (), held₁', held₂', store, ?_, ?_, hheld'⟩
    · simp only [Render.emit, h₁]
    · simp only [Render.emit, h₂]
  | error error =>
    refine ⟨.error (.failed (.sink error)), held₁', held₂', store, ?_, ?_, hheld'⟩
    · simp only [Render.emit, h₁]
    · simp only [Render.emit, h₂]

theorem exhaust : Related R (Render.exhaust : Render ω₁ σ α) (Render.exhaust : Render ω₂ σ α) := by
  intro held₁ held₂ store h
  exact ⟨.error .exhausted, held₁, held₂, store, rfl, rfl, h⟩

theorem attempt {step₁ : Render ω₁ σ Unit} {step₂ : Render ω₂ σ Unit} (h : Related R step₁ step₂) :
    Related R (Render.attempt step₁) (Render.attempt step₂) := by
  intro held₁ held₂ store hheld
  obtain ⟨answer, held₁', held₂', store', h₁, h₂, hheld'⟩ := h held₁ held₂ store hheld
  rcases answer with (error | _) | done
  · refine ⟨.ok (.error error), held₁', held₂', store', ?_, ?_, hheld'⟩
    · simp only [Render.attempt, h₁]
    · simp only [Render.attempt, h₂]
  · refine ⟨.error .exhausted, held₁', held₂', store', ?_, ?_, hheld'⟩
    · simp only [Render.attempt, h₁]
    · simp only [Render.attempt, h₂]
  · refine ⟨.ok (.ok ()), held₁', held₂', store', ?_, ?_, hheld'⟩
    · simp only [Render.attempt, h₁]
    · simp only [Render.attempt, h₂]

theorem onScratch (step : Render String σ α) :
    Related R (Render.onScratch step : Render ω₁ σ (α × String)) (Render.onScratch step) := by
  intro held₁ held₂ store h
  cases hstep : step ⟨"", store⟩ with
  | mk answer scratch =>
    cases answer with
    | ok a =>
      refine ⟨.ok (a, scratch.sink), held₁, held₂, scratch.store, ?_, ?_, h⟩
      · simp only [Render.onScratch, hstep]
      · simp only [Render.onScratch, hstep]
    | error halt =>
      refine ⟨.error halt, held₁, held₂, scratch.store, ?_, ?_, h⟩
      · simp only [Render.onScratch, hstep]
      · simp only [Render.onScratch, hstep]

theorem expandLambda {sink₁ : Sink ω₁} {sink₂ : Sink ω₂} (h : sink₁.Alike R sink₂)
    (nested : Nested σ) (frames : List (Value σ)) (f : Lambda σ) (call : Call) :
    Related R (Mustache.expandLambda sink₁ nested frames f call)
      (Mustache.expandLambda sink₂ nested frames f call) := by
  unfold Mustache.expandLambda
  rw [h.recognize]
  refine (onScratch _).bind ?_
  rintro ⟨completed, text⟩
  cases completed with
  | error error => exact fail (.sink error)
  | ok completed =>
    cases completed with
    | true => exact emit h text
    | false => exact pure ()

theorem congruence {sink₁ : Sink ω₁} {sink₂ : Sink ω₂} (h : sink₁.Alike R sink₂) :
    Render.Congruence (σ := σ) sink₁ sink₂ fun _ => Related R :=
  ⟨pure, bind, emit h⟩

end Render.Related

theorem Engine.renderWithin_related {sink₁ : Sink ω₁} {sink₂ : Sink ω₂}
    (hsink : sink₁.Alike R sink₂) (engine : Engine) (nested : Nat → Nested σ) (depth : Nat)
    (nodes : List Node) (frames : List (Value σ)) :
    Render.Related R (engine.renderWithin sink₁ nested depth nodes frames)
      (engine.renderWithin sink₂ nested depth nodes frames) := by
  refine (Render.Related.congruence hsink).renderWithin .fail .any engine ?_ depth nodes frames
    trivial
  intro depth frames path f call _ _
  exact .expandLambda hsink (nested depth) frames f call

/-! ## Texts -/

/-- A text grows alike whatever it begins with. -/
theorem Sink.scratch_alike (recognize : Failure → Option SinkError) (front : String) :
    (Sink.scratch recognize).Alike (fun text whole => whole = front ++ text)
      (Sink.scratch recognize) where
  write chunk text whole h :=
    ⟨.ok (), text ++ chunk, whole ++ chunk, rfl, rfl, by rw [h, String.append_assoc]⟩
  recognize := rfl

/-- What is rendered to a text does not depend on what the text holds already, and is put behind
it. -/
theorem Engine.renderWithin_append (engine : Engine) (recognize : Failure → Option SinkError)
    (nested : Nat → Nested σ) (depth : Nat) (nodes : List Node) (frames : List (Value σ))
    {front text : String} {store store' : σ} {answer : Except Halt Unit}
    (h : engine.renderWithin (Sink.scratch recognize) nested depth nodes frames ⟨front, store⟩ =
      (answer, ⟨text, store'⟩)) :
    ∃ rendered, text = front ++ rendered ∧
      engine.renderWithin (Sink.scratch recognize) nested depth nodes frames ⟨"", store⟩ =
        (answer, ⟨rendered, store'⟩) := by
  obtain ⟨answer', rendered, whole, store'', h₁, h₂, rfl⟩ :=
    engine.renderWithin_related (Sink.scratch_alike recognize front) nested depth nodes frames
      "" front store (by rw [String.append_empty])
  rw [h₂] at h
  cases h
  exact ⟨rendered, rfl, h₁⟩

end Mustache
