import Mustache.Proofs.Congruence

/-!
# Mustache.Proofs.Failing

The errors a render can end with. `Render.FailsOnly P` says that a step fails with errors of `P`
only. Lambdas add none of their own: whatever goes wrong in them ends there, unless the sink takes
it for its own.
-/

namespace Mustache

variable {ω σ α β : Type}

/-- Whenever the step fails, its error is one of `P`. -/
def Render.FailsOnly (P : Error → Prop) (step : Render ω σ α) : Prop :=
  ∀ out error out', step out = (.error (.failed error), out') → P error

namespace Render.FailsOnly

variable {P : Error → Prop}

theorem pure (a : α) : FailsOnly P (Pure.pure a : Render ω σ α) := by
  intro out error out' h
  cases h

theorem bind {step : Render ω σ α} {next : α → Render ω σ β} (h : FailsOnly P step)
    (hnext : ∀ a, FailsOnly P (next a)) : FailsOnly P (step >>= next) := by
  intro out error out' hfail
  change Render.bind step next out = _ at hfail
  unfold Render.bind at hfail
  split at hfail
  · next a out₁ hstep => exact hnext a out₁ error out' hfail
  · next halt out₁ hstep =>
    cases hfail
    exact h out error out' hstep

theorem fail {error : Error} (h : P error) :
    FailsOnly P (Render.fail error : Render ω σ α) := by
  intro out error' out' hfail
  cases hfail
  exact h

theorem exhaust : FailsOnly P (Render.exhaust : Render ω σ α) := by
  intro out error out' h
  cases h

theorem attempt (step : Render ω σ Unit) : FailsOnly P (Render.attempt step) := by
  intro out error out' h
  unfold Render.attempt at h
  split at h <;> cases h

theorem emit (sink : Sink ω) (chunk : String) (hsink : ∀ error, P (.sink error)) :
    FailsOnly P (Render.emit sink chunk : Render ω σ Unit) := by
  intro out error out' h
  unfold Render.emit at h
  split at h
  · cases h
  · cases h
    exact hsink _

theorem onScratch {step : Render String σ α} (h : FailsOnly P step) :
    FailsOnly P (Render.onScratch step : Render ω σ (α × String)) := by
  intro out error out' hfail
  unfold Render.onScratch at hfail
  split at hfail
  · cases hfail
  · next halt scratch hstep =>
    cases hfail
    exact h _ _ _ hstep

theorem congruence (sink : Sink ω) (hsink : ∀ error, P (.sink error)) :
    Render.Congruence (σ := σ) sink sink fun _ step _ => FailsOnly P step :=
  ⟨pure, bind, fun chunk => emit sink chunk hsink⟩

theorem emitAll (sink : Sink ω) (chunks : List String) (hsink : ∀ error, P (.sink error)) :
    FailsOnly P (Render.emitAll sink chunks : Render ω σ Unit) :=
  (congruence sink hsink).emitAll chunks

/-! ## Lambdas -/

theorem write (scratch : Sink String) (nested : Nested σ) (frames : List (Value σ))
    (text : String) (escape : Escape) :
    FailsOnly P ((scratchHost scratch nested frames).write text escape) := by
  intro out error out' h
  have hemit : FailsOnly (fun error => ∃ cause, error = .sink cause)
      (Render.emitAll scratch (escape.chunks text) : Render String σ Unit) :=
    emitAll scratch _ fun cause => ⟨cause, rfl⟩
  simp only [scratchHost] at h
  split at h
  · cases h
  · next halt out₁ hne hstep =>
    cases h
    obtain ⟨cause, rfl⟩ := hemit out error out' hstep
    exact absurd rfl (hne cause)
  · cases h

/-- A program goes on after a request that failed. -/
theorem run (scratch : Sink String) (nested : Nested σ) (frames : List (Value σ)) (call : Call)
    (program : Program σ α) :
    FailsOnly P (program.run (scratchHost scratch nested frames) call) := by
  induction program with
  | done value => exact pure _
  | fail failure => exact pure _
  | write text next ih => exact (write scratch nested frames text call.escape).bind ih
  | writeRaw text next ih => exact (write scratch nested frames text .raw).bind ih
  | render template next ih => exact (attempt _).bind ih
  | get next ih =>
    refine bind ?_ ih
    intro out error out' h
    cases h
  | put state next ih =>
    refine bind ?_ fun _ => ih
    intro out error out' h
    cases h

theorem expandLambda {sink : Sink ω} (hsink : ∀ error, P (.sink error)) (nested : Nested σ)
    (frames : List (Value σ)) (f : Lambda σ) (call : Call) :
    FailsOnly P (Mustache.expandLambda sink nested frames f call) := by
  have hattempt : FailsOnly P (f.attempt (scratchHost (Sink.scratch sink.recognize) nested frames)
      sink.recognize call) := by
    refine (run _ nested frames call (f call)).bind fun result => ?_
    cases result with
    | ok value => exact pure _
    | error failure =>
      simp only
      split
      · exact pure _
      · exact pure _
  refine (onScratch hattempt).bind fun result => ?_
  obtain ⟨completed, text⟩ := result
  cases completed with
  | error error => exact fail (hsink error)
  | ok completed =>
    cases completed with
    | true => exact emit sink text hsink
    | false => exact pure ()

end Render.FailsOnly

/-! ## Partials -/

namespace Engine

/-- The errors that an engine adds to those of the sink: a partial cannot be loaded, does not
compile, or would be one too many. -/
inductive Raises (engine : Engine) : Error → Prop
  | sink (error : SinkError) : Raises engine (.sink error)
  | depth (name : String) : Raises engine (.partialDepth name engine.options.maxPartialDepth)
  | loading {name : String} {error : Error} (h : engine.partials name = .error error) :
    Raises engine error
  | parsing {name indentation source : String} {error : ParseError}
      (hsource : engine.partials name = .ok (some source))
      (h : engine.parsePartial name indentation source = .error error) :
    Raises engine (.parse error)

theorem renderWithin_failsOnly (engine : Engine) (sink : Sink ω) (nested : Nat → Nested σ)
    (depth : Nat) (nodes : List Node) (frames : List (Value σ)) :
    (engine.renderWithin sink nested depth nodes frames).FailsOnly engine.Raises := by
  induction depth generalizing nodes frames with
  | zero =>
    refine Render.Congruence.renderNodes _ (engine.continuation sink nested 0)
      (Render.FailsOnly.congruence sink .sink) _ .any ?_ ?_ nodes frames trivial
    · intro frames name indentation _
      exact .fail (.depth name)
    · intro frames path f call _ _
      exact .expandLambda .sink (nested 0) frames f call
  | succ depth ih =>
    refine Render.Congruence.renderNodes _ (engine.continuation sink nested depth)
      (Render.FailsOnly.congruence sink .sink) _ .any ?_ ?_ nodes frames trivial
    · intro frames name indentation _
      simp only
      split
      · next error h => exact .fail (.loading h)
      · exact .pure ()
      · next source hsource =>
        split
        · next error h => exact .fail (.parsing hsource h)
        · next template _ => exact ih template.nodes frames
    · intro frames path f call _ _
      exact .expandLambda .sink (nested (depth + 1)) frames f call

theorem renderNested_failsOnly (engine : Engine) (fuel depth : Nat) (scratch : Sink String)
    (nodes : List Node) (frames : List (Value σ)) :
    (engine.renderNested fuel depth scratch nodes frames).FailsOnly engine.Raises := by
  cases fuel with
  | zero => exact .exhaust
  | succ fuel => exact engine.renderWithin_failsOnly scratch _ depth nodes frames

/-- What a lambda is told of a template it renders: apart from the template's own fault, it is
told errors of the sink and of partials. -/
theorem raises_of_render (engine : Engine) {fuel depth : Nat} {scratch : Sink String}
    {frames : List (Value σ)} {source : String} {delimiters : Delimiters} {escape : Escape}
    {template : Template} (hparse : Template.parse source none delimiters = .ok template)
    {out out' : Output String σ} {error : Error}
    (h : (scratchHost scratch (engine.renderNested fuel depth) frames).render source delimiters
      escape out = (.ok (.error error), out')) : engine.Raises error := by
  have hrender : (renderTemplate scratch (engine.renderNested fuel depth) frames source delimiters
      escape).FailsOnly engine.Raises := by
    have hnested := engine.renderNested_failsOnly fuel depth scratch template.nodes frames
    unfold renderTemplate
    rw [hparse]
    cases escape with
    | raw => exact hnested
    | html => exact hnested.onScratch.bind fun text => .emitAll scratch _ .sink
  simp only [scratchHost, Render.attempt] at h
  split at h
  · cases h
  · next error' out₁ hstep =>
    cases h
    exact hrender _ _ _ hstep
  · cases h

end Engine
end Mustache
