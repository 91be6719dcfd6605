import Mustache.Proofs.Expansion
import Mustache.Proofs.Scenes

/-!
# Mustache.Proofs.Restoring

Templates that a lambda has rendered one after the other. Each is rendered in the contexts of the
tag and with the partials open there, also behind one that failed while sections and partials were
open in it.
-/

namespace Mustache

variable {ω σ α : Type}

/-! ## Requests in a scene -/

theorem Staged.Keeps.exists_of_eq {frames : List (Value σ)} {opened : Nat}
    {staged : Staged ω σ α} {step : Render ω σ α} (h : Staged.Keeps frames opened staged step)
    {start mid : Output (Scene ω σ) σ} {out : Output ω σ}
    (hstart : start = out.within frames opened) {answer : Except Halt α}
    (hstaged : staged start = (answer, mid)) :
    ∃ mid', mid = mid'.within frames opened ∧ step out = (answer, mid') := by
  rw [hstart, h] at hstaged
  cases hstep : step out with
  | mk answer' mid' =>
    rw [hstep] at hstaged
    cases hstaged
    exact ⟨mid', rfl, rfl⟩

/-- However a program goes on with what its requests came to, the scene at each request is the one
it started in. -/
theorem Program.Asks.exists_within {frames : List (Value σ)} {opened : Nat}
    {staged : Host (Render (Scene ω σ) σ) σ} {host : Host (Render ω σ) σ}
    (h : Host.Keeps frames opened staged host) {call : Call} {program : Program σ α}
    {start asked : Output (Scene ω σ) σ} {template : String}
    {next : Except Error Unit → Program σ α}
    (hasks : program.Asks staged call start template next asked) {out : Output ω σ}
    (hstart : start = out.within frames opened) :
    ∃ asked', asked = asked'.within frames opened ∧
      program.Asks host call out template next asked' := by
  induction hasks generalizing out with
  | here => exact ⟨out, hstart, .here⟩
  | write hwrite _ ih =>
    obtain ⟨mid', hmid, hstep⟩ := (h.write _ _).exists_of_eq hstart hwrite
    exact (ih hmid).imp fun _ hrest => ⟨hrest.1, .write hstep hrest.2⟩
  | writeRaw hwrite _ ih =>
    obtain ⟨mid', hmid, hstep⟩ := (h.write _ _).exists_of_eq hstart hwrite
    exact (ih hmid).imp fun _ hrest => ⟨hrest.1, .writeRaw hstep hrest.2⟩
  | render hrender _ ih =>
    obtain ⟨mid', hmid, hstep⟩ := (h.render _ _ _).exists_of_eq hstart hrender
    exact (ih hmid).imp fun _ hrest => ⟨hrest.1, .render hstep hrest.2⟩
  | get hget _ ih =>
    obtain ⟨mid', hmid, hstep⟩ := h.get.exists_of_eq hstart hget
    exact (ih hmid).imp fun _ hrest => ⟨hrest.1, .get hstep hrest.2⟩
  | put hput _ ih =>
    obtain ⟨mid', hmid, hstep⟩ := (h.put _).exists_of_eq hstart hput
    exact (ih hmid).imp fun _ hrest => ⟨hrest.1, .put hstep hrest.2⟩

/-! ## Texts behind other texts -/

theorem Engine.renderNested_related (engine : Engine) (fuel depth : Nat)
    (recognize : Failure → Option SinkError) (front : String) (nodes : List Node)
    (frames : List (Value σ)) :
    Render.Related (fun text whole => whole = front ++ text)
      (engine.renderNested fuel depth (Sink.scratch recognize) nodes frames)
      (engine.renderNested fuel depth (Sink.scratch recognize) nodes frames) := by
  cases fuel with
  | zero => exact .exhaust
  | succ fuel =>
    exact engine.renderWithin_related (Sink.scratch_alike recognize front) _ depth nodes frames

/-- What a lambda has rendered does not depend on what it has written already, and is put behind
it. -/
theorem Engine.request_related (engine : Engine) (fuel depth : Nat)
    (recognize : Failure → Option SinkError) (front : String) (frames : List (Value σ))
    (source : String) (delimiters : Delimiters) (escape : Escape) :
    let host := scratchHost (Sink.scratch recognize) (engine.renderNested fuel depth) frames
    Render.Related (fun text whole => whole = front ++ text)
      (host.render source delimiters escape) (host.render source delimiters escape) := by
  refine Render.Related.attempt ?_
  rw [renderTemplate]
  cases Template.parse source none delimiters with
  | error error => exact .fail _
  | ok template =>
    cases escape with
    | raw => exact engine.renderNested_related fuel depth recognize front template.nodes frames
    | html =>
      refine .bind (.onScratch _) ?_
      rintro ⟨⟨⟩, text⟩
      exact (Render.Related.congruence (Sink.scratch_alike recognize front)).emitAll _

/-! ## Requests of a lambda -/

/-- A lambda at a tag may have templates rendered one after the other, and may go on as it likes
when they fail, in the middle of sections, in partials or in other lambdas. Each of them is
rendered in the contexts of the tag and with as many partials open as there, although all of them
change the same stack and the same count. So it comes to what it would come to as the first
request of the lambda from the same state, and appends the same text; without state it comes to
that whatever was asked before. -/
theorem Engine.requests_keep_scene (engine : Engine) (fuel : Nat) (sink : Sink ω) :
    (∀ (template : Template) (data : Data σ) (out : Output ω σ),
      engine.stage fuel sink template.nodes (out.within [.host data] 0) =
        Prod.map id (.within [.host data] 0) (engine.renderTo fuel sink template data out)) ∧
    ∀ (frames : List (Value σ)) (opened : Nat) (node : Node) (f : Lambda σ) (call : Call),
      node.Calls engine.options.escape frames f call →
      let scratch := Sink.scratch sink.recognize
      let start := fun store => Output.within frames opened ⟨"", store⟩
      let host := sceneHost scratch (engine.stageNested fuel)
      (∀ out : Output ω σ, engine.stage fuel sink [node] (out.within frames opened) =
        stageLambda sink (engine.stageNested fuel) f call (out.within frames opened)) ∧
      ∀ (store : σ) (source : String) (next : Except Error Unit → Program σ Unit)
        (asked : Output (Scene String σ) σ),
        (f call).Asks host call (start store) source next asked →
        let outcome := host.render source call.delimiters call.escape
        let first := outcome (start asked.store)
        asked.sink.frames = frames ∧ asked.sink.opened = opened ∧
        first = Prod.map id (.within frames opened)
          ((scratchHost scratch (engine.renderNested fuel (engine.options.maxPartialDepth - opened))
            frames).render source call.delimiters call.escape ⟨"", asked.store⟩) ∧
        outcome asked = (first.1, ⟨⟨asked.sink.held ++ first.2.sink.held, frames, opened⟩,
          first.2.store⟩) ∧
        (Subsingleton σ → first = outcome (start store)) := by
  constructor
  · intro template data out
    exact engine.stage_keeps fuel sink template.nodes [.host data] 0 out
  · intro frames opened node f call hcalls scratch start host
    have hhost : Host.Keeps frames opened host (scratchHost scratch
        (engine.renderNested fuel (engine.options.maxPartialDepth - opened)) frames) :=
      sceneHost_keeps (engine.stageNested_keeps fuel frames opened) scratch
    constructor
    · intro out
      rw [engine.stage_keeps, engine.renderWithin_call sink _ _ hcalls]
      exact (stageLambda_keeps (engine.stageNested_keeps fuel frames opened) sink f call out).symm
    · intro store source next asked hasks outcome first
      obtain ⟨asked, rfl, -⟩ := hasks.exists_within hhost rfl
      have hkeeps := hhost.render source call.delimiters call.escape
      refine ⟨rfl, rfl, hkeeps ⟨"", asked.store⟩, ?_, ?_⟩
      · obtain ⟨answer, text, whole, store', h₁, h₂, rfl⟩ := engine.request_related fuel
          (engine.options.maxPartialDepth - opened) sink.recognize asked.sink frames source
          call.delimiters call.escape "" asked.sink asked.store String.append_empty.symm
        have hfirst : first = (answer, Output.within frames opened ⟨text, store'⟩) := by
          rw [show first = _ from hkeeps ⟨"", asked.store⟩, h₁]
          rfl
        rw [hfirst, show outcome _ = _ from hkeeps asked, h₂]
        rfl
      · intro hstateless
        exact congrArg (fun store => outcome (start store)) (Subsingleton.elim asked.store store)

/-- A section with a partial in it. -/
def Script.loading : Script :=
  ⟨[], [(⟨.hash, "items".toList, .braces⟩, ['-']), (⟨.angle, ['p'], .braces⟩, []),
    (⟨.slash, "items".toList, .braces⟩, [])]⟩

/-- A lambda has a template rendered once more after it failed in a partial, with a section open. -/
theorem Engine.request_after_failure :
    let source := String.ofList (Script.loading.text .braces)
    let engine : Engine := ⟨fun name => .error (.partialFailed name "gone"), .standard⟩
    let again : Except Error Unit → Program Unit Unit := fun _ => .render source .ofRender
    let data : Data Unit := .record
      [("items", .sequence [.string "a", .string "b"]),
        ("f", .lambda fun _ => .render source again)] []
    let host := sceneHost Sink.text (engine.stageNested 1)
    ∃ asked, (Program.render source again).Asks host ⟨"", .raw, .braces⟩
        (Output.within [.host data] 0 ⟨"", ()⟩) source .ofRender asked ∧
      host.render source .braces .raw asked =
        (.ok (.error (.partialFailed "p" "gone")), Output.within [.host data] 0 ⟨"--", ()⟩) := by
  intro source engine again data host
  have hparse : Template.parse source none .braces = .ok ⟨none, [.block ⟨["items"]⟩ false
      [.literal "-", .inclusion "p" "" ⟨11, 17, 1, 12⟩] "-\x7b\x7b>p\x7d\x7d" .braces
      ⟨0, 10, 1, 1⟩]⟩ :=
    Template.parse_text none (by decide) rfl
  have hfirst : host.render source .braces .raw (Output.within [.host data] 0 ⟨"", ()⟩) =
      (.ok (.error (.partialFailed "p" "gone")), Output.within [.host data] 0 ⟨"-", ()⟩) := by
    simp only [host, sceneHost, Render.attempt, stageTemplate, hparse]
    rfl
  have hasks : (Program.render source again).Asks host ⟨"", .raw, .braces⟩
      (Output.within [.host data] 0 ⟨"", ()⟩) source .ofRender
      (Output.within [.host data] 0 ⟨"-", ()⟩) :=
    .render hfirst .here
  refine ⟨_, hasks, ?_⟩
  obtain ⟨_, htags⟩ := engine.requests_keep_scene (σ := Unit) 1 Sink.text
  obtain ⟨_, hrequests⟩ := htags [.host data] 0 (.interpolation ⟨["f"]⟩ .raw ⟨0, 7, 1, 1⟩)
    (fun _ => .render source again) ⟨"", .raw, .braces⟩ (.interpolation rfl)
  obtain ⟨_, _, _, hlater, _⟩ := hrequests () source .ofRender _ hasks
  let first := host.render source .braces .raw (Output.within [.host data] 0 ⟨"", ()⟩)
  have hlater : host.render source .braces .raw _ =
      (first.1, ⟨⟨"-" ++ first.2.sink.held, [.host data], 0⟩, first.2.store⟩) := hlater
  rw [hlater, show first = _ from hfirst]
  rfl

end Mustache
