import Mustache.Proofs.Escaping
import Mustache.Proofs.Restoring

/-!
# Mustache.Proofs.Requests

Templates that a lambda has rendered with HTML escaping and without. Without, they are rendered
straight behind the text of the lambda; with it, in a copy of the scene and to a text of its own,
which is escaped when it is complete. Either way the same happens in between.
-/

namespace Mustache

variable {σ : Type}

/-- A raw request appends what the template renders to; an escaped one comes to the same answer
and appends its escaping, if it succeeds, and nothing if it fails. -/
structure Render.ShowsEscaped (raw html : Render String σ (Except Error Unit)) (text : String)
    (store : σ) (answer : Except Halt (Except Error Unit)) (rendered : String) (store' : σ) :
    Prop where
  raw : raw ⟨text, store⟩ = (answer, ⟨text ++ rendered, store'⟩)
  html_of_ok : answer = .ok (.ok ()) →
    html ⟨text, store⟩ = (answer, ⟨text ++ Escape.html.apply rendered, store'⟩)
  html_of_failed : answer ≠ .ok (.ok ()) → html ⟨text, store⟩ = (answer, ⟨text, store'⟩)

theorem Render.emitAll_scratch (recognize : Failure → Option SinkError) (chunks : List String)
    (text : String) (store : σ) :
    Render.emitAll (Sink.scratch recognize) chunks ⟨text, store⟩ =
      (.ok (), ⟨text ++ String.join chunks, store⟩) := by
  -- what a scratch text recognizes makes no difference to what it takes
  have hsame : Render.emitAll (σ := σ) (Sink.scratch recognize) chunks =
      Render.emitAll Sink.text chunks := by
    induction chunks with
    | nil => rfl
    | cons chunk chunks ih =>
      rw [Render.emitAll, ih]
      rfl
  rw [hsame, Render.emitAll_text]

/-- What stays of a text when a template could not be rendered to its end: escaping takes up the
whole of it or nothing. -/
def Escape.leftover : Escape → String → String
  | .raw, rendered => rendered
  | .html, _ => ""

theorem Escape.apply_raw (text : String) : Escape.raw.apply text = text :=
  String.empty_append

/-- What a request behind `text` comes to when the template comes to this on its own. -/
def Escape.answer (escape : Escape) (text : String) :
    Except Halt Unit × Output String σ → Except Halt (Except Error Unit) × Output String σ
  | (.ok (), out) => (.ok (.ok ()), ⟨text ++ escape.apply out.sink, out.store⟩)
  | (.error (.failed error), out) =>
    (.ok (.error error), ⟨text ++ escape.leftover out.sink, out.store⟩)
  | (.error .exhausted, out) =>
    (.error .exhausted, ⟨text ++ escape.leftover out.sink, out.store⟩)

namespace Engine

variable (engine : Engine) (fuel depth : Nat) (recognize : Failure → Option SinkError)
variable (frames : List (Value σ))

/-- Instructions rendered to a text of their own where a lambda is called. -/
abbrev renderAlone (nodes : List Node) : Render String σ Unit :=
  engine.renderNested fuel depth (Sink.scratch recognize) nodes frames

/-- What answers the lambda there. -/
abbrev lambdaHost : Host (Render String σ) σ :=
  scratchHost (Sink.scratch recognize) (engine.renderNested fuel depth) frames

/-- A template that compiles is rendered as on its own, behind the text of the lambda. -/
theorem request_of_parsed {source : String} {delimiters : Delimiters} {template : Template}
    (hparse : Template.parse source none delimiters = .ok template) (escape : Escape)
    (text : String) (store : σ) :
    (engine.lambdaHost fuel depth recognize frames).render source delimiters escape
        ⟨text, store⟩ =
      escape.answer text
        (engine.renderAlone fuel depth recognize frames template.nodes ⟨"", store⟩) := by
  let step := engine.renderAlone fuel depth recognize frames template.nodes
  change _ = escape.answer text (step ⟨"", store⟩)
  cases escape with
  | raw =>
    obtain ⟨ended, rendered, whole, store', halone, hbehind, rfl⟩ :
        ∃ ended rendered whole store', step ⟨"", store⟩ = (ended, ⟨rendered, store'⟩) ∧
          step ⟨text, store⟩ = (ended, ⟨whole, store'⟩) ∧ whole = text ++ rendered :=
      engine.renderNested_related fuel depth recognize text template.nodes frames "" text store
        String.append_empty.symm
    have hraw : (engine.lambdaHost fuel depth recognize frames).render source delimiters .raw =
        step.attempt := by
      simp only [scratchHost, renderTemplate, hparse]
      rfl
    simp only [hraw, halone, Render.attempt, hbehind]
    rcases ended with (error | _) | done
    · rfl
    · rfl
    · rw [Escape.answer, Escape.apply_raw]
  | html =>
    have hhtml : (engine.lambdaHost fuel depth recognize frames).render source delimiters .html =
        Render.attempt (Render.onScratch step >>= fun ended =>
          Render.emitAll (Sink.scratch recognize) (Escape.html.chunks ended.2)) := by
      simp only [scratchHost, renderTemplate, hparse]
      rfl
    simp only [hhtml, Render.attempt]
    cases halone : step ⟨"", store⟩ with
    | mk ended out =>
      obtain ⟨rendered, store'⟩ := out
      cases ended with
      | ok done =>
        have hscratch : Render.onScratch step ⟨text, store⟩ =
            (.ok ((), rendered), ⟨text, store'⟩) := by
          simp only [Render.onScratch, halone]
        simp only [Render.bind_of_ok hscratch, Render.emitAll_scratch]
        rfl
      | error halt =>
        have hscratch : Render.onScratch step ⟨text, store⟩ =
            (.error halt, ⟨text, store'⟩) := by
          simp only [Render.onScratch, halone]
        cases halt with
        | failed | exhausted =>
          simp only [Render.bind_of_error hscratch, Escape.answer, Escape.leftover,
            String.append_empty]

/-- A template that does not compile is not rendered at all. -/
theorem request_of_unparsed {source : String} {delimiters : Delimiters} {error : ParseError}
    (hparse : Template.parse source none delimiters = .error error) (escape : Escape)
    (out : Output String σ) :
    (engine.lambdaHost fuel depth recognize frames).render source delimiters escape out =
      (.ok (.error (.parse error)), out) := by
  simp only [scratchHost, renderTemplate, hparse]
  rfl

/-- A template that is rendered behind a text and one that is rendered on its own write the same,
so it can be escaped before it is put there. -/
theorem exists_showsEscaped (source : String) (delimiters : Delimiters) (text : String)
    (store : σ) :
    let host := scratchHost (Sink.scratch recognize) (engine.renderNested fuel depth) frames
    ∃ answer rendered store', Render.ShowsEscaped (host.render source delimiters .raw)
      (host.render source delimiters .html) text store answer rendered store' := by
  intro host
  cases hparse : Template.parse source none delimiters with
  | error error =>
    have hrequest (escape : Escape) : host.render source delimiters escape ⟨text, store⟩ =
        (.ok (.error (.parse error)), ⟨text, store⟩) :=
      engine.request_of_unparsed fuel depth recognize frames hparse escape _
    refine ⟨.ok (.error (.parse error)), "", store, ?_, nofun, fun _ => hrequest .html⟩
    rw [String.append_empty]
    exact hrequest .raw
  | ok template =>
    have hraw := engine.request_of_parsed fuel depth recognize frames hparse .raw text store
    have hhtml := engine.request_of_parsed fuel depth recognize frames hparse .html text store
    cases halone : engine.renderAlone fuel depth recognize frames template.nodes
        ⟨"", store⟩ with
    | mk ended out =>
      obtain ⟨rendered, store'⟩ := out
      rw [halone] at hraw hhtml
      rcases ended with (error | _) | done
      · refine ⟨.ok (.error error), rendered, store', hraw, nofun, fun _ => ?_⟩
        rwa [Escape.answer, Escape.leftover, String.append_empty] at hhtml
      · refine ⟨.error .exhausted, rendered, store', hraw, nofun, fun _ => ?_⟩
        rwa [Escape.answer, Escape.leftover, String.append_empty] at hhtml
      · refine ⟨.ok (.ok ()), rendered, store', ?_, fun _ => hhtml, fun h => absurd rfl h⟩
        rwa [Escape.answer, Escape.apply_raw] at hraw

end Engine

/-- A lambda may ask for a template in the middle of a render, whatever contexts and however many
partials are open, whatever it has written and whatever state the lambdas are in. Escaped and raw,
the request comes to the same answer and to the same state, also when the template has sections,
partials and lambdas in it that ask in turn; if it succeeds, the escaped request appends the
escaping of what the raw one appends, and if it fails nothing. -/
theorem Engine.request_escaped (engine : Engine) (fuel : Nat)
    (recognize : Failure → Option SinkError) (frames : List (Value σ)) (opened : Nat)
    (source : String) (delimiters : Delimiters) (text : String) (store : σ) :
    let scratch := Sink.scratch recognize
    let host := sceneHost scratch (engine.stageNested fuel)
    let direct := scratchHost scratch
      (engine.renderNested fuel (engine.options.maxPartialDepth - opened)) frames
    (∀ escape, host.render source delimiters escape (.within frames opened ⟨text, store⟩) =
      Prod.map id (.within frames opened)
        (direct.render source delimiters escape ⟨text, store⟩)) ∧
    ∃ answer rendered store',
      host.render source delimiters .raw (.within frames opened ⟨text, store⟩) =
        (answer, .within frames opened ⟨text ++ rendered, store'⟩) ∧
      host.render source delimiters .html (.within frames opened ⟨text, store⟩) =
        (answer, .within frames opened
          ⟨match answer with
            | .ok (.ok ()) => text ++ Escape.html.apply rendered
            | _ => text, store'⟩) := by
  intro scratch host direct
  have hkeeps : Host.Keeps frames opened host direct :=
    sceneHost_keeps (engine.stageNested_keeps fuel frames opened) scratch
  refine ⟨fun escape => hkeeps.render source delimiters escape ⟨text, store⟩, ?_⟩
  obtain ⟨answer, rendered, store', h⟩ := engine.exists_showsEscaped fuel
    (engine.options.maxPartialDepth - opened) recognize frames source delimiters text store
  refine ⟨answer, rendered, store', ?_, ?_⟩
  · rw [hkeeps.render, h.raw]
    rfl
  · rw [hkeeps.render]
    split
    · rw [h.html_of_ok rfl]
      rfl
    · next hanswer =>
      rw [h.html_of_failed hanswer]
      rfl

end Mustache
