import Mustache.Options
import Mustache.Resolve
import Mustache.Sink
import Mustache.Template.Parse
import Mustache.Text.Lines

/-!
# Mustache.Render

Rendering templates. Instructions run against a stack of contexts, innermost first, and write to
a sink. Rendering goes down in three ways, each with a measure of its own: into the children of a
section, into partials up to the depth that the options allow, and into templates rendered by
lambdas, as deep as the fuel allows. Data without lambdas needs no fuel.
-/

namespace Mustache

/-- Where partials come from: the source of a name, nothing, or an error that ends the render. -/
abbrev Partials := String → Except Error (Option String)

/-- What a render changes: the contents of the sink and the state of the lambdas. -/
structure Output (ω σ : Type) where
  sink : ω
  store : σ

/-- Why a render stopped before its end. -/
inductive Halt where
  | failed (error : Error)
  /-- Lambdas rendered templates in one another too deep. -/
  | exhausted
  deriving DecidableEq, Repr

/-- A step of rendering. What was written stays written, also on failure. -/
def Render (ω σ α : Type) := Output ω σ → Except Halt α × Output ω σ

namespace Render

variable {ω σ α β : Type}

protected def pure (a : α) : Render ω σ α := fun out => (.ok a, out)

protected def bind (step : Render ω σ α) (next : α → Render ω σ β) : Render ω σ β := fun out =>
  match step out with
  | (.ok a, out) => next a out
  | (.error halt, out) => (.error halt, out)

instance : Monad (Render ω σ) where
  pure := Render.pure
  bind := Render.bind

def fail (error : Error) : Render ω σ α := fun out => (.error (.failed error), out)

def exhaust : Render ω σ α := fun out => (.error .exhausted, out)

/-- Turns the error of a step into a result; used up fuel still stops the render. -/
def attempt (step : Render ω σ Unit) : Render ω σ (Except Error Unit) := fun out =>
  match step out with
  | (.ok (), out) => (.ok (.ok ()), out)
  | (.error (.failed error), out) => (.ok (.error error), out)
  | (.error .exhausted, out) => (.error .exhausted, out)

def emit (sink : Sink ω) (chunk : String) : Render ω σ Unit := fun out =>
  match sink.write chunk out.sink with
  | (.ok (), held) => (.ok (), { out with sink := held })
  | (.error error, held) => (.error (.failed (.sink error)), { out with sink := held })

def emitAll (sink : Sink ω) : List String → Render ω σ Unit
  | [] => pure ()
  | chunk :: chunks => do
    emit sink chunk
    emitAll sink chunks

/-- Runs a step on an empty scratch text, with the same lambdas. -/
def onScratch (step : Render String σ α) : Render ω σ (α × String) := fun out =>
  match step ⟨"", out.store⟩ with
  | (.ok a, scratch) => (.ok (a, scratch.sink), { out with store := scratch.store })
  | (.error halt, scratch) => (.error halt, { out with store := scratch.store })

end Render

/-! ## Instructions -/

/-- How instructions go on into partials and lambdas. -/
structure Continuation (ω σ : Type) where
  inclusion : (frames : List (Value σ)) → (name indentation : String) → Render ω σ Unit
  expansion : (frames : List (Value σ)) → Lambda σ → Call → Render ω σ Unit

section Instructions

variable {ω σ : Type}

/-- Writes what an interpolation finds; a lambda is called with the empty text. -/
def interpolation (sink : Sink ω) (k : Continuation ω σ) (frames : List (Value σ))
    (escape : Escape) : Action (Render ω σ) σ Unit where
  field value := Render.emitAll sink (value.chunks escape)
  lambda f := k.expansion frames f ⟨"", escape, .braces⟩

/-- Renders the body once for each element of what a section finds; a lambda is called once
instead. -/
def iteration (k : Continuation ω σ) (frames : List (Value σ)) (inner : String)
    (delimiters : Delimiters) (body : Value σ → Render ω σ Unit) :
    Action (Render ω σ) σ Unit where
  field value :=
    match value.entries with
    | .each values => values.forM body
    | .lambda f => k.expansion frames f ⟨inner, .raw, delimiters⟩
  lambda f := k.expansion frames f ⟨inner, .raw, delimiters⟩

/-- Whether a section over the path would do anything. -/
def entersSection (frames : List (Value σ)) (path : Path) : Bool :=
  let found : Id (Resolution (Option (Value σ))) :=
    resolveFrames Action.get frames path (some 0)
  found.run.isResolved

mutual

def renderNode (sink : Sink ω) (escape : Escape) (k : Continuation ω σ) :
    Node → List (Value σ) → Render ω σ Unit
  | .literal text, _ => Render.emit sink text
  | .interpolation path tagEscape _, frames => do
    let _ ← resolveFrames (interpolation sink k frames (escape.under tagEscape)) frames path none
  | .block path inverted children inner delimiters _, frames =>
    if inverted then
      if entersSection frames path then pure () else renderNodes sink escape k children frames
    else do
      let body := fun value => renderNodes sink escape k children (value :: frames)
      let _ ← resolveFrames (iteration k frames inner delimiters body) frames path none
  | .inclusion name indentation _, frames => k.inclusion frames name indentation

def renderNodes (sink : Sink ω) (escape : Escape) (k : Continuation ω σ) :
    List Node → List (Value σ) → Render ω σ Unit
  | [], _ => pure ()
  | node :: nodes, frames => do
    renderNode sink escape k node frames
    renderNodes sink escape k nodes frames

end

end Instructions

/-! ## Lambdas -/

section Lambdas

variable {ω σ : Type}

/-- Renders instructions to a scratch text. -/
abbrev Nested (σ : Type) := Sink String → List Node → List (Value σ) → Render String σ Unit

/-- What a lambda renders: raw templates go straight to the text of the lambda, escaped ones
through a text of their own. -/
def renderTemplate (scratch : Sink String) (nested : Nested σ) (frames : List (Value σ))
    (template : String) (delimiters : Delimiters) (escape : Escape) : Render String σ Unit :=
  match Template.parse template none delimiters with
  | .error error => Render.fail (.parse error)
  | .ok template =>
    match escape with
    | .raw => nested scratch template.nodes frames
    | .html => do
      let ((), text) ← Render.onScratch (nested scratch template.nodes frames)
      Render.emitAll scratch (escape.chunks text)

/-- Answers the requests of a lambda that writes to a scratch text. -/
def scratchHost (scratch : Sink String) (nested : Nested σ) (frames : List (Value σ)) :
    Host (Render String σ) σ where
  write text escape := fun out =>
    match Render.emitAll scratch (escape.chunks text) out with
    | (.error (.failed (.sink error)), out) => (.ok (.error error), out)
    | (.error halt, out) => (.error halt, out)
    | (.ok (), out) => (.ok (.ok ()), out)
  render template delimiters escape :=
    Render.attempt (renderTemplate scratch nested frames template delimiters escape)
  get := fun out => (.ok out.store, out)
  put store := fun out => (.ok (), { out with store })

/-- Calls a lambda. Its text is written at once when it completes, and dropped when it fails; a
failure that the sink claims ends the render. -/
def expandLambda (sink : Sink ω) (nested : Nested σ) (frames : List (Value σ)) (f : Lambda σ)
    (call : Call) : Render ω σ Unit := do
  let scratch := Sink.scratch sink.recognize
  let (completed, text) ←
    Render.onScratch (f.attempt (scratchHost scratch nested frames) sink.recognize call)
  match completed with
  | .ok true => Render.emit sink text
  | .ok false => pure ()
  | .error error => Render.fail (.sink error)

end Lambdas

/-! ## Partials -/

structure Engine where
  partials : Partials
  options : Options

namespace Engine

/-- The source of a partial as a template; each of its lines is indented first. -/
def parsePartial (engine : Engine) (name indentation source : String) :
    Except ParseError Template :=
  let source := String.ofList (Text.indent indentation.toList source.toList)
  Template.parse source (some name) engine.options.delimiters

variable {ω σ : Type}

/-- Renders instructions with `depth` more partials allowed to be open. `nested` renders
templates of lambdas at a depth. -/
def renderWithin (engine : Engine) (sink : Sink ω) (nested : Nat → Nested σ) :
    Nat → List Node → List (Value σ) → Render ω σ Unit
  | 0 =>
    renderNodes sink engine.options.escape
      { inclusion := fun _ name _ =>
          Render.fail (.partialDepth name engine.options.maxPartialDepth)
        expansion := fun frames f call => expandLambda sink (nested 0) frames f call }
  | depth + 1 =>
    renderNodes sink engine.options.escape
      { inclusion := fun frames name indentation =>
          match engine.partials name with
          | .error error => Render.fail error
          | .ok none => pure ()
          | .ok (some source) =>
            match engine.parsePartial name indentation source with
            | .error error => Render.fail (.parse error)
            | .ok template => renderWithin engine sink nested depth template.nodes frames
        expansion := fun frames f call => expandLambda sink (nested (depth + 1)) frames f call }

/-- Renders the templates of lambdas, which may call lambdas in turn as deep as the fuel
allows. -/
def renderNested (engine : Engine) : Nat → Nat → Nested σ
  | 0, _ => fun _ _ _ => Render.exhaust
  | fuel + 1, depth => fun scratch nodes frames =>
    engine.renderWithin scratch (renderNested engine fuel) depth nodes frames

def renderTo (engine : Engine) (fuel : Nat) (sink : Sink ω) (template : Template)
    (data : Data σ) : Render ω σ Unit :=
  engine.renderWithin sink (engine.renderNested fuel) engine.options.maxPartialDepth
    template.nodes [.host data]

end Engine
end Mustache
