import Mustache.Error
import Mustache.Escape

/-!
# Mustache.Lambda

Lambdas: callable members of host data. A lambda answers a call with a program of requests to
the renderer, and goes on with what each request came to. A program may also keep state of type
`σ` from one call to the next.
-/

namespace Mustache

structure Call where
  /-- The raw source between the tags of the section; empty for an interpolation. -/
  inner : String
  /-- The escaping of what the lambda writes and renders. -/
  escape : Escape
  /-- The delimiters that templates rendered by the lambda start with. -/
  delimiters : Delimiters

inductive Program (σ α : Type) where
  | done (value : α)
  | fail (failure : Failure)
  /-- Writes text with the escaping of the call. -/
  | write (text : String) (next : Except SinkError Unit → Program σ α)
  /-- Writes text without escaping. -/
  | writeRaw (text : String) (next : Except SinkError Unit → Program σ α)
  /-- Renders a template in the context of the call. -/
  | render (template : String) (next : Except Error Unit → Program σ α)
  | get (next : σ → Program σ α)
  | put (state : σ) (next : Program σ α)

abbrev Lambda (σ : Type) := Call → Program σ Unit

namespace Program

variable {σ α β : Type}

protected def bind : Program σ α → (α → Program σ β) → Program σ β
  | .done value, f => f value
  | .fail failure, _ => .fail failure
  | .write text next, f => .write text fun result => (next result).bind f
  | .writeRaw text next, f => .writeRaw text fun result => (next result).bind f
  | .render template next, f => .render template fun result => (next result).bind f
  | .get next, f => .get fun state => (next state).bind f
  | .put state next, f => .put state (next.bind f)

instance : Monad (Program σ) where
  pure := .done
  bind := Program.bind

/-- Goes on if a write succeeded, and fails with its error if not. -/
def ofWrite : Except SinkError Unit → Program σ Unit
  | .ok () => .done ()
  | .error error => .fail (.sink error)

/-- Goes on if a rendering succeeded, and fails with its error if not. -/
def ofRender : Except Error Unit → Program σ Unit
  | .ok () => .done ()
  | .error error => .fail (.engine error)

/-- Writes text with the escaping of the call, or fails. -/
def emit (text : String) : Program σ Unit := .write text ofWrite

def emitRaw (text : String) : Program σ Unit := .writeRaw text ofWrite

def expand (template : String) : Program σ Unit := .render template ofRender

end Program

namespace Lambda

variable {σ : Type}

def ofTemplate (template : String → String) : Lambda σ :=
  fun call => .expand (template call.inner)

end Lambda

/-! ## Running programs -/

structure Host (m : Type → Type) (σ : Type) where
  write : String → Escape → m (Except SinkError Unit)
  render : String → Delimiters → Escape → m (Except Error Unit)
  get : m σ
  put : σ → m Unit

namespace Program

variable {σ α : Type} {m : Type → Type} [Monad m]

/-- Runs the program of a call: what it came to, or the failure it ended with. -/
def run (host : Host m σ) (call : Call) : Program σ α → m (Except Failure α)
  | .done value => pure (.ok value)
  | .fail failure => pure (.error failure)
  | .write text next => do
    let result ← host.write text call.escape
    run host call (next result)
  | .writeRaw text next => do
    let result ← host.write text .raw
    run host call (next result)
  | .render template next => do
    let result ← host.render template call.delimiters call.escape
    run host call (next result)
  | .get next => do
    let state ← host.get
    run host call (next state)
  | .put state next => do
    host.put state
    run host call next

end Program

/-- Calls a lambda. The answer is whether it completed; a failure that `recognize` claims is an
error instead. -/
def Lambda.attempt {σ : Type} {m : Type → Type} [Monad m] (host : Host m σ)
    (recognize : Failure → Option SinkError) (lambda : Lambda σ) (call : Call) :
    m (Except SinkError Bool) := do
  let result ← (lambda call).run host call
  match result with
  | .ok () => return .ok true
  | .error failure =>
    match recognize failure with
    | some error => return .error error
    | none => return .ok false

end Mustache
