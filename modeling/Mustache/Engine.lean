import Mustache.Render

/-!
# Mustache.Engine

Compiling and rendering in one place: templates are compiled with the delimiters of the engine
and rendered to any sink, or to a new text.
-/

namespace Mustache
namespace Engine

/-- An engine with the standard options and no partials. -/
def standard : Engine := ⟨fun _ => .ok none, .standard⟩

/-- How deep lambdas may render templates in one another. The limit is there for lambdas that
would go on for ever. -/
def lambdaLimit : Nat := 1000000

def compile (engine : Engine) (name : Option String) (source : String) :
    Except Error Template :=
  match Template.parse source name engine.options.delimiters with
  | .ok template => .ok template
  | .error error => .error (.parse error)

section Rendering

variable {σ : Type}

def render (engine : Engine) (template : Template) (data : Data σ) (store : σ) :
    Except Halt String × σ :=
  match engine.renderTo lambdaLimit Sink.text template data ⟨"", store⟩ with
  | (.ok (), out) => (.ok out.sink, out.store)
  | (.error halt, out) => (.error halt, out.store)

def renderSource (engine : Engine) (source : String) (data : Data σ) (store : σ) :
    Except Halt String × σ :=
  match engine.compile none source with
  | .ok template => engine.render template data store
  | .error error => (.error (.failed error), store)

end Rendering

/-! ## Size estimates -/

section Estimates

variable {σ : Type}

/-- How many octets an interpolation of the path writes before escaping. -/
def pathSize (frames : List (Value σ)) (path : Path) : Nat :=
  let found : Id (Resolution Nat) := resolveFrames Action.size frames path none
  match found.run with
  | .field size => size
  | _ => 0

mutual

/-- The estimate for one instruction, without literal text. -/
def valueSize (frames : List (Value σ)) : Node → Nat
  | .interpolation path _ _ => pathSize frames path
  | .block _ _ children _ _ _ => valueSizes frames children
  | .literal _ | .inclusion .. => 0

/-- The estimate for instructions, without literal text. -/
def valueSizes (frames : List (Value σ)) : List Node → Nat
  | [] => 0
  | node :: nodes => valueSize frames node + valueSizes frames nodes

end

/-- Estimates how many octets the template renders to: its literal text and the values of its
interpolations in the outermost context, with the body of each section once. -/
def capacityHint (template : Template) (data : Data σ) : Nat :=
  template.literalSize + valueSizes [.host data] template.nodes

end Estimates

end Engine
end Mustache
