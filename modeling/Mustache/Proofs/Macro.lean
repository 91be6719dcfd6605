import Mustache.Engine
import Mustache.Proofs.Inlining

/-!
# Mustache.Proofs.Macro

Stand-alone partials are macros. Compiling and rendering with a partial comes to the same as
compiling and rendering its lines in its place.
-/

namespace Mustache

variable {d : Delimiters} {lines : List Char}

namespace Engine

variable {σ : Type}

theorem compile_eq_ok_iff {engine : Engine} {name : Option String} {source : String}
    {template : Template} :
    engine.compile name source = .ok template ↔
      Template.compile source.toList engine.options.delimiters = .ok template.nodes ∧
        template.name = name := by
  rw [← Template.parse_eq_ok_iff, compile]
  cases Template.parse source name engine.options.delimiters with
  | error error => simp
  | ok template => simp

end Engine

/-- Two lines, each with `margin` before it. -/
def Script.entry (margin : List Char) : Script :=
  ⟨margin, [(⟨.plain, ['n'], .braces⟩, '\n' :: margin ++ "-\n".toList)]⟩

end Mustache
