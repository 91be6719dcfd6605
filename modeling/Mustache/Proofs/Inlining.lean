import Mustache.Proofs.Indentation
import Mustache.Proofs.JoinedLayout
import Mustache.Proofs.Refinement

/-!
# Mustache.Proofs.Inlining

A stand-alone partial as a macro. The lines of the partial, indented like its tag, may stand in
the source in place of the line of the tag: whatever rendered before renders to the same text.
-/

namespace Mustache

/-! ## Trees from parts -/

namespace Tree

variable {R : PlacedTag → PlacedTag → Prop} {Q : Nat → List Node → List Node → Prop}
variable {base : List (Tag × List Node)}

end Tree

/-! ## Refined instructions -/

section Refined

variable {σ : Type} {engine : Engine} {nested : Nat → Nested σ}

end Refined

/-! ## Sources -/

variable {d : Delimiters} {source lines : List Char}

section Refined

variable {σ : Type} {engine : Engine} {nested : Nat → Nested σ}

end Refined

end Mustache
