import Mustache.Delimiters
import Mustache.Escape

/-!
# Mustache.Options

The settings of an engine.
-/

namespace Mustache

structure Options where
  /-- Escaping of plain interpolations; `raw` makes every tag raw. -/
  escape : Escape
  /-- The delimiters that templates start with. -/
  delimiters : Delimiters
  /-- How many partials may be open at once. -/
  maxPartialDepth : Nat
  deriving DecidableEq

/-- HTML escaping, braces, and partials up to 32 deep. -/
def Options.standard : Options := ⟨.html, .braces, 32⟩

instance : Inhabited Options := ⟨.standard⟩

end Mustache
