import Mustache.Text.Blank

/-!
# Mustache.Delimiters

The pair of delimiters that opens and closes tags. Every value of the type is usable: neither
delimiter is empty or holds white space or an equals sign.
-/

namespace Mustache

inductive DelimiterFault where
  | empty
  | blank
  | equalsSign
  deriving DecidableEq, Repr

namespace DelimiterFault

def message : DelimiterFault → String
  | .empty => "delimiters must not be empty"
  | .blank => "delimiters must not contain whitespace"
  | .equalsSign => "delimiters must not contain '='"

/-- The first fault of a pair: emptiness counts before white space, and that before an equals
sign. -/
def of? (opening closing : String) : Option DelimiterFault :=
  if opening.toList.isEmpty || closing.toList.isEmpty then some .empty
  else if opening.toList.any Text.isBlank || closing.toList.any Text.isBlank then some .blank
  else if opening.toList.contains '=' || closing.toList.contains '=' then some .equalsSign
  else none

end DelimiterFault

structure Delimiters where
  opening : String
  closing : String
  usable : DelimiterFault.of? opening closing = none
  deriving DecidableEq

namespace Delimiters

def ofPair (opening closing : String) : Except DelimiterFault Delimiters :=
  match h : DelimiterFault.of? opening closing with
  | none => .ok ⟨opening, closing, h⟩
  | some fault => .error fault

def braces : Delimiters :=
  ⟨"\x7b\x7b", "\x7d\x7d", by decide⟩

instance : Inhabited Delimiters := ⟨braces⟩

theorem opening_ne_nil (d : Delimiters) : d.opening.toList ≠ [] := by
  intro h
  have hd := d.usable
  rw [DelimiterFault.of?, if_pos (by rw [h]; rfl)] at hd
  cases hd

end Delimiters
end Mustache
