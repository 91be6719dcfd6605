import Mustache.Text.Bytes

/-!
# Mustache.Source.Position

Places in a template source: the octet, the line and the column of a character, and the extent
of a tag.
-/

namespace Mustache

/-- A place in a source. Lines and columns count from 1, columns in characters. -/
structure Position where
  offset : Nat
  line : Nat
  column : Nat
  deriving DecidableEq, Repr

namespace Position

def start : Position := ⟨0, 1, 1⟩

def next (place : Position) (c : Char) : Position :=
  if c = '\n' then ⟨place.offset + c.utf8Size, place.line + 1, 1⟩
  else ⟨place.offset + c.utf8Size, place.line, place.column + 1⟩

def after (place : Position) (cs : List Char) : Position :=
  cs.foldl next place

theorem after_append (p : Position) (cs ds : List Char) :
    p.after (cs ++ ds) = (p.after cs).after ds :=
  List.foldl_append

@[simp] theorem offset_next (p : Position) (c : Char) :
    (p.next c).offset = p.offset + c.utf8Size := by
  unfold next
  split <;> rfl

theorem offset_after (p : Position) (cs : List Char) :
    (p.after cs).offset = p.offset + Text.byteSize cs := by
  induction cs generalizing p with
  | nil => rfl
  | cons c cs ih =>
    show ((p.next c).after cs).offset = _
    rw [ih, offset_next, Text.byteSize, Nat.add_assoc]

end Position

/-- The extent of a tag in octets, and the line and column where it opens. -/
structure Span where
  start : Nat
  stop : Nat
  line : Nat
  column : Nat
  deriving DecidableEq, Repr, Inhabited

def Span.between (first last : Position) : Span :=
  ⟨first.offset, last.offset, first.line, first.column⟩

end Mustache
