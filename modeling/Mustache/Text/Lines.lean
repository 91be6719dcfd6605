/-!
# Mustache.Text.Lines

Lines of text. A line ends with its line feed; a carriage return before that line feed belongs
to the line end, and any other one is an ordinary character.
-/

namespace Mustache
namespace Text

/-- The lines with their ends; a text that ends with a line feed has no further line. -/
def linesWithEnds : List Char → List (List Char)
  | [] => []
  | c :: cs =>
    if c = '\n' then [c] :: linesWithEnds cs
    else
      match linesWithEnds cs with
      | [] => [[c]]
      | line :: rest => (c :: line) :: rest

def withoutEnd (line : List Char) : List Char :=
  match line.reverse with
  | '\n' :: '\r' :: rest => rest.reverse
  | '\n' :: rest => rest.reverse
  | _ => line

def lines (cs : List Char) : List (List Char) :=
  (linesWithEnds cs).map withoutEnd

def indent (indentation cs : List Char) : List Char :=
  (linesWithEnds cs).flatMap fun line => indentation ++ line

theorem flatten_linesWithEnds (cs : List Char) : (linesWithEnds cs).flatten = cs := by
  induction cs with
  | nil => rfl
  | cons c cs ih =>
    unfold linesWithEnds
    split
    · rw [List.flatten_cons, ih]; rfl
    · split
      · next h => rw [h] at ih; rw [← ih]; rfl
      · next h => rw [h] at ih; rw [← ih]; rfl

end Text
end Mustache
