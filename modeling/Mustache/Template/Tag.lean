import Mustache.Error
import Mustache.Source.Position
import Mustache.Escape
import Mustache.Text.Search

/-!
# Mustache.Template.Tag

Tags, and reading one. The sign after the opening delimiter says what kind of tag it is, and
with it what has to stand before the closing delimiter.
-/

namespace Mustache

inductive TagKind where
  | interpolation (escape : Escape)
  | opener (inverted : Bool)
  | closer
  | comment
  | inclusion
  | setDelimiters
  deriving DecidableEq, Repr

namespace TagKind

/-- The kind that a sign stands for, among those closed by the closing delimiter alone. -/
def ofSign? (c : Char) : Option TagKind :=
  if c = '&' then some (.interpolation .raw)
  else if c = '#' then some (.opener false)
  else if c = '^' then some (.opener true)
  else if c = '/' then some .closer
  else if c = '!' then some .comment
  else if c = '>' then some .inclusion
  else none

/-- Whether a tag of this kind takes its line with it when nothing else stands there. -/
def mayStandAlone : TagKind → Bool
  | .interpolation _ => false
  | _ => true

end TagKind

structure Tag where
  kind : TagKind
  /-- The content without the blanks around it. -/
  name : String
  span : Span
  /-- The delimiters in force from this tag on. -/
  delimiters : Delimiters

structure LocatedFault where
  fault : ParseFault
  line : Nat
  column : Nat

namespace Tag

/-- How a tag begins behind its opening delimiter, and what it has to end in. -/
structure Head where
  kind : TagKind
  /-- What stands before the content. -/
  sign : List Char
  /-- What stands between the content and the closing delimiter. -/
  mark : List Char

/-- The head of the tag whose opening delimiter stands before `body`. -/
def Head.ofBody : List Char → Head
  | [] => ⟨.interpolation .html, [], []⟩
  | c :: _ =>
    if c = '\x7b' then ⟨.interpolation .raw, [c], ['\x7d']⟩
    else if c = '=' then ⟨.setDelimiters, [c], ['=']⟩
    else
      match TagKind.ofSign? c with
      | some kind => ⟨kind, [c], []⟩
      | none => ⟨.interpolation .html, [], []⟩

theorem Head.sign_append_drop (body : List Char) :
    (Head.ofBody body).sign ++ body.drop (Head.ofBody body).sign.length = body := by
  unfold Head.ofBody
  split
  · rfl
  · split
    · rfl
    · split
      · rfl
      · split <;> rfl

/-- The delimiters that the content of a set-delimiter tag gives. -/
def newDelimiters (content : List Char) : Except ParseFault Delimiters :=
  match Text.words content with
  | [opening, closing] =>
    let opening := String.ofList opening
    let closing := String.ofList closing
    match Delimiters.ofPair opening closing with
    | .ok delimiters => .ok delimiters
    | .error fault => .error (.badDelimiters opening closing fault)
  | _ => .error .malformedSetDelimiters

/-- The delimiters in force after a tag of this kind and content that was read under `d`. -/
def delimitersAfter (d : Delimiters) (kind : TagKind) (content : List Char) :
    Except ParseFault Delimiters :=
  match kind with
  | .setDelimiters => newDelimiters content
  | .comment => .ok d
  | _ => if (Text.trim content).isEmpty then .error .emptyName else .ok d

/-- Reads the tag whose opening delimiter stands at `place`, with `body` after that delimiter.
The answer is the tag, the place just past it, and the source from there on. -/
def read (d : Delimiters) (place : Position) (body : List Char) :
    Except ParseFault (Tag × Position × List Char) :=
  let head := Head.ofBody body
  let terminator := head.mark ++ d.closing.toList
  match Text.cut? terminator (body.drop head.sign.length) with
  | none => .error .unclosedTag
  | some (content, rest) =>
    match delimitersAfter d head.kind content with
    | .error fault => .error fault
    | .ok delimiters =>
      let past := place.after (d.opening.toList ++ head.sign ++ content ++ terminator)
      .ok (⟨head.kind, String.ofList (Text.trim content), .between place past, delimiters⟩, past,
        rest)

/-- What is left after a tag is part of what followed its opening delimiter. -/
theorem length_rest_of_read {d : Delimiters} {place past : Position} {body rest : List Char}
    {tag : Tag} (h : read d place body = .ok (tag, past, rest)) : rest.length ≤ body.length := by
  unfold read at h
  simp only at h
  split at h
  · cases h
  · next content after hc =>
    split at h
    · cases h
    · cases h
      have hl := Text.length_after_cut? hc
      rw [List.length_drop] at hl
      omega

end Tag
end Mustache
