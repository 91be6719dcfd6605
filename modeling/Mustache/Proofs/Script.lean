import Mustache.Proofs.Search
import Mustache.Template.Scan

/-!
# Mustache.Proofs.Script

Sources as they are written: runs of literal text with a tag between each two of them. A script
says nothing of how it is read; `Script.text` prints it under the delimiters that are in force at
each place, and `Script.scan` is what a reader should find in the print. `Script.Legible` are the
conditions under which nothing in the print can be taken for something else.
-/

namespace Mustache

/-- The ways to write a tag, by the sign that its content follows. -/
inductive TagForm where
  | plain
  | braced
  | ampersand
  | hash
  | caret
  | slash
  | bang
  | angle
  | equals
  deriving DecidableEq, Repr

namespace TagForm

/-- The kind of tag that the form makes, and what stands on either side of the content. -/
def head : TagForm → Tag.Head
  | .plain => ⟨.interpolation .html, [], []⟩
  | .braced => ⟨.interpolation .raw, ['\x7b'], ['\x7d']⟩
  | .ampersand => ⟨.interpolation .raw, ['&'], []⟩
  | .hash => ⟨.opener false, ['#'], []⟩
  | .caret => ⟨.opener true, ['^'], []⟩
  | .slash => ⟨.closer, ['/'], []⟩
  | .bang => ⟨.comment, ['!'], []⟩
  | .angle => ⟨.inclusion, ['>'], []⟩
  | .equals => ⟨.setDelimiters, ['='], ['=']⟩

/-- The characters that the content of a plain tag may not begin with. -/
def signs : List Char := ['\x7b', '=', '&', '#', '^', '/', '!', '>']

end TagForm

/-- The extent of a text in octets and the place of its first character, with `before` in front
of it. -/
def Span.ofText (before text : List Char) : Span :=
  let place := Position.start.after before
  ⟨Text.byteSize before, Text.byteSize (before ++ text), place.line, place.column⟩

/-- A tag as it is written, and the delimiters in force behind it. -/
structure WrittenTag where
  form : TagForm
  content : List Char
  after : Delimiters

namespace WrittenTag

/-- What ends the tag. -/
def terminator (d : Delimiters) (w : WrittenTag) : List Char :=
  w.form.head.mark ++ d.closing.toList

/-- What stands behind the opening delimiter. -/
def body (d : Delimiters) (w : WrittenTag) : List Char :=
  w.form.head.sign ++ w.content ++ w.terminator d

/-- The tag as it is printed under the delimiters `d`. -/
def text (d : Delimiters) (w : WrittenTag) : List Char :=
  d.opening.toList ++ w.body d

/-- What the content has to be, and what it makes of the delimiters: a set-delimiter tag holds
the two words that are in force behind it, a comment anything, every other tag a name. -/
def Fits (d : Delimiters) (w : WrittenTag) : Prop :=
  match w.form with
  | .equals => Text.words w.content = [w.after.opening.toList, w.after.closing.toList]
  | .bang => w.after = d
  | _ => Text.trim w.content ≠ [] ∧ w.after = d

/-- The tag can be read in one way only. -/
structure Legible (d : Delimiters) (w : WrittenTag) : Prop where
  ends : Text.MetFirstAfter (w.terminator d) w.content
  unsigned : w.form = .plain → ∀ c ∈ w.content.head?, c ∉ TagForm.signs
  fits : w.Fits d

/-- The tag as it should be read when `before` stands in front of it. -/
def toTag (d : Delimiters) (before : List Char) (w : WrittenTag) : Tag :=
  ⟨w.form.head.kind, String.ofList (Text.trim w.content), .ofText before (w.text d), w.after⟩

end WrittenTag

/-- A run of literal text, and each further run with the tag before it. -/
structure Script where
  head : List Char
  rest : List (WrittenTag × List Char)

namespace Script

/-- The print of a run and what follows it. -/
def textFrom (d : Delimiters) (run : List Char) : List (WrittenTag × List Char) → List Char
  | [] => run
  | (w, next) :: rest => run ++ w.text d ++ textFrom w.after next rest

/-- The opening delimiter is met first where a tag begins, and not at all in the last run. -/
def LegibleFrom (d : Delimiters) (run : List Char) : List (WrittenTag × List Char) → Prop
  | [] => ¬ d.opening.toList <:+: run
  | (w, next) :: rest =>
    Text.MetFirstAfter d.opening.toList run ∧ w.Legible d ∧ LegibleFrom w.after next rest

/-- The tags and runs behind a run, when `before` stands in front of that run. -/
def tagsFrom (d : Delimiters) (before run : List Char) :
    List (WrittenTag × List Char) → List (Tag × List Char)
  | [] => []
  | (w, next) :: rest =>
    (w.toTag d (before ++ run), next) :: tagsFrom w.after (before ++ run ++ w.text d) next rest

/-- The print of a script that starts out with the delimiters `d`. -/
def text (d : Delimiters) (script : Script) : List Char :=
  textFrom d script.head script.rest

/-- Whether the print of the script can be read in one way only. -/
def Legible (d : Delimiters) (script : Script) : Prop :=
  LegibleFrom d script.head script.rest

/-- The runs and tags of the print. -/
def scan (d : Delimiters) (script : Script) : Scan :=
  ⟨script.head, tagsFrom d [] script.head script.rest⟩

end Script

namespace Scan

/-- From `offset` on, a run and what follows it lie side by side in the source up to its end:
each begins where the one before it stops. -/
def CoversFrom (source : List Char) (offset : Nat) (run : List Char) :
    List (Tag × List Char) → Prop
  | [] => Text.slice offset (Text.byteSize source) source = run ∧
      offset + Text.byteSize run = Text.byteSize source
  | (tag, next) :: rest =>
    Text.slice offset tag.span.start source = run ∧
      offset + Text.byteSize run = tag.span.start ∧ tag.span.start < tag.span.stop ∧
      CoversFrom source tag.span.stop next rest

/-- The runs and the extents of the tags are a partition of the source, in order. -/
def Covers (source : List Char) (scan : Scan) : Prop :=
  CoversFrom source 0 scan.head scan.rest

def tags (scan : Scan) : List Tag :=
  scan.rest.map (·.1)

def runs (scan : Scan) : List (List Char) :=
  scan.head :: scan.rest.map (·.2)

end Scan

/-! ## Legibility as a test -/

theorem Delimiters.closing_ne_nil (d : Delimiters) : d.closing.toList ≠ [] := by
  intro h
  have hd := d.usable
  rw [DelimiterFault.of?, if_pos (by rw [h]; simp)] at hd
  cases hd

theorem WrittenTag.terminator_ne_nil (d : Delimiters) (w : WrittenTag) :
    w.terminator d ≠ [] := by
  intro h
  exact d.closing_ne_nil (List.append_eq_nil_iff.1 h).2

/-- A printed tag begins like the opening delimiter. -/
theorem WrittenTag.exists_text_eq_cons (d : Delimiters) (w : WrittenTag) :
    ∃ c ∈ d.opening.toList, ∃ cs, w.text d = c :: cs := by
  obtain ⟨c, cs, hc⟩ := List.exists_cons_of_ne_nil d.opening_ne_nil
  refine ⟨c, ?_, cs ++ w.body d, ?_⟩
  · rw [hc]
    exact List.mem_cons_self
  · rw [text, hc, List.cons_append]

instance (d : Delimiters) (w : WrittenTag) : Decidable (w.Fits d) :=
  match w with
  | ⟨.equals, _, _⟩ => inferInstanceAs (Decidable (_ = _))
  | ⟨.bang, _, _⟩ => inferInstanceAs (Decidable (_ = _))
  | ⟨.plain, _, _⟩ | ⟨.braced, _, _⟩ | ⟨.ampersand, _, _⟩ | ⟨.hash, _, _⟩ | ⟨.caret, _, _⟩
  | ⟨.slash, _, _⟩ | ⟨.angle, _, _⟩ => inferInstanceAs (Decidable (_ ∧ _))

theorem WrittenTag.legible_iff {d : Delimiters} {w : WrittenTag} :
    w.Legible d ↔
      Text.cut? (w.terminator d) (w.content ++ w.terminator d) = some (w.content, []) ∧
      (w.form = .plain → ∀ c ∈ w.content.head?, c ∉ TagForm.signs) ∧ w.Fits d := by
  rw [← Text.metFirstAfter_iff_cut? (w.terminator_ne_nil d)]
  constructor
  · intro h
    exact ⟨h.ends, h.unsigned, h.fits⟩
  · rintro ⟨he, hu, hf⟩
    exact ⟨he, hu, hf⟩

instance (d : Delimiters) (w : WrittenTag) : Decidable (w.Legible d) :=
  letI : Decidable (∀ c ∈ w.content.head?, c ∉ TagForm.signs) := Option.decidableForallMem _
  decidable_of_iff _ WrittenTag.legible_iff.symm

instance Script.decidableLegibleFrom : (d : Delimiters) → (run : List Char) →
    (rest : List (WrittenTag × List Char)) → Decidable (LegibleFrom d run rest)
  | d, run, [] =>
    decidable_of_iff (Text.cut? d.opening.toList run = none)
      (Text.cut?_eq_none_iff d.opening_ne_nil)
  | d, run, (w, next) :: rest =>
    have := decidableLegibleFrom w.after next rest
    decidable_of_iff
      (Text.cut? d.opening.toList (run ++ d.opening.toList) = some (run, []) ∧ w.Legible d ∧
        LegibleFrom w.after next rest)
      (by rw [← Text.metFirstAfter_iff_cut? d.opening_ne_nil]; rfl)

instance (d : Delimiters) (script : Script) : Decidable (script.Legible d) :=
  Script.decidableLegibleFrom d script.head script.rest

/-- A percent sign inside an angle bracket on either side. -/
def Delimiters.percents : Delimiters :=
  ⟨"<%", "%>", rfl⟩

/-- A script that takes up new delimiters on its way: two of its tags stand side by side, and its
text holds what the delimiters were before. -/
def Script.switching : Script :=
  ⟨['a'],
    [(⟨.equals, " <% %> ".toList, .percents⟩, ['\n']),
      (⟨.hash, " s".toList, .percents⟩, "\x7b\x7bx".toList),
      (⟨.braced, ['y'], .percents⟩, []),
      (⟨.slash, "s ".toList, .percents⟩, ['é'])]⟩

end Mustache
