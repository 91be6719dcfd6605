import Mustache.Template.Scan
import Mustache.Text.Bytes
import Mustache.Trimmer

/-!
# Mustache.Template.Layout

Stand-alone tags. A tag that may stand alone does so when the run before it ends a line's worth
of blanks and the run after it begins with the rest of a blank line; then both are cut away.
-/

namespace Mustache

/-- A run of literal text and where it lies in the source. -/
structure Run where
  text : List Char
  opensSource : Bool
  closesSource : Bool

namespace Run

def trimmer (run : Run) : Trimmer :=
  Trimmer.scan (Text.toOctets run.text)

/-- Where the blanks before a tag begin, if only blanks stand between the start of the line and
the end of the run. -/
def lineStart? (run : Run) : Option Nat :=
  match run.trimmer.rightDecision with
  | .allow boundary =>
    if boundary.atLineBreak || run.opensSource then some boundary.index else none
  | .preserve => none

/-- Where the line of a tag ends, if only blanks stand between the start of the run and the end
of the line. -/
def lineEnd? (run : Run) : Option Nat :=
  match run.trimmer.leftDecision, run.trimmer.rightDecision with
  | .allow boundary, _ => some (boundary.index + 1)
  | .preserve, .allow boundary =>
    if !boundary.atLineBreak && run.closesSource then some (Text.byteSize run.text) else none
  | .preserve, .preserve => none

end Run

/-- A tag, with the blanks before it on its line if it stands alone. -/
structure PlacedTag where
  tag : Tag
  margin : Option (List Char)

/-- What is left of the runs once the lines of stand-alone tags are cut away. -/
structure Layout where
  head : List Char
  rest : List (PlacedTag × List Char)

/-- The two cuts around a stand-alone tag: where the run before it is cut and where the run
after it goes on. -/
def Tag.cuts? (tag : Tag) (before after : Run) : Option (Nat × Nat) :=
  if tag.kind.mayStandAlone then
    match before.lineStart?, after.lineEnd? with
    | some cutFrom, some cutTo => some (cutFrom, cutTo)
    | _, _ => none
  else none

namespace Layout

/-- Lays out a run from its octet `keepFrom` on, and what follows it. `opens` says whether the
run opens the source. -/
def ofRuns (opens : Bool) (run : List Char) (keepFrom : Nat) : List (Tag × List Char) → Layout
  | [] => ⟨Text.dropBytes keepFrom run, []⟩
  | (tag, next) :: rest =>
    match tag.cuts? ⟨run, opens, false⟩ ⟨next, false, rest.isEmpty⟩ with
    | none =>
      let tail := ofRuns false next 0 rest
      ⟨Text.dropBytes keepFrom run, (⟨tag, none⟩, tail.head) :: tail.rest⟩
    | some (cutFrom, cutTo) =>
      let tail := ofRuns false next cutTo rest
      let margin := Text.dropBytes cutFrom run
      ⟨Text.slice keepFrom cutFrom run, (⟨tag, some margin⟩, tail.head) :: tail.rest⟩

def ofScan (scan : Scan) : Layout :=
  ofRuns true scan.head 0 scan.rest

end Layout
end Mustache
