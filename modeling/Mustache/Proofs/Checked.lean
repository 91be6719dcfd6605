import Mustache.Proofs.IndentedScan

/-!
# Mustache.Proofs.Checked

Compiling by offsets, with a check on every operation that is not defined everywhere. Nothing is
taken off the source: a place is an octet of it, a run is where it begins and ends and what of it
is kept, and text is cut out where it is needed. `none` says that an operation has left its
domain: a cut through a character, behind the end or the wrong way round, a run that is not there,
or an offset below zero.
-/

namespace Mustache

/-! ## Checked operations -/

namespace Text

/-- Whether a character begins at the octet, or the text ends there. -/
def isBoundary (offset : Nat) (cs : List Char) : Bool :=
  byteSize (takeBytes offset cs) == offset

/-- The text between two octets. -/
def slice? (start stop : Nat) (cs : List Char) : Option (List Char) :=
  if start ≤ stop ∧ isBoundary start cs ∧ isBoundary stop cs then some (slice start stop cs)
  else none

/-- The octet where a pattern occurs first. -/
def find? (pattern cs : List Char) : Option Nat :=
  (cut? pattern cs).map fun found => byteSize found.1

/-- The octet where a character occurs last. -/
def findLast? (c : Char) : List Char → Option Nat
  | [] => none
  | d :: cs =>
    match findLast? c cs with
    | some offset => some (d.utf8Size + offset)
    | none => if d = c then some 0 else none

end Text

namespace Checked

def minus? (n m : Nat) : Option Nat :=
  if m ≤ n then some (n - m) else none

/-- What a trimmer knows that has read the octets between two places, each at its distance from
the first. -/
def trimmer? (octets : List UInt8) (start stop : Nat) : Option Trimmer :=
  (List.range' start (stop - start)).foldlM (fun t offset => do
    let seen ← minus? offset start
    let octet ← octets[offset]?
    return Trimmer.advance { t with seen } octet) Trimmer.start

/-- How the tag begins whose opening delimiter stands before the octet `body`. Only the octet
there is read, not the character. -/
def headAt (octets : List UInt8) (body : Nat) : Tag.Head :=
  match octets[body]? with
  | none => .ofBody []
  | some octet => .ofBody [Char.ofNat octet.toNat]

variable (source : List Char) (name : Option String)

/-! ## Places in messages -/

/-- The line and the column of an octet. -/
def place? (offset : Nat) : Option (Nat × Nat) := do
  let before ← Text.slice? 0 offset source
  let lineStart :=
    match Text.findLast? '\n' before with
    | none => 0
    | some found => found + 1
  let line ← Text.slice? lineStart (Text.byteSize before) before
  return (before.count '\n' + 1, line.length + 1)

def snippet? (line column : Nat) : Option Snippet := do
  let first := max (line - 2) 1
  let skipped ← minus? first 1
  let shown ← minus? (line + 3) first
  return ⟨((Snippet.numbered 1 (Text.lines source)).drop skipped).take shown, line, column⟩

def error? (fault : ParseFault) (offset : Nat) : Option ParseError := do
  let (line, column) ← place? source offset
  let snippet ← snippet? source line column
  return ⟨fault, line, column, name, snippet⟩

/-! ## Scanning -/

/-- A run by its octets, and those of them that are kept. -/
structure Stretch where
  start : Nat
  stop : Nat
  trimmer : Trimmer
  keepFrom : Nat
  keepTo : Nat

structure State where
  pos : Nat
  delimiters : Delimiters
  stretches : List Stretch
  tags : List Tag

def State.start (d : Delimiters) : State :=
  ⟨0, d, [], []⟩

/-- What a turn of the scan comes to. -/
inductive Turn where
  | ended (stretches : List Stretch) (tags : List Tag)
  | failed (error : ParseError)
  | going (state : State)

/-- Reads the tag whose opening delimiter stands at the octet `start`. -/
def readTag? (d : Delimiters) (start : Nat) : Option (Except ParseError Tag) := do
  let body := start + Text.byteSize d.opening.toList
  let head := headAt (Text.toOctets source) body
  let terminator := head.mark ++ d.closing.toList
  let contentStart := body + Text.byteSize head.sign
  let rest ← Text.slice? contentStart (Text.byteSize source) source
  match Text.find? terminator rest with
  | none => return .error (← error? source name .unclosedTag start)
  | some found =>
    let contentStop := contentStart + found
    let content ← Text.slice? contentStart contentStop source
    let (line, column) ← place? source start
    let span : Span := ⟨start, contentStop + Text.byteSize terminator, line, column⟩
    match Tag.delimitersAfter d head.kind content with
    | .error fault => return .error (← error? source name fault start)
    | .ok delimiters =>
      return .ok ⟨head.kind, String.ofList (Text.trim content), span, delimiters⟩

/-- Takes up the run from where the scan stands to the next opening delimiter or the end of the
source, and the tag behind it. -/
def turn? (state : State) : Option Turn := do
  let rest ← Text.slice? state.pos (Text.byteSize source) source
  let opening := (Text.find? state.delimiters.opening.toList rest).map (state.pos + ·)
  let stop := opening.getD (Text.byteSize source)
  let trimmer ← trimmer? (Text.toOctets source) state.pos stop
  let stretches := state.stretches ++ [⟨state.pos, stop, trimmer, state.pos, stop⟩]
  match opening with
  | none => return .ended stretches state.tags
  | some start =>
    match ← readTag? source name state.delimiters start with
    | .error error => return .failed error
    | .ok tag => return .going ⟨tag.span.stop, tag.delimiters, stretches, state.tags ++ [tag]⟩

def turns? : Nat → State → Option Turn
  | 0, state => some (.going state)
  | count + 1, state =>
    match turn? source name state with
    | some (.going state) => turns? count state
    | turn => turn

/-! ## Stand-alone tags -/

namespace Stretch

/-- Where the line of a tag behind the run begins, if only blanks stand before the tag. -/
def lineStart? (stretch : Stretch) : Option Nat :=
  match stretch.trimmer.rightDecision with
  | .allow boundary =>
    if boundary.atLineBreak || stretch.start == 0 then some (stretch.start + boundary.index)
    else none
  | .preserve => none

/-- Where the line of a tag before the run ends, if only blanks stand behind the tag. -/
def lineEnd? (sourceSize : Nat) (stretch : Stretch) : Option Nat :=
  match stretch.trimmer.leftDecision, stretch.trimmer.rightDecision with
  | .allow boundary, _ => some (stretch.start + boundary.index + 1)
  | .preserve, .allow boundary =>
    if !boundary.atLineBreak && stretch.stop == sourceSize then some stretch.stop else none
  | .preserve, .preserve => none

def keptFrom (offset : Nat) (stretch : Stretch) : Stretch :=
  { stretch with keepFrom := offset }

def keptTo (offset : Nat) (stretch : Stretch) : Stretch :=
  { stretch with keepTo := offset }

/-- What is kept lies in the run, and does not end before it begins. -/
structure Ordered (stretch : Stretch) : Prop where
  start_le : stretch.start ≤ stretch.keepFrom
  keep_le : stretch.keepFrom ≤ stretch.keepTo
  le_stop : stretch.keepTo ≤ stretch.stop

end Stretch

/-- Cuts the runs on both sides of the tag with the index if it stands alone. The answer is the
runs, and the indentation if the tag is a partial. -/
def cut? (index : Nat) (tag : Tag) (stretches : List Stretch) :
    Option (List Stretch × List Char) :=
  if tag.kind.mayStandAlone then do
    let before ← stretches[index]?
    match before.lineStart? with
    | none => return (stretches, [])
    | some cutFrom =>
      let after ← stretches[index + 1]?
      match after.lineEnd? (Text.byteSize source) with
      | none => return (stretches, [])
      | some cutTo =>
        let indentation ←
          if tag.kind = .inclusion then Text.slice? cutFrom before.stop source else some []
        let stretches := stretches.set index (before.keptTo cutFrom)
        return (stretches.set (index + 1) (after.keptFrom cutTo), indentation)
  else some (stretches, [])

/-- Cuts the runs beside each tag, and gives each tag its indentation. -/
def trim? (index : Nat) : List Tag → List Stretch → Option (List Stretch × List (Tag × List Char))
  | [], stretches => some (stretches, [])
  | tag :: tags, stretches => do
    let (stretches, indentation) ← cut? source index tag stretches
    let (stretches, rest) ← trim? (index + 1) tags stretches
    return (stretches, (tag, indentation) :: rest)

/-! ## Nesting -/

def close? (tag : Tag) (tree : Tree) : Option (Except ParseError Tree) :=
  match tree.enclosing with
  | [] => (error? source name (.unopenedSection tag.name) tag.span.start).map .error
  | (opener, before) :: enclosing =>
    if opener.name = tag.name then do
      let inner ← Text.slice? opener.span.stop tag.span.start source
      let closed := Node.block (Path.parse opener.name) (opener.kind = .opener true)
        tree.nodes.reverse (String.ofList inner) opener.delimiters opener.span
      return .ok ⟨closed :: before, enclosing⟩
    else
      (error? source name (.mismatchedSection opener.name tag.name) tag.span.start).map .error

def addTag? (tag : Tag) (indentation : List Char) (tree : Tree) :
    Option (Except ParseError Tree) :=
  match tag.kind with
  | .interpolation escape =>
    let node := Node.interpolation (Path.parse tag.name) escape tag.span
    some (.ok { tree with nodes := node :: tree.nodes })
  | .opener _ => some (.ok ⟨[], (tag, tree.nodes) :: tree.enclosing⟩)
  | .closer => close? source name tag tree
  | .inclusion =>
    let node := Node.inclusion tag.name (String.ofList indentation) tag.span
    some (.ok { tree with nodes := node :: tree.nodes })
  | .comment | .setDelimiters => some (.ok tree)

def finish? (tree : Tree) : Option (Except ParseError (List Node)) :=
  match tree.enclosing with
  | [] => some (.ok tree.nodes.reverse)
  | (opener, _) :: _ =>
    (error? source name (.unclosedSection opener.name) opener.span.start).map .error

/-- Adds the text of each run and the tag behind it, and finishes. -/
def build? (tree : Tree) :
    List Stretch → List (Tag × List Char) → Option (Except ParseError (List Node))
  | [], _ => finish? source name tree
  | stretch :: stretches, tags => do
    let text ← Text.slice? stretch.keepFrom stretch.keepTo source
    let tree := { tree with nodes := Tree.addText text tree.nodes }
    match tags with
    | [] => finish? source name tree
    | (tag, indentation) :: tags =>
      match ← addTag? source name tag indentation tree with
      | .error error => return .error error
      | .ok tree => build? tree stretches tags

end Checked

/-- Compiles a source by its offsets. A scan that takes more turns than the source has octets is
not waited for. -/
def Checked.parse? (source : String) (name : Option String) (d : Delimiters) :
    Option (Except ParseError Template) := do
  let cs := source.toList
  match ← turns? cs name (Text.byteSize cs + 1) (.start d) with
  | .going _ => none
  | .failed error => return .error error
  | .ended stretches tags =>
    let (stretches, placed) ← trim? cs 0 tags stretches
    match ← build? cs name ⟨[], []⟩ stretches placed with
    | .error error => return .error error
    | .ok nodes => return .ok ⟨name, nodes⟩

end Mustache
