/-!
# Mustache.Trimmer

Which ends of a run of literal text may be removed when a tag beside the run stands alone on its
line. A trimmer reads the run octet by octet and can say at any time what it would allow.
-/

namespace Mustache

/-- Where a permitted cut lies, in octets from the start of the run: on the left the last octet
removed, on the right the first one. -/
structure Boundary where
  index : Nat
  /-- Whether the cut lies at a line break; if not, the run is all blank and has none. -/
  atLineBreak : Bool
  deriving DecidableEq, Repr

/-- What may be removed at one end of a run. -/
inductive TrimDecision where
  | preserve
  | allow (boundary : Boundary)
  deriving DecidableEq, Repr

inductive FirstBreak where
  /-- Only blanks so far. -/
  | pending
  /-- Content came before any line break. -/
  | barred
  /-- Only blanks before the break at this index. -/
  | found (index : Nat)
  deriving DecidableEq, Repr

inductive LastBreak where
  /-- No line break so far. -/
  | absent
  /-- Content came after the last line break. -/
  | barred
  /-- Only blanks since the break at this index. -/
  | found (index : Nat)
  deriving DecidableEq, Repr

structure Trimmer where
  seen : Nat
  /-- Whether the last octet was a carriage return that may belong to a line break. -/
  pendingReturn : Bool
  first : FirstBreak
  last : LastBreak
  deriving DecidableEq, Repr

namespace Trimmer

def start : Trimmer := ⟨0, false, .pending, .absent⟩

/-- Notes a line break at the current octet. -/
def lineBreak (t : Trimmer) : Trimmer :=
  { t with
    first := if t.first = .pending then .found t.seen else t.first
    last := .found t.seen }

/-- Notes that something other than a blank stands here. -/
def content (t : Trimmer) : Trimmer :=
  if t.first = .pending then { t with first := .barred }
  else if t.last = .absent then t
  else { t with last := .barred }

/-- Reads an octet that does not follow a pending carriage return. -/
def read (t : Trimmer) (octet : UInt8) : Trimmer :=
  if octet = 0x0D then { t with pendingReturn := true }
  else if octet = 0x0A then t.lineBreak
  else if octet = 0x20 ∨ octet = 0x09 then t
  else t.content

/-- Reads one octet. A carriage return is content unless a line feed follows it. -/
def advance (t : Trimmer) (octet : UInt8) : Trimmer :=
  let now := { t with pendingReturn := false }
  let read :=
    if t.pendingReturn then
      if octet = 0x0A then now.lineBreak else now.content.read octet
    else now.read octet
  { read with seen := t.seen + 1 }

def scan (octets : List UInt8) : Trimmer :=
  octets.foldl advance start

/-- Whether the head of the run, through its first line break, may be removed. -/
def leftDecision (t : Trimmer) : TrimDecision :=
  match t.first with
  | .found index => .allow ⟨index, true⟩
  | .pending | .barred => .preserve

/-- Whether the tail of the run, after its last line break, may be removed. -/
def rightDecision (t : Trimmer) : TrimDecision :=
  if t.pendingReturn then .preserve
  else
    match t.last, t.first with
    | .found index, _ => .allow ⟨index + 1, true⟩
    | .absent, .pending => .allow ⟨0, false⟩
    | .absent, _ | .barred, _ => .preserve

end Trimmer
end Mustache
