import Mustache.Error
import Mustache.Text.Bytes

/-!
# Mustache.Sink

Where rendered text goes. A sink takes chunks of text one after the other and says which lambda
failures are its own: those end the render, all others are problems of the template.
-/

namespace Mustache

/-- A destination whose contents are a value of `ω`. -/
structure Sink (ω : Type) where
  /-- Takes a chunk, or refuses it. -/
  write : String → ω → Except SinkError Unit × ω
  /-- The sink's own error behind a lambda failure; `none` for a foreign failure. -/
  recognize : Failure → Option SinkError

namespace Sink

/-- What any sink takes for its own: sink errors, bare or inside an engine error, and failures
of input or output. -/
def recognizeOwn : Failure → Option SinkError
  | .sink error => some error
  | .engine (.sink error) => some error
  | .channel cause => some (.write cause)
  | .engine _ | .foreign .. => none

def text : Sink String :=
  ⟨fun chunk held => (.ok (), held ++ chunk), recognizeOwn⟩

/-- A text that grows on behalf of another sink, which decides on failures. -/
def scratch (recognize : Failure → Option SinkError) : Sink String :=
  { text with recognize }

end Sink

/-! ## Bounded sinks -/

structure Writer where
  held : Array UInt8
  /-- How many more octets it takes; `none` if there is no bound. -/
  room : Option Nat

namespace Sink

/-- Writes a chunk octet by octet. A chunk that does not fit is cut where the room ends, and the
write fails for the reason given. -/
def writer (full : String) : Sink Writer :=
  ⟨fun chunk w =>
    let octets := chunk.toUTF8.data
    match w.room with
    | none => (.ok (), { w with held := w.held ++ octets })
    | some room =>
      let held := w.held ++ octets.extract 0 room
      if octets.size ≤ room then (.ok (), ⟨held, some (room - octets.size)⟩)
      else (.error (.write full), ⟨held, some 0⟩),
    recognizeOwn⟩

end Sink

/-- The chunks taken so far, last first, and how many octets are still taken. -/
structure ChunkLog where
  taken : List String
  room : Option Nat

namespace ChunkLog

def chunks (log : ChunkLog) : List String :=
  log.taken.reverse

def ofRoom (room : Option Nat) : ChunkLog := ⟨[], room⟩

end ChunkLog

namespace Sink

/-- Keeps every chunk as it came. A chunk longer than the room left is refused whole. -/
def chunkLog (refusal : SinkError) (recognize : Failure → Option SinkError) : Sink ChunkLog :=
  ⟨fun chunk log =>
    match log.room with
    | none => (.ok (), { log with taken := chunk :: log.taken })
    | some room =>
      if chunk.utf8ByteSize ≤ room then
        (.ok (), ⟨chunk :: log.taken, some (room - chunk.utf8ByteSize)⟩)
      else (.error refusal, log),
    recognize⟩

end Sink
end Mustache
