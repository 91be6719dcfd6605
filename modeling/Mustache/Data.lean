import Mustache.Lambda
import Mustache.Text.Bytes

/-!
# Mustache.Data

Host data: the values that templates are rendered against, by what a template can do with them.
-/

namespace Mustache

inductive Method (σ : Type) where
  | bound (lambda : Lambda σ)
  /-- A member of that name exists but cannot be called. -/
  | unusable

/-- A value of host data. Of two members of a record with one name the first one counts. -/
inductive Data (σ : Type) where
  /-- Named members; the methods are looked up only where no field has the name. -/
  | record (fields : List (String × Data σ)) (methods : List (String × Method σ))
  /-- A wrapper around another value. -/
  | pointer (target : Data σ)
  | absent
  | present (value : Data σ)
  | sequence (items : List (Data σ))
  | tuple (items : List (Data σ))
  /-- Octets that stand for text. -/
  | bytes (octets : List UInt8)
  | string (text : String)
  | bool (flag : Bool)
  /-- Any other value with a text. -/
  | scalar (text : String)
  | lambda (lambda : Lambda σ)

instance {σ : Type} : Inhabited (Data σ) := ⟨.absent⟩

def Data.kind {σ : Type} : Data σ → String
  | .record .. => "record"
  | .pointer _ => "pointer"
  | .absent | .present _ => "optional"
  | .sequence _ => "sequence"
  | .tuple _ => "tuple"
  | .bytes _ => "bytes"
  | .string _ => "string"
  | .bool _ => "bool"
  | .scalar _ => "scalar"
  | .lambda _ => "lambda"

/-- What a name can stand for: a value of the host, or the number of elements of one. -/
inductive Value (σ : Type) where
  | host (data : Data σ)
  | count (n : Nat)

namespace Value

variable {σ : Type}

def debugText : Value σ → String
  | .host data => "Ref(" ++ data.kind ++ ")"
  | .count n => "Count(" ++ toString n ++ ")"

def data? : Value σ → Option (Data σ)
  | .host data => some data
  | .count _ => none

end Value

/-! ## Text -/

def boolText (flag : Bool) : String :=
  if flag then "true" else "false"

namespace Data

variable {σ : Type}

def bytesText (octets : List UInt8) : String :=
  String.ofList (Text.ofOctetsLossy octets)

/-- The chunks that a value is written in. Wrappers are written as what they hold; records,
lists, lambdas and what is absent have no text. -/
def chunks (escape : Escape) : Data σ → List String
  | .string text => escape.chunks text
  | .bytes octets => escape.chunks (bytesText octets)
  | .scalar text => escape.chunks text
  | .bool flag => [boolText flag]
  | .pointer target => target.chunks escape
  | .present value => value.chunks escape
  | .absent | .record .. | .sequence _ | .tuple _ | .lambda _ => []

/-- How many octets the text of a value takes before escaping. -/
def size : Data σ → Nat
  | .string text => text.utf8ByteSize
  | .bytes octets => octets.length
  | .scalar text => text.utf8ByteSize
  | .bool flag => (boolText flag).utf8ByteSize
  | .pointer target => target.size
  | .present value => value.size
  | .absent | .record .. | .sequence _ | .tuple _ | .lambda _ => 0

end Data

namespace Value

variable {σ : Type}

def chunks (escape : Escape) : Value σ → List String
  | .host data => data.chunks escape
  | .count n => [toString n]

/-- How many octets the text of a value takes before escaping. -/
def size : Value σ → Nat
  | .host data => data.size
  | .count n => (toString n).utf8ByteSize

end Value

/-! ## Elements -/

inductive Entries (σ : Type) where
  | each (values : List (Value σ))
  /-- One call instead of any iteration. -/
  | lambda (lambda : Lambda σ)

namespace Data

variable {σ : Type}

/-- What wrappers hold at last. -/
def target : Data σ → Data σ
  | .pointer target => target.target
  | .present value => value.target
  | data => data

/-- The elements of lists and tuples; any other value is its own only element, unless it is
false or absent. -/
def entries : Data σ → Entries σ
  | .sequence items | .tuple items => .each (items.map .host)
  | .bool flag => .each (if flag then [.host (.bool true)] else [])
  | .pointer target => target.entries
  | .present value => value.entries
  | .absent => .each []
  | .lambda f => .lambda f
  | data => .each [.host data]

end Data

def Value.entries {σ : Type} : Value σ → Entries σ
  | .host data => data.entries
  | .count n => .each [.count n]

end Mustache
