import Mustache.Data
import Mustache.Path

/-!
# Mustache.Resolve

Looking up dotted names. One traversal serves all purposes: what happens with the value or lambda
it arrives at is up to an action. A name whose first segment is missing may still be found in an
enclosing context; one that goes wrong further on may not.
-/

namespace Mustache

/-- Whether the first segment of a name is being looked up, or a later one. -/
inductive Depth where
  | root
  | leaf
  deriving DecidableEq, Repr

inductive Resolution (α : Type) where
  /-- The first segment is missing here; an enclosing context may have it. -/
  | notFoundInContext
  /-- The name goes wrong behind its first segment. -/
  | chainBroken
  | field (result : α)
  | lambda (result : α)
  /-- The index is past the last element. -/
  | iteratorConsumed
  deriving DecidableEq, Repr

def Resolution.isResolved {α : Type} : Resolution α → Bool
  | .field _ | .lambda _ => true
  | .notFoundInContext | .chainBroken | .iteratorConsumed => false

structure Action (m : Type → Type) (σ α : Type) where
  field : Value σ → m α
  lambda : Lambda σ → m α

/-- How a lookup fails at a depth. -/
def Depth.failure {α : Type} : Depth → Resolution α
  | .root => .notFoundInContext
  | .leaf => .chainBroken

section Traversal

variable {m : Type → Type} [Monad m] {σ α : Type}

def Action.onField (action : Action m σ α) (value : Value σ) : m (Resolution α) := do
  let result ← action.field value
  return .field result

def Action.onLambda (action : Action m σ α) (f : Lambda σ) : m (Resolution α) := do
  let result ← action.lambda f
  return .lambda result

/-- Arrives at a value that is its own only element. -/
def Action.onSingle (action : Action m σ α) (value : Value σ) (index : Nat) :
    m (Resolution α) :=
  if index = 0 then action.onField value else pure .iteratorConsumed

def Action.onElement (action : Action m σ α) (index : Nat) : Data σ → m (Resolution α)
  | .sequence items | .tuple items =>
    match items[index]? with
    | some item => action.onField (.host item)
    | none => pure .iteratorConsumed
  | .bool flag =>
    if flag then action.onSingle (.host (.bool flag)) index else pure .iteratorConsumed
  | .pointer target => action.onElement index target
  | .present value => action.onElement index value
  | .absent => pure .iteratorConsumed
  | .lambda f => action.onLambda f
  | data => action.onSingle (.host data) index

/-- Arrives at a value, or at its element if an index is given. -/
def Action.onArrival (action : Action m σ α) (value : Value σ) (index : Option Nat) :
    m (Resolution α) :=
  match index with
  | none => action.onField value
  | some index =>
    match value with
    | .host data => action.onElement index data
    | .count _ => action.onSingle value index

/-- Looks up a path, and an index if one is given, in one value. -/
def resolve (action : Action m σ α) (depth : Depth) (host : Value σ) (path : List String)
    (index : Option Nat) : m (Resolution α) :=
  match path with
  | [] =>
    match host with
    | .host (.lambda f) => action.onLambda f
    | _ => action.onArrival host index
  | name :: rest =>
    match host with
    | .count _ => pure depth.failure
    | .host data =>
      match data.target with
      | .record fields methods =>
        match fields.lookup name with
        | some field => resolve action .leaf (.host field) rest index
        | none =>
          match methods.lookup name, rest with
          | none, _ => pure depth.failure
          | some (.bound f), [] => action.onLambda f
          | some _, _ => pure .chainBroken
      | .sequence items =>
        if name = "len" ∧ rest = [] then action.onArrival (.count items.length) index
        else pure depth.failure
      | .lambda _ => pure .chainBroken
      | _ => pure depth.failure

/-- Looks up a path in a stack of contexts, innermost first. -/
def resolveFrames (action : Action m σ α) (frames : List (Value σ)) (path : Path)
    (index : Option Nat) : m (Resolution α) :=
  match frames with
  | [] => pure .chainBroken
  | frame :: frames => do
    let found ← resolve action .root frame path.segments index
    match found with
    | .notFoundInContext => resolveFrames action frames path index
    | _ => return found

end Traversal

/-! ## Actions -/

namespace Action

variable {σ : Type}

/-- Gives the value; a lambda has none. -/
def get : Action Id σ (Option (Value σ)) :=
  ⟨fun value => some value, fun _ => none⟩

/-- Estimates how many octets the value is written in. -/
def size : Action Id σ Nat :=
  ⟨Value.size, fun _ => 0⟩

end Action

end Mustache
