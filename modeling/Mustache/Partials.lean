import Mustache.Render

/-!
# Mustache.Partials

Partials held in memory.
-/

namespace Mustache

structure PartialStore where
  entries : List (String × String)

namespace PartialStore

def empty : PartialStore := ⟨[]⟩

def remove (store : PartialStore) (name : String) : PartialStore :=
  ⟨store.entries.filter fun entry => entry.1 ≠ name⟩

/-- Adds a partial in place of any other of its name. -/
def add (store : PartialStore) (name source : String) : PartialStore :=
  ⟨(name, source) :: (store.remove name).entries⟩

def source? (store : PartialStore) (name : String) : Option String :=
  store.entries.lookup name

def contains (store : PartialStore) (name : String) : Bool :=
  (store.source? name).isSome

def size (store : PartialStore) : Nat :=
  store.entries.length

def isEmpty (store : PartialStore) : Bool :=
  store.size = 0

/-- The store as the partials of an engine; a missing partial is no error. -/
def partials (store : PartialStore) : Partials :=
  fun name => .ok (store.source? name)

end PartialStore
end Mustache
