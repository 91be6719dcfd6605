import Mustache.Lambda

/-!
# Mustache.Lambda.Recorder

A host that answers every request with success and remembers it.
-/

namespace Mustache

inductive Request where
  | write (text : String) (escape : Escape)
  | render (template : String) (delimiters : Delimiters) (escape : Escape)

/-- The requests so far, last first, and the state of the lambdas. -/
structure Record (σ : Type) where
  requests : List Request
  store : σ

def Host.recorder (σ : Type) : Host (StateM (Record σ)) σ where
  write text escape := fun r => (.ok (), { r with requests := .write text escape :: r.requests })
  render template delimiters escape := fun r =>
    (.ok (), { r with requests := .render template delimiters escape :: r.requests })
  get := fun r => (r.store, r)
  put store := fun r => ((), { r with store })

end Mustache
