import Mustache.Resolve

/-!
# Mustache.Proofs.Lookup

What one segment of a name means in a value, and lookups as walks from segment to segment. Where
a lookup arrives does not depend on what is done there: `Action.arrive` only says what it met, and
every other lookup is that one with its action applied to what it says.
-/

namespace Mustache

variable {m : Type → Type} [Monad m] {σ α β : Type}

/-! ## Segments -/

/-- What a segment means in a value. -/
inductive Hop (σ : Type) where
  /-- Nothing of that name. -/
  | missing
  /-- Something of that name that nobody can go to. -/
  | broken
  | member (item : Data σ)
  | method (f : Lambda σ)
  /-- A number of elements; a walk ends there. -/
  | count (n : Nat)

/-- What a segment means in host data without wrappers. -/
def Data.bareHop (name : String) : Data σ → Hop σ
  | .record fields methods =>
    match fields.lookup name with
    | some item => .member item
    | none =>
      match methods.lookup name with
      | none => .missing
      | some (.bound f) => .method f
      | some .unusable => .broken
  | .sequence items => if name = "len" then .count items.length else .missing
  | .lambda _ => .broken
  | _ => .missing

/-- What a segment means in a value. -/
def Value.hop (name : String) : Value σ → Hop σ
  | .host data => data.target.bareHop name
  | .count _ => .missing

/-- What a hop makes of the rest of a lookup. Behind a method nothing can be found, and behind a
number it is as if the number were not there. -/
def Hop.resolve (action : Action m σ α) (depth : Depth) (rest : List String)
    (index : Option Nat) : Hop σ → m (Resolution α)
  | .missing => pure depth.failure
  | .broken => pure .chainBroken
  | .member item => Mustache.resolve action .leaf (.host item) rest index
  | .method f => if rest = [] then action.onLambda f else pure .chainBroken
  | .count n => if rest = [] then action.onArrival (.count n) index else pure depth.failure

theorem resolve_cons (action : Action m σ α) (depth : Depth) (host : Value σ) (name : String)
    (rest : List String) (index : Option Nat) :
    resolve action depth host (name :: rest) index =
      (host.hop name).resolve action depth rest index := by
  cases host with
  | count n => rfl
  | host data =>
    rw [resolve, Value.hop]
    generalize data.target = target
    cases target with
    | record fields methods =>
      simp only [Data.bareHop]
      cases fields.lookup name with
      | some item => rfl
      | none =>
        cases methods.lookup name with
        | none => rfl
        | some method =>
          cases method with
          | bound f => cases rest <;> rfl
          | unusable => cases rest <;> rfl
    | sequence items =>
      by_cases hname : name = "len"
      · simp [Data.bareHop, hname, Hop.resolve]
      · simp [Data.bareHop, hname, Hop.resolve]
    | _ => rfl

/-! ## Actions -/

/-- Does something with what was found. -/
def Resolution.mapM (f : α → m β) : Resolution α → m (Resolution β)
  | .notFoundInContext => pure .notFoundInContext
  | .chainBroken => pure .chainBroken
  | .field result => do
    let result ← f result
    return .field result
  | .lambda result => do
    let result ← f result
    return .lambda result
  | .iteratorConsumed => pure .iteratorConsumed

namespace Action

/-- Gives what was met. -/
def arrive : Action Id σ (Value σ ⊕ Lambda σ) :=
  ⟨fun value => .inl value, fun f => .inr f⟩

/-- What the action makes of what was met. -/
def apply (action : Action m σ α) : Value σ ⊕ Lambda σ → m α
  | .inl value => action.field value
  | .inr f => action.lambda f

theorem onSingle_eq (action : Action m σ α) (value : Value σ) (index : Nat) :
    action.onSingle value index = (arrive.onSingle value index).run.mapM action.apply := by
  unfold onSingle
  split
  · rfl
  · rfl

theorem onElement_eq (action : Action m σ α) (index : Nat) (data : Data σ) :
    action.onElement index data = (arrive.onElement index data).run.mapM action.apply := by
  fun_induction action.onElement index data with
  | case1 items item h => rw [onElement, h]; rfl
  | case2 items h => rw [onElement, h]; rfl
  | case3 items item h => rw [onElement, h]; rfl
  | case4 items h => rw [onElement, h]; rfl
  | case5 => exact action.onSingle_eq _ index
  | case6 flag hflag =>
    rw [onElement, if_neg hflag]
    rfl
  | case7 target ih => exact ih
  | case8 value ih => exact ih
  | case9 => rfl
  | case10 f => rfl
  | case11 data =>
    rw [onElement]
    · exact action.onSingle_eq _ index
    all_goals assumption

theorem onArrival_eq (action : Action m σ α) (value : Value σ) (index : Option Nat) :
    action.onArrival value index = (arrive.onArrival value index).run.mapM action.apply := by
  cases index with
  | none => rfl
  | some index =>
    cases value with
    | host data => exact action.onElement_eq index data
    | count n => exact action.onSingle_eq _ index

end Action

theorem Depth.failure_eq (f : α → m β) (depth : Depth) :
    (pure depth.failure : m (Resolution β)) = depth.failure.mapM f := by
  cases depth <;> rfl

/-- Where a lookup arrives does not depend on its action. -/
theorem resolve_eq (action : Action m σ α) (depth : Depth) (host : Value σ) (path : List String)
    (index : Option Nat) :
    resolve action depth host path index =
      (resolve .arrive depth host path index).run.mapM action.apply := by
  induction path generalizing depth host with
  | nil =>
    unfold resolve
    split
    · rfl
    · exact action.onArrival_eq host index
  | cons name rest ih =>
    rw [resolve_cons, resolve_cons]
    cases host.hop name with
    | missing => exact Depth.failure_eq action.apply depth
    | broken => rfl
    | member item => exact ih .leaf (.host item)
    | method f =>
      rw [Hop.resolve, Hop.resolve]
      split
      · rfl
      · rfl
    | count n =>
      rw [Hop.resolve, Hop.resolve]
      split
      · exact action.onArrival_eq (.count n) index
      · exact Depth.failure_eq action.apply depth

end Mustache
