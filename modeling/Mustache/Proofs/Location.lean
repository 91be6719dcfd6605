import Mustache.Proofs.Lookup
import Mustache.Proofs.Steps

/-!
# Mustache.Proofs.Location

Where lookups arrive. A lookup goes to one location whatever its action is: it fails there, or it
calls the action once. `locate` and `locateFrames` give the location; `resolve_eq_act` and
`resolveFrames_eq_act` say that every lookup is its action at the location.
-/

namespace Mustache

variable {m : Type → Type} [Monad m] {σ α : Type}

inductive Location (σ : Type) where
  | missing
  | broken
  | consumed
  | field (value : Value σ)
  | lambda (f : Lambda σ)

/-- What an action makes of a location. -/
def Location.act (action : Action m σ α) : Location σ → m (Resolution α)
  | .missing => pure .notFoundInContext
  | .broken => pure .chainBroken
  | .consumed => pure .iteratorConsumed
  | .field value => action.onField value
  | .lambda f => action.onLambda f

/-! ## Elements -/

def Entries.atIndex (index : Nat) : Entries σ → Location σ
  | .each values =>
    match values[index]? with
    | some value => .field value
    | none => .consumed
  | .lambda f => .lambda f

theorem Entries.atIndex_ne_missing (index : Nat) (entries : Entries σ) :
    entries.atIndex index ≠ .missing := by
  cases entries with
  | each values =>
    rw [Entries.atIndex]
    split <;> simp
  | lambda f => simp [Entries.atIndex]

/-- The value itself, or its element if an index is given. -/
def Value.arrival (value : Value σ) : Option Nat → Location σ
  | none => .field value
  | some index => value.entries.atIndex index

theorem Action.onSingle_eq_act (action : Action m σ α) (value : Value σ) (index : Nat) :
    action.onSingle value index = ((Entries.each [value]).atIndex index).act action := by
  cases index with
  | zero => rfl
  | succ index => simp [onSingle, Entries.atIndex, Location.act]

theorem Action.onElement_eq_act (action : Action m σ α) (index : Nat) (data : Data σ) :
    action.onElement index data = (data.entries.atIndex index).act action := by
  fun_induction action.onElement index data with
  | case1 items item h | case3 items item h =>
    simp [Data.entries, Entries.atIndex, h, Location.act]
  | case2 items h | case4 items h =>
    simp [Data.entries, Entries.atIndex, h, Location.act]
  | case5 => exact action.onSingle_eq_act _ index
  | case6 flag hflag =>
    rw [Data.entries, if_neg hflag]
    rfl
  | case7 target ih | case8 target ih => rw [ih, Data.entries]
  | case9 => rfl
  | case10 f => rfl
  | case11 data =>
    rw [onSingle_eq_act, Data.entries]
    all_goals assumption

theorem Action.onArrival_eq_act (action : Action m σ α) (value : Value σ) (index : Option Nat) :
    action.onArrival value index = (value.arrival index).act action := by
  cases index with
  | none => rfl
  | some index =>
    cases value with
    | host data => exact action.onElement_eq_act index data
    | count n => exact action.onSingle_eq_act _ index

/-! ## One value -/

def Depth.location : Depth → Location σ
  | .root => .missing
  | .leaf => .broken

theorem Depth.failure_eq_act (action : Action m σ α) (depth : Depth) :
    (pure depth.failure : m (Resolution α)) = depth.location.act action := by
  cases depth <;> rfl

def locate (depth : Depth) (host : Value σ) (path : List String) (index : Option Nat) :
    Location σ :=
  match path with
  | [] =>
    match host with
    | .host (.lambda f) => .lambda f
    | _ => host.arrival index
  | name :: rest =>
    match host.hop name with
    | .missing => depth.location
    | .broken => .broken
    | .member item => locate .leaf (.host item) rest index
    | .method f => if rest = [] then .lambda f else .broken
    | .count n => if rest = [] then (Value.count n).arrival index else depth.location

theorem resolve_eq_act (action : Action m σ α) (depth : Depth) (host : Value σ)
    (path : List String) (index : Option Nat) :
    resolve action depth host path index = (locate depth host path index).act action := by
  induction path generalizing depth host with
  | nil =>
    by_cases h : ∃ f, host = .host (.lambda f)
    · obtain ⟨f, rfl⟩ := h
      rfl
    · have hlambda (f : Lambda σ) (hf : host = .host (.lambda f)) : False := h ⟨f, hf⟩
      rw [resolve, locate]
      · exact action.onArrival_eq_act host index
      · exact hlambda
      · exact hlambda
  | cons name rest ih =>
    rw [resolve_cons, locate]
    cases host.hop name with
    | missing => exact depth.failure_eq_act action
    | broken => rfl
    | member item => exact ih .leaf (.host item)
    | method f =>
      by_cases hrest : rest = []
      · simp [Hop.resolve, hrest, Location.act]
      · simp [Hop.resolve, hrest, Location.act]
    | count n =>
      by_cases hrest : rest = []
      · simpa [Hop.resolve, hrest] using action.onArrival_eq_act (.count n) index
      · simpa [Hop.resolve, hrest] using depth.failure_eq_act action

/-! ## A stack of contexts -/

def locateFrames (frames : List (Value σ)) (path : Path) (index : Option Nat) : Location σ :=
  match frames with
  | [] => .broken
  | frame :: frames =>
    match locate .root frame path.segments index with
    | .missing => locateFrames frames path index
    | location => location

theorem resolveFrames_eq_act [LawfulMonad m] (action : Action m σ α) (frames : List (Value σ))
    (path : Path) (index : Option Nat) :
    resolveFrames action frames path index = (locateFrames frames path index).act action := by
  induction frames with
  | nil => rfl
  | cons frame frames ih =>
    rw [resolveFrames, locateFrames, resolve_eq_act]
    cases locate .root frame path.segments index with
    | missing => simp [Location.act, ih]
    | broken | consumed => simp [Location.act]
    | field value => simp [Location.act, Action.onField]
    | lambda f => simp [Location.act, Action.onLambda]

/-- A stack of contexts is decided by the innermost context where the first segment is not
missing. -/
theorem locateFrames_cases (frames : List (Value σ)) (path : Path) (index : Option Nat) :
    (locateFrames frames path index = .broken ∧
      ∀ frame ∈ frames, locate .root frame path.segments index = .missing) ∨
    ∃ skipped frame outer, frames = skipped ++ frame :: outer ∧
      (∀ inner ∈ skipped, locate .root inner path.segments index = .missing) ∧
      locate .root frame path.segments index ≠ .missing ∧
      locateFrames frames path index = locate .root frame path.segments index := by
  induction frames with
  | nil =>
    left
    exact ⟨rfl, by simp⟩
  | cons frame frames ih =>
    by_cases hmissing : locate .root frame path.segments index = .missing
    · have hframes :
          locateFrames (frame :: frames) path index = locateFrames frames path index := by
        rw [locateFrames, hmissing]
      rw [hframes]
      obtain ⟨hbroken, hall⟩ | ⟨skipped, decisive, outer, rfl, hall, hdecisive, hlocation⟩ := ih
      · left
        exact ⟨hbroken, by simpa [hmissing] using hall⟩
      · right
        refine ⟨frame :: skipped, decisive, outer, rfl, ?_, hdecisive, hlocation⟩
        simpa [hmissing] using hall
    · right
      refine ⟨[], frame, frames, rfl, by simp, hmissing, ?_⟩
      rw [locateFrames]
      split
      · next h => exact absurd h hmissing
      · rfl

theorem locateFrames_ne_missing (frames : List (Value σ)) (path : Path) (index : Option Nat) :
    locateFrames frames path index ≠ .missing := by
  obtain ⟨hbroken, _⟩ | ⟨_, _, _, _, _, hdecisive, hlocation⟩ :=
    locateFrames_cases frames path index
  · rw [hbroken]
    nofun
  · rwa [hlocation]

/-! ## Calls of an action -/

def Location.calls : Location σ → List (Value σ ⊕ Lambda σ)
  | .field value => [.inl value]
  | .lambda f => [.inr f]
  | .missing | .broken | .consumed => []

/-- The action, and a note of each call of it. -/
def Action.noting (action : Action m σ α) : Action (StateT (List (Value σ ⊕ Lambda σ)) m) σ α where
  field value := fun notes => do
    let result ← action.field value
    return (result, notes ++ [.inl value])
  lambda f := fun notes => do
    let result ← action.lambda f
    return (result, notes ++ [.inr f])

theorem Action.noting_field (action : Action m σ α) (value : Value σ)
    (notes : List (Value σ ⊕ Lambda σ)) :
    (action.noting.field value).run notes = (do
      let result ← action.field value
      return (result, notes ++ [.inl value])) :=
  rfl

theorem Action.noting_lambda (action : Action m σ α) (f : Lambda σ)
    (notes : List (Value σ ⊕ Lambda σ)) :
    (action.noting.lambda f).run notes = (do
      let result ← action.lambda f
      return (result, notes ++ [.inr f])) :=
  rfl

/-- A lookup is decided by a location, whatever its action is: the action is called once with the
value or the lambda there and its result is wrapped accordingly, or it is not called at all. So
the lookup fails only with an error of the action. -/
structure Location.Decides (location : Location σ)
    (lookup : ∀ {m : Type → Type} [Monad m] {α : Type}, Action m σ α → m (Resolution α)) :
    Prop where
  act_eq : ∀ {m : Type → Type} [Monad m] [LawfulMonad m] {α : Type} (action : Action m σ α),
    lookup action = location.act action
  noted : ∀ {m : Type → Type} [Monad m] [LawfulMonad m] {α : Type} (action : Action m σ α)
    (notes : List (Value σ ⊕ Lambda σ)),
    (lookup action.noting).run notes =
      (fun found => (found, notes ++ location.calls)) <$> lookup action
  error_iff : ∀ {ε α : Type} (action : Action (Except ε) σ α) (error : ε),
    lookup action = .error error ↔
      (∃ value, location = .field value ∧ action.field value = .error error) ∨
      ∃ f, location = .lambda f ∧ action.lambda f = .error error

theorem Location.act_noting [LawfulMonad m] (location : Location σ) (action : Action m σ α)
    (notes : List (Value σ ⊕ Lambda σ)) :
    (location.act action.noting).run notes =
      (fun found => (found, notes ++ location.calls)) <$> location.act action := by
  cases location with
  | missing | broken | consumed => simp [act, calls]
  | field value => simp [act, calls, Action.onField, action.noting_field]
  | lambda f => simp [act, calls, Action.onLambda, action.noting_lambda]

theorem Location.act_eq_error_iff {ε : Type} (location : Location σ)
    (action : Action (Except ε) σ α) (error : ε) :
    location.act action = .error error ↔
      (∃ value, location = .field value ∧ action.field value = .error error) ∨
      ∃ f, location = .lambda f ∧ action.lambda f = .error error := by
  cases location with
  | missing | broken | consumed => simp [act, pure, Except.pure]
  | field value =>
    cases h : action.field value <;>
      simp [act, Action.onField, h, bind, Except.bind, pure, Except.pure]
  | lambda f =>
    cases h : action.lambda f <;>
      simp [act, Action.onLambda, h, bind, Except.bind, pure, Except.pure]

theorem locate_decides (depth : Depth) (host : Value σ) (path : List String)
    (index : Option Nat) :
    (locate depth host path index).Decides fun action => resolve action depth host path index where
  act_eq action := resolve_eq_act action depth host path index
  noted action notes := by
    rw [resolve_eq_act, resolve_eq_act, Location.act_noting]
  error_iff action error := by
    rw [resolve_eq_act, Location.act_eq_error_iff]

theorem locateFrames_decides (frames : List (Value σ)) (path : Path) (index : Option Nat) :
    (locateFrames frames path index).Decides fun action =>
      resolveFrames action frames path index where
  act_eq action := resolveFrames_eq_act action frames path index
  noted action notes := by
    rw [resolveFrames_eq_act, resolveFrames_eq_act, Location.act_noting]
  error_iff action error := by
    rw [resolveFrames_eq_act, Location.act_eq_error_iff]

theorem Location.eq_lambda_of_act {ω : Type} {location : Location σ}
    {action : Action (Render ω σ) σ α} {out out' : Output ω σ} {result : α}
    (h : location.act action out = (.ok (.lambda result), out')) :
    ∃ f, location = .lambda f ∧ action.lambda f out = (.ok result, out') := by
  cases location with
  | missing | broken | consumed => cases h
  | field value =>
    rw [act, Action.onField, Render.bind_eq_ok_iff] at h
    obtain ⟨_, _, _, hwrapped⟩ := h
    cases hwrapped
  | lambda f =>
    rw [act, Action.onLambda, Render.bind_eq_ok_iff] at h
    obtain ⟨result', out₁, hcall, hwrapped⟩ := h
    cases hwrapped
    exact ⟨f, rfl, hcall⟩

theorem Location.get_eq_lambda_iff (location : Location σ) :
    (location.act Action.get).run = .lambda none ↔ ∃ f, location = .lambda f := by
  constructor
  · intro h
    cases location with
    | lambda f => exact ⟨f, rfl⟩
    | _ => cases h
  · rintro ⟨f, rfl⟩
    rfl

/-- Every lookup has one location, which no action has a say in: there the action is called once,
or it is not called at all. In a stack of contexts it is the location in the innermost context
where the first segment is not missing; the contexts within that one call nothing. A lambda that
one lookup reports is therefore the lambda that any other lookup of the same name calls. -/
theorem lookup_has_location :
    (∀ (depth : Depth) (host : Value σ) (path : List String) (index : Option Nat),
      ∃ location : Location σ,
        location.Decides fun action => resolve action depth host path index) ∧
    ∀ (frames : List (Value σ)) (path : Path) (index : Option Nat),
      ∃ location : Location σ,
        (location.Decides fun action => resolveFrames action frames path index) ∧
        ((location = .broken ∧ ∀ frame ∈ frames,
            Location.missing.Decides fun action =>
              resolve action .root frame path.segments index) ∨
          ∃ skipped frame outer, frames = skipped ++ frame :: outer ∧
            (∀ inner ∈ skipped, Location.missing.Decides fun action =>
              resolve action .root inner path.segments index) ∧
            location ≠ .missing ∧
            location.Decides fun action => resolve action .root frame path.segments index) ∧
        ((resolveFrames .get frames path index).run = .lambda none ↔
          ∃ f, location = .lambda f) ∧
        ∀ (ω α : Type) (action : Action (Render ω σ) σ α) (out out' : Output ω σ) (result : α),
          resolveFrames action frames path index out = (.ok (.lambda result), out') →
            ∃ f, location = .lambda f ∧ action.lambda f out = (.ok result, out') := by
  constructor
  · intro depth host path index
    exact ⟨_, locate_decides depth host path index⟩
  · intro frames path index
    refine ⟨_, locateFrames_decides frames path index, ?_, ?_, ?_⟩
    · obtain ⟨hbroken, hall⟩ | ⟨skipped, frame, outer, hframes, hall, hdecisive, hlocation⟩ :=
        locateFrames_cases frames path index
      · left
        refine ⟨hbroken, ?_⟩
        intro frame hframe
        rw [← hall frame hframe]
        exact locate_decides .root frame path.segments index
      · right
        refine ⟨skipped, frame, outer, hframes, ?_, ?_, ?_⟩
        · intro inner hinner
          rw [← hall inner hinner]
          exact locate_decides .root inner path.segments index
        · rw [hlocation]
          exact hdecisive
        · rw [hlocation]
          exact locate_decides .root frame path.segments index
    · rw [resolveFrames_eq_act]
      exact Location.get_eq_lambda_iff _
    · intro ω α action out out' result h
      rw [resolveFrames_eq_act] at h
      exact Location.eq_lambda_of_act h

/-- A lambda of the outer context, behind a text that has no members. -/
theorem lookup_outer_lambda :
    let frames : List (Value Unit) :=
      [.host (.string "t"), .host (.record [("f", .lambda fun _ => .emit "x")] [])]
    let action : Action (Render String Unit) Unit Unit :=
      ⟨fun _ => pure (),
        fun f => expandLambda Sink.text (fun _ _ _ => Render.exhaust) frames f ⟨"", .raw, .braces⟩⟩
    ∃ f, (resolveFrames .arrive frames ⟨["f"]⟩ none).run = .lambda (.inr f) ∧
      action.lambda f ⟨"", ()⟩ = (.ok (), ⟨"x", ()⟩) := by
  intro frames action
  obtain ⟨location, hdecides, _, _, hreport⟩ := lookup_has_location.2 frames ⟨["f"]⟩ none
  obtain ⟨f, rfl, hcall⟩ := hreport String Unit action ⟨"", ()⟩ ⟨"x", ()⟩ () rfl
  exact ⟨f, congrArg Id.run (hdecides.act_eq .arrive), hcall⟩

end Mustache
