import Mustache.Proofs.Location

/-!
# Mustache.Proofs.Enumeration

What sections go through. Looking the name of a section up with one index after the other gives
the elements of what it stands for, one lambda, or nothing; the section renders its body with each
of the elements, calls the lambda once, or does nothing.
-/

namespace Mustache

variable {m : Type → Type} [Monad m] {ω σ α : Type}

/-! ## Elements by index -/

/-- Where a lookup arrives with an index, if it arrives at the location without one. -/
def Location.atIndex (index : Nat) : Location σ → Location σ
  | .field value => value.entries.atIndex index
  | location => location

theorem Location.atIndex_eq_missing_iff (index : Nat) (location : Location σ) :
    location.atIndex index = .missing ↔ location = .missing := by
  cases location with
  | field value => simp [Location.atIndex, Entries.atIndex_ne_missing]
  | _ => simp [Location.atIndex]

theorem locate_some (depth : Depth) (host : Value σ) (path : List String) (index : Nat) :
    locate depth host path (some index) = (locate depth host path none).atIndex index := by
  have hfailure (depth : Depth) :
      (depth.location : Location σ) = depth.location.atIndex index := by
    cases depth <;> rfl
  induction path generalizing depth host with
  | nil =>
    unfold locate
    split
    · rfl
    · rfl
  | cons name rest ih =>
    rw [locate, locate]
    cases host.hop name with
    | missing => exact hfailure depth
    | broken => rfl
    | member item => exact ih .leaf (.host item)
    | method f => by_cases hrest : rest = [] <;> simp [hrest, Location.atIndex]
    | count n =>
      by_cases hrest : rest = []
      · simp [hrest, Value.arrival, Location.atIndex]
      · simpa [hrest] using hfailure depth

theorem locateFrames_some (frames : List (Value σ)) (path : Path) (index : Nat) :
    locateFrames frames path (some index) = (locateFrames frames path none).atIndex index := by
  induction frames with
  | nil => rfl
  | cons frame frames ih =>
    rw [locateFrames, locateFrames, locate_some]
    by_cases h : locate .root frame path.segments none = .missing
    · rw [h]
      exact ih
    · have hne := mt (Location.atIndex_eq_missing_iff index _).1 h
      split
      · next h' => exact absurd h' hne
      · rfl

/-! ## Enumerations -/

inductive Enumeration (σ : Type) where
  | broken
  | lambda
  | each (values : List (Value σ))

namespace Enumeration

def atIndex (index : Nat) : Enumeration σ → Resolution (Option (Value σ))
  | .broken => .chainBroken
  | .lambda => .lambda none
  | .each values =>
    match values[index]? with
    | some value => .field (some value)
    | none => .iteratorConsumed

def isIdle : Enumeration σ → Bool
  | .broken | .each [] => true
  | .lambda | .each (_ :: _) => false

theorem eq_of_atIndex {e e' : Enumeration σ}
    (h : ∀ index, e.atIndex index = e'.atIndex index) : e = e' := by
  cases e with
  | broken =>
    cases e' with
    | broken => rfl
    | lambda => cases h 0
    | each values =>
      have h₀ := h 0
      simp only [Enumeration.atIndex] at h₀
      split at h₀ <;> cases h₀
  | lambda =>
    cases e' with
    | broken => cases h 0
    | lambda => rfl
    | each values =>
      have h₀ := h 0
      simp only [Enumeration.atIndex] at h₀
      split at h₀ <;> cases h₀
  | each values =>
    cases e' with
    | broken | lambda =>
      have h₀ := h 0
      simp only [Enumeration.atIndex] at h₀
      split at h₀ <;> cases h₀
    | each values' =>
      congr 1
      apply List.ext_getElem?
      intro index
      have hindex := h index
      simp only [Enumeration.atIndex] at hindex
      cases hvalue : values[index]? <;> cases hvalue' : values'[index]? <;>
        simp_all

end Enumeration

/-- Lists and tuples have their elements; true, records, texts and numbers have themselves; false
and what is absent have none. Wrappers around the value do not count. -/
def Value.enumeration : Value σ → Enumeration σ
  | .count n => .each [.count n]
  | .host data =>
    match data.target with
    | .sequence items | .tuple items => .each (items.map .host)
    | .bool false | .absent => .each []
    | .lambda _ => .lambda
    | target => .each [.host target]

/-- What a section goes through, by what its name stands for. -/
def Enumeration.ofFound : Resolution (Option (Value σ)) → Enumeration σ
  | .field (some value) => value.enumeration
  | .lambda _ => .lambda
  | .iteratorConsumed => .each []
  | .field none | .notFoundInContext | .chainBroken => .broken

/-- What a section goes through, by what it renders its body with. -/
def Enumeration.ofEntries : Entries σ → Enumeration σ
  | .each values => .each values
  | .lambda _ => .lambda

theorem Value.enumeration_eq (value : Value σ) : value.enumeration = .ofEntries value.entries := by
  cases value with
  | count n => rfl
  | host data =>
    fun_induction Data.target data with
    | case1 target ih => exact ih
    | case2 value ih => exact ih
    | case3 data hpointer hpresent =>
      cases data with
      | pointer target => exact absurd rfl (hpointer target)
      | present value => exact absurd rfl (hpresent value)
      | bool flag => cases flag <;> rfl
      | _ => rfl

theorem Entries.run_act_get (entries : Entries σ) (index : Nat) :
    ((entries.atIndex index).act .get).run = (Enumeration.ofEntries entries).atIndex index := by
  cases entries with
  | each values =>
    simp only [Entries.atIndex, Enumeration.ofEntries, Enumeration.atIndex]
    cases values[index]? <;> rfl
  | lambda f => rfl

/-! ## Sections -/

/-- What a section over a name renders its body with; `none` if there is nothing of that name. -/
def sectionEntries (frames : List (Value σ)) (path : Path) : Option (Entries σ) :=
  match locateFrames frames path none with
  | .field value => some value.entries
  | .lambda f => some (.lambda f)
  | .consumed => some (.each [])
  | .missing | .broken => none

theorem ofFound_get (frames : List (Value σ)) (path : Path) :
    Enumeration.ofFound (resolveFrames .get frames path none).run =
      match sectionEntries frames path with
      | some entries => .ofEntries entries
      | none => .broken := by
  rw [resolveFrames_eq_act, sectionEntries]
  cases locateFrames frames path none with
  | field value => exact value.enumeration_eq
  | _ => rfl

theorem sectionEntries_of_found (frames : List (Value σ)) (path : Path) :
    match Enumeration.ofFound (resolveFrames .get frames path none).run with
    | .broken => sectionEntries frames path = none
    | .lambda => ∃ f, sectionEntries frames path = some (.lambda f)
    | .each values => sectionEntries frames path = some (.each values) := by
  rw [ofFound_get]
  cases sectionEntries frames path with
  | none => rfl
  | some entries =>
    cases entries with
    | lambda f => exact ⟨f, rfl⟩
    | each values => rfl

theorem locateFrames_index (frames : List (Value σ)) (path : Path) (index : Nat) :
    locateFrames frames path (some index) =
      match sectionEntries frames path with
      | some entries => entries.atIndex index
      | none => .broken := by
  rw [locateFrames_some, sectionEntries]
  cases h : locateFrames frames path none with
  | missing => exact absurd h (locateFrames_ne_missing frames path none)
  | broken | consumed | lambda | field => rfl

theorem resolveFrames_get_some (frames : List (Value σ)) (path : Path) (index : Nat) :
    (resolveFrames .get frames path (some index)).run =
      (Enumeration.ofFound (resolveFrames .get frames path none).run).atIndex index := by
  rw [ofFound_get, resolveFrames_eq_act, locateFrames_index]
  cases sectionEntries frames path with
  | none => rfl
  | some entries => exact entries.run_act_get index

theorem resolveFrames_get_of_entries {frames : List (Value σ)} {path : Path} {entries : Entries σ}
    (h : sectionEntries frames path = some entries) (index : Nat) :
    (resolveFrames .get frames path (some index)).run =
      (Enumeration.ofEntries entries).atIndex index := by
  rw [resolveFrames_get_some, ofFound_get, h]

theorem renderNode_section (sink : Sink ω) (escape : Escape) (k : Continuation ω σ) (path : Path)
    (children : List Node) (inner : String) (delimiters : Delimiters) (span : Span)
    (frames : List (Value σ)) :
    renderNode sink escape k (.block path false children inner delimiters span) frames =
      match sectionEntries frames path with
      | some (.each values) =>
        values.forM fun value => renderNodes sink escape k children (value :: frames)
      | some (.lambda f) => k.expansion frames f ⟨inner, .raw, delimiters⟩
      | none => pure () := by
  rw [renderNode, if_neg Bool.false_ne_true]
  dsimp only
  rw [resolveFrames_eq_act, sectionEntries]
  cases locateFrames frames path none with
  | missing | broken | consumed => simp [Location.act]
  | lambda f => simp [Location.act, Action.onLambda, iteration]
  | field value =>
    simp only [Location.act, Action.onField, iteration]
    cases value.entries <;> simp

theorem renderNode_interpolation (sink : Sink ω) (escape : Escape) (k : Continuation ω σ)
    (path : Path) (tagEscape : Escape) (span : Span) (frames : List (Value σ)) :
    renderNode sink escape k (.interpolation path tagEscape span) frames =
      match locateFrames frames path none with
      | .field value => Render.emitAll sink (value.chunks (escape.under tagEscape))
      | .lambda f => k.expansion frames f ⟨"", escape.under tagEscape, .braces⟩
      | .missing | .broken | .consumed => pure () := by
  rw [renderNode, resolveFrames_eq_act]
  cases locateFrames frames path none with
  | missing | broken | consumed => simp [Location.act]
  | field value => simp [Location.act, Action.onField, interpolation]
  | lambda f => simp [Location.act, Action.onLambda, interpolation]

theorem entersSection_eq (frames : List (Value σ)) (path : Path) :
    entersSection frames path =
      !(Enumeration.ofFound (resolveFrames .get frames path none).run).isIdle := by
  rw [entersSection, resolveFrames_get_some]
  generalize Enumeration.ofFound (resolveFrames .get frames path none).run = e
  cases e with
  | broken | lambda => rfl
  | each values => cases values <;> rfl

end Mustache
