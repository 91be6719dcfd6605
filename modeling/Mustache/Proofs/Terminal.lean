import Mustache.Proofs.Enumeration

/-!
# Mustache.Proofs.Terminal

Names end at lambdas. If the lookup of a name arrives at a lambda, then every longer name goes
wrong there: the contexts that do not have the shorter name do not have the longer one either, and
behind the lambda nothing can be found.
-/

namespace Mustache

variable {σ α : Type}

/-! ## Arrivals -/

theorem Data.target_of_entries {data : Data σ} {f : Lambda σ} (h : data.entries = .lambda f) :
    data.target = .lambda f := by
  fun_induction Data.target data with
  | case1 target ih => exact ih h
  | case2 value ih => exact ih h
  | case3 data hpointer hpresent =>
    cases data with
    | pointer target => exact absurd rfl (hpointer target)
    | present value => exact absurd rfl (hpresent value)
    | lambda g =>
      cases h
      rfl
    | _ => cases h

theorem Entries.eq_lambda_of_atIndex {entries : Entries σ} {index : Nat} {f : Lambda σ}
    (h : entries.atIndex index = .lambda f) : entries = .lambda f := by
  cases entries with
  | each values =>
    rw [Entries.atIndex] at h
    split at h <;> cases h
  | lambda g =>
    cases h
    rfl

theorem Value.arrival_ne_missing (value : Value σ) (index : Option Nat) :
    value.arrival index ≠ .missing := by
  cases index with
  | none => rintro ⟨⟩
  | some index => exact value.entries.atIndex_ne_missing index

/-- No segment leads on from a value that is a lambda behind its wrappers. -/
theorem Value.hop_of_arrival {value : Value σ} {index : Option Nat} {f : Lambda σ}
    (h : value.arrival index = .lambda f) (name : String) : value.hop name = .broken := by
  cases index with
  | none => cases h
  | some index =>
    have hentries := Entries.eq_lambda_of_atIndex h
    cases value with
    | count n => cases hentries
    | host data =>
      rw [hop, Data.target_of_entries hentries]
      rfl

/-! ## One value -/

theorem locate_leaf_ne_missing (host : Value σ) (path : List String) (index : Option Nat) :
    locate .leaf host path index ≠ .missing := by
  induction path generalizing host with
  | nil =>
    unfold locate
    split
    · rintro ⟨⟩
    · exact host.arrival_ne_missing index
  | cons name rest ih =>
    rw [locate]
    cases host.hop name with
    | missing | broken => rintro ⟨⟩
    | member item => exact ih (.host item)
    | method f =>
      simp only
      split <;> rintro ⟨⟩
    | count n =>
      simp only
      split
      · exact (Value.count n).arrival_ne_missing index
      · rintro ⟨⟩

/-- What is missing from a value under a name is missing under every longer name. -/
theorem locate_append_of_missing {host : Value σ} {path : List String} {index : Option Nat}
    (h : locate .root host path index = .missing) (rest : List String) (index' : Option Nat) :
    locate .root host (path ++ rest) index' = .missing := by
  cases path with
  | nil =>
    unfold locate at h
    split at h
    · cases h
    · exact absurd h (host.arrival_ne_missing index)
  | cons name path =>
    rw [List.cons_append, locate]
    rw [locate] at h
    cases hhop : host.hop name with
    | missing => rfl
    | broken =>
      rw [hhop] at h
      cases h
    | member item =>
      rw [hhop] at h
      exact absurd h (locate_leaf_ne_missing (.host item) path index)
    | method f =>
      rw [hhop] at h
      simp only at h
      split at h <;> cases h
    | count n =>
      rw [hhop] at h
      simp only at h
      split at h
      · exact absurd h ((Value.count n).arrival_ne_missing index)
      · next hpath =>
        have hlonger : path ++ rest ≠ [] := by simp [hpath]
        simp only [if_neg hlonger]
        rfl

/-- Behind a lambda nothing can be found, however the walk got to it. -/
theorem locate_append_of_lambda {depth : Depth} {host : Value σ} {path : List String}
    {index : Option Nat} {f : Lambda σ} (h : locate depth host path index = .lambda f)
    {rest : List String} (hrest : rest ≠ []) (index' : Option Nat) :
    locate depth host (path ++ rest) index' = .broken := by
  induction path generalizing depth host with
  | nil =>
    obtain ⟨name, rest, rfl⟩ := List.exists_cons_of_ne_nil hrest
    have hhop : host.hop name = .broken := by
      unfold locate at h
      split at h
      · rfl
      · exact Value.hop_of_arrival h name
    rw [List.nil_append, locate, hhop]
  | cons name path ih =>
    have hlonger : path ++ rest ≠ [] := by simp [hrest]
    rw [List.cons_append, locate]
    rw [locate] at h
    cases hhop : host.hop name with
    | missing =>
      rw [hhop] at h
      cases depth <;> cases h
    | broken => rfl
    | member item =>
      rw [hhop] at h
      exact ih h
    | method g => exact if_neg hlonger
    | count n =>
      rw [hhop] at h
      simp only at h
      split at h
      · -- a number has no lambda for an element
        have hbroken := Value.hop_of_arrival h name
        cases hbroken
      · cases depth <;> cases h

/-! ## A stack of contexts -/

theorem locateFrames_append_of_lambda {frames : List (Value σ)} {path : Path}
    {index : Option Nat} {f : Lambda σ} (h : locateFrames frames path index = .lambda f)
    {rest : List String} (hrest : rest ≠ []) (index' : Option Nat) :
    locateFrames frames ⟨path.segments ++ rest⟩ index' = .broken := by
  induction frames with
  | nil => rfl
  | cons frame frames ih =>
    rw [locateFrames] at h ⊢
    cases hframe : locate .root frame path.segments index with
    | missing =>
      rw [hframe] at h
      simp only [locate_append_of_missing hframe rest index']
      exact ih h
    | lambda g => simp only [locate_append_of_lambda hframe hrest index']
    | broken | consumed | field =>
      rw [hframe] at h
      cases h

theorem Location.eq_lambda_of_act_run {τ ε : Type} {location : Location σ}
    {action : Action (ExceptT ε (StateM τ)) σ α} {state state' : τ} {result : α}
    (h : ((location.act action).run.run state).run = (.ok (.lambda result), state')) :
    ∃ f, location = .lambda f := by
  cases location with
  | lambda f => exact ⟨f, rfl⟩
  | missing | broken | consumed => cases h
  | field value =>
    have hwrapped : Except.map Resolution.field ((action.field value).run.run state).run.1 =
        .ok (.lambda result) := by
      simpa [act, Action.onField] using congrArg Prod.fst h
    cases hcall : ((action.field value).run.run state).run.1 with
    | ok found | error error =>
      rw [hcall] at hwrapped
      cases hwrapped

/-- If a name leads to a lambda in a stack of contexts, for whatever action and index, then no
longer name leads anywhere: in every lookup of it the walk goes wrong behind its first segment, no
action is called, and no context further out is asked. -/
theorem resolveFrames_behind_lambda {τ ε : Type} {action : Action (ExceptT ε (StateM τ)) σ α}
    {frames : List (Value σ)} {path : Path} {index : Option Nat} {state state' : τ} {result : α}
    (h : ((resolveFrames action frames path index).run.run state).run =
      (.ok (.lambda result), state'))
    {rest : List String} (hrest : rest ≠ []) (index' : Option Nat) :
    Location.broken.Decides fun action' =>
      resolveFrames action' frames ⟨path.segments ++ rest⟩ index' := by
  rw [resolveFrames_eq_act] at h
  obtain ⟨f, hlocation⟩ := Location.eq_lambda_of_act_run h
  rw [← locateFrames_append_of_lambda hlocation hrest index']
  exact locateFrames_decides frames ⟨path.segments ++ rest⟩ index'

/-- A method behind a pointer in the outer of two contexts, of which the inner has only a text; and
further out the name leads to a value. -/
theorem resolveFrames_behind_method :
    let greeting : Data Unit := .record [] [("greet", .bound fun _ => .emit "hi")]
    let frames : List (Value Unit) :=
      [.host (.string "t"), .host (.pointer greeting),
        .host (.record [("greet", .record [("x", .string "outer")] [])] [])]
    let action : Action (ExceptT Empty (StateM Unit)) Unit Bool :=
      ⟨fun _ => pure false, fun _ => pure true⟩
    ((resolveFrames action frames ⟨["greet"]⟩ (some 0)).run.run ()).run =
        (.ok (.lambda true), ()) ∧
      (resolveFrames .arrive frames ⟨["greet", "x"]⟩ none).run = .chainBroken := by
  intro greeting frames action
  have hlambda : ((resolveFrames action frames ⟨["greet"]⟩ (some 0)).run.run ()).run =
      (.ok (.lambda true), ()) := rfl
  have hlonger : ["x"] ≠ [] := List.cons_ne_nil "x" []
  have hbroken := resolveFrames_behind_lambda hlambda hlonger none
  exact ⟨hlambda, congrArg Id.run (hbroken.act_eq .arrive)⟩

end Mustache
