import Mustache.Proofs.Terminal

/-!
# Mustache.Proofs.Navigation

Names as walks of one segment after the other. Where a name leads to host data, a longer name goes
on from that data; the contexts around have no say from there on.
-/

namespace Mustache

variable {σ α : Type}

theorem Location.eq_field_of_get {location : Location σ} {value : Value σ}
    (h : (location.act .get).run = .field (some value)) : location = .field value := by
  cases location with
  | missing | broken | consumed | lambda => cases h
  | field value' =>
    cases h
    rfl

theorem Location.eq_missing_of_act_run {τ ε : Type} {location : Location σ}
    {action : Action (ExceptT ε (StateM τ)) σ α} {state : τ}
    (h : ((location.act action).run.run state).run.1 = .ok .notFoundInContext) :
    location = .missing := by
  cases location with
  | missing => rfl
  | broken | consumed => cases h
  | field value =>
    have hwrapped : Except.map Resolution.field ((action.field value).run.run state).run.1 =
        .ok .notFoundInContext := by
      simpa [act, Action.onField] using h
    cases hcall : ((action.field value).run.run state).run.1 with
    | ok found | error error =>
      rw [hcall] at hwrapped
      cases hwrapped
  | lambda f =>
    have hwrapped : Except.map Resolution.lambda ((action.lambda f).run.run state).run.1 =
        .ok .notFoundInContext := by
      simpa [act, Action.onLambda] using h
    cases hcall : ((action.lambda f).run.run state).run.1 with
    | ok found | error error =>
      rw [hcall] at hwrapped
      cases hwrapped

/-- With no segment left, what is found is the value itself. -/
theorem locate_nil_of_field {depth : Depth} {host value : Value σ}
    (h : locate depth host [] none = .field value) : host = value := by
  unfold locate at h
  split at h
  · cases h
  · cases h
    rfl

/-- The walk goes on from where it arrived, behind its first segment. -/
theorem locate_append_of_field {depth : Depth} {host : Value σ} {path : List String}
    (hpath : path ≠ []) {data : Data σ} (h : locate depth host path none = .field (.host data))
    (rest : List String) (index : Option Nat) :
    locate depth host (path ++ rest) index = locate .leaf (.host data) rest index := by
  induction path generalizing depth host with
  | nil => exact absurd rfl hpath
  | cons name path ih =>
    rw [List.cons_append, locate]
    rw [locate] at h
    cases hhop : host.hop name with
    | missing =>
      rw [hhop] at h
      cases depth <;> cases h
    | broken =>
      rw [hhop] at h
      cases h
    | member item =>
      rw [hhop] at h
      simp only at h ⊢
      by_cases hlast : path = []
      · subst hlast
        cases locate_nil_of_field h
        rfl
      · exact ih hlast h
    | method f =>
      rw [hhop] at h
      simp only at h
      split at h <;> cases h
    | count n =>
      -- a number is found as such and not as host data
      rw [hhop] at h
      simp only at h
      split at h
      · cases h
      · cases depth <;> cases h

/-- If a name leads to host data, then what a longer name finds, with any action and index, is what
its other segments find in that data, behind the first segment. So it is never said to be missing,
and no enclosing context is asked. -/
theorem resolve_behind_data {depth : Depth} {host : Value σ} {path : List String}
    (hpath : path ≠ []) {data : Data σ}
    (h : (resolve .get depth host path none).run = .field (some (.host data)))
    (rest : List String) (index : Option Nat) :
    (∀ {m : Type → Type} [Monad m] {α : Type} (action : Action m σ α),
      resolve action depth host (path ++ rest) index =
        resolve action .leaf (.host data) rest index) ∧
    ∀ {τ ε α : Type} (action : Action (ExceptT ε (StateM τ)) σ α) (state : τ),
      ((resolve action depth host (path ++ rest) index).run.run state).run.1 ≠
        .ok .notFoundInContext := by
  rw [resolve_eq_act] at h
  have hlocation := locate_append_of_field hpath (Location.eq_field_of_get h) rest index
  constructor
  · intro m _ α action
    rw [resolve_eq_act, resolve_eq_act, hlocation]
  · intro τ ε α action state hmissing
    rw [resolve_eq_act, hlocation] at hmissing
    exact locate_leaf_ne_missing (.host data) rest index (Location.eq_missing_of_act_run hmissing)

/-- The name of a record behind wrappers, and of a list and a method in it. -/
theorem resolve_behind_lead :
    let lead : Data Unit := .pointer (.record [("tags", .sequence [.string "a", .string "b"])]
      [("greet", .bound fun _ => .emit "hi")])
    let host : Value Unit :=
      .host (.present (.record [("team", .pointer (.record [("lead", lead)] []))] []))
    (resolve .get .root host ["team", "lead"] none).run = .field (some (.host lead)) ∧
      (resolve .get .root host ["team", "lead", "tags", "len"] (some 0)).run =
        .field (some (.count 2)) ∧
      (resolve .get .root host ["team", "lead", "greet"] (some 0)).run = .lambda none ∧
      (resolve .get .root host ["team", "lead", "name"] none).run = .chainBroken := by
  intro lead host
  have hlead : (resolve .get .root host ["team", "lead"] none).run = .field (some (.host lead)) :=
    rfl
  have hpath : ["team", "lead"] ≠ [] := List.cons_ne_nil "team" ["lead"]
  have hbehind (rest : List String) (index : Option Nat) :=
    (resolve_behind_data hpath hlead rest index).1 Action.get
  exact ⟨hlead, hbehind ["tags", "len"] (some 0), hbehind ["greet"] (some 0), hbehind ["name"] none⟩

end Mustache
