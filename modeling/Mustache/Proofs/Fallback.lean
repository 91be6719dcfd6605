import Mustache.Proofs.Lookup

/-!
# Mustache.Proofs.Fallback

When a lookup goes on to the enclosing contexts: not once its first segment means something, with
one exception. The number of elements of a list is found under its name alone, so a longer name
that begins like it is as good as missing.
-/

namespace Mustache

variable {m : Type → Type} [Monad m] {σ α : Type}

/-- Whether the value is a list, seen through its wrappers. -/
def Value.isSequence : Value σ → Bool
  | .host data =>
    match data.target with
    | .sequence _ => true
    | _ => false
  | .count _ => false

theorem Value.hop_eq_count {host : Value σ} {name : String} {n : Nat}
    (h : host.hop name = .count n) : host.isSequence ∧ name = "len" := by
  cases host with
  | count _ => cases h
  | host data =>
    rw [hop] at h
    rw [isSequence]
    revert h
    generalize data.target = target
    intro h
    cases target with
    | sequence items =>
      rw [Data.bareHop] at h
      split at h
      · next hname => exact ⟨rfl, hname⟩
      · cases h
    | record fields methods =>
      simp only [Data.bareHop] at h
      split at h
      · cases h
      · split at h <;> cases h
    | _ => cases h

theorem Value.hop_len {host : Value σ} (h : host.isSequence) :
    ∃ n, host.hop "len" = .count n := by
  cases host with
  | count _ => cases h
  | host data =>
    rw [hop]
    rw [isSequence] at h
    split at h
    · next items htarget => exact ⟨items.length, by rw [htarget]; rfl⟩
    · cases h

/-! ## Failures behind the first segment -/

theorem Action.onSingle_arrive_ne (value : Value σ) (index : Nat) :
    (arrive.onSingle value index).run ≠ .notFoundInContext := by
  unfold onSingle
  intro h
  split at h
  · cases h
  · cases h

theorem Action.onElement_arrive_ne (index : Nat) (data : Data σ) :
    (arrive.onElement index data).run ≠ .notFoundInContext := by
  fun_induction arrive.onElement index data with
  | case1 | case2 | case3 | case4 | case6 | case9 | case10 =>
    intro h
    cases h
  | case5 | case11 => exact onSingle_arrive_ne _ index
  | case7 target ih => exact ih
  | case8 value ih => exact ih

theorem Action.onArrival_arrive_ne (value : Value σ) (index : Option Nat) :
    (arrive.onArrival value index).run ≠ .notFoundInContext := by
  cases index with
  | none =>
    intro h
    cases h
  | some index =>
    cases value with
    | host data => exact onElement_arrive_ne index data
    | count n => exact onSingle_arrive_ne _ index

/-- Behind the first segment, nothing is reported as missing from the context. -/
theorem resolve_leaf_ne (host : Value σ) (path : List String) (index : Option Nat) :
    (resolve .arrive .leaf host path index).run ≠ .notFoundInContext := by
  induction path generalizing host with
  | nil =>
    unfold resolve
    split
    · intro h
      cases h
    · exact Action.onArrival_arrive_ne host index
  | cons name rest ih =>
    rw [resolve_cons]
    intro h
    cases hhop : host.hop name with
    | missing | broken =>
      rw [hhop] at h
      cases h
    | member item =>
      rw [hhop] at h
      exact ih (.host item) h
    | method f =>
      rw [hhop, Hop.resolve] at h
      split at h
      · cases h
      · cases h
    | count n =>
      rw [hhop, Hop.resolve] at h
      split at h
      · exact Action.onArrival_arrive_ne (.count n) index h
      · cases h

/-! ## Enclosing contexts -/

theorem resolveFrames_of_missing [LawfulMonad m] {action : Action m σ α} {frame : Value σ}
    {path : Path} {index : Option Nat}
    (h : resolve action .root frame path.segments index = pure .notFoundInContext)
    (outer : List (Value σ)) :
    resolveFrames action (frame :: outer) path index = resolveFrames action outer path index := by
  rw [resolveFrames, h, pure_bind]

/-- What is found in the innermost context is the outcome. -/
theorem resolveFrames_of_arrive_ne [LawfulMonad m] {action : Action m σ α} {frame : Value σ}
    {path : Path} {index : Option Nat}
    (h : (resolve .arrive .root frame path.segments index).run ≠ .notFoundInContext)
    (outer : List (Value σ)) :
    resolveFrames action (frame :: outer) path index =
      resolve action .root frame path.segments index := by
  rw [resolveFrames, resolve_eq]
  cases hfound : (resolve .arrive .root frame path.segments index).run with
  | notFoundInContext => exact absurd hfound h
  | chainBroken => rw [Resolution.mapM, pure_bind]
  | field found => simp only [Resolution.mapM, bind_assoc, pure_bind]
  | lambda found => simp only [Resolution.mapM, bind_assoc, pure_bind]
  | iteratorConsumed => rw [Resolution.mapM, pure_bind]

/-- If a context has something under a segment, it decides on every longer name that begins with
it, whatever the enclosing contexts are: the outcome is never that the name is missing there, and
it is the outcome for the whole stack. Only the number of elements of a list does not count as
something here; a longer name is missing from the list and looked up further out. -/
theorem resolveFrames_of_answered [LawfulMonad m] {action : Action m σ α} {frame : Value σ}
    {name : String} {rest : List String} (index : Option Nat) (hrest : rest ≠ [])
    (h : resolve action .root frame [name] none ≠ pure .notFoundInContext) :
    (¬ (frame.isSequence ∧ name = "len") →
      (∃ found, found ≠ Resolution.notFoundInContext ∧
        resolve action .root frame (name :: rest) index = found.mapM action.apply) ∧
      ∀ outer, resolveFrames action (frame :: outer) ⟨name :: rest⟩ index =
        resolve action .root frame (name :: rest) index) ∧
    (frame.isSequence ∧ name = "len" →
      resolve action .root frame (name :: rest) index = pure .notFoundInContext ∧
      ∀ outer, resolveFrames action (frame :: outer) ⟨name :: rest⟩ index =
        resolveFrames action outer ⟨name :: rest⟩ index) := by
  constructor
  · intro hlen
    have hne : (resolve .arrive .root frame (name :: rest) index).run ≠ .notFoundInContext := by
      rw [resolve_cons]
      cases hhop : frame.hop name with
      | missing =>
        rw [resolve_cons, hhop] at h
        exact absurd rfl h
      | broken =>
        intro h
        cases h
      | member item => exact resolve_leaf_ne (.host item) rest index
      | method f =>
        rw [Hop.resolve, if_neg hrest]
        intro h
        cases h
      | count n => exact absurd (Value.hop_eq_count hhop) hlen
    exact ⟨⟨_, hne, resolve_eq action .root frame (name :: rest) index⟩,
      resolveFrames_of_arrive_ne hne⟩
  · rintro ⟨hsequence, rfl⟩
    obtain ⟨n, hhop⟩ := Value.hop_len hsequence
    have hmissing : resolve action .root frame ("len" :: rest) index = pure .notFoundInContext := by
      rw [resolve_cons, hhop, Hop.resolve, if_neg hrest]
      rfl
    exact ⟨hmissing, resolveFrames_of_missing hmissing⟩

/-- A record whose members `name` and `len` have a member `x` each. -/
def Value.outermost : Value Unit :=
  let inner : Data Unit := .record [("x", .string "outer")] []
  .host (.record [("name", inner), ("len", inner)] [])

theorem resolveFrames_name_x :
    let frame : Value Unit := .host (.record [("name", .bool true)] [])
    resolve .get .root frame ["name"] none = .field (some (.host (.bool true))) ∧
      resolveFrames .get [frame, .outermost] ⟨["name", "x"]⟩ none = .chainBroken := by
  intro frame
  have hfound : resolve .get .root frame ["name"] none = .field (some (.host (.bool true))) := rfl
  have hanswered : resolve .get .root frame ["name"] none ≠ pure .notFoundInContext := by
    rw [hfound]
    nofun
  obtain ⟨hdecides, _⟩ := @resolveFrames_of_answered Id _ _ _ _ .get frame "name" ["x"] none
    nofun hanswered
  exact ⟨hfound, (hdecides (by decide)).2 [.outermost]⟩

/-- The first segment is found in a list, and yet the outcome depends on the contexts around. -/
theorem resolveFrames_len_x :
    let list : Value Unit := .host (.sequence [.bool true])
    resolve .get .root list ["len"] none = .field (some (.count 1)) ∧
      resolve .get .root list ["len", "x"] none = .notFoundInContext ∧
      resolveFrames .get [list] ⟨["len", "x"]⟩ none = .chainBroken ∧
      resolveFrames .get [list, .outermost] ⟨["len", "x"]⟩ none =
        .field (some (.host (.string "outer"))) := by
  refine ⟨?_, ?_, ?_, ?_⟩
  all_goals rfl

end Mustache
