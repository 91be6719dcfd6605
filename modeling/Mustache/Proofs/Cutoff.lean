import Mustache.Proofs.Refusal

/-!
# Mustache.Proofs.Cutoff

Renders that an error cuts off. What a sink holds only grows in a render (`Sink.Grows`). A step
outlasts another if it does the same, unless an error of a certain kind cuts the other off; then it
may go on from where the other stopped (`Render.Outlasts`).
-/

namespace Mustache

variable {ω σ α β : Type}

/-! ## Growing contents -/

/-- The second contents come from the first by offering more chunks. -/
inductive Sink.Grows (sink : Sink ω) (held : ω) : ω → Prop
  | refl : Grows sink held held
  | write {held' : ω} (h : Grows sink held held') (chunk : String) :
    Grows sink held (sink.write chunk held').2

namespace Sink.Grows

variable {sink : Sink ω}

theorem trans {held held' held'' : ω} (h : sink.Grows held held') (h' : sink.Grows held' held'') :
    sink.Grows held held'' := by
  induction h' with
  | refl => exact h
  | write _ chunk ih => exact ih.write chunk

theorem offer (chunks : List String) (held : ω) : sink.Grows held (sink.offer chunks held).2 := by
  induction chunks generalizing held with
  | nil => exact .refl
  | cons chunk chunks ih =>
    have hchunk : sink.Grows held (sink.write chunk held).2 := .write .refl chunk
    rw [Sink.offer]
    split
    · next held' hwrite =>
      rw [hwrite] at hchunk
      exact hchunk.trans (ih held')
    · next error held' hwrite =>
      rwa [hwrite] at hchunk

/-- A text grows at its end. -/
theorem text {held held' : String} (h : Sink.text.Grows held held') :
    ∃ rest, held' = held ++ rest := by
  induction h with
  | refl => exact ⟨"", by rw [String.append_empty]⟩
  | write _ chunk ih =>
    obtain ⟨rest, rfl⟩ := ih
    exact ⟨rest ++ chunk, String.append_assoc⟩

/-- The offers noted before are the first of those noted later. -/
theorem offers {noted noted' : Noted ω} (h : sink.noting.Grows noted noted') :
    noted.offers <+: noted'.offers := by
  induction h with
  | refl => exact List.prefix_rfl
  | write _ chunk ih => exact ih.trans (List.prefix_append _ _)

end Sink.Grows

theorem Render.Follows.grows {sink : Sink ω} {recorded : Render (List String) σ α}
    {step : Render ω σ α} (h : Follows sink recorded step) (out : Output ω σ) :
    sink.Grows out.sink (step out).2.sink := by
  obtain ⟨chunks, answer, store', _, hstep⟩ := h out.store
  have hoffer : sink.Grows out.sink (sink.offer chunks out.sink).2 := .offer chunks out.sink
  have hout := hstep out.sink
  split at hout
  · next held' heq =>
    rw [heq] at hoffer
    rwa [hout]
  · next error held' heq =>
    obtain ⟨store'', hout⟩ := hout
    rw [heq] at hoffer
    rwa [hout]

theorem Engine.renderWithin_grows (engine : Engine) (sink : Sink ω) (nested : Nat → Nested σ)
    (depth : Nat) (nodes : List Node) (frames : List (Value σ)) (out : Output ω σ) :
    sink.Grows out.sink (engine.renderWithin sink nested depth nodes frames out).2.sink :=
  (engine.renderWithin_follows sink nested depth nodes frames).grows out

/-! ## Going on -/

/-- The second step does the same as the first, unless the first fails with an error of `E`; then
the second may write more. -/
structure Render.Outlasts (sink : Sink ω) (E : Error → Prop) (step step' : Render ω σ α) : Prop where
  grows : ∀ out, sink.Grows out.sink (step' out).2.sink
  outlasts : ∀ out, step' out = step out ∨
    ∃ error out₁, E error ∧ step out = (.error (.failed error), out₁) ∧
      sink.Grows out₁.sink (step' out).2.sink

namespace Render.Outlasts

variable {sink : Sink ω} {E : Error → Prop}

theorem refl {step : Render ω σ α} (h : ∀ out, sink.Grows out.sink (step out).2.sink) :
    Outlasts sink E step step :=
  ⟨h, fun _ => .inl rfl⟩

theorem pure (a : α) : Outlasts sink E (Pure.pure a : Render ω σ α) (Pure.pure a) :=
  refl fun _ => .refl

theorem fail {error : Error} (hE : E error) {step : Render ω σ α}
    (h : ∀ out, sink.Grows out.sink (step out).2.sink) :
    Outlasts sink E (Render.fail error) step :=
  ⟨h, fun out => .inr ⟨error, out, hE, rfl, h out⟩⟩

theorem emit (chunk : String) :
    Outlasts sink E (Render.emit sink chunk : Render ω σ Unit) (Render.emit sink chunk) :=
  refl (Follows.emit sink.recognize chunk).grows

theorem bind_grows {next : α → Render ω σ β}
    (hnext : ∀ a out, sink.Grows out.sink (next a out).2.sink) (step : Render ω σ α)
    (out : Output ω σ) : sink.Grows (step out).2.sink ((step >>= next) out).2.sink := by
  cases hstep : step out with
  | mk answer out₁ =>
    cases answer with
    | ok a =>
      rw [bind_of_ok hstep]
      exact hnext a out₁
    | error halt =>
      rw [bind_of_error hstep]
      exact .refl

theorem bind {step step' : Render ω σ α} {next next' : α → Render ω σ β}
    (h : Outlasts sink E step step') (hnext : ∀ a, Outlasts sink E (next a) (next' a)) :
    Outlasts sink E (step >>= next) (step' >>= next') where
  grows out := (h.grows out).trans (bind_grows (fun a => (hnext a).grows) step' out)
  outlasts out := by
    obtain heq | ⟨error, out₁, hE, hstep, hgrows⟩ := h.outlasts out
    · cases hstep : step out with
      | mk answer out₁ =>
        rw [hstep] at heq
        cases answer with
        | ok a =>
          rw [bind_of_ok hstep, bind_of_ok heq]
          exact (hnext a).outlasts out₁
        | error halt =>
          rw [bind_of_error hstep, bind_of_error heq]
          exact .inl rfl
    · -- the first sequence ends here, and the second has written no less
      refine .inr ⟨error, out₁, hE, bind_of_error hstep _, ?_⟩
      exact hgrows.trans (bind_grows (fun a => (hnext a).grows) step' out)

theorem congruence : Render.Congruence (σ := σ) sink sink fun _ => Outlasts sink E :=
  ⟨pure, bind, emit⟩

theorem eq_of_ne {step step' : Render ω σ α} (h : Outlasts sink E step step') {out : Output ω σ}
    (hne : ∀ error, E error → (step out).1 ≠ .error (.failed error)) : step' out = step out := by
  obtain heq | ⟨error, out₁, hE, hstep, _⟩ := h.outlasts out
  · exact heq
  · exact absurd (congrArg Prod.fst hstep) (hne error hE)

/-- What the first step has written is the beginning of what the second writes. -/
theorem grows_from {step step' : Render ω σ α} (h : Outlasts sink E step step')
    (out : Output ω σ) : sink.Grows (step out).2.sink (step' out).2.sink := by
  obtain heq | ⟨error, out₁, _, hstep, hgrows⟩ := h.outlasts out
  · rw [heq]
    exact .refl
  · rwa [hstep]

end Render.Outlasts

end Mustache
