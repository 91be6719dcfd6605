import Mustache.Render

/-!
# Mustache.Proofs.Steps

Steps of rendering in sequence. A sequence of steps stops at the first one that halts, with the
output of that step.
-/

namespace Mustache
namespace Render

variable {ω σ α β : Type}

instance : LawfulMonad (Render ω σ) := by
  refine LawfulMonad.mk' _ ?_ ?_ ?_
  · intro α step
    funext out
    change Render.bind step (fun a => Render.pure (id a)) out = step out
    unfold Render.bind
    split
    · next h => exact h.symm
    · next h => exact h.symm
  · intro α β a next
    rfl
  · intro α β γ step next last
    funext out
    change Render.bind (Render.bind step next) last out =
      Render.bind step (fun a => Render.bind (next a) last) out
    unfold Render.bind
    cases step out with
    | mk answer out₁ => cases answer <;> rfl

theorem bind_of_ok {step : Render ω σ α} {out out₁ : Output ω σ} {a : α}
    (h : step out = (.ok a, out₁)) (next : α → Render ω σ β) :
    (step >>= next) out = next a out₁ := by
  change Render.bind step next out = _
  rw [Render.bind, h]

theorem bind_of_error {step : Render ω σ α} {out out₁ : Output ω σ} {halt : Halt}
    (h : step out = (.error halt, out₁)) (next : α → Render ω σ β) :
    (step >>= next) out = (.error halt, out₁) := by
  change Render.bind step next out = _
  rw [Render.bind, h]

theorem bind_congr_left {step step' : Render ω σ α} {out out' : Output ω σ}
    (h : step out = step' out') (next : α → Render ω σ β) :
    (step >>= next) out = (step' >>= next) out' := by
  change Render.bind step next out = Render.bind step' next out'
  rw [Render.bind, Render.bind, h]

theorem bind_eq_ok_iff {step : Render ω σ α} {next : α → Render ω σ β} {out out' : Output ω σ}
    {b : β} :
    (step >>= next) out = (.ok b, out') ↔
      ∃ a out₁, step out = (.ok a, out₁) ∧ next a out₁ = (.ok b, out') := by
  constructor
  · intro h
    cases hstep : step out with
    | mk answer out₁ =>
      cases answer with
      | ok a =>
        rw [bind_of_ok hstep] at h
        exact ⟨a, out₁, rfl, h⟩
      | error halt =>
        rw [bind_of_error hstep] at h
        cases h
  · rintro ⟨a, out₁, hstep, hnext⟩
    rw [bind_of_ok hstep, hnext]

theorem bind_eq_error_iff {step : Render ω σ α} {next : α → Render ω σ β} {out out' : Output ω σ}
    {halt : Halt} :
    (step >>= next) out = (.error halt, out') ↔
      step out = (.error halt, out') ∨
        ∃ a out₁, step out = (.ok a, out₁) ∧ next a out₁ = (.error halt, out') := by
  cases hstep : step out with
  | mk answer out₁ =>
    cases answer with
    | ok a =>
      rw [bind_of_ok hstep]
      constructor
      · exact fun hnext => .inr ⟨a, out₁, rfl, hnext⟩
      · rintro (hstep | ⟨_, _, hstep, hnext⟩)
        · cases hstep
        · cases hstep
          exact hnext
    | error halt' => simp [bind_of_error hstep]

end Render

/-! ## Instructions -/

section

variable {ω σ : Type}

theorem renderNodes_singleton (sink : Sink ω) (escape : Escape) (k : Continuation ω σ)
    (node : Node) (frames : List (Value σ)) :
    renderNodes sink escape k [node] frames = renderNode sink escape k node frames := by
  rw [renderNodes, renderNodes]
  exact bind_pure_unit

theorem renderNodes_append (sink : Sink ω) (escape : Escape) (k : Continuation ω σ)
    (nodes nodes' : List Node) (frames : List (Value σ)) :
    renderNodes sink escape k (nodes ++ nodes') frames =
      (do
        renderNodes sink escape k nodes frames
        renderNodes sink escape k nodes' frames) := by
  induction nodes with
  | nil =>
    rw [List.nil_append, renderNodes, pure_bind]
  | cons node nodes ih => rw [List.cons_append, renderNodes, renderNodes, ih, bind_assoc]

namespace Engine

/-- How instructions go on with `depth` more partials allowed to be open. -/
def continuation (engine : Engine) (sink : Sink ω) (nested : Nat → Nested σ) (depth : Nat) :
    Continuation ω σ where
  inclusion frames name indentation :=
    match depth with
    | 0 => Render.fail (.partialDepth name engine.options.maxPartialDepth)
    | depth + 1 =>
      match engine.partials name with
      | .error error => Render.fail error
      | .ok none => pure ()
      | .ok (some source) =>
        match engine.parsePartial name indentation source with
        | .error error => Render.fail (.parse error)
        | .ok template => engine.renderWithin sink nested depth template.nodes frames
  expansion frames f call := expandLambda sink (nested depth) frames f call

theorem renderWithin_eq (engine : Engine) (sink : Sink ω) (nested : Nat → Nested σ)
    (depth : Nat) :
    engine.renderWithin sink nested depth =
      renderNodes sink engine.options.escape (engine.continuation sink nested depth) := by
  cases depth <;> rfl

/-- The instructions of a partial; `none` if it is missing. -/
def load (engine : Engine) (name indentation : String) : Except Error (Option Template) :=
  match engine.partials name with
  | .error error => .error error
  | .ok none => .ok none
  | .ok (some source) =>
    match engine.parsePartial name indentation source with
    | .error error => .error (.parse error)
    | .ok template => .ok (some template)

/-- A partial is rendered with one less allowed to be open. -/
theorem inclusion_succ (engine : Engine) (sink : Sink ω) (nested : Nat → Nested σ) (depth : Nat)
    (frames : List (Value σ)) (name indentation : String) :
    (engine.continuation sink nested (depth + 1)).inclusion frames name indentation =
      match engine.load name indentation with
      | .error error => Render.fail error
      | .ok none => pure ()
      | .ok (some template) => engine.renderWithin sink nested depth template.nodes frames := by
  simp only [continuation, load]
  split
  · rfl
  · rfl
  · split <;> rfl

theorem renderWithin_cons (engine : Engine) (sink : Sink ω) (nested : Nat → Nested σ)
    (depth : Nat) (node : Node) (nodes : List Node) (frames : List (Value σ)) :
    engine.renderWithin sink nested depth (node :: nodes) frames =
      (do
        engine.renderWithin sink nested depth [node] frames
        engine.renderWithin sink nested depth nodes frames) := by
  rw [renderWithin_eq, renderNodes_singleton, renderNodes]

end Engine

end

end Mustache
