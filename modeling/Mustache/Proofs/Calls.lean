import Mustache.Proofs.Exchange
import Mustache.Proofs.Scenes

/-!
# Mustache.Proofs.Calls

Which lambdas a render calls, and how often. The calls are read off the instructions and what
their names stand for: one for each tag that is come to and stands for a lambda, followed by those
in the templates that the lambda has rendered. Lambdas that note each call of them in their state
note just these.
-/

namespace Mustache

variable {ω σ α β : Type}

/-! ## The calls of a render -/

/-- Lambdas in the order in which they are called, and what they are called with. -/
abbrev CallLog (σ : Type) := List (Lambda σ × Call)

/-- The calls that a step makes from an output on. -/
abbrev Calling (ω σ : Type) := Output ω σ → CallLog σ

/-- The calls behind a step, if it succeeds. -/
def Render.follow (step : Render ω σ α) (calls : α → Calling ω σ) : Calling ω σ := fun out =>
  match step out with
  | (.ok a, out) => calls a out
  | (.error _, _) => []

theorem Render.follow_nothing (step : Render ω σ α) :
    (step.follow fun _ _ => []) = fun _ => [] := by
  funext out
  rw [Render.follow]
  split <;> rfl

theorem Render.follow_of_ok {step : Render ω σ α} {out out' : Output ω σ} {a : α}
    (h : step out = (.ok a, out')) (calls : α → Calling ω σ) :
    step.follow calls out = calls a out' := by
  rw [Render.follow, h]

theorem Render.exists_of_mem_follow {step : Render ω σ α} {calls : α → Calling ω σ}
    {out : Output ω σ} {entry : Lambda σ × Call} (h : entry ∈ step.follow calls out) :
    ∃ a mid, step out = (.ok a, mid) ∧ entry ∈ calls a mid := by
  rw [Render.follow] at h
  split at h
  · next a mid hstep => exact ⟨a, mid, hstep, h⟩
  · cases h

section Instructions

variable (sink : Sink ω) (escape : Escape) (k : Continuation ω σ)
variable (inclusion : List (Value σ) → (name indentation : String) → Calling ω σ)
variable (expansion : List (Value σ) → Lambda σ → Call → Calling ω σ)

/-- The calls of a body, rendered with each of the values. -/
def callsEach (body : Value σ → Render ω σ Unit) (calls : Value σ → Calling ω σ) :
    List (Value σ) → Calling ω σ
  | [] => fun _ => []
  | value :: values => fun out =>
    calls value out ++ (body value).follow (fun _ => callsEach body calls values) out

mutual

def callsNode : Node → List (Value σ) → Calling ω σ
  | .literal _, _ => fun _ => []
  | .interpolation path tagEscape _, frames =>
    match (resolveFrames .arrive frames path none).run with
    | .lambda (.inr f) => expansion frames f ⟨"", escape.under tagEscape, .braces⟩
    | _ => fun _ => []
  | .block path true children _ _ _, frames =>
    if entersSection frames path then fun _ => [] else callsNodes children frames
  | .block path false children inner delimiters _, frames =>
    match sectionEntries frames path with
    | some (.each values) =>
      callsEach (fun value => renderNodes sink escape k children (value :: frames))
        (fun value => callsNodes children (value :: frames)) values
    | some (.lambda f) => expansion frames f ⟨inner, .raw, delimiters⟩
    | none => fun _ => []
  | .inclusion name indentation _, frames => inclusion frames name indentation

def callsNodes : List Node → List (Value σ) → Calling ω σ
  | [], _ => fun _ => []
  | node :: nodes, frames => fun out =>
    callsNode node frames out ++
      (renderNode sink escape k node frames).follow (fun _ => callsNodes nodes frames) out

end

end Instructions

/-- The calls in what a program has rendered, one request after the other. -/
def Program.calls (host : Host (Render ω σ) σ)
    (rendered : String → Delimiters → Escape → Calling ω σ) (call : Call) :
    Program σ α → Calling ω σ
  | .done _ | .fail _ => fun _ => []
  | .write text next =>
    (host.write text call.escape).follow fun result => (next result).calls host rendered call
  | .writeRaw text next =>
    (host.write text .raw).follow fun result => (next result).calls host rendered call
  | .render template next => fun out =>
    rendered template call.delimiters call.escape out ++
      (host.render template call.delimiters call.escape).follow
        (fun result => (next result).calls host rendered call) out
  | .get next => host.get.follow fun state => (next state).calls host rendered call
  | .put state next => (host.put state).follow fun _ => next.calls host rendered call

/-- The calls of instructions that are rendered to a scratch text. -/
abbrev NestedCalls (σ : Type) := Sink String → List Node → List (Value σ) → Calling String σ

/-- The calls in a template that a lambda has rendered. -/
def callsTemplate (scratch : Sink String) (nested : NestedCalls σ) (frames : List (Value σ))
    (template : String) (delimiters : Delimiters) (escape : Escape) : Calling String σ :=
  match Template.parse template none delimiters with
  | .error _ => fun _ => []
  | .ok template =>
    match escape with
    | .raw => nested scratch template.nodes frames
    | .html => fun out => nested scratch template.nodes frames ⟨"", out.store⟩

/-- The call of a lambda, and those in what it has rendered. -/
def callsLambda (sink : Sink ω) (nested : Nested σ) (nestedCalls : NestedCalls σ)
    (frames : List (Value σ)) (f : Lambda σ) (call : Call) : Calling ω σ := fun out =>
  let scratch := Sink.scratch sink.recognize
  (f, call) :: (f call).calls (scratchHost scratch nested frames)
    (callsTemplate scratch nestedCalls frames) call ⟨"", out.store⟩

namespace Engine

/-- The calls of instructions, with `depth` more partials allowed to be open. -/
def callsWithin (engine : Engine) (sink : Sink ω) (nested : Nat → Nested σ)
    (nestedCalls : Nat → NestedCalls σ) : Nat → List Node → List (Value σ) → Calling ω σ
  | 0 =>
    callsNodes sink engine.options.escape (engine.continuation sink nested 0)
      (fun _ _ _ _ => []) (callsLambda sink (nested 0) (nestedCalls 0))
  | depth + 1 =>
    callsNodes sink engine.options.escape (engine.continuation sink nested (depth + 1))
      (fun frames name indentation =>
        match engine.load name indentation with
        | .ok (some template) =>
          callsWithin engine sink nested nestedCalls depth template.nodes frames
        | _ => fun _ => [])
      (callsLambda sink (nested (depth + 1)) (nestedCalls (depth + 1)))

def callsNested (engine : Engine) : Nat → Nat → NestedCalls σ
  | 0, _ => fun _ _ _ _ => []
  | fuel + 1, depth => fun scratch =>
    engine.callsWithin scratch (engine.renderNested fuel) (callsNested engine fuel) depth

/-- The calls of a whole render. -/
def calls (engine : Engine) (fuel : Nat) (sink : Sink ω) (template : Template) (data : Data σ) :
    Calling ω σ :=
  engine.callsWithin sink (engine.renderNested fuel) (engine.callsNested fuel)
    engine.options.maxPartialDepth template.nodes [.host data]

end Engine

/-! ## Lambdas that note their calls -/

/-- The program with a further state beside its own, which it leaves as it finds it. -/
def Program.beside (τ : Type) : Program σ α → Program (σ × τ) α
  | .done value => .done value
  | .fail failure => .fail failure
  | .write text next => .write text fun result => (next result).beside τ
  | .writeRaw text next => .writeRaw text fun result => (next result).beside τ
  | .render template next => .render template fun result => (next result).beside τ
  | .get next => .get fun state => (next state.1).beside τ
  | .put state next => .get fun before => .put (state, before.2) (next.beside τ)

/-- The lambda, which first adds each call of it to what has been noted. -/
def Lambda.noted (f : Lambda σ) : Lambda (σ × CallLog σ) := fun call =>
  .get fun (store, notes) => .put (store, notes ++ [(f, call)]) ((f call).beside (CallLog σ))

def Output.noting (notes : CallLog σ) (out : Output ω σ) : Output ω (σ × CallLog σ) :=
  ⟨out.sink, (out.store, notes)⟩

/-- The step does what the other one does, and adds its calls to what has been noted. -/
def Render.Noted (noted : Render ω (σ × CallLog σ) α) (step : Render ω σ α)
    (calls : Calling ω σ) : Prop :=
  ∀ out notes, noted (out.noting notes) = Prod.map id (.noting (notes ++ calls out)) (step out)

namespace Render.Noted

theorem quiet {noted : Render ω (σ × CallLog σ) α} {step : Render ω σ α}
    (h : ∀ out notes, noted (out.noting notes) = Prod.map id (.noting notes) (step out)) :
    Noted noted step fun _ => [] := by
  intro out notes
  rw [h, List.append_nil]

theorem pure (a : α) :
    Noted (Pure.pure a : Render ω (σ × CallLog σ) α) (Pure.pure a) fun _ => [] :=
  .quiet fun _ _ => rfl

theorem fail (error : Error) :
    Noted (Render.fail error : Render ω (σ × CallLog σ) α) (Render.fail error) fun _ => [] :=
  .quiet fun _ _ => rfl

theorem exhaust :
    Noted (Render.exhaust : Render ω (σ × CallLog σ) α) Render.exhaust fun _ => [] :=
  .quiet fun _ _ => rfl

theorem bind {noted : Render ω (σ × CallLog σ) α} {step : Render ω σ α}
    {calls : Calling ω σ} {next : α → Render ω (σ × CallLog σ) β}
    {next' : α → Render ω σ β} {nextCalls : α → Calling ω σ}
    (h : Noted noted step calls) (hnext : ∀ a, Noted (next a) (next' a) (nextCalls a)) :
    Noted (noted >>= next) (step >>= next') fun out => calls out ++ step.follow nextCalls out := by
  intro out notes
  have hnoted := h out notes
  cases hstep : step out with
  | mk answer mid =>
    rw [hstep] at hnoted
    simp only [Render.follow, hstep]
    cases answer with
    | ok a =>
      rw [Render.bind_of_ok hstep, Render.bind_of_ok hnoted, ← List.append_assoc]
      exact hnext a mid _
    | error halt =>
      rw [Render.bind_of_error hstep, Render.bind_of_error hnoted, List.append_nil]
      rfl

/-- A step that calls nothing behind one that may. -/
theorem bind_quiet {noted : Render ω (σ × CallLog σ) α} {step : Render ω σ α}
    {calls : Calling ω σ} {next : α → Render ω (σ × CallLog σ) β}
    {next' : α → Render ω σ β} (h : Noted noted step calls)
    (hnext : ∀ a, Noted (next a) (next' a) fun _ => []) :
    Noted (noted >>= next) (step >>= next') calls := by
  have hbind := h.bind hnext
  simp only [follow_nothing, List.append_nil] at hbind
  exact hbind

theorem emit (sink : Sink ω) (chunk : String) :
    Noted (σ := σ) (Render.emit sink chunk) (Render.emit sink chunk) fun _ => [] := by
  refine .quiet fun out notes => ?_
  cases hwrite : sink.write chunk out.sink with
  | mk answer held => cases answer <;> simp [Render.emit, Output.noting, hwrite]

theorem emitAll (sink : Sink ω) (chunks : List String) :
    Noted (σ := σ) (Render.emitAll sink chunks) (Render.emitAll sink chunks) fun _ => [] := by
  induction chunks with
  | nil => exact pure ()
  | cons chunk chunks ih => exact (emit sink chunk).bind_quiet fun _ => ih

theorem attempt {noted : Render ω (σ × CallLog σ) Unit} {step : Render ω σ Unit}
    {calls : Calling ω σ} (h : Noted noted step calls) :
    Noted (Render.attempt noted) (Render.attempt step) calls := by
  intro out notes
  have hnoted := h out notes
  cases hstep : step out with
  | mk answer mid =>
    rw [hstep] at hnoted
    rcases answer with (_ | _) | _ <;>
    · simp only [Render.attempt, hstep, hnoted]
      rfl

theorem attemptWrite {noted : Render ω (σ × CallLog σ) Unit} {step : Render ω σ Unit}
    {calls : Calling ω σ} (h : Noted noted step calls) :
    Noted (Render.attemptWrite noted) (Render.attemptWrite step) calls := by
  intro out notes
  have hnoted := h out notes
  cases hstep : step out with
  | mk answer mid =>
    rw [hstep] at hnoted
    rcases answer with ((_ | _ | _ | _ | _) | _) | _ <;>
    · simp only [Render.attemptWrite, hstep, hnoted]
      rfl

theorem onScratch {noted : Render String (σ × CallLog σ) α} {step : Render String σ α}
    {calls : Calling String σ} (h : Noted noted step calls) :
    Noted (ω := ω) (Render.onScratch noted) (Render.onScratch step)
      fun out => calls ⟨"", out.store⟩ := by
  intro out notes
  have hnoted : noted ⟨"", (out.store, notes)⟩ = _ := h ⟨"", out.store⟩ notes
  cases hstep : step ⟨"", out.store⟩ with
  | mk answer scratch =>
    rw [hstep] at hnoted
    cases answer with
    | ok a | error halt => simp only [Render.onScratch, hstep, Output.noting, hnoted, Prod.map, id]

theorem forM {body : Value (σ × CallLog σ) → Render ω (σ × CallLog σ) Unit}
    {body' : Value σ → Render ω σ Unit} {calls : Value σ → Calling ω σ}
    (h : ∀ value : Value σ, Noted (body (value.exchange .noted)) (body' value) (calls value))
    (values : List (Value σ)) :
    Noted ((values.map (.exchange .noted)).forM body) (values.forM body')
      (callsEach body' calls values) := by
  induction values with
  | nil => exact pure ()
  | cons value values ih => exact (h value).bind fun _ => ih

end Render.Noted

/-! ## Instructions over data that notes calls -/

section

variable {sink : Sink ω} {escape : Escape} {k : Continuation ω σ}
variable {k' : Continuation ω (σ × CallLog σ)}
variable {inclusion : List (Value σ) → String → String → Calling ω σ}
variable {expansion : List (Value σ) → Lambda σ → Call → Calling ω σ}

mutual

theorem renderNode_noted
    (hinclusion : ∀ frames name indentation,
      Render.Noted (k'.inclusion (frames.map (.exchange .noted)) name indentation)
        (k.inclusion frames name indentation) (inclusion frames name indentation))
    (hexpansion : ∀ frames f call,
      Render.Noted (k'.expansion (frames.map (.exchange .noted)) f.noted call)
        (k.expansion frames f call) (expansion frames f call)) :
    ∀ (node : Node) (frames : List (Value σ)),
      Render.Noted (renderNode sink escape k' node (frames.map (.exchange .noted)))
        (renderNode sink escape k node frames)
        (callsNode sink escape k inclusion expansion node frames)
  | .literal text, frames => .emit sink text
  | .interpolation path tagEscape span, frames => by
    rw [renderNode_interpolation, renderNode_interpolation, locateFrames_exchange, callsNode,
      resolveFrames_eq_act]
    cases locateFrames frames path none with
    | missing | broken | consumed => exact .pure ()
    | field value =>
      simp only [Location.exchange, Value.chunks_exchange]
      exact .emitAll sink _
    | lambda f => exact hexpansion frames f _
  | .block path true children inner delimiters span, frames => by
    rw [renderNode, renderNode, if_pos rfl, if_pos rfl, entersSection_exchange, callsNode]
    split
    · exact .pure ()
    · exact renderNodes_noted hinclusion hexpansion children frames
  | .block path false children inner delimiters span, frames => by
    rw [renderNode_section, renderNode_section, sectionEntries_exchange, callsNode]
    cases sectionEntries frames path with
    | none => exact .pure ()
    | some entries =>
      cases entries with
      | each values =>
        refine .forM ?_ values
        intro value
        exact renderNodes_noted hinclusion hexpansion children (value :: frames)
      | lambda f => exact hexpansion frames f _
  | .inclusion name indentation span, frames => by
    rw [callsNode]
    exact hinclusion frames name indentation

theorem renderNodes_noted
    (hinclusion : ∀ frames name indentation,
      Render.Noted (k'.inclusion (frames.map (.exchange .noted)) name indentation)
        (k.inclusion frames name indentation) (inclusion frames name indentation))
    (hexpansion : ∀ frames f call,
      Render.Noted (k'.expansion (frames.map (.exchange .noted)) f.noted call)
        (k.expansion frames f call) (expansion frames f call)) :
    ∀ (nodes : List Node) (frames : List (Value σ)),
      Render.Noted (renderNodes sink escape k' nodes (frames.map (.exchange .noted)))
        (renderNodes sink escape k nodes frames)
        (callsNodes sink escape k inclusion expansion nodes frames)
  | [], _ => .pure ()
  | node :: nodes, frames =>
    .bind (renderNode_noted hinclusion hexpansion node frames) fun _ =>
      renderNodes_noted hinclusion hexpansion nodes frames

end

end

/-! ## Lambdas over data that notes calls -/

section

variable {nested : Nested σ} {nested' : Nested (σ × CallLog σ)} {nestedCalls : NestedCalls σ}

/-- Over data that notes calls, a render to a scratch text notes these. -/
def Nested.Noted (nested' : Nested (σ × CallLog σ)) (nested : Nested σ)
    (nestedCalls : NestedCalls σ) : Prop :=
  ∀ scratch nodes frames, Render.Noted (nested' scratch nodes (frames.map (.exchange .noted)))
    (nested scratch nodes frames) (nestedCalls scratch nodes frames)

theorem renderTemplate_noted (h : nested'.Noted nested nestedCalls) (scratch : Sink String)
    (frames : List (Value σ)) (template : String) (delimiters : Delimiters) (escape : Escape) :
    Render.Noted
      (renderTemplate scratch nested' (frames.map (.exchange .noted)) template delimiters escape)
      (renderTemplate scratch nested frames template delimiters escape)
      (callsTemplate scratch nestedCalls frames template delimiters escape) := by
  rw [renderTemplate, renderTemplate, callsTemplate]
  cases Template.parse template none delimiters with
  | error error => exact .fail _
  | ok compiled =>
    cases escape with
    | raw => exact h scratch compiled.nodes frames
    | html =>
      refine .bind_quiet (.onScratch (h scratch compiled.nodes frames)) ?_
      exact fun _ => .emitAll scratch _

theorem Program.run_noted (h : nested'.Noted nested nestedCalls) (scratch : Sink String)
    (frames : List (Value σ)) (call : Call) (program : Program σ α) :
    Render.Noted
      ((program.beside (CallLog σ)).run
        (scratchHost scratch nested' (frames.map (.exchange .noted))) call)
      (program.run (scratchHost scratch nested frames) call)
      (program.calls (scratchHost scratch nested frames)
        (callsTemplate scratch nestedCalls frames) call) := by
  have hwrite (text : String) (escape : Escape) :
      Render.Noted
        ((scratchHost scratch nested' (frames.map (.exchange .noted))).write text escape)
        ((scratchHost scratch nested frames).write text escape) fun _ => [] := by
    rw [scratchHost_write, scratchHost_write]
    exact (Render.Noted.emitAll scratch _).attemptWrite
  induction program with
  | done value => exact .pure _
  | fail failure => exact .pure _
  | write text next ih => exact (hwrite text call.escape).bind ih
  | writeRaw text next ih => exact (hwrite text .raw).bind ih
  | render template next ih =>
    refine Render.Noted.bind (.attempt ?_) ih
    exact renderTemplate_noted h scratch frames template call.delimiters call.escape
  -- the state is taken apart from the notes, and put back beside what they are by then
  | get next ih => exact fun out notes => ih out.store out notes
  | put state next ih => exact fun out notes => ih { out with store := state } notes

/-- A lambda notes its call, and behind it those in what it has rendered. -/
theorem expandLambda_noted (h : nested'.Noted nested nestedCalls) (sink : Sink ω)
    (frames : List (Value σ)) (f : Lambda σ) (call : Call) :
    Render.Noted (expandLambda sink nested' (frames.map (.exchange .noted)) f.noted call)
      (expandLambda sink nested frames f call)
      (callsLambda sink nested nestedCalls frames f call) := by
  let scratch := Sink.scratch sink.recognize
  have hrun : Render.Noted
      ((f.noted call).run (scratchHost scratch nested' (frames.map (.exchange .noted))) call)
      ((f call).run (scratchHost scratch nested frames) call)
      fun out => (f, call) :: (f call).calls (scratchHost scratch nested frames)
        (callsTemplate scratch nestedCalls frames) call out := by
    intro out notes
    have hbeside := Program.run_noted h scratch frames call (f call) out (notes ++ [(f, call)])
    rw [List.append_assoc] at hbeside
    exact hbeside
  refine .bind_quiet (.onScratch (.bind_quiet hrun ?_)) ?_
  · intro result
    rcases result with failure | done
    · simp only
      split <;> exact .pure _
    · exact .pure _
  · rintro ⟨(_ | _ | _), text⟩
    · exact .fail _
    · exact .pure ()
    · exact .emit sink text

end

/-! ## Renders of data that notes calls -/

namespace Engine

theorem renderWithin_noted (engine : Engine) (sink : Sink ω) {nested : Nat → Nested σ}
    {nested' : Nat → Nested (σ × CallLog σ)} {nestedCalls : Nat → NestedCalls σ}
    (hnested : ∀ depth, (nested' depth).Noted (nested depth) (nestedCalls depth))
    (depth : Nat) (nodes : List Node) (frames : List (Value σ)) :
    Render.Noted (engine.renderWithin sink nested' depth nodes (frames.map (.exchange .noted)))
      (engine.renderWithin sink nested depth nodes frames)
      (engine.callsWithin sink nested nestedCalls depth nodes frames) := by
  have hexpansion (depth : Nat) := expandLambda_noted (hnested depth) sink
  rw [renderWithin_eq, renderWithin_eq]
  induction depth generalizing nodes frames with
  | zero => exact renderNodes_noted (fun _ _ _ => .fail _) (hexpansion 0) nodes frames
  | succ depth ih =>
    refine renderNodes_noted ?_ (hexpansion (depth + 1)) nodes frames
    intro frames name indentation
    rw [inclusion_succ, inclusion_succ]
    cases engine.load name indentation with
    | error error => exact .fail _
    | ok loaded =>
      cases loaded with
      | none => exact .pure ()
      | some template =>
        rw [renderWithin_eq, renderWithin_eq]
        exact ih template.nodes frames

theorem renderNested_noted (engine : Engine) (fuel depth : Nat) :
    (engine.renderNested fuel depth).Noted (engine.renderNested fuel depth)
      (engine.callsNested (σ := σ) fuel depth) := by
  induction fuel generalizing depth with
  | zero => exact fun _ _ _ => .exhaust
  | succ fuel ih =>
    intro scratch nodes frames
    exact engine.renderWithin_noted scratch ih depth nodes frames

theorem renderTo_noted (engine : Engine) (fuel : Nat) (sink : Sink ω) (template : Template)
    (data : Data σ) :
    Render.Noted (engine.renderTo fuel sink template (data.exchange .noted))
      (engine.renderTo fuel sink template data) (engine.calls fuel sink template data) :=
  engine.renderWithin_noted sink (engine.renderNested_noted fuel) _ template.nodes [.host data]

end Engine

end Mustache
