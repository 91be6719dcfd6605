import Mustache.Proofs.Sections

/-!
# Mustache.Proofs.Scenes

Rendering with one stack of contexts that is changed in place. A section pushes a context before
its body and pops it behind it, and a partial counts as open before its instructions and no longer
behind them. A name is looked up in the stack as it stands: once for what it stands for, and once
more to call a lambda. However a step ends, it leaves the stack and the count as they were, so all
this comes to the same as rendering with the contexts given.
-/

namespace Mustache

variable {ω σ α β : Type}

/-! ## Scenes -/

/-- What a renderer changes as it goes. -/
structure Scene (ω σ : Type) where
  held : ω
  frames : List (Value σ)
  /-- How many partials are open. -/
  opened : Nat

namespace Scene

def push (value : Value σ) (scene : Scene ω σ) : Scene ω σ :=
  { scene with frames := value :: scene.frames }

def pop (scene : Scene ω σ) : Scene ω σ :=
  { scene with frames := scene.frames.tail }

def enter (scene : Scene ω σ) : Scene ω σ :=
  { scene with opened := scene.opened + 1 }

def leave (scene : Scene ω σ) : Scene ω σ :=
  { scene with opened := scene.opened - 1 }

end Scene

/-- A step of rendering that changes a scene. -/
abbrev Staged (ω σ α : Type) := Render (Scene ω σ) σ α

namespace Staged

def frames : Staged ω σ (List (Value σ)) := fun out => (.ok out.sink.frames, out)

def opened : Staged ω σ Nat := fun out => (.ok out.sink.opened, out)

/-- Changes the scene, and changes it back when the step has ended, also with an error. -/
def between (before after : Scene ω σ → Scene ω σ) (step : Staged ω σ α) : Staged ω σ α :=
  fun out =>
    match step { out with sink := before out.sink } with
    | (answer, out) => (answer, { out with sink := after out.sink })

/-- Runs a step on an empty scratch text, in a copy of the scene and with the same lambdas. -/
def onScratch (step : Staged String σ α) : Staged ω σ (α × String) := fun out =>
  match step ⟨{ out.sink with held := "" }, out.store⟩ with
  | (.ok a, scratch) => (.ok (a, scratch.sink.held), { out with store := scratch.store })
  | (.error halt, scratch) => (.error halt, { out with store := scratch.store })

/-- Looks a name up in the contexts as they are. -/
def look (action : Action (Render (Scene ω σ) σ) σ α) (path : Path) (index : Option Nat) :
    Staged ω σ (Resolution α) := do
  let frames ← frames
  resolveFrames action frames path index

end Staged

/-- Writes to what the scene holds. -/
def Sink.onScene (sink : Sink ω) : Sink (Scene ω σ) where
  write chunk scene :=
    match sink.write chunk scene.held with
    | (answer, held) => (answer, { scene with held })
  recognize := sink.recognize

/-! ## Instructions -/

section Instructions

variable (sink : Sink ω) (escape : Escape)
variable (inclusion : (name indentation : String) → Staged ω σ Unit)
variable (expansion : Lambda σ → Call → Staged ω σ Unit)

/-- Calls a lambda and does nothing with a value. -/
def expanding (call : Call) : Action (Render (Scene ω σ) σ) σ Unit :=
  ⟨fun _ => pure (), fun f => expansion f call⟩

/-- Goes through a section from an index on, in no more than so many rounds. -/
def stageRounds (path : Path) (call : Call) (body : Staged ω σ Unit) :
    Nat → Nat → Staged ω σ Unit
  | 0, _ => Render.exhaust
  | rounds + 1, index => do
    let frames ← Staged.frames
    match (resolveFrames Action.get frames path (some index)).run with
    | .field (some value) => do
      Staged.between (.push value) .pop body
      stageRounds path call body rounds (index + 1)
    | .lambda _ =>
      if index = 0 then do
        let _ ← Staged.look (expanding expansion call) path (some 0)
      else pure ()
    | _ => pure ()

/-- A round for each element of a section, and one that meets the end. -/
def enoughRounds (frames : List (Value σ)) (path : Path) : Nat :=
  match sectionEntries frames path with
  | some (.each values) => values.length + 1
  | _ => 1

mutual

def stageNode : Node → Staged ω σ Unit
  | .literal text => Render.emit sink.onScene text
  | .interpolation path tagEscape _ => do
    let found ← Staged.look (writing sink.onScene (escape.under tagEscape)) path none
    match found with
    | .lambda _ => do
      let _ ← Staged.look (expanding expansion ⟨"", escape.under tagEscape, .braces⟩) path none
    | _ => pure ()
  | .block path inverted children inner delimiters _ => do
    let frames ← Staged.frames
    if inverted then
      if entersSection frames path then pure () else stageNodes children
    else
      stageRounds expansion path ⟨inner, .raw, delimiters⟩ (stageNodes children)
        (enoughRounds frames path) 0
  | .inclusion name indentation _ => inclusion name indentation

def stageNodes : List Node → Staged ω σ Unit
  | [] => pure ()
  | node :: nodes => do
    stageNode node
    stageNodes nodes

end

end Instructions

/-! ## Lambdas -/

/-- Renders instructions to a scratch text. -/
abbrev StagedNested (σ : Type) := Sink String → List Node → Staged String σ Unit

def stageTemplate (scratch : Sink String) (nested : StagedNested σ) (template : String)
    (delimiters : Delimiters) (escape : Escape) : Staged String σ Unit :=
  match Template.parse template none delimiters with
  | .error error => Render.fail (.parse error)
  | .ok template =>
    match escape with
    | .raw => nested scratch template.nodes
    | .html => do
      let ((), text) ← Staged.onScratch (nested scratch template.nodes)
      Render.emitAll scratch.onScene (escape.chunks text)

/-- Turns an error of the sink into a result. -/
def Render.attemptWrite (step : Render ω σ Unit) : Render ω σ (Except SinkError Unit) := fun out =>
  match step out with
  | (.error (.failed (.sink error)), out) => (.ok (.error error), out)
  | (.error halt, out) => (.error halt, out)
  | (.ok (), out) => (.ok (.ok ()), out)

theorem scratchHost_write (scratch : Sink String) (nested : Nested σ) (frames : List (Value σ))
    (text : String) (escape : Escape) :
    (scratchHost scratch nested frames).write text escape =
      Render.attemptWrite (Render.emitAll scratch (escape.chunks text)) := by
  funext out
  simp only [scratchHost, Render.attemptWrite]
  cases Render.emitAll scratch (escape.chunks text) out with
  | mk answer out' => rcases answer with ((_ | _ | _ | _ | _) | _) | _ <;> rfl

/-- Answers the requests of a lambda in the scene as it is at each of them. -/
def sceneHost (scratch : Sink String) (nested : StagedNested σ) :
    Host (Render (Scene String σ) σ) σ where
  write text escape := Render.attemptWrite (Render.emitAll scratch.onScene (escape.chunks text))
  render template delimiters escape :=
    Render.attempt (stageTemplate scratch nested template delimiters escape)
  get := fun out => (.ok out.store, out)
  put store := fun out => (.ok (), { out with store })

def stageLambda (sink : Sink ω) (nested : StagedNested σ) (f : Lambda σ) (call : Call) :
    Staged ω σ Unit := do
  let (completed, text) ← Staged.onScratch
    (f.attempt (sceneHost (Sink.scratch sink.recognize) nested) sink.recognize call)
  match completed with
  | .ok true => Render.emit sink.onScene text
  | .ok false => pure ()
  | .error error => Render.fail (.sink error)

/-! ## Partials -/

namespace Engine

def stageInclusion (engine : Engine) (render : List Node → Staged ω σ Unit)
    (name indentation : String) : Staged ω σ Unit := do
  let opened ← Staged.opened
  if engine.options.maxPartialDepth ≤ opened then
    Render.fail (.partialDepth name engine.options.maxPartialDepth)
  else
    match engine.load name indentation with
    | .error error => Render.fail error
    | .ok none => pure ()
    | .ok (some template) => Staged.between .enter .leave (render template.nodes)

/-- Renders instructions, with no more than so many partials opened in one another. -/
def stageWithin (engine : Engine) (sink : Sink ω) (nested : StagedNested σ) :
    Nat → List Node → Staged ω σ Unit
  | 0 =>
    stageNodes sink engine.options.escape (engine.stageInclusion fun _ => Render.exhaust)
      (stageLambda sink nested)
  | budget + 1 =>
    stageNodes sink engine.options.escape
      (engine.stageInclusion (stageWithin engine sink nested budget)) (stageLambda sink nested)

/-- Renders the templates of lambdas. -/
def stageNested (engine : Engine) : Nat → StagedNested σ
  | 0 => fun _ _ => Render.exhaust
  | fuel + 1 => fun scratch =>
    engine.stageWithin scratch (stageNested engine fuel) engine.options.maxPartialDepth

/-- Renders instructions in the scene as it is. -/
def stage (engine : Engine) (fuel : Nat) (sink : Sink ω) : List Node → Staged ω σ Unit :=
  engine.stageWithin sink (engine.stageNested fuel) engine.options.maxPartialDepth

end Engine

/-! ## Steps that keep the scene -/

/-- The output in a scene with the contexts and so many partials open. -/
def Output.within (frames : List (Value σ)) (opened : Nat) (out : Output ω σ) :
    Output (Scene ω σ) σ :=
  ⟨⟨out.sink, frames, opened⟩, out.store⟩

/-- In a scene with these contexts and so many partials open the staged step does what the other
step does, and leaves them as they are. -/
def Staged.Keeps (frames : List (Value σ)) (opened : Nat) (staged : Staged ω σ α)
    (step : Render ω σ α) : Prop :=
  ∀ out, staged (out.within frames opened) = Prod.map id (.within frames opened) (step out)

namespace Staged.Keeps

variable {frames : List (Value σ)} {opened : Nat}

theorem pure (a : α) :
    Keeps frames opened (Pure.pure a : Staged ω σ α) (Pure.pure a : Render ω σ α) :=
  fun _ => rfl

theorem fail (error : Error) :
    Keeps frames opened (Render.fail error : Staged ω σ α) (Render.fail error : Render ω σ α) :=
  fun _ => rfl

theorem exhaust :
    Keeps frames opened (Render.exhaust : Staged ω σ α) (Render.exhaust : Render ω σ α) :=
  fun _ => rfl

theorem bind {staged : Staged ω σ α} {step : Render ω σ α} {next : α → Staged ω σ β}
    {next' : α → Render ω σ β} (h : Keeps frames opened staged step)
    (hnext : ∀ a, Keeps frames opened (next a) (next' a)) :
    Keeps frames opened (staged >>= next) (step >>= next') := by
  intro out
  have hstaged := h out
  cases hstep : step out with
  | mk answer mid =>
    rw [hstep] at hstaged
    cases answer with
    | ok a =>
      rw [Render.bind_of_ok hstep, Render.bind_of_ok hstaged]
      exact hnext a mid
    | error halt =>
      rw [Render.bind_of_error hstep, Render.bind_of_error hstaged]
      rfl

/-- What is found out about the scene is known. -/
theorem frames_bind {next : List (Value σ) → Staged ω σ α} {step : Render ω σ α}
    (h : Keeps frames opened (next frames) step) :
    Keeps frames opened (Staged.frames >>= next) step :=
  fun out => (Render.bind_of_ok rfl next).trans (h out)

theorem opened_bind {next : Nat → Staged ω σ α} {step : Render ω σ α}
    (h : Keeps frames opened (next opened) step) :
    Keeps frames opened (Staged.opened >>= next) step :=
  fun out => (Render.bind_of_ok rfl next).trans (h out)

theorem emit (sink : Sink ω) (chunk : String) :
    Keeps (σ := σ) frames opened (Render.emit sink.onScene chunk) (Render.emit sink chunk) := by
  intro out
  cases hwrite : sink.write chunk out.sink with
  | mk answer held =>
    have hscene : (sink.onScene.write chunk (out.within frames opened).sink) =
        (answer, ⟨held, frames, opened⟩) := by
      simp only [Sink.onScene, Output.within, hwrite]
    cases answer with
    | ok done | error error =>
      simp only [Render.emit, hwrite, hscene]
      rfl

theorem emitAll (sink : Sink ω) (chunks : List String) :
    Keeps (σ := σ) frames opened (Render.emitAll sink.onScene chunks)
      (Render.emitAll sink chunks) := by
  induction chunks with
  | nil => exact pure ()
  | cons chunk chunks ih => exact (emit sink chunk).bind fun _ => ih

theorem attempt {staged : Staged ω σ Unit} {step : Render ω σ Unit}
    (h : Keeps frames opened staged step) :
    Keeps frames opened (Render.attempt staged) (Render.attempt step) := by
  intro out
  have hstaged := h out
  cases hstep : step out with
  | mk answer mid =>
    rw [hstep] at hstaged
    rcases answer with (_ | _) | _ <;>
    · simp only [Render.attempt, hstep, hstaged]
      rfl

theorem attemptWrite {staged : Staged ω σ Unit} {step : Render ω σ Unit}
    (h : Keeps frames opened staged step) :
    Keeps frames opened (Render.attemptWrite staged) (Render.attemptWrite step) := by
  intro out
  have hstaged := h out
  cases hstep : step out with
  | mk answer mid =>
    rw [hstep] at hstaged
    rcases answer with ((_ | _ | _ | _ | _) | _) | _ <;>
    · simp only [Render.attemptWrite, hstep, hstaged]
      rfl

/-- What was changed before a step is changed back behind it, whatever the step came to. -/
theorem between {before after : Scene ω σ → Scene ω σ} {frames' : List (Value σ)} {opened' : Nat}
    {staged : Staged ω σ α} {step : Render ω σ α}
    (hbefore : ∀ held, before ⟨held, frames, opened⟩ = ⟨held, frames', opened'⟩)
    (hafter : ∀ held, after ⟨held, frames', opened'⟩ = ⟨held, frames, opened⟩)
    (h : Keeps frames' opened' staged step) :
    Keeps frames opened (Staged.between before after staged) step := by
  intro out
  have hstaged := h out
  rw [Output.within, ← hbefore] at hstaged
  simp only [Staged.between, Output.within, hstaged, Prod.map, hafter, id]

theorem onScratch {staged : Staged String σ α} {step : Render String σ α}
    (h : Keeps frames opened staged step) :
    Keeps (ω := ω) frames opened (Staged.onScratch staged) (Render.onScratch step) := by
  intro out
  have hstaged : staged ⟨⟨"", frames, opened⟩, out.store⟩ = _ := h ⟨"", out.store⟩
  cases hstep : step ⟨"", out.store⟩ with
  | mk answer scratch =>
    rw [hstep] at hstaged
    cases answer with
    | ok a | error halt => simp only [Staged.onScratch, Render.onScratch, hstep, Output.within,
        hstaged, Prod.map, id]

theorem look {staged : Action (Render (Scene ω σ) σ) σ α} {action : Action (Render ω σ) σ α}
    (hfield : ∀ value, Keeps frames opened (staged.field value) (action.field value))
    (hlambda : ∀ f, Keeps frames opened (staged.lambda f) (action.lambda f)) (path : Path)
    (index : Option Nat) :
    Keeps frames opened (Staged.look staged path index)
      (resolveFrames action frames path index) := by
  refine frames_bind ?_
  rw [resolveFrames_eq_act, resolveFrames_eq_act]
  cases locateFrames frames path index with
  | missing | broken | consumed => exact pure _
  | field value => exact (hfield value).bind fun _ => pure _
  | lambda f => exact (hlambda f).bind fun _ => pure _

end Staged.Keeps

/-! ## Rounds -/

section

variable {expansion : Lambda σ → Call → Staged ω σ Unit} {k : Continuation ω σ}
variable {frames : List (Value σ)} {opened : Nat} {path : Path} {call : Call}
variable {body : Staged ω σ Unit} {body' : Value σ → Render ω σ Unit}

theorem stageRounds_each (hbody : ∀ value, Staged.Keeps (value :: frames) opened body (body' value))
    {values : List (Value σ)} (h : sectionEntries frames path = some (.each values))
    {rounds index : Nat} (hrounds : values.length < index + rounds)
    (hindex : index ≤ values.length) :
    Staged.Keeps frames opened (stageRounds expansion path call body rounds index)
      ((values.drop index).forM body') := by
  -- there are more rounds than elements, so they end by meeting the index behind the last one
  induction rounds generalizing index with
  | zero => omega
  | succ rounds ih =>
    refine .frames_bind ?_
    rw [resolveFrames_get_of_entries h, Enumeration.ofEntries, Enumeration.atIndex]
    by_cases hlast : index < values.length
    · rw [List.getElem?_eq_getElem hlast, List.drop_eq_getElem_cons hlast, List.forM]
      refine .bind (.between (fun _ => rfl) (fun _ => rfl) (hbody _)) ?_
      intro done
      exact ih (by omega) hlast
    · rw [List.getElem?_eq_none (by omega), List.drop_of_length_le (by omega)]
      exact .pure ()

theorem expanding_keeps
    (hexpansion : ∀ f call, Staged.Keeps frames opened (expansion f call)
      (k.expansion frames f call)) (index : Option Nat) :
    Staged.Keeps frames opened
      (do
        let _ ← Staged.look (expanding expansion call) path index)
      (do
        let _ ← resolveFrames (calling k frames call) frames path index) := by
  refine .bind (.look ?_ ?_ path index) fun _ => .pure ()
  · exact fun _ => .pure ()
  · exact fun f => hexpansion f call

/-- The rounds of a section are enough for all its elements, and each leaves the contexts to the
next one as they were. -/
theorem stageRounds_keeps
    (hexpansion : ∀ f call, Staged.Keeps frames opened (expansion f call)
      (k.expansion frames f call))
    (hbody : ∀ value, Staged.Keeps (value :: frames) opened body (body' value)) :
    Staged.Keeps frames opened
      (stageRounds expansion path call body (enoughRounds frames path) 0)
      (match sectionEntries frames path with
      | some (.each values) => values.forM body'
      | some (.lambda f) => k.expansion frames f call
      | none => pure ()) := by
  cases h : sectionEntries frames path with
  | none =>
    rw [enoughRounds, h]
    refine .frames_bind ?_
    rw [resolveFrames_eq_act, locateFrames_index, h]
    exact .pure ()
  | some entries =>
    cases entries with
    | each values =>
      refine stageRounds_each hbody h ?_ (Nat.zero_le _)
      rw [enoughRounds, h]
      simp only
      omega
    | lambda f =>
      rw [enoughRounds, h]
      refine .frames_bind ?_
      rw [resolveFrames_get_of_entries h]
      have hcalling : (do
          let _ ← resolveFrames (calling k frames call) frames path (some 0)) =
            k.expansion frames f call := by
        simp [resolveFrames_eq_act, locateFrames_index, h, Entries.atIndex, Location.act,
          Action.onLambda, calling]
      have hkeeps : Staged.Keeps frames opened (do
          let _ ← Staged.look (expanding expansion call) path (some 0)) _ :=
        expanding_keeps hexpansion (some 0)
      rw [hcalling] at hkeeps
      exact hkeeps

end

/-! ## Instructions in a scene -/

section

variable {sink : Sink ω} {escape : Escape}
variable {inclusion : String → String → Staged ω σ Unit}
variable {expansion : Lambda σ → Call → Staged ω σ Unit} {k : Continuation ω σ} {opened : Nat}

mutual

theorem stageNode_keeps
    (hinclusion : ∀ frames name indentation, Staged.Keeps frames opened
      (inclusion name indentation) (k.inclusion frames name indentation))
    (hexpansion : ∀ frames f call, Staged.Keeps frames opened (expansion f call)
      (k.expansion frames f call)) :
    ∀ (node : Node) (frames : List (Value σ)), Staged.Keeps frames opened
      (stageNode sink escape inclusion expansion node) (renderNode sink escape k node frames)
  | .literal text, frames => .emit sink text
  | .interpolation path tagEscape span, frames => by
    rw [stageNode, renderNode, interpolation_eq_twice]
    refine .bind (.look ?_ ?_ path none) ?_
    · exact fun value => .emitAll sink _
    · exact fun _ => .pure ()
    · intro found
      cases found with
      | lambda result => exact expanding_keeps (hexpansion frames) none
      | notFoundInContext | chainBroken | field | iteratorConsumed => exact .pure ()
  | .block path true children inner delimiters span, frames => by
    rw [stageNode, renderNode]
    refine .frames_bind ?_
    rw [if_pos rfl, if_pos rfl]
    split
    · exact .pure ()
    · exact stageNodes_keeps hinclusion hexpansion children frames
  | .block path false children inner delimiters span, frames => by
    rw [stageNode, renderNode_section]
    refine .frames_bind ?_
    refine stageRounds_keeps (hexpansion frames) ?_
    intro value
    exact stageNodes_keeps hinclusion hexpansion children (value :: frames)
  | .inclusion name indentation span, frames => by
    rw [stageNode, renderNode]
    exact hinclusion frames name indentation

theorem stageNodes_keeps
    (hinclusion : ∀ frames name indentation, Staged.Keeps frames opened
      (inclusion name indentation) (k.inclusion frames name indentation))
    (hexpansion : ∀ frames f call, Staged.Keeps frames opened (expansion f call)
      (k.expansion frames f call)) :
    ∀ (nodes : List Node) (frames : List (Value σ)), Staged.Keeps frames opened
      (stageNodes sink escape inclusion expansion nodes) (renderNodes sink escape k nodes frames)
  | [], _ => .pure ()
  | node :: nodes, frames =>
    .bind (stageNode_keeps hinclusion hexpansion node frames) fun _ =>
      stageNodes_keeps hinclusion hexpansion nodes frames

end

end

/-! ## Lambdas in a scene -/

section

variable {frames : List (Value σ)} {opened : Nat} {nested : StagedNested σ} {nested' : Nested σ}

/-- In such a scene, staged renders to a scratch text do what the others do in its contexts. -/
def StagedNested.Keeps (frames : List (Value σ)) (opened : Nat) (nested : StagedNested σ)
    (nested' : Nested σ) : Prop :=
  ∀ scratch nodes, Staged.Keeps frames opened (nested scratch nodes) (nested' scratch nodes frames)

theorem stageTemplate_keeps (h : nested.Keeps frames opened nested') (scratch : Sink String)
    (template : String) (delimiters : Delimiters) (escape : Escape) :
    Staged.Keeps frames opened (stageTemplate scratch nested template delimiters escape)
      (renderTemplate scratch nested' frames template delimiters escape) := by
  rw [stageTemplate, renderTemplate]
  cases Template.parse template none delimiters with
  | error error => exact .fail _
  | ok compiled =>
    cases escape with
    | raw => exact h scratch compiled.nodes
    | html => exact .bind (.onScratch (h scratch compiled.nodes)) fun _ => .emitAll scratch _

/-- A host that answers in a scene, and leaves it as it was. -/
structure Host.Keeps (frames : List (Value σ)) (opened : Nat)
    (staged : Host (Render (Scene ω σ) σ) σ) (host : Host (Render ω σ) σ) : Prop where
  write : ∀ text escape, Staged.Keeps frames opened (staged.write text escape)
    (host.write text escape)
  render : ∀ template delimiters escape, Staged.Keeps frames opened
    (staged.render template delimiters escape) (host.render template delimiters escape)
  get : Staged.Keeps frames opened staged.get host.get
  put : ∀ store, Staged.Keeps frames opened (staged.put store) (host.put store)

theorem sceneHost_keeps (h : nested.Keeps frames opened nested') (scratch : Sink String) :
    Host.Keeps frames opened (sceneHost scratch nested) (scratchHost scratch nested' frames) where
  write text escape := by
    rw [scratchHost_write]
    exact (Staged.Keeps.emitAll scratch (escape.chunks text)).attemptWrite
  render template delimiters escape :=
    (stageTemplate_keeps h scratch template delimiters escape).attempt
  get _ := rfl
  put _ _ := rfl

theorem Program.run_keeps {staged : Host (Render (Scene ω σ) σ) σ} {host : Host (Render ω σ) σ}
    (h : Host.Keeps frames opened staged host) (call : Call) (program : Program σ α) :
    Staged.Keeps frames opened (program.run staged call) (program.run host call) := by
  induction program with
  | done value => exact .pure _
  | fail failure => exact .pure _
  | write text next ih => exact (h.write text call.escape).bind ih
  | writeRaw text next ih => exact (h.write text .raw).bind ih
  | render template next ih => exact (h.render template call.delimiters call.escape).bind ih
  | get next ih => exact h.get.bind ih
  | put store next ih => exact (h.put store).bind fun _ => ih

theorem stageLambda_keeps (h : nested.Keeps frames opened nested') (sink : Sink ω) (f : Lambda σ)
    (call : Call) :
    Staged.Keeps frames opened (stageLambda sink nested f call)
      (expandLambda sink nested' frames f call) := by
  refine .bind (.onScratch (.bind ?_ ?_)) ?_
  · exact Program.run_keeps (sceneHost_keeps h _) call (f call)
  · intro result
    rcases result with failure | done
    · simp only
      split <;> exact .pure _
    · exact .pure _
  · rintro ⟨(_ | _ | _), text⟩
    · exact .fail _
    · exact .pure ()
    · exact .emit sink text

end

/-! ## Renders in a scene -/

namespace Engine

/-- Instructions are rendered with as many partials allowed as the count leaves open. -/
theorem stageWithin_keeps (engine : Engine) (sink : Sink ω) {nested : StagedNested σ}
    {nested' : Nat → Nested σ}
    (hnested : ∀ frames opened,
      nested.Keeps frames opened (nested' (engine.options.maxPartialDepth - opened)))
    {budget opened : Nat} (hbudget : engine.options.maxPartialDepth ≤ opened + budget)
    (nodes : List Node) (frames : List (Value σ)) :
    Staged.Keeps frames opened (engine.stageWithin sink nested budget nodes)
      (engine.renderWithin sink nested' (engine.options.maxPartialDepth - opened) nodes
        frames) := by
  have hexpansion (opened : Nat) (frames : List (Value σ)) (f : Lambda σ) (call : Call) :=
    stageLambda_keeps (hnested frames opened) sink f call
  rw [renderWithin_eq]
  induction budget generalizing opened nodes frames with
  | zero =>
    refine stageNodes_keeps ?_ (hexpansion opened) nodes frames
    intro frames name indentation
    rw [Nat.add_zero] at hbudget
    refine .opened_bind ?_
    rw [if_pos hbudget, continuation, Nat.sub_eq_zero_of_le hbudget]
    exact .fail _
  | succ budget ih =>
    refine stageNodes_keeps ?_ (hexpansion opened) nodes frames
    intro frames name indentation
    refine .opened_bind ?_
    by_cases hopened : engine.options.maxPartialDepth ≤ opened
    · rw [if_pos hopened, continuation, Nat.sub_eq_zero_of_le hopened]
      exact .fail _
    · -- one more partial open is one less allowed
      obtain ⟨depth, hdepth⟩ : ∃ depth, engine.options.maxPartialDepth - opened = depth + 1 ∧
          engine.options.maxPartialDepth - (opened + 1) = depth :=
        ⟨_, by omega, rfl⟩
      rw [if_neg hopened, hdepth.1, inclusion_succ]
      cases engine.load name indentation with
      | error error => exact .fail _
      | ok loaded =>
        cases loaded with
        | none => exact .pure ()
        | some template =>
          rw [renderWithin_eq, ← hdepth.2]
          exact .between (fun _ => rfl) (fun _ => rfl) (ih (by omega) template.nodes frames)

theorem stageNested_keeps (engine : Engine) (fuel : Nat) (frames : List (Value σ)) (opened : Nat) :
    (engine.stageNested fuel).Keeps frames opened
      (engine.renderNested fuel (engine.options.maxPartialDepth - opened)) := by
  intro scratch nodes
  induction fuel generalizing frames opened scratch nodes with
  | zero => exact .exhaust
  | succ fuel ih =>
    exact engine.stageWithin_keeps scratch ih (Nat.le_add_left _ opened) nodes frames

/-- Rendering in a scene is rendering with its contexts, and with as many partials allowed as its
count leaves open. Contexts and count are left as they were. -/
theorem stage_keeps (engine : Engine) (fuel : Nat) (sink : Sink ω) (nodes : List Node)
    (frames : List (Value σ)) (opened : Nat) :
    Staged.Keeps frames opened (engine.stage fuel sink nodes)
      (engine.renderWithin sink (engine.renderNested fuel)
        (engine.options.maxPartialDepth - opened) nodes frames) :=
  engine.stageWithin_keeps sink (engine.stageNested_keeps fuel) (Nat.le_add_left _ opened) nodes
    frames

end Engine

end Mustache
