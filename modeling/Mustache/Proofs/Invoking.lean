import Mustache.Proofs.Calls
import Mustache.Proofs.Reaching

/-!
# Mustache.Proofs.Invoking

Rendering to a new text. The estimate of its size comes first and calls no lambda; from there on
it is as with any other sink. A lambda is called once for each tag that the render comes to and
that stands for the lambda, and not otherwise.
-/

namespace Mustache

variable {ω σ : Type}

/-! ## Estimates as steps -/

/-- Gives the size of a value, and does not call a lambda. -/
def measuring : Action (Render ω σ) σ Nat :=
  ⟨fun value => pure value.size, fun _ => pure 0⟩

namespace Engine

mutual

def estimateNode (frames : List (Value σ)) : Node → Render ω σ Nat
  | .interpolation path _ _ => do
    let found ← resolveFrames measuring frames path none
    match found with
    | .field size => pure size
    | _ => pure 0
  | .block _ _ children _ _ _ => estimateNodes frames children
  | .literal _ | .inclusion .. => pure 0

def estimateNodes (frames : List (Value σ)) : List Node → Render ω σ Nat
  | [] => pure 0
  | node :: nodes => do
    let size ← estimateNode frames node
    let sizes ← estimateNodes frames nodes
    return size + sizes

end

/-- Estimates how many octets the template renders to, among steps that could call lambdas. -/
def estimate (template : Template) (data : Data σ) : Render ω σ Nat := do
  let size ← estimateNodes [.host data] template.nodes
  return template.literalSize + size

mutual

theorem estimateNode_eq (frames : List (Value σ)) :
    ∀ node, (estimateNode frames node : Render ω σ Nat) = pure (valueSize frames node)
  | .interpolation path _ _ => by
    rw [estimateNode, valueSize, pathSize, resolveFrames_eq_act, resolveFrames_eq_act]
    cases locateFrames frames path none with
    | missing | broken | consumed => simp [Location.act]
    | field value =>
      simp only [Location.act, Action.onField, measuring, pure_bind]
      rfl
    | lambda f => simp [Location.act, Action.onLambda, measuring]
  | .block _ _ children _ _ _ => by
    rw [estimateNode, valueSize, estimateNodes_eq frames children]
  | .literal _ | .inclusion .. => by rw [estimateNode, valueSize]

theorem estimateNodes_eq (frames : List (Value σ)) :
    ∀ nodes, (estimateNodes frames nodes : Render ω σ Nat) = pure (valueSizes frames nodes)
  | [] => by rw [estimateNodes, valueSizes]
  | node :: nodes => by
    rw [estimateNodes, valueSizes, estimateNode_eq frames node, estimateNodes_eq frames nodes,
      pure_bind, pure_bind]

end

theorem estimate_eq (template : Template) (data : Data σ) :
    (estimate template data : Render ω σ Nat) = pure (capacityHint template data) := by
  rw [estimate, estimateNodes_eq, pure_bind, capacityHint]

/-- Estimates the size and then renders, looking names up in a scene. -/
def stageRender (engine : Engine) (template : Template) (data : Data σ) (store : σ) :
    Except Halt String × σ :=
  let render : Staged String σ Unit := do
    let _ ← estimate template data
    engine.stage lambdaLimit Sink.text template.nodes
  match render (Output.within [.host data] 0 ⟨"", store⟩) with
  | (.ok (), out) => (.ok out.sink.held, out.store)
  | (.error halt, out) => (.error halt, out.store)

theorem stageRender_eq (engine : Engine) (template : Template) (data : Data σ) (store : σ) :
    engine.stageRender template data store = engine.render template data store := by
  have hstage : engine.stage lambdaLimit Sink.text template.nodes
      (Output.within [.host data] 0 ⟨"", store⟩) = Prod.map id (.within [.host data] 0)
        (engine.renderTo lambdaLimit Sink.text template data ⟨"", store⟩) :=
    engine.stage_keeps lambdaLimit Sink.text template.nodes [.host data] 0 ⟨"", store⟩
  rw [stageRender, estimate_eq, pure_bind, hstage, render]
  cases engine.renderTo lambdaLimit Sink.text template data ⟨"", store⟩ with
  | mk answer out => cases answer <;> rfl

theorem render_noted (engine : Engine) (template : Template) (data : Data σ) (store : σ)
    (notes : CallLog σ) :
    engine.render template (data.exchange .noted) (store, notes) =
      ((engine.render template data store).1, (engine.render template data store).2,
        notes ++ engine.calls lambdaLimit Sink.text template data ⟨"", store⟩) := by
  have hnoted : engine.renderTo lambdaLimit Sink.text template (data.exchange .noted)
      ⟨"", (store, notes)⟩ = _ :=
    engine.renderTo_noted lambdaLimit Sink.text template data ⟨"", store⟩ notes
  rw [render, hnoted, render]
  cases engine.renderTo lambdaLimit Sink.text template data ⟨"", store⟩ with
  | mk answer out => cases answer <;> rfl

end Engine

/-! ## Calls at places -/

section

variable {sink : Sink ω} {escape : Escape} {k : Continuation ω σ}
variable {inclusion : List (Value σ) → String → String → Calling ω σ}
variable {expansion : List (Value σ) → Lambda σ → Call → Calling ω σ}

theorem callsNodes_singleton (node : Node) (frames : List (Value σ)) :
    callsNodes sink escape k inclusion expansion [node] frames =
      callsNode sink escape k inclusion expansion node frames := by
  funext out
  simp only [callsNodes, Render.follow_nothing, List.append_nil]

theorem callsEach_of_ok {body : Value σ → Render ω σ Unit} {calls : Value σ → Calling ω σ}
    {before after : List (Value σ)} {out mid : Output ω σ}
    (h : before.forM body out = (.ok (), mid)) :
    callsEach body calls (before ++ after) out =
      callsEach body calls before out ++ callsEach body calls after mid := by
  induction before generalizing out with
  | nil =>
    cases h
    rfl
  | cons value before ih =>
    rw [List.forM, Render.bind_eq_ok_iff] at h
    obtain ⟨⟨⟩, out₁, hvalue, hbefore⟩ := h
    rw [List.cons_append, callsEach, callsEach]
    simp only
    rw [Render.follow_of_ok hvalue, Render.follow_of_ok hvalue, ih hbefore, List.append_assoc]

theorem exists_of_mem_callsEach {body : Value σ → Render ω σ Unit}
    {calls : Value σ → Calling ω σ} {values : List (Value σ)} {out : Output ω σ}
    {entry : Lambda σ × Call} (h : entry ∈ callsEach body calls values out) :
    ∃ before value after mid, values = before ++ value :: after ∧
      before.forM body out = (.ok (), mid) ∧ entry ∈ calls value mid := by
  induction values generalizing out with
  | nil => cases h
  | cons value values ih =>
    rw [callsEach, List.mem_append] at h
    rcases h with hvalue | hvalues
    · exact ⟨[], value, values, out, rfl, rfl, hvalue⟩
    · obtain ⟨⟨⟩, out₁, hbody, hrest⟩ := Render.exists_of_mem_follow hvalues
      obtain ⟨before, value', after, mid, rfl, hbefore, hentry⟩ := ih hrest
      refine ⟨value :: before, value', after, mid, rfl, ?_, hentry⟩
      rw [List.forM, Render.bind_of_ok hbody, hbefore]

end

namespace Engine

variable {engine : Engine} {sink : Sink ω} {nested : Nat → Nested σ}
variable {nestedCalls : Nat → NestedCalls σ}

/-- The calls of a partial, with `depth` more of them allowed to be open. -/
def callsInclusion (engine : Engine) (sink : Sink ω) (nested : Nat → Nested σ)
    (nestedCalls : Nat → NestedCalls σ) (depth : Nat) (frames : List (Value σ))
    (name indentation : String) : Calling ω σ :=
  match depth with
  | 0 => fun _ => []
  | depth + 1 =>
    match engine.load name indentation with
    | .ok (some template) =>
      engine.callsWithin sink nested nestedCalls depth template.nodes frames
    | _ => fun _ => []

theorem callsWithin_eq (depth : Nat) :
    engine.callsWithin sink nested nestedCalls depth =
      callsNodes sink engine.options.escape (engine.continuation sink nested depth)
        (engine.callsInclusion sink nested nestedCalls depth)
        (callsLambda sink (nested depth) (nestedCalls depth)) := by
  cases depth <;> rfl

theorem callsWithin_cons (depth : Nat) (node : Node) (rest : List Node)
    (frames : List (Value σ)) (out : Output ω σ) :
    engine.callsWithin sink nested nestedCalls depth (node :: rest) frames out =
      engine.callsWithin sink nested nestedCalls depth [node] frames out ++
        (engine.renderWithin sink nested depth [node] frames).follow
          (fun _ => engine.callsWithin sink nested nestedCalls depth rest frames) out := by
  rw [callsWithin_eq, callsNodes_singleton, renderWithin_eq, renderNodes_singleton, callsNodes]

theorem load_eq_some_iff {name indentation : String} {template : Template} :
    engine.load name indentation = .ok (some template) ↔
      ∃ source, engine.partials name = .ok (some source) ∧
        engine.parsePartial name indentation source = .ok template := by
  rw [load]
  cases engine.partials name with
  | error error => simp
  | ok found =>
    cases found with
    | none => simp
    | some source => cases h : engine.parsePartial name indentation source <;> simp [h]

/-- A tag that stands for a lambda is one call of it, and calls nothing else itself. -/
theorem callsWithin_call (depth : Nat) {frames : List (Value σ)} {node : Node} {f : Lambda σ}
    {call : Call} (h : node.Calls engine.options.escape frames f call) :
    engine.callsWithin sink nested nestedCalls depth [node] frames =
      callsLambda sink (nested depth) (nestedCalls depth) frames f call := by
  rw [callsWithin_eq, callsNodes_singleton]
  cases h with
  | interpolation hf => rw [callsNode, hf]
  | block hf => rw [callsNode, sectionEntries_of_arrive hf]

theorem callsWithin_section (depth : Nat) {frames : List (Value σ)} {path : Path}
    {values : List (Value σ)} (h : sectionEntries frames path = some (.each values))
    (children : List Node) (inner : String) (delimiters : Delimiters) (span : Span) :
    engine.callsWithin sink nested nestedCalls depth
        [.block path false children inner delimiters span] frames =
      callsEach (fun value => engine.renderWithin sink nested depth children (value :: frames))
        (fun value => engine.callsWithin sink nested nestedCalls depth children (value :: frames))
        values := by
  rw [callsWithin_eq, callsNodes_singleton, callsNode, h, renderWithin_eq]

theorem callsWithin_inverted (depth : Nat) (frames : List (Value σ)) (path : Path)
    (children : List Node) (inner : String) (delimiters : Delimiters) (span : Span) :
    engine.callsWithin sink nested nestedCalls depth
        [.block path true children inner delimiters span] frames =
      if entersSection frames path then fun _ => []
      else engine.callsWithin sink nested nestedCalls depth children frames := by
  rw [callsWithin_eq, callsNodes_singleton, callsNode]

theorem callsWithin_inclusion (depth : Nat) (name indentation : String) (span : Span)
    (frames : List (Value σ)) :
    engine.callsWithin sink nested nestedCalls depth [.inclusion name indentation span] frames =
      engine.callsInclusion sink nested nestedCalls depth frames name indentation := by
  rw [callsWithin_eq, callsNodes_singleton, callsNode]

theorem calls_head (depth : Nat) (node : Node) (rest : List Node) (frames : List (Value σ))
    (out : Output ω σ) :
    engine.callsWithin sink nested nestedCalls depth [node] frames out <:+:
      engine.callsWithin sink nested nestedCalls depth (node :: rest) frames out := by
  rw [callsWithin_cons depth node rest]
  exact (List.prefix_append _ _).isInfix

/-- What is called at a place that the render comes to is called by the render. -/
theorem Reaches.calls_infix {depth : Nat} {nodes : List Node} {frames : List (Value σ)}
    {out out' : Output ω σ} {place : Place σ}
    (h : engine.Reaches sink nested depth nodes frames out place out')
    (nestedCalls : Nat → NestedCalls σ) :
    engine.callsWithin sink nested nestedCalls place.depth [place.node] place.frames out' <:+:
      engine.callsWithin sink nested nestedCalls depth nodes frames out := by
  induction h with
  | here => exact calls_head _ _ _ _ _
  | @behind depth node rest frames _ _ _ _ hnode _ ih =>
    rw [callsWithin_cons depth node rest, Render.follow_of_ok hnode]
    exact ih.trans (List.suffix_append _ _).isInfix
  | @inSection _ path _ _ _ _ _ frames before _ value _ _ _ _ hvalues hbefore _ ih =>
    have hentries := sectionEntries_of_found frames path
    rw [hvalues] at hentries
    refine List.IsInfix.trans ?_ (calls_head _ _ _ _ _)
    rw [callsWithin_section _ hentries, callsEach_of_ok hbefore, callsEach]
    refine ih.trans ?_
    exact (List.prefix_append _ _).isInfix.trans (List.suffix_append _ _).isInfix
  | inInverted hidle _ ih =>
    refine List.IsInfix.trans ?_ (calls_head _ _ _ _ _)
    rw [callsWithin_inverted, hidle, if_neg Bool.false_ne_true]
    exact ih
  | inPartial hsource htemplate _ ih =>
    refine List.IsInfix.trans ?_ (calls_head _ _ _ _ _)
    rw [callsWithin_inclusion, callsInclusion]
    simp only [load_eq_some_iff.2 ⟨_, hsource, htemplate⟩]
    exact ih

/-- A tag that the render comes to makes the call, or its lambda has a template rendered that makes
it. -/
def ComesToCall (engine : Engine) (sink : Sink ω) (nested : Nat → Nested σ)
    (nestedCalls : Nat → NestedCalls σ) (depth : Nat) (nodes : List Node)
    (frames : List (Value σ)) (out : Output ω σ) (entry : Lambda σ × Call) : Prop :=
  ∃ place out' f call, engine.Reaches sink nested depth nodes frames out place out' ∧
    place.node.Calls engine.options.escape place.frames f call ∧
    entry ∈ callsLambda sink (nested place.depth) (nestedCalls place.depth) place.frames f call out'

theorem ComesToCall.through {depth depth' : Nat} {nodes nodes' : List Node}
    {frames frames' : List (Value σ)} {out mid : Output ω σ} {entry : Lambda σ × Call}
    (h : engine.ComesToCall sink nested nestedCalls depth' nodes' frames' mid entry)
    (hreaches : ∀ {place out'}, engine.Reaches sink nested depth' nodes' frames' mid place out' →
      engine.Reaches sink nested depth nodes frames out place out') :
    engine.ComesToCall sink nested nestedCalls depth nodes frames out entry := by
  obtain ⟨place, out', f, call, hplace, hcalls, hentry⟩ := h
  exact ⟨place, out', f, call, hreaches hplace, hcalls, hentry⟩

theorem comesToCall_node {depth : Nat} {node : Node} {frames : List (Value σ)}
    {out : Output ω σ} {entry : Lambda σ × Call}
    (hsmaller : ∀ {depth' : Nat} {nodes : List Node} {frames : List (Value σ)} {out : Output ω σ},
      depth' < depth ∨ depth' = depth ∧ sizeOf nodes < sizeOf node →
      entry ∈ engine.callsWithin sink nested nestedCalls depth' nodes frames out →
      engine.ComesToCall sink nested nestedCalls depth' nodes frames out entry)
    (h : entry ∈ engine.callsWithin sink nested nestedCalls depth [node] frames out) :
    engine.ComesToCall sink nested nestedCalls depth [node] frames out entry := by
  have hcall {f : Lambda σ} {call : Call}
      (hcalls : node.Calls engine.options.escape frames f call) :
      engine.ComesToCall sink nested nestedCalls depth [node] frames out entry := by
    rw [callsWithin_call depth hcalls] at h
    exact ⟨_, out, f, call, .here, hcalls, h⟩
  cases node with
  | literal text =>
    rw [callsWithin_eq, callsNodes_singleton, callsNode] at h
    cases h
  | interpolation path tagEscape span =>
    cases hlocation : locateFrames frames path none with
    | lambda f => exact hcall (.of_location hlocation tagEscape span)
    | missing | broken | consumed | field =>
      rw [callsWithin_eq, callsNodes_singleton, callsNode, resolveFrames_eq_act, hlocation] at h
      cases h
  | block path inverted children inner delimiters span =>
    cases inverted with
    | true =>
      rw [callsWithin_inverted] at h
      by_cases hidle : entersSection frames path = true
      · rw [if_pos hidle] at h
        cases h
      · rw [if_neg hidle] at h
        refine (hsmaller (.inr ⟨rfl, by simp; omega⟩) h).through ?_
        exact .inInverted (Bool.eq_false_iff.2 hidle)
    | false =>
      cases hentries : sectionEntries frames path with
      | none =>
        rw [callsWithin_eq, callsNodes_singleton, callsNode, hentries] at h
        cases h
      | some entries =>
        cases entries with
        | lambda f => exact hcall (.of_entries hentries children inner delimiters span)
        | each values =>
          rw [callsWithin_section depth hentries] at h
          obtain ⟨before, value, after, mid, rfl, hbefore, hvalue⟩ := exists_of_mem_callsEach h
          have hvalues : Enumeration.ofFound (resolveFrames .get frames path none).run =
              .each (before ++ value :: after) := by
            rw [ofFound_get, hentries]
            rfl
          exact (hsmaller (.inr ⟨rfl, by simp; omega⟩) hvalue).through (.inSection hvalues hbefore)
  | inclusion name indentation span =>
    rw [callsWithin_inclusion] at h
    cases depth with
    | zero => cases h
    | succ depth =>
      rw [callsInclusion] at h
      cases hload : engine.load name indentation with
      | error error =>
        simp only [hload] at h
        cases h
      | ok loaded =>
        cases loaded with
        | none =>
          simp only [hload] at h
          cases h
        | some template =>
          simp only [hload] at h
          obtain ⟨source, hsource, htemplate⟩ := load_eq_some_iff.1 hload
          exact (hsmaller (.inl (Nat.lt_succ_self depth)) h).through (.inPartial hsource htemplate)

/-- Nothing is called but by the tags that the render comes to. -/
theorem comesToCall_of_mem (depth : Nat) (nodes : List Node) (frames : List (Value σ))
    (out : Output ω σ) {entry : Lambda σ × Call}
    (h : entry ∈ engine.callsWithin sink nested nestedCalls depth nodes frames out) :
    engine.ComesToCall sink nested nestedCalls depth nodes frames out entry := by
  match nodes with
  | [] =>
    rw [callsWithin_eq, callsNodes] at h
    cases h
  | node :: rest =>
    rw [callsWithin_cons, List.mem_append] at h
    rcases h with hnode | hrest
    · refine (comesToCall_node ?_ hnode).through (Reaches.inFront · rest)
      intro depth' nodes frames out hsmaller hbody
      exact comesToCall_of_mem depth' nodes frames out hbody
    · obtain ⟨⟨⟩, mid, hstep, hbehind⟩ := Render.exists_of_mem_follow hrest
      exact (comesToCall_of_mem depth rest frames mid hbehind).through (.behind hstep)
termination_by (depth, sizeOf nodes)
decreasing_by
  · exact Node.lex_of_smaller hsmaller rest
  · exact Node.lex_tail depth node rest

end Engine

/-! ## Renders -/

/-- Rendering to a new text succeeds with the text that is rendered to an empty one, or fails with
the same error, and leaves the lambdas in the same state: the estimate that comes first calls
nothing and comes out the same whatever the lambdas do, and it makes no difference that the name
of a lambda is looked up once more to call it. Lambdas that note the calls of them note
`Engine.calls`, whatever the sink. A tag that the render comes to and that stands for a lambda adds
one call, and behind it those in what its lambda has rendered; nothing else adds any, in particular
no inverted section and no name that leads to no lambda. -/
theorem Engine.render_invokes (engine : Engine) (template : Template) (data : Data σ) :
    (∀ (store store' : σ) (text : String), engine.render template data store = (.ok text, store') ↔
      engine.renderTo lambdaLimit Sink.text template data ⟨"", store⟩ = (.ok (), ⟨text, store'⟩)) ∧
    (∀ (store store' : σ) (halt : Halt), engine.render template data store = (.error halt, store') ↔
      ∃ text, engine.renderTo lambdaLimit Sink.text template data ⟨"", store⟩ =
        (.error halt, ⟨text, store'⟩)) ∧
    (∀ (ω : Type) (out : Output ω σ),
      estimate template data out = (.ok (capacityHint template data), out)) ∧
    (∀ (τ : Type) (g : Lambda σ → Lambda τ),
      capacityHint template (data.exchange g) = capacityHint template data) ∧
    (∀ store, engine.stageRender template data store = engine.render template data store) ∧
    (∀ (store : σ) (notes : CallLog σ),
      engine.stageRender template (data.exchange .noted) (store, notes) =
        ((engine.render template data store).1, (engine.render template data store).2,
          notes ++ engine.calls lambdaLimit Sink.text template data ⟨"", store⟩)) ∧
    ∀ (fuel : Nat) (ω : Type) (sink : Sink ω) (out : Output ω σ),
      let calls := engine.calls fuel sink template data out
      let reaches := engine.Reaches sink (engine.renderNested fuel)
        engine.options.maxPartialDepth template.nodes [.host data] out
      let callsAt := fun depth =>
        callsLambda sink (engine.renderNested fuel depth) (engine.callsNested fuel depth)
      (∀ notes, engine.renderTo fuel sink template (data.exchange .noted) (out.noting notes) =
        Prod.map id (.noting (notes ++ calls)) (engine.renderTo fuel sink template data out)) ∧
      (∀ depth node frames out' f call, reaches ⟨depth, node, frames⟩ out' →
        node.Calls engine.options.escape frames f call →
        callsAt depth frames f call out' <:+: calls ∧
        ∀ notes, engine.renderWithin sink (engine.renderNested fuel) depth [node]
            (frames.map (.exchange .noted)) (out'.noting notes) =
          Prod.map id (.noting (notes ++ callsAt depth frames f call out'))
            (engine.renderWithin sink (engine.renderNested fuel) depth [node] frames out')) ∧
      ∀ entry ∈ calls, ∃ place out' f call, reaches place out' ∧
        place.node.Calls engine.options.escape place.frames f call ∧
        entry ∈ callsAt place.depth place.frames f call out' := by
  refine ⟨?_, ?_, ?_, ?_, engine.stageRender_eq template data, ?_, ?_⟩
  · intro store store' text
    rw [render]
    cases engine.renderTo lambdaLimit Sink.text template data ⟨"", store⟩ with
    | mk answer out => cases answer <;> cases out <;> simp
  · intro store store' halt
    rw [render]
    cases engine.renderTo lambdaLimit Sink.text template data ⟨"", store⟩ with
    | mk answer out => cases answer <;> cases out <;> simp
  · intro ω out
    rw [estimate_eq]
    rfl
  · intro τ g
    exact capacityHint_exchange g template data
  · intro store notes
    rw [stageRender_eq]
    exact engine.render_noted template data store notes
  · intro fuel ω sink out calls reaches callsAt
    refine ⟨engine.renderTo_noted fuel sink template data out, ?_, ?_⟩
    · intro depth node frames out' f call hreaches hcalls
      have hcallsAt : engine.callsWithin sink (engine.renderNested fuel) (engine.callsNested fuel)
          depth [node] frames = callsAt depth frames f call :=
        callsWithin_call depth hcalls
      rw [← hcallsAt]
      constructor
      · exact hreaches.calls_infix (engine.callsNested fuel)
      · exact engine.renderWithin_noted sink (engine.renderNested_noted fuel) depth [node] frames
          out'
    · intro entry hentry
      exact comesToCall_of_mem _ _ _ _ hentry

/-- A lambda that counts its calls, in a section over two texts. -/
theorem Engine.render_invokes_counter :
    let count : Lambda Nat := fun _ => .get fun n => .put (n + 1) (.emit "x")
    let data : Data Nat :=
      .record [("items", .sequence [.string "a", .string "b"]), ("count", .lambda count)] []
    let template : Template :=
      ⟨none, [.block ⟨["items"]⟩ false [.interpolation ⟨["count"]⟩ .html ⟨10, 19, 1, 11⟩]
        "\x7b\x7bcount\x7d\x7d" .braces ⟨0, 10, 1, 1⟩]⟩
    let call : Call := ⟨"", .html, .braces⟩
    Engine.standard.stageRender template (data.exchange .noted) (0, []) =
      (.ok "xx", 2, [(count, call), (count, call)]) := by
  intro count data template call
  obtain ⟨_, _, _, _, _, hnoted, _⟩ := Engine.standard.render_invokes template data
  exact hnoted 0 []

end Mustache
