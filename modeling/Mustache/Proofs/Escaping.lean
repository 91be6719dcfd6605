import Mustache.Engine
import Mustache.Proofs.Ending
import Mustache.Proofs.Markup

/-!
# Mustache.Proofs.Escaping

Templates that cannot inject markup. If no tag of a template is raw and its literal text has no
markup character, and if the same goes for every partial that a render opens, then all that is
written over data without lambdas is escaped text. The stages of the render carry this from step to
step.
-/

namespace Mustache

variable {ω σ : Type}

/-! ## Tame instructions -/

mutual

/-- Whether no tag is raw and no literal text has a markup character, at any depth. -/
def Node.tame : Node → Bool
  | .literal text => Text.isPlain text.toList
  | .interpolation _ escape _ => escape = .html
  | .block _ _ children _ _ _ => Node.allTame children
  | .inclusion .. => true

def Node.allTame : List Node → Bool
  | [] => true
  | node :: nodes => node.tame && Node.allTame nodes

end

def Task.Tame : Task σ → Prop
  | .nodes instructions frames => Node.allTame instructions = true ∧ LambdaFree frames
  | .rounds _ children _ frames _ => Node.allTame children = true ∧ LambdaFree frames
  | .leave => True

/-- What is still to be done is tame, and what is written is escaped. -/
structure Stage.Tame (stage : Stage String σ) : Prop where
  tasks : ∀ task ∈ stage.tasks, task.Tame
  out : Text.Escaped stage.out.sink.toList

def Progress.Tame : Progress String σ → Prop
  | .ended _ out => Text.Escaped out.sink.toList
  | .going stage => stage.Tame

/-! ## Steps -/

theorem Render.thenTasks_tame {step : Render String σ Unit} {tasks : List (Task σ)}
    {out : Output String σ} (htasks : ∀ task ∈ tasks, task.Tame)
    (hstep : Text.Escaped (step out).2.sink.toList) (opened : Nat) :
    (step.thenTasks tasks opened out).Tame := by
  unfold Render.thenTasks
  cases hout : step out with
  | mk answer out₁ =>
    rw [hout] at hstep
    cases answer with
    | ok done => exact ⟨htasks, hstep⟩
    | error halt => exact hstep

theorem Render.emitAll_text (chunks : List String) (out : Output String σ) :
    Render.emitAll Sink.text chunks out =
      (.ok (), ⟨out.sink ++ String.join chunks, out.store⟩) := by
  induction chunks generalizing out with
  | nil =>
    rw [String.join_nil, String.append_empty]
    rfl
  | cons chunk chunks ih =>
    have hemit : Render.emit Sink.text chunk out =
        (.ok (), ⟨out.sink ++ chunk, out.store⟩) := rfl
    rw [Render.emitAll, Render.bind_of_ok hemit, ih, String.join_cons, String.append_assoc]

theorem interpolation_escaped (k : Continuation String σ) (path : Path) (span : Span)
    {frames : List (Value σ)} (hframes : LambdaFree frames) {out : Output String σ}
    (hout : Text.Escaped out.sink.toList) :
    Text.Escaped
      (renderNode Sink.text .html k (.interpolation path .html span) frames out).2.sink.toList := by
  have hlocation := locateFrames_lambdaFree hframes path
  rw [renderNode_interpolation]
  cases hfound : locateFrames frames path none with
  | missing | broken | consumed => exact hout
  | lambda f =>
    rw [hfound] at hlocation
    exact hlocation.elim
  | field value =>
    simp only [Render.emitAll_text, String.toList_append]
    exact hout.append (.join value.chunks_escaped)

/-- What a section over data without lambdas finds at an index. -/
theorem round_lambdaFree {frames : List (Value σ)} (hframes : LambdaFree frames) (path : Path)
    (index : Nat) :
    match (resolveFrames .get frames path (some index)).run with
    | .field (some value) => value.lambdaFree = true
    | .lambda _ => False
    | _ => True := by
  rw [resolveFrames_eq_act, locateFrames_index]
  cases hentries : sectionEntries frames path with
  | none => trivial
  | some entries =>
    obtain ⟨values, rfl, hvalues⟩ := sectionEntries_lambdaFree hframes hentries
    simp only [Entries.atIndex]
    cases hvalue : values[index]? with
    | none => trivial
    | some value => exact hvalues value (List.mem_of_getElem? hvalue)

namespace Engine

variable {engine : Engine} {nested : Nat → Nested σ}

theorem stepRound_tame (k : Continuation String σ) (opened : Nat) {rest : List (Task σ)}
    (hrest : ∀ task ∈ rest, task.Tame) {out : Output String σ}
    (hout : Text.Escaped out.sink.toList) (path : Path) {children : List Node}
    (hchildren : Node.allTame children = true) (call : Call) {frames : List (Value σ)}
    (hframes : LambdaFree frames) (index : Nat) :
    (stepRound k opened rest out path children call frames index).Tame := by
  have hround := round_lambdaFree hframes path index
  unfold stepRound
  split
  · next value hfound =>
    rw [hfound] at hround
    refine ⟨?_, hout⟩
    rw [List.forall_mem_cons, List.forall_mem_cons]
    exact ⟨⟨hchildren, List.forall_mem_cons.2 ⟨hround, hframes⟩⟩, ⟨hchildren, hframes⟩, hrest⟩
  · next hfound =>
    rw [hfound] at hround
    exact hround.elim
  · exact ⟨hrest, hout⟩

/-- One instruction leads to something tame, if the partial that it opens is tame. -/
theorem stepNode_tame (hescape : engine.options.escape = .html) (k : Continuation String σ)
    {opened : Nat} {rest : List (Task σ)} (hrest : ∀ task ∈ rest, task.Tame)
    {frames : List (Value σ)} (hframes : LambdaFree frames) {out : Output String σ}
    (hout : Text.Escaped out.sink.toList) {node : Node} (hnode : node.tame = true)
    (hopened : ∀ nodes tasks, engine.stepNode Sink.text k opened rest frames out node =
      .going ⟨.nodes nodes frames :: tasks, opened + 1, out⟩ → Node.allTame nodes = true) :
    (engine.stepNode Sink.text k opened rest frames out node).Tame := by
  fun_cases stepNode with
  | case1 text =>
    refine Render.thenTasks_tame hrest ?_ opened
    change Text.Escaped (out.sink ++ text).toList
    rw [String.toList_append]
    exact hout.append (.of_isPlain hnode)
  | case2 path escape span =>
    obtain rfl : escape = .html := of_decide_eq_true hnode
    refine Render.thenTasks_tame hrest ?_ opened
    rw [hescape]
    exact interpolation_escaped k path span hframes hout
  | case3 | case8 => exact ⟨hrest, hout⟩
  | case4 | case5 => exact ⟨List.forall_mem_cons.2 ⟨⟨hnode, hframes⟩, hrest⟩, hout⟩
  | case6 | case7 | case9 => exact hout
  | case10 name indentation span hlimit source hload template hparse =>
    have htemplate : Node.allTame template.nodes = true := by
      refine hopened template.nodes (.leave :: rest) ?_
      simp only [stepNode, if_neg hlimit, hload, hparse]
    refine ⟨?_, hout⟩
    rw [List.forall_mem_cons, List.forall_mem_cons]
    exact ⟨⟨htemplate, hframes⟩, trivial, hrest⟩

/-- The next step opens a partial of these instructions. -/
def Enters (engine : Engine) (sink : Sink ω) (nested : Nat → Nested σ) (stage : Stage ω σ)
    (nodes : List Node) : Prop :=
  ∃ frames tasks out, engine.step sink nested stage =
    .going ⟨.nodes nodes frames :: tasks, stage.opened + 1, out⟩

/-- One of the steps to come opens a partial of these instructions. -/
def Opens (engine : Engine) (sink : Sink ω) (nested : Nat → Nested σ) (stage : Stage ω σ)
    (nodes : List Node) : Prop :=
  ∃ count stage', engine.run sink nested count stage = .going stage' ∧
    engine.Enters sink nested stage' nodes

theorem step_tame (hescape : engine.options.escape = .html) {stage : Stage String σ}
    (hstage : stage.Tame)
    (hopened : ∀ nodes, engine.Enters Sink.text nested stage nodes → Node.allTame nodes = true) :
    (engine.step Sink.text nested stage).Tame := by
  obtain ⟨tasks, opened, out⟩ := stage
  obtain ⟨htasks, hout⟩ := hstage
  simp only at htasks hout
  cases tasks with
  | nil => exact hout
  | cons task rest =>
    rw [List.forall_mem_cons] at htasks
    obtain ⟨htask, hrest⟩ := htasks
    cases task with
    | leave => exact ⟨hrest, hout⟩
    | rounds path children call frames index =>
      exact stepRound_tame _ opened hrest hout path htask.1 call htask.2 index
    | nodes nodes frames =>
      cases nodes with
      | nil => exact ⟨hrest, hout⟩
      | cons node nodes =>
        obtain ⟨hnodes, hframes⟩ := htask
        rw [Node.allTame, Bool.and_eq_true] at hnodes
        have hrest' : ∀ task ∈ .nodes nodes frames :: rest, task.Tame := by
          rw [List.forall_mem_cons]
          exact ⟨⟨hnodes.2, hframes⟩, hrest⟩
        refine stepNode_tame hescape _ hrest' hframes hout hnodes.1 ?_
        intro nodes' tasks hstep
        exact hopened nodes' ⟨frames, tasks, out, hstep⟩

theorem opens_iff {sink : Sink ω} {stage : Stage ω σ} {nodes : List Node} :
    engine.Opens sink nested stage nodes ↔
      engine.Enters sink nested stage nodes ∨
        ∃ next, engine.step sink nested stage = .going next ∧
          engine.Opens sink nested next nodes := by
  constructor
  · rintro ⟨count, stage', hrun, henters⟩
    cases count with
    | zero =>
      cases hrun
      exact .inl henters
    | succ count =>
      rw [run] at hrun
      split at hrun
      · cases hrun
      · next next hnext => exact .inr ⟨next, hnext, count, stage', hrun, henters⟩
  · rintro (henters | ⟨next, hnext, count, stage', hrun, henters⟩)
    · exact ⟨0, stage, rfl, henters⟩
    · refine ⟨count + 1, stage', ?_, henters⟩
      rw [run, hnext]
      exact hrun

/-- A step that opens nothing can be left out. -/
theorem Opens.later {sink : Sink ω} {stage next : Stage ω σ} {nodes : List Node}
    (h : engine.Opens sink nested stage nodes)
    (hnext : engine.step sink nested stage = .going next) (hopened : next.opened ≤ stage.opened) :
    engine.Opens sink nested next nodes := by
  obtain ⟨frames, tasks, out, hstep⟩ | ⟨next', hstep, h⟩ := opens_iff.1 h
  · rw [hnext, Progress.going.injEq] at hstep
    rw [hstep] at hopened
    exact absurd hopened (Nat.not_succ_le_self _)
  · rw [hnext, Progress.going.injEq] at hstep
    rwa [hstep]

/-- So long as the partials are tame, the render stays so. -/
theorem run_tame (hescape : engine.options.escape = .html) {stage : Stage String σ}
    (hstage : stage.Tame)
    (hopened : ∀ nodes, engine.Opens Sink.text nested stage nodes → Node.allTame nodes = true)
    (count : Nat) : (engine.run Sink.text nested count stage).Tame := by
  induction count generalizing stage with
  | zero => exact hstage
  | succ count ih =>
    have hstep : (engine.step Sink.text nested stage).Tame := by
      refine step_tame hescape hstage ?_
      intro nodes henters
      exact hopened nodes (opens_iff.2 (.inl henters))
    rw [run]
    cases hnext : engine.step Sink.text nested stage with
    | ended answer out =>
      rw [hnext] at hstep
      exact hstep
    | going next =>
      rw [hnext] at hstep
      exact ih hstep fun nodes h => hopened nodes (opens_iff.2 (.inr ⟨next, hnext, h⟩))

/-- Escaped templates inject no markup: if no tag is raw and no literal text has a markup
character, in the template and in each partial that the render opens, then what is written for data
without lambdas has no angle bracket and no quote, and each of its ampersands begins an entity.
That goes for the text of a render that succeeds, and for what one that fails has written before. -/
theorem renderTo_escaped (engine : Engine) (hescape : engine.options.escape = .html) (fuel : Nat)
    (template : Template) (htemplate : Node.allTame template.nodes = true) {data : Data σ}
    (hdata : data.lambdaFree = true) (store : σ)
    (hopened : ∀ nodes, engine.Opens Sink.text (engine.renderNested fuel)
      (start template data ⟨"", store⟩) nodes → Node.allTame nodes = true) :
    Text.Escaped (engine.renderTo fuel Sink.text template data ⟨"", store⟩).2.sink.toList ∧
      ∀ text store', engine.render template data store = (.ok text, store') →
        Text.Escaped text.toList := by
  have hwritten :
      Text.Escaped (engine.renderTo fuel Sink.text template data ⟨"", store⟩).2.sink.toList := by
    obtain ⟨count, hrun⟩ := engine.exists_run fuel Sink.text template data ⟨"", store⟩
    have hstart : (start template data ⟨"", store⟩ : Stage String σ).Tame :=
      ⟨List.forall_mem_singleton.2 ⟨htemplate, .of_data hdata⟩, .of_isPlain rfl⟩
    have htame := run_tame hescape hstart hopened count
    rwa [hrun] at htame
  refine ⟨hwritten, ?_⟩
  intro text store' hrender
  -- lambdas take no part, so that the fuel of `render` is as good as any
  rw [(engine.renderTo_lambdaFree fuel lambdaLimit Sink.text template hdata).eq] at hwritten
  unfold render at hrender
  split at hrender
  · next out hout =>
    cases hrender
    rwa [hout] at hwritten
  · cases hrender

/-- Markup in a name, behind a greeting from a partial. -/
theorem renderTo_escaped_greeting :
    let engine : Engine := ⟨fun _ => .ok (some "Hi, "), ⟨.html, .braces, 1⟩⟩
    let template : Template := ⟨none, [.inclusion "hello" "" ⟨0, 10, 1, 1⟩,
      .interpolation ⟨["name"]⟩ .html ⟨10, 18, 1, 11⟩]⟩
    let data : Data Unit := .record [("name", .string "<b>&")] []
    Node.allTame template.nodes = true ∧ data.lambdaFree = true ∧
      engine.renderTo 0 Sink.text template data ⟨"", ()⟩ =
        (.ok (), ⟨"Hi, &lt;b&gt;&amp;", ()⟩) ∧
      Text.Escaped "Hi, &lt;b&gt;&amp;".toList := by
  intro engine template data
  have hload : engine.load "hello" "" = .ok (some ⟨some "hello", [.literal "Hi, "]⟩) := by cbv
  have hrender : engine.renderTo 0 Sink.text template data ⟨"", ()⟩ =
      (.ok (), ⟨"Hi, &lt;b&gt;&amp;", ()⟩) := by
    show engine.renderWithin Sink.text _ 1 _ _ _ = _
    rw [renderWithin_eq]
    simp only [template, renderNodes, renderNode, inclusion_succ, hload]
    rfl
  have hopened : ∀ nodes, engine.Opens Sink.text (engine.renderNested 0)
      (start template data ⟨"", ()⟩) nodes → Node.allTame nodes = true := by
    intro nodes h
    generalize engine.renderNested 0 = nested at h
    have hstep : engine.step Sink.text nested (start template data ⟨"", ()⟩) =
        .going ⟨[.nodes [.literal "Hi, "] [.host data], .leave,
          .nodes template.nodes.tail [.host data]], 1, ⟨"", ()⟩⟩ := by
      simp only [step, start, template]
      rw [stepNode_inclusion _ _ _ Nat.zero_lt_one, hload]
      rfl
    obtain ⟨frames, tasks, out, hnodes⟩ | ⟨next, hnext, h⟩ := opens_iff.1 h
    · rw [hstep] at hnodes
      cases hnodes
      rfl
    · rw [hstep, Progress.going.injEq] at hnext
      subst hnext
      -- the text, the end of the partial, the name and the end of the template open nothing
      have h := h.later rfl (Nat.le_refl _)
      have h := h.later rfl (Nat.le_refl _)
      have h := h.later rfl (by decide)
      have h := h.later rfl (Nat.le_refl _)
      have h := h.later rfl (Nat.le_refl _)
      obtain ⟨frames, tasks, out, hnodes⟩ | ⟨next, hnext, _⟩ := opens_iff.1 h
      · cases hnodes
      · cases hnext
  obtain ⟨hescaped, _⟩ := engine.renderTo_escaped rfl 0 template rfl rfl () hopened
  rw [hrender] at hescaped
  exact ⟨rfl, rfl, hrender, hescaped⟩

end Engine

end Mustache
