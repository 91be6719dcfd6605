import Mustache.Proofs.LambdaFree
import Mustache.Proofs.Sections

/-!
# Mustache.Proofs.Ending

Rendering as single steps. A stage of a render is a stack of tasks, with a count of the partials
that are open; sections go on from one index to the next, looking their name up each time, and
nothing says beforehand how often. Every render ends after finitely many steps, with the answer
that `renderTo` gives, and data without lambdas needs no fuel for that.
-/

namespace Mustache

variable {ω σ : Type}

/-! ## Stages -/

inductive Task (σ : Type) where
  | nodes (nodes : List Node) (frames : List (Value σ))
  /-- A section from an index on. -/
  | rounds (path : Path) (children : List Node) (call : Call) (frames : List (Value σ))
      (index : Nat)
  /-- The end of a partial. -/
  | leave

structure Stage (ω σ : Type) where
  tasks : List (Task σ)
  /-- How many partials are open. -/
  opened : Nat
  out : Output ω σ

inductive Progress (ω σ : Type) where
  | ended (answer : Except Halt Unit) (out : Output ω σ)
  | going (stage : Stage ω σ)

/-- Does something at once, and goes on with the tasks if it succeeds. -/
def Render.thenTasks (step : Render ω σ Unit) (tasks : List (Task σ)) (opened : Nat)
    (out : Output ω σ) : Progress ω σ :=
  match step out with
  | (.ok (), out) => .going ⟨tasks, opened, out⟩
  | (.error halt, out) => .ended (.error halt) out

namespace Engine

variable (engine : Engine) (sink : Sink ω)

/-- Calls of lambdas are done at once, as `k` says. -/
def stepNode (k : Continuation ω σ) (opened : Nat) (rest : List (Task σ))
    (frames : List (Value σ)) (out : Output ω σ) : Node → Progress ω σ
  | .literal text => (Render.emit sink text).thenTasks rest opened out
  | .interpolation path escape span =>
    (renderNode sink engine.options.escape k (.interpolation path escape span)
      frames).thenTasks rest opened out
  | .block path true children _ _ _ =>
    if entersSection frames path then .going ⟨rest, opened, out⟩
    else .going ⟨.nodes children frames :: rest, opened, out⟩
  | .block path false children inner delimiters _ =>
    .going ⟨.rounds path children ⟨inner, .raw, delimiters⟩ frames 0 :: rest, opened, out⟩
  | .inclusion name indentation _ =>
    if engine.options.maxPartialDepth ≤ opened then
      .ended (.error (.failed (.partialDepth name engine.options.maxPartialDepth))) out
    else
      match engine.partials name with
      | .error error => .ended (.error (.failed error)) out
      | .ok none => .going ⟨rest, opened, out⟩
      | .ok (some source) =>
        match engine.parsePartial name indentation source with
        | .error error => .ended (.error (.failed (.parse error))) out
        | .ok template =>
          .going ⟨.nodes template.nodes frames :: .leave :: rest, opened + 1, out⟩

/-- Below the limit, a partial that is there is opened. -/
theorem stepNode_inclusion (k : Continuation ω σ) {opened : Nat}
    (hopened : opened < engine.options.maxPartialDepth) (rest : List (Task σ))
    (frames : List (Value σ)) (out : Output ω σ) (name indentation : String) (span : Span) :
    engine.stepNode sink k opened rest frames out (.inclusion name indentation span) =
      match engine.load name indentation with
      | .error error => .ended (.error (.failed error)) out
      | .ok none => .going ⟨rest, opened, out⟩
      | .ok (some template) =>
        .going ⟨.nodes template.nodes frames :: .leave :: rest, opened + 1, out⟩ := by
  rw [stepNode, if_neg (Nat.not_le_of_lt hopened), load]
  cases engine.partials name with
  | error error => rfl
  | ok source =>
    cases source with
    | none => rfl
    | some source =>
      simp only
      cases engine.parsePartial name indentation source with
      | error error => rfl
      | ok template => rfl

/-- The name of a section is looked up with the index, and once more to call a lambda. -/
def stepRound (k : Continuation ω σ) (opened : Nat) (rest : List (Task σ)) (out : Output ω σ)
    (path : Path) (children : List Node) (call : Call) (frames : List (Value σ)) (index : Nat) :
    Progress ω σ :=
  match (resolveFrames Action.get frames path (some index)).run with
  | .field (some value) =>
    .going ⟨.nodes children (value :: frames) ::
      .rounds path children call frames (index + 1) :: rest, opened, out⟩
  | .lambda _ =>
    if index = 0 then
      Render.thenTasks (do
        let _ ← resolveFrames (calling k frames call) frames path (some 0)) rest opened out
    else .going ⟨rest, opened, out⟩
  | _ => .going ⟨rest, opened, out⟩

variable (nested : Nat → Nested σ)

def step (stage : Stage ω σ) : Progress ω σ :=
  let k := engine.continuation sink nested (engine.options.maxPartialDepth - stage.opened)
  match stage.tasks with
  | [] => .ended (.ok ()) stage.out
  | .leave :: rest => .going ⟨rest, stage.opened - 1, stage.out⟩
  | .nodes [] _ :: rest => .going ⟨rest, stage.opened, stage.out⟩
  | .nodes (node :: nodes) frames :: rest =>
    engine.stepNode sink k stage.opened (.nodes nodes frames :: rest) frames stage.out node
  | .rounds path children call frames index :: rest =>
    stepRound k stage.opened rest stage.out path children call frames index

/-- Where a render is after so many steps. -/
def run : Nat → Stage ω σ → Progress ω σ
  | 0, stage => .going stage
  | count + 1, stage =>
    match engine.step sink nested stage with
    | .ended answer out => .ended answer out
    | .going stage => run count stage

theorem run_add (count count' : Nat) (stage : Stage ω σ) :
    engine.run sink nested (count + count') stage =
      match engine.run sink nested count stage with
      | .ended answer out => .ended answer out
      | .going stage => engine.run sink nested count' stage := by
  induction count generalizing stage with
  | zero => rw [Nat.zero_add, run]
  | succ count ih =>
    rw [Nat.succ_add, run, run]
    cases engine.step sink nested stage with
    | ended answer out => rfl
    | going stage => exact ih stage

end Engine

/-! ## Open partials -/

def Task.isLeave : Task σ → Bool
  | .leave => true
  | .nodes .. | .rounds .. => false

/-- What is counted as open is what is still to be left, and no more than the limit. -/
structure Bounded (limit : Nat) (tasks : List (Task σ)) (opened : Nat) : Prop where
  counted : opened = tasks.countP Task.isLeave
  limited : opened ≤ limit

def Progress.Bounded (limit : Nat) : Progress ω σ → Prop
  | .ended .. => True
  | .going stage => Mustache.Bounded limit stage.tasks stage.opened

theorem Render.thenTasks_bounded {limit opened : Nat} {tasks : List (Task σ)}
    (h : Bounded limit tasks opened) (step : Render ω σ Unit) (out : Output ω σ) :
    (step.thenTasks tasks opened out).Bounded limit := by
  unfold Render.thenTasks
  split
  · exact h
  · trivial

namespace Engine

variable (engine : Engine) (sink : Sink ω) (nested : Nat → Nested σ)

theorem stepNode_bounded (k : Continuation ω σ) {opened : Nat} {rest : List (Task σ)}
    (h : Bounded engine.options.maxPartialDepth rest opened) (frames : List (Value σ))
    (out : Output ω σ) (node : Node) :
    (engine.stepNode sink k opened rest frames out node).Bounded
      engine.options.maxPartialDepth := by
  obtain ⟨hcounted, hlimited⟩ := h
  fun_cases stepNode with
  | case1 text => exact Render.thenTasks_bounded ⟨hcounted, hlimited⟩ _ out
  | case2 path escape span => exact Render.thenTasks_bounded ⟨hcounted, hlimited⟩ _ out
  | case3 | case4 | case5 | case8 => exact ⟨by simpa [Task.isLeave] using hcounted, hlimited⟩
  | case6 | case7 | case9 => trivial
  | case10 name indentation span hlimit source hload template hparse =>
    refine ⟨?_, Nat.lt_of_not_le hlimit⟩
    rw [List.countP_cons_of_neg Bool.false_ne_true, List.countP_cons_of_pos rfl, hcounted]

theorem step_bounded {stage : Stage ω σ}
    (h : Bounded engine.options.maxPartialDepth stage.tasks stage.opened) :
    (engine.step sink nested stage).Bounded engine.options.maxPartialDepth := by
  obtain ⟨tasks, opened, out⟩ := stage
  obtain ⟨hcounted, hlimited⟩ := h
  simp only at hcounted hlimited
  cases tasks with
  | nil => trivial
  | cons task rest =>
    cases task with
    | leave =>
      rw [List.countP_cons_of_pos rfl] at hcounted
      refine ⟨?_, ?_⟩
      · simp only
        omega
      · simp only
        omega
    | nodes nodes frames =>
      have hrest : Bounded engine.options.maxPartialDepth rest opened :=
        ⟨by simpa [Task.isLeave] using hcounted, hlimited⟩
      cases nodes with
      | nil => exact hrest
      | cons node nodes =>
        exact engine.stepNode_bounded sink _
          ⟨by simpa [Task.isLeave] using hcounted, hlimited⟩ frames out node
    | rounds path children call frames index =>
      have hrest : Bounded engine.options.maxPartialDepth rest opened :=
        ⟨by simpa [Task.isLeave] using hcounted, hlimited⟩
      simp only [step, stepRound]
      split
      · exact ⟨by simpa [Task.isLeave] using hcounted, hlimited⟩
      · split
        · exact Render.thenTasks_bounded hrest _ out
        · exact hrest
      · exact hrest

/-- The partials that are open stay counted and within bounds. -/
theorem run_bounded (stage : Stage ω σ) (count : Nat)
    (h : Bounded engine.options.maxPartialDepth stage.tasks stage.opened) :
    (engine.run sink nested count stage).Bounded engine.options.maxPartialDepth := by
  induction count generalizing stage with
  | zero => exact h
  | succ count ih =>
    have hstep := engine.step_bounded sink nested h
    rw [run]
    split
    · trivial
    · next stage' heq =>
      rw [heq] at hstep
      exact ih stage' hstep

end Engine

/-! ## Every render ends -/

namespace Engine

section

variable (engine : Engine) (sink : Sink ω) (nested : Nat → Nested σ)

/-- From a stage the render gets to where it is then, after some number of steps. -/
def Leads (stage : Stage ω σ) (progress : Progress ω σ) : Prop :=
  ∃ count, engine.run sink nested count stage = progress

/-- The render is there already, or gets there from its stage. -/
def Continues : Progress ω σ → Progress ω σ → Prop
  | .ended answer out, progress => progress = .ended answer out
  | .going stage, progress => engine.Leads sink nested stage progress

/-- With so many partials open, doing the tasks is the same as the step. -/
def Carries (opened : Nat) (tasks : List (Task σ)) (step : Render ω σ Unit) : Prop :=
  ∀ rest out, engine.Leads sink nested ⟨tasks ++ rest, opened, out⟩
    (step.thenTasks rest opened out)

end

variable {engine : Engine} {sink : Sink ω} {nested : Nat → Nested σ}

theorem Continues.refl (progress : Progress ω σ) :
    engine.Continues sink nested progress progress := by
  cases progress with
  | ended answer out => rfl
  | going stage => exact ⟨0, rfl⟩

theorem Leads.of_step {stage : Stage ω σ} {progress : Progress ω σ}
    (h : engine.Continues sink nested (engine.step sink nested stage) progress) :
    engine.Leads sink nested stage progress := by
  cases hstep : engine.step sink nested stage with
  | ended answer out =>
    rw [hstep] at h
    refine ⟨1, ?_⟩
    rw [run, hstep]
    exact Eq.symm h
  | going stage' =>
    rw [hstep] at h
    obtain ⟨count, h⟩ := h
    refine ⟨count + 1, ?_⟩
    rw [run, hstep]
    exact h

theorem Leads.trans {stage : Stage ω σ} {progress progress' : Progress ω σ}
    (h : engine.Leads sink nested stage progress)
    (h' : engine.Continues sink nested progress progress') :
    engine.Leads sink nested stage progress' := by
  obtain ⟨count, rfl⟩ := h
  cases hrun : engine.run sink nested count stage with
  | ended answer out =>
    rw [hrun] at h'
    exact ⟨count, hrun.trans (Eq.symm h')⟩
  | going stage' =>
    rw [hrun] at h'
    obtain ⟨count', h'⟩ := h'
    refine ⟨count + count', ?_⟩
    rw [run_add, hrun]
    exact h'

theorem Continues.trans {progress progress' progress'' : Progress ω σ}
    (h : engine.Continues sink nested progress progress')
    (h' : engine.Continues sink nested progress' progress'') :
    engine.Continues sink nested progress progress'' := by
  cases progress with
  | ended answer out =>
    subst h
    exact h'
  | going stage => exact Leads.trans h h'

variable {opened : Nat}

theorem continues_thenTasks {tasks rest : List (Task σ)} {next : Render ω σ Unit}
    (h : ∀ out, engine.Leads sink nested ⟨tasks, opened, out⟩ (next.thenTasks rest opened out))
    (step : Render ω σ Unit) (out : Output ω σ) :
    engine.Continues sink nested (step.thenTasks tasks opened out)
      ((step >>= fun _ => next).thenTasks rest opened out) := by
  unfold Render.thenTasks
  cases hstep : step out with
  | mk answer out₁ =>
    cases answer with
    | ok done =>
      rw [Render.bind_of_ok hstep]
      exact h out₁
    | error halt =>
      rw [Render.bind_of_error hstep]
      exact rfl

theorem Carries.nil : engine.Carries sink nested opened [] (pure ()) :=
  fun _ _ => ⟨0, rfl⟩

theorem Carries.append {tasks tasks' : List (Task σ)} {step step' : Render ω σ Unit}
    (h : engine.Carries sink nested opened tasks step)
    (h' : engine.Carries sink nested opened tasks' step') :
    engine.Carries sink nested opened (tasks ++ tasks') (step >>= fun _ => step') := by
  intro rest out
  rw [List.append_assoc]
  exact (h (tasks' ++ rest) out).trans (continues_thenTasks (h' rest) step out)

theorem Carries.of_step {task : Task σ} {tasks : List (Task σ)} {step : Render ω σ Unit}
    (hstep : ∀ rest out, engine.step sink nested ⟨task :: rest, opened, out⟩ =
      .going ⟨tasks ++ rest, opened, out⟩)
    (h : engine.Carries sink nested opened tasks step) :
    engine.Carries sink nested opened [task] step := by
  intro rest out
  apply Leads.of_step
  rw [List.singleton_append, hstep]
  exact h rest out

/-- What a section does from an index on. -/
theorem carries_rounds {frames : List (Value σ)} {path : Path} {values : List (Value σ)}
    {children : List Node} {body : Value σ → Render ω σ Unit} (call : Call)
    (hentries : sectionEntries frames path = some (.each values))
    (hbody : ∀ value ∈ values,
      engine.Carries sink nested opened [.nodes children (value :: frames)] (body value))
    (index : Nat) :
    engine.Carries sink nested opened [.rounds path children call frames index]
      ((values.drop index).forM body) := by
  have hget (index : Nat) : (resolveFrames .get frames path (some index)).run =
      (Enumeration.each values).atIndex index := by
    rw [resolveFrames_get_some, ofFound_get, hentries]
    rfl
  -- the elements left are one less in each round
  generalize hleft : values.length - index = left
  induction left generalizing index with
  | zero =>
    rw [List.drop_of_length_le (by omega)]
    refine .of_step ?_ .nil
    intro rest out
    show stepRound _ _ _ _ _ _ _ _ _ = _
    rw [stepRound, hget, Enumeration.atIndex, List.getElem?_eq_none (by omega)]
    rfl
  | succ left ih =>
    have hindex : index < values.length := by omega
    rw [List.drop_eq_getElem_cons hindex]
    refine .of_step ?_ ((hbody _ (List.getElem_mem hindex)).append (ih (index + 1) (by omega)))
    intro rest out
    show stepRound _ _ _ _ _ _ _ _ _ = _
    rw [stepRound, hget, Enumeration.atIndex, List.getElem?_eq_getElem hindex]
    rfl

/-- What a section does from its start. -/
theorem carries_section {depth : Nat} (hdepth : opened + depth = engine.options.maxPartialDepth)
    (path : Path) (children : List Node) (call : Call) (frames : List (Value σ))
    {body : Value σ → Render ω σ Unit}
    (hbody : ∀ value,
      engine.Carries sink nested opened [.nodes children (value :: frames)] (body value)) :
    engine.Carries sink nested opened [.rounds path children call frames 0]
      (match sectionEntries frames path with
      | some (.each values) => values.forM body
      | some (.lambda f) => (engine.continuation sink nested depth).expansion frames f call
      | none => pure ()) := by
  cases hentries : sectionEntries frames path with
  | none =>
    refine .of_step ?_ .nil
    intro rest out
    show stepRound _ _ _ _ _ _ _ _ _ = _
    rw [stepRound, resolveFrames_eq_act, locateFrames_index, hentries]
    rfl
  | some entries =>
    cases entries with
    | each values => exact carries_rounds call hentries (fun value _ => hbody value) 0
    | lambda f =>
      intro rest out
      apply Leads.of_step
      show engine.Continues sink nested (stepRound _ _ _ _ _ _ _ _ _) _
      have hleft : engine.options.maxPartialDepth - opened = depth := by omega
      rw [stepRound, resolveFrames_eq_act, resolveFrames_eq_act, locateFrames_index, hentries]
      have hcall : (do
          let _ ← ((Entries.lambda f).atIndex 0).act
            (calling (engine.continuation sink nested depth) frames call)) =
            (engine.continuation sink nested depth).expansion frames f call := by
        simp [Entries.atIndex, Location.act, Action.onLambda, calling]
      simp only [hleft, hcall]
      exact .refl _

mutual

/-- What one instruction does, in the first step or from there on. -/
theorem continues_node {depth : Nat} (hdepth : opened + depth = engine.options.maxPartialDepth)
    (hinclusion : ∀ name indentation span frames rest out,
      engine.Continues sink nested
        (engine.stepNode sink (engine.continuation sink nested depth) opened rest frames out
          (.inclusion name indentation span))
        (((engine.continuation sink nested depth).inclusion frames name indentation).thenTasks
          rest opened out)) :
    ∀ (node : Node) (frames : List (Value σ)) (rest : List (Task σ)) (out : Output ω σ),
      engine.Continues sink nested
        (engine.stepNode sink (engine.continuation sink nested depth) opened rest frames out node)
        ((renderNode sink engine.options.escape (engine.continuation sink nested depth) node
          frames).thenTasks rest opened out)
  | .literal text, frames, rest, out => .refl _
  | .interpolation path escape span, frames, rest, out => .refl _
  | .block path true children inner delimiters span, frames, rest, out => by
    rw [stepNode, renderNode, if_pos rfl]
    split
    · exact .refl _
    · exact carries_nodes hdepth hinclusion children frames rest out
  | .block path false children inner delimiters span, frames, rest, out => by
    rw [stepNode, renderNode_section]
    exact carries_section hdepth path children _ frames
      (fun value => carries_nodes hdepth hinclusion children (value :: frames)) rest out
  | .inclusion name indentation span, frames, rest, out =>
    hinclusion name indentation span frames rest out

theorem carries_nodes {depth : Nat} (hdepth : opened + depth = engine.options.maxPartialDepth)
    (hinclusion : ∀ name indentation span frames rest out,
      engine.Continues sink nested
        (engine.stepNode sink (engine.continuation sink nested depth) opened rest frames out
          (.inclusion name indentation span))
        (((engine.continuation sink nested depth).inclusion frames name indentation).thenTasks
          rest opened out)) :
    ∀ (nodes : List Node) (frames : List (Value σ)),
      engine.Carries sink nested opened [.nodes nodes frames]
        (renderNodes sink engine.options.escape (engine.continuation sink nested depth) nodes
          frames)
  | [], frames => .of_step (fun _ _ => rfl) .nil
  | node :: nodes, frames => by
    intro rest out
    have hnode := continues_node hdepth hinclusion node frames (.nodes nodes frames :: rest) out
    have hnodes := carries_nodes hdepth hinclusion nodes frames rest
    have hleft : engine.options.maxPartialDepth - opened = depth := by omega
    apply Leads.of_step
    show engine.Continues sink nested (engine.stepNode sink _ _ _ _ _ _) _
    simp only [hleft]
    exact hnode.trans (continues_thenTasks hnodes _ out)

end

/-- The end of a partial only lowers the count. -/
theorem continues_leave (step : Render ω σ Unit) (rest : List (Task σ)) (out : Output ω σ) :
    engine.Continues sink nested (step.thenTasks (.leave :: rest) (opened + 1) out)
      (step.thenTasks rest opened out) := by
  unfold Render.thenTasks
  split
  · exact Leads.of_step (.refl _)
  · exact rfl

theorem carries_renderWithin {depth : Nat}
    (hdepth : opened + depth = engine.options.maxPartialDepth) (nodes : List Node)
    (frames : List (Value σ)) :
    engine.Carries sink nested opened [.nodes nodes frames]
      (engine.renderWithin sink nested depth nodes frames) := by
  induction depth generalizing opened nodes frames with
  | zero =>
    rw [renderWithin_eq]
    refine carries_nodes hdepth ?_ nodes frames
    intro name indentation span frames rest out
    rw [stepNode, if_pos (by omega)]
    exact rfl
  | succ depth ih =>
    rw [renderWithin_eq]
    refine carries_nodes hdepth ?_ nodes frames
    intro name indentation span frames rest out
    rw [stepNode_inclusion _ _ _ (by omega), inclusion_succ]
    cases engine.load name indentation with
    | error error => exact rfl
    | ok template =>
      cases template with
      | none => exact .refl _
      | some template =>
        have htemplate := ih (by omega : opened + 1 + depth = _) template.nodes frames
        exact (htemplate (.leave :: rest) out).trans (continues_leave _ rest out)

/-- The stage that a render begins in. -/
def start (template : Template) (data : Data σ) (out : Output ω σ) : Stage ω σ :=
  ⟨[.nodes template.nodes [.host data]], 0, out⟩

/-- Every render is a run of finitely many steps. -/
theorem exists_run (engine : Engine) (fuel : Nat) (sink : Sink ω) (template : Template)
    (data : Data σ) (out : Output ω σ) :
    ∃ count, engine.run sink (engine.renderNested fuel) count (start template data out) =
      .ended (engine.renderTo fuel sink template data out).1
        (engine.renderTo fuel sink template data out).2 := by
  have hcarries : engine.Carries sink (engine.renderNested fuel) 0
      [.nodes template.nodes [.host data]] (engine.renderTo fuel sink template data) :=
    carries_renderWithin (Nat.zero_add _) template.nodes [.host data]
  refine (hcarries [] out).trans ?_
  unfold Render.thenTasks
  cases engine.renderTo fuel sink template data out with
  | mk answer out' =>
    cases answer with
    | ok done => exact Leads.of_step rfl
    | error halt => exact rfl

end Engine

/-! ## Without lambdas -/

/-- Two steps are the same, and there is always fuel enough for them. -/
structure Render.Settled {α : Type} (step step' : Render ω σ α) : Prop where
  eq : step = step'
  ends : ∀ out, (step out).1 ≠ .error .exhausted

namespace Render.Settled

variable {α β : Type}

theorem fail (error : Error) :
    Settled (Render.fail error : Render ω σ α) (Render.fail error) :=
  ⟨rfl, fun _ => nofun⟩

theorem pure (a : α) : Settled (Pure.pure a : Render ω σ α) (Pure.pure a) :=
  ⟨rfl, fun _ => nofun⟩

theorem bind {step step' : Render ω σ α} {next next' : α → Render ω σ β}
    (h : Settled step step') (hnext : ∀ a, Settled (next a) (next' a)) :
    Settled (step >>= next) (step' >>= next') where
  eq := by
    rw [h.eq, funext fun a => (hnext a).eq]
  ends out := by
    have hends := h.ends out
    cases hstep : step out with
    | mk answer out₁ =>
      cases answer with
      | ok a =>
        rw [bind_of_ok hstep]
        exact (hnext a).ends out₁
      | error halt =>
        rw [hstep] at hends
        rw [bind_of_error hstep]
        simpa using hends

theorem emit (sink : Sink ω) (chunk : String) :
    Settled (Render.emit sink chunk : Render ω σ Unit) (Render.emit sink chunk) := by
  refine ⟨rfl, ?_⟩
  intro out
  unfold Render.emit
  split <;> nofun

theorem congruence (sink : Sink ω) : Render.Congruence (σ := σ) sink sink fun _ => Settled :=
  ⟨pure, bind, emit sink⟩

end Render.Settled

namespace Engine

/-- Without lambdas it does not matter what they would render with, and there is always fuel
enough. -/
theorem renderWithin_lambdaFree (engine : Engine) (sink : Sink ω) (nested nested' : Nat → Nested σ)
    (depth : Nat) (nodes : List Node) {frames : List (Value σ)} (h : LambdaFree frames) :
    Render.Settled (engine.renderWithin sink nested depth nodes frames)
      (engine.renderWithin sink nested' depth nodes frames) := by
  refine (Render.Settled.congruence sink).renderWithin .fail .lambdaFree engine ?_ depth nodes
    frames h
  intro depth frames path f call hframes hentries
  exact absurd hentries (sectionEntries_ne_lambda hframes f)

theorem renderTo_lambdaFree (engine : Engine) (fuel fuel' : Nat) (sink : Sink ω)
    (template : Template) {data : Data σ} (h : data.lambdaFree = true) :
    Render.Settled (engine.renderTo fuel sink template data)
      (engine.renderTo fuel' sink template data) :=
  engine.renderWithin_lambdaFree sink _ _ _ template.nodes (.of_data h)

/-- Rendering data without lambdas ends, whatever the template, the partials and the sink are: the
steps lead to a success or an error after finitely many of them, which is the answer that
`renderTo` gives with any fuel, and on the way no more partials are open than the options allow. -/
theorem renderTo_ends (engine : Engine) (sink : Sink ω) (template : Template) {data : Data σ}
    (h : data.lambdaFree = true) (out : Output ω σ) :
    ∃ answer out', (answer = .ok () ∨ ∃ error, answer = .error (.failed error)) ∧
      ∀ fuel,
        engine.renderTo fuel sink template data out = (answer, out') ∧
        let nested := engine.renderNested fuel
        (∃ count, engine.run sink nested count (start template data out) = .ended answer out') ∧
        ∀ count stage, engine.run sink nested count (start template data out) = .going stage →
          stage.opened = stage.tasks.countP Task.isLeave ∧
            stage.opened ≤ engine.options.maxPartialDepth := by
  have hsettled (fuel : Nat) := engine.renderTo_lambdaFree fuel 0 sink template h
  have hends := (hsettled 0).ends out
  cases hanswer : engine.renderTo 0 sink template data out with
  | mk answer out' =>
    rw [hanswer] at hends
    refine ⟨answer, out', ?_, ?_⟩
    · cases answer with
      | ok done => exact .inl rfl
      | error halt =>
        cases halt with
        | failed error => exact .inr ⟨error, rfl⟩
        | exhausted => exact absurd rfl hends
    · intro fuel
      have hrender : engine.renderTo fuel sink template data out = (answer, out') := by
        rw [(hsettled fuel).eq, hanswer]
      refine ⟨hrender, ?_, ?_⟩
      · have hrun := engine.exists_run fuel sink template data out
        rwa [hrender] at hrun
      · intro count stage hrun
        have hbounded := engine.run_bounded sink (engine.renderNested fuel)
          (start template data out) count ⟨rfl, Nat.zero_le _⟩
        rw [hrun] at hbounded
        exact ⟨hbounded.counted, hbounded.limited⟩

/-- A partial that includes itself. -/
theorem renderTo_ends_recursive :
    let engine : Engine := ⟨fun _ => .ok (some "\x7b\x7b>p\x7d\x7d"), ⟨.html, .braces, 2⟩⟩
    let data : Data Unit := .record [("x", .sequence [.bool true, .absent])] []
    let template : Template := ⟨none, [.inclusion "p" "" ⟨0, 6, 1, 1⟩]⟩
    ∃ answer out' count, (answer = .ok () ∨ ∃ error, answer = .error (.failed error)) ∧
      engine.renderTo 0 Sink.text template data ⟨"", ()⟩ = (answer, out') ∧
      engine.run Sink.text (engine.renderNested 0) count (start template data ⟨"", ()⟩) =
        .ended answer out' := by
  intro engine data template
  obtain ⟨answer, out', hanswer, hends⟩ :=
    engine.renderTo_ends Sink.text template (rfl : data.lambdaFree = true) ⟨"", ()⟩
  obtain ⟨hrender, ⟨count, hrun⟩, _⟩ := hends 0
  exact ⟨answer, out', count, hanswer, hrender, hrun⟩

end Engine
end Mustache
