import Mathlib.Logic.Function.Iterate
import Mustache.Proofs.Failing
import Mustache.Proofs.Reaching
import Mustache.Proofs.Scanning

/-!
# Mustache.Proofs.Expansion

Calls of lambdas while a template is rendered, and while lambdas render templates in turn. A call
writes its whole text at once or nothing at all, and the sink that the outermost render writes to
decides which failures end the render, however deep the call is.
-/

namespace Mustache

variable {ω ω' σ α : Type}

/-! ## Calls -/

theorem Lambda.attempt_eq (host : Host (Render ω σ) σ) (recognize : Failure → Option SinkError)
    (f : Lambda σ) (call : Call) (out : Output ω σ) :
    f.attempt host recognize call out =
      match (f call).run host call out with
      | (.ok (.ok ()), out) => (.ok (.ok true), out)
      | (.ok (.error failure), out) =>
        match recognize failure with
        | some error => (.ok (.error error), out)
        | none => (.ok (.ok false), out)
      | (.error halt, out) => (.error halt, out) := by
  cases hrun : (f call).run host call out with
  | mk answer out =>
    cases answer with
    | error halt => exact Render.bind_of_error hrun _
    | ok result =>
      rw [Lambda.attempt, Render.bind_of_ok hrun]
      cases result with
      | ok done => rfl
      | error failure => cases h : recognize failure <;> simp only [h] <;> rfl

theorem expandLambda_eq (sink : Sink ω) (nested : Nested σ) (frames : List (Value σ))
    (f : Lambda σ) (call : Call) (out : Output ω σ) :
    expandLambda sink nested frames f call out =
      match (f call).run (scratchHost (Sink.scratch sink.recognize) nested frames) call
          ⟨"", out.store⟩ with
      | (.ok (.ok ()), scratch) => Render.emit sink scratch.sink ⟨out.sink, scratch.store⟩
      | (.ok (.error failure), scratch) =>
        match sink.recognize failure with
        | some error => (.error (.failed (.sink error)), ⟨out.sink, scratch.store⟩)
        | none => (.ok (), ⟨out.sink, scratch.store⟩)
      | (.error halt, scratch) => (.error halt, ⟨out.sink, scratch.store⟩) := by
  have hattempt := f.attempt_eq (scratchHost (Sink.scratch sink.recognize) nested frames)
    sink.recognize call ⟨"", out.store⟩
  cases hrun : (f call).run (scratchHost (Sink.scratch sink.recognize) nested frames) call
      ⟨"", out.store⟩ with
  | mk answer scratch =>
    rw [hrun] at hattempt
    rw [expandLambda]
    cases answer with
    | error halt =>
      apply Render.bind_of_error
      simp only [Render.onScratch, hattempt]
    | ok result =>
      have hscratch {completed : Except SinkError Bool}
          (h : f.attempt (scratchHost (Sink.scratch sink.recognize) nested frames) sink.recognize
            call ⟨"", out.store⟩ = (.ok completed, scratch)) :
          Render.onScratch (f.attempt (scratchHost (Sink.scratch sink.recognize) nested frames)
            sink.recognize call) out =
              (.ok (completed, scratch.sink), ⟨out.sink, scratch.store⟩) := by
        simp only [Render.onScratch, h]
      cases result with
      | ok done => exact Render.bind_of_ok (hscratch hattempt) _
      | error failure =>
        cases h : sink.recognize failure with
        | some error | none =>
          simp only [h] at hattempt ⊢
          exact Render.bind_of_ok (hscratch hattempt) _

/-! ## Requests -/

/-- Answering the requests of a program from `out` on, the host comes to one for a template: the
program goes on with `next` when it is rendered, from what the text is then. -/
inductive Program.Asks (host : Host (Render ω σ) σ) (call : Call) :
    Program σ α → Output ω σ → String → (Except Error Unit → Program σ α) → Output ω σ → Prop
  | here {template : String} {next : Except Error Unit → Program σ α} {out : Output ω σ} :
    Asks host call (.render template next) out template next out
  | write {text template : String} {rest : Except SinkError Unit → Program σ α}
      {next : Except Error Unit → Program σ α} {out mid out' : Output ω σ}
      {result : Except SinkError Unit}
      (hwrite : host.write text call.escape out = (.ok result, mid))
      (hrest : Asks host call (rest result) mid template next out') :
    Asks host call (.write text rest) out template next out'
  | writeRaw {text template : String} {rest : Except SinkError Unit → Program σ α}
      {next : Except Error Unit → Program σ α} {out mid out' : Output ω σ}
      {result : Except SinkError Unit}
      (hwrite : host.write text .raw out = (.ok result, mid))
      (hrest : Asks host call (rest result) mid template next out') :
    Asks host call (.writeRaw text rest) out template next out'
  | render {earlier template : String} {rest next : Except Error Unit → Program σ α}
      {out mid out' : Output ω σ} {result : Except Error Unit}
      (hrender : host.render earlier call.delimiters call.escape out = (.ok result, mid))
      (hrest : Asks host call (rest result) mid template next out') :
    Asks host call (.render earlier rest) out template next out'
  | get {template : String} {rest : σ → Program σ α} {next : Except Error Unit → Program σ α}
      {out mid out' : Output ω σ} {state : σ} (hget : host.get out = (.ok state, mid))
      (hrest : Asks host call (rest state) mid template next out') :
    Asks host call (.get rest) out template next out'
  | put {template : String} {state : σ} {rest : Program σ α}
      {next : Except Error Unit → Program σ α} {out mid out' : Output ω σ}
      (hput : host.put state out = (.ok (), mid))
      (hrest : Asks host call rest mid template next out') :
    Asks host call (.put state rest) out template next out'

theorem Program.run_of_asks {host : Host (Render ω σ) σ} {call : Call} {program : Program σ α}
    {out out' mid : Output ω σ} {template : String} {next : Except Error Unit → Program σ α}
    {result : Except Error Unit} (h : program.Asks host call out template next out')
    (hrender : host.render template call.delimiters call.escape out' = (.ok result, mid)) :
    program.run host call out = (next result).run host call mid := by
  induction h with
  | here => exact Render.bind_of_ok hrender _
  | write hstep _ ih | writeRaw hstep _ ih | render hstep _ ih | get hstep _ ih
  | put hstep _ ih =>
    rw [← ih hrender]
    exact Render.bind_of_ok hstep _

/-! ## Invocations -/

/-- A call of a lambda: the tag that makes it, at a place and with the output then, while an
engine renders to the sink with `fuel` for the templates of lambdas. -/
structure Invocation (engine : Engine) (sink : Sink ω) (fuel : Nat) (σ : Type)
    extends Place σ where
  lambda : Lambda σ
  call : Call
  calls : node.Calls engine.options.escape frames lambda call
  out : Output ω σ

/-- The output that a template of the call is rendered to: the text of the lambda as it is, or a
text of its own if that is escaped afterwards. -/
def Call.start (call : Call) (asked : Output String σ) : Output String σ :=
  match call.escape with
  | .raw => asked
  | .html => ⟨"", asked.store⟩

/-- How a lambda goes on when it is told how the rendering of its template ended. -/
abbrev Resumption (σ : Type) := Except Error Unit → Render String σ (Except Failure Unit)

/-- A lambda that is told of an error of the sink fails with that error. -/
def Resumption.Passes (resume : Resumption σ) : Prop :=
  ∀ error out, ∃ out', resume (.error (.sink error)) out =
    (.ok (.error (.engine (.sink error))), out')

namespace Invocation

variable {engine : Engine} {sink : Sink ω} {sink' : Sink ω'} {fuel fuel' : Nat}

def host (i : Invocation engine sink fuel σ) : Host (Render String σ) σ :=
  scratchHost (Sink.scratch sink.recognize) (engine.renderNested fuel i.depth) i.frames

/-- What the lambda answers, and the text it has written by then. -/
def answer (i : Invocation engine sink fuel σ) :
    Except Halt (Except Failure Unit) × Output String σ :=
  (i.lambda i.call).run i.host i.call ⟨"", i.out.store⟩

def render (i : Invocation engine sink fuel σ) (nodes : List Node) : Render ω σ Unit :=
  engine.renderWithin sink (engine.renderNested fuel) i.depth nodes i.frames

/-- The lambda of `i` has a template rendered, and the rendering comes to the tag of `j`. -/
inductive Nests (i : Invocation engine sink (fuel + 1) σ)
    (j : Invocation engine (Sink.scratch sink.recognize) fuel σ) : Resumption σ → Prop
  | intro {source : String} {next : Except Error Unit → Program σ Unit} {asked : Output String σ}
      {template : Template}
      (hasks : (i.lambda i.call).Asks i.host i.call ⟨"", i.out.store⟩ source next asked)
      (hparse : Template.parse source none i.call.delimiters = .ok template)
      (hreaches : engine.Reaches (Sink.scratch sink.recognize) (engine.renderNested fuel) i.depth
        template.nodes i.frames (i.call.start asked) j.toPlace j.out) :
    Nests i j fun result => (next result).run i.host i.call

/-- From one call to another inside it, each in a template that the lambda of the one before has
rendered; with how these lambdas go on then, outermost first. -/
inductive Encloses : {ω ω' : Type} → {sink : Sink ω} → {sink' : Sink ω'} → {fuel fuel' : Nat} →
    Invocation engine sink fuel σ → Invocation engine sink' fuel' σ → List (Resumption σ) → Prop
  | refl {ω : Type} {sink : Sink ω} {fuel : Nat} (i : Invocation engine sink fuel σ) :
    Encloses i i []
  | inner {ω ω' : Type} {sink : Sink ω} {sink' : Sink ω'} {fuel fuel' : Nat}
      {i : Invocation engine sink (fuel + 1) σ}
      {j : Invocation engine (Sink.scratch sink.recognize) fuel σ}
      {k : Invocation engine sink' fuel' σ} {resume : Resumption σ}
      {resumes : List (Resumption σ)} (h : i.Nests j resume) (hrest : Encloses j k resumes) :
    Encloses i k (resume :: resumes)

/-- However deep a call is, the sink that decides on its failure is the outermost one. -/
theorem Encloses.recognize_eq {i : Invocation engine sink fuel σ}
    {j : Invocation engine sink' fuel' σ} {resumes : List (Resumption σ)}
    (h : i.Encloses j resumes) : sink'.recognize = sink.recognize := by
  induction h with
  | refl => rfl
  | inner _ _ ih => exact ih

def expand (i : Invocation engine sink fuel σ) : Except Halt Unit × Output ω σ :=
  i.render [i.node] i.out

theorem expand_eq (i : Invocation engine sink fuel σ) :
    i.expand =
      match i.answer with
      | (.ok (.ok ()), scratch) => Render.emit sink scratch.sink ⟨i.out.sink, scratch.store⟩
      | (.ok (.error failure), scratch) =>
        match sink.recognize failure with
        | some error => (.error (.failed (.sink error)), ⟨i.out.sink, scratch.store⟩)
        | none => (.ok (), ⟨i.out.sink, scratch.store⟩)
      | (.error halt, scratch) => (.error halt, ⟨i.out.sink, scratch.store⟩) := by
  rw [expand, render, Engine.renderWithin_call sink _ i.depth i.calls]
  exact expandLambda_eq sink _ i.frames i.lambda i.call i.out

/-- The lambda is told of the error that ends the call inside its template. -/
theorem Nests.answer_eq {i : Invocation engine sink (fuel + 1) σ}
    {j : Invocation engine (Sink.scratch sink.recognize) fuel σ} {resume : Resumption σ}
    (h : i.Nests j resume) {error : Error} {out : Output String σ}
    (hfailed : j.expand = (.error (.failed error), out)) :
    ∃ mid, i.answer = resume (.error error) mid := by
  obtain @⟨source, next, asked, template, hasks, hparse, hreaches⟩ := h
  have hnested : engine.renderNested (fuel + 1) i.depth (Sink.scratch sink.recognize)
      template.nodes i.frames (i.call.start asked) = (.error (.failed error), out) :=
    hreaches.halts hfailed
  have htemplate : ∃ mid, renderTemplate (Sink.scratch sink.recognize)
      (engine.renderNested (fuel + 1) i.depth) i.frames source i.call.delimiters i.call.escape
        asked = (.error (.failed error), mid) := by
    simp only [renderTemplate, hparse]
    -- escaped templates have a text of their own, which is lost with the error
    cases hescape : i.call.escape with
    | raw =>
      rw [Call.start, hescape] at hnested
      exact ⟨out, hnested⟩
    | html =>
      rw [Call.start, hescape] at hnested
      refine ⟨⟨asked.sink, out.store⟩, ?_⟩
      apply Render.bind_of_error
      simp only [Render.onScratch, hnested]
  obtain ⟨mid, htemplate⟩ := htemplate
  refine ⟨mid, ?_⟩
  apply Program.run_of_asks hasks
  simp only [host, scratchHost, Render.attempt, htemplate]

/-- An error of the sink goes out through the lambdas that pass it on; the sink may take another
error from it each time. -/
theorem Encloses.expand_eq_error {i : Invocation engine sink fuel σ}
    {j : Invocation engine sink' fuel' σ} {resumes : List (Resumption σ)}
    (h : i.Encloses j resumes) {pass : SinkError → SinkError}
    (hpass : ∀ error, sink.recognize (.engine (.sink error)) = some (pass error))
    (hpasses : ∀ resume ∈ resumes, resume.Passes) {error : SinkError} {store : σ}
    (hj : j.expand = (.error (.failed (.sink error)), ⟨j.out.sink, store⟩)) :
    ∃ store', i.expand =
      (.error (.failed (.sink (pass^[resumes.length] error))), ⟨i.out.sink, store'⟩) := by
  -- from the outermost call inwards: the error of the call inside is what the lambda around is told
  induction h with
  | refl => exact ⟨store, hj⟩
  | inner hnests _ ih =>
    rename_i resume resumes _
    rw [List.forall_mem_cons] at hpasses
    obtain ⟨store', hexpand⟩ := ih hpass hpasses.2 hj
    obtain ⟨mid, hanswer⟩ := hnests.answer_eq hexpand
    obtain ⟨scratch, hresume⟩ := hpasses.1 (pass^[resumes.length] error) mid
    rw [hresume] at hanswer
    refine ⟨scratch.store, ?_⟩
    rw [expand_eq, hanswer, List.length_cons, Function.iterate_succ_apply']
    simp only [hpass]

end Invocation

/-- A lambda that a template calls, in its sections and partials or inside what other lambdas
render, writes its whole text at once if it completes, and nothing if it fails. Its failure is
for the sink of the whole render to decide on: one that the sink does not know is passed over, and
one that it takes for its own ends the call. If the lambdas around pass the error on, it ends the
whole render, and all that was written by then is what stood before the outermost call. -/
theorem Engine.renderTo_calls (engine : Engine) (fuel : Nat) (sink : Sink ω) (template : Template)
    (data : Data σ) (out : Output ω σ) (outermost : Invocation engine sink fuel σ)
    (hreaches : engine.Reaches sink (engine.renderNested fuel) engine.options.maxPartialDepth
      template.nodes [.host data] out outermost.toPlace outermost.out)
    (sink' : Sink ω') (fuel' : Nat) (i : Invocation engine sink' fuel' σ)
    (resumes : List (Resumption σ)) (hencloses : outermost.Encloses i resumes) :
    (∀ scratch rest, i.answer = (.ok (.ok ()), scratch) →
      i.render (i.node :: rest) i.out = (do
        Render.emit sink' scratch.sink
        i.render rest) ⟨i.out.sink, scratch.store⟩) ∧
    (∀ failure scratch, i.answer = (.ok (.error failure), scratch) →
      (sink.recognize failure = none → ∀ rest,
        i.render (i.node :: rest) i.out = i.render rest ⟨i.out.sink, scratch.store⟩) ∧
      ∀ error, sink.recognize failure = some error →
        (∀ rest, i.render (i.node :: rest) i.out =
          (.error (.failed (.sink error)), ⟨i.out.sink, scratch.store⟩)) ∧
        ∀ pass : SinkError → SinkError,
          (∀ error, sink.recognize (.engine (.sink error)) = some (pass error)) →
          (∀ resume ∈ resumes, resume.Passes) →
          ∃ store, engine.renderTo fuel sink template data out =
            (.error (.failed (.sink (pass^[resumes.length] error))),
              ⟨outermost.out.sink, store⟩)) ∧
    ∀ halt scratch, i.answer = (.error halt, scratch) → halt = .exhausted := by
  have hcons (rest : List Node) : i.render (i.node :: rest) = (do
      i.render [i.node]
      i.render rest) := engine.renderWithin_cons sink' _ i.depth i.node rest i.frames
  have hexpand := i.expand_eq
  refine ⟨?_, ?_, ?_⟩
  · intro scratch rest hanswer
    rw [hanswer] at hexpand
    rw [hcons]
    exact Render.bind_congr_left hexpand _
  · intro failure scratch hanswer
    rw [hanswer, hencloses.recognize_eq] at hexpand
    constructor
    · intro hforeign rest
      simp only [hforeign] at hexpand
      rw [hcons, Render.bind_of_ok hexpand]
    · intro error hown
      simp only [hown] at hexpand
      constructor
      · intro rest
        rw [hcons, Render.bind_of_error hexpand]
      · intro pass hpass hpasses
        obtain ⟨store, houtermost⟩ := hencloses.expand_eq_error hpass hpasses hexpand
        exact ⟨store, hreaches.halts houtermost⟩
  · intro halt scratch hanswer
    cases halt with
    | exhausted => rfl
    | failed error =>
      have hnever := Render.FailsOnly.run (P := fun _ => False) (Sink.scratch sink'.recognize)
        (engine.renderNested fuel' i.depth) i.frames i.call (i.lambda i.call)
      exact (hnever _ _ _ hanswer).elim

def Script.callingG : Script :=
  ⟨[], [(⟨.plain, ['g'], .braces⟩, [])]⟩

/-- A text that claims the failures of one more kind. -/
def Sink.claiming (kind : String) : Sink String :=
  { Sink.text with
    recognize := fun
      | .foreign kind' cause => if kind' = kind then some (.write cause) else none
      | failure => Sink.recognizeOwn failure }

/-- A lambda that writes something and then calls another one, which fails as only the sink
knows. -/
theorem Engine.renderTo_nested_call :
    let source := String.ofList (Script.callingG.text .braces)
    let engine : Engine := ⟨fun _ => .ok none, .standard⟩
    let data : Data Unit := .record
      [("f", .lambda fun _ => .writeRaw "x" fun _ => .expand source),
        ("g", .lambda fun _ => .fail (.foreign "socket" "closed"))] []
    let template : Template :=
      ⟨none, [.literal "a", .interpolation ⟨["f"]⟩ .html ⟨1, 6, 1, 2⟩, .literal "b"]⟩
    ∃ store, engine.renderTo 1 (Sink.claiming "socket") template data ⟨"", ()⟩ =
      (.error (.failed (.sink (.write "closed"))), ⟨"a", store⟩) := by
  intro source engine data template
  let outermost : Invocation engine (Sink.claiming "socket") 1 Unit :=
    { depth := engine.options.maxPartialDepth
      node := .interpolation ⟨["f"]⟩ .html ⟨1, 6, 1, 2⟩
      frames := [.host data]
      lambda := fun _ => .writeRaw "x" fun _ => .expand source
      call := ⟨"", .html, .braces⟩
      calls := .interpolation rfl
      out := ⟨"a", ()⟩ }
  let inner : Invocation engine (Sink.scratch (Sink.claiming "socket").recognize) 0 Unit :=
    { depth := engine.options.maxPartialDepth
      node := .interpolation ⟨["g"]⟩ .html ⟨0, 5, 1, 1⟩
      frames := [.host data]
      lambda := fun _ => .fail (.foreign "socket" "closed")
      call := ⟨"", .html, .braces⟩
      calls := .interpolation rfl
      out := ⟨"", ()⟩ }
  have hreaches : engine.Reaches (Sink.claiming "socket") (engine.renderNested 1)
      engine.options.maxPartialDepth template.nodes [.host data] ⟨"", ()⟩ outermost.toPlace
        outermost.out :=
    .behind rfl .here
  have hnests : outermost.Nests inner fun result =>
      (Program.ofRender result).run outermost.host outermost.call :=
    .intro (.writeRaw rfl .here) (Template.parse_text none (by decide) rfl) .here
  have hpasses : ∀ resume ∈ [fun result =>
      (Program.ofRender result).run outermost.host outermost.call], Resumption.Passes resume := by
    simp only [List.forall_mem_singleton]
    intro error out
    exact ⟨out, rfl⟩
  obtain ⟨_, hfailure, _⟩ := engine.renderTo_calls 1 (Sink.claiming "socket") template data
    ⟨"", ()⟩ outermost hreaches _ 0 inner _ (.inner hnests (.refl inner))
  obtain ⟨_, hown⟩ := hfailure (.foreign "socket" "closed") ⟨"", ()⟩ rfl
  obtain ⟨_, habort⟩ := hown (.write "closed") rfl
  exact habort id (fun _ => rfl) hpasses

end Mustache
