import Mustache.Proofs.Requests

/-!
# Mustache.Proofs.Leftovers

What failed requests of a lambda leave in its text. A template that does not compile leaves
nothing, nor does one that was to be escaped; any other leaves what it had written when it failed.
`Program.Composes` says what a text is made up of, and a run comes to exactly that
(`Engine.request_leaves`).
-/

namespace Mustache

variable {σ α : Type}

/-- A part of the text of a lambda. -/
inductive Contribution where
  /-- What the lambda wrote itself. -/
  | written (text : String)
  /-- What a template was rendered to. -/
  | rendered (text : String)
  /-- What a template left that failed. -/
  | leftover (text : String)

namespace Contribution

def text : Contribution → String
  | .written text | .rendered text | .leftover text => text

def join (parts : List Contribution) : String :=
  String.join (parts.map text)

theorem join_cons (part : Contribution) (parts : List Contribution) :
    join (part :: parts) = part.text ++ join parts := by
  rw [join, List.map_cons, String.join_cons, join]

end Contribution

/-- The parts that a program makes up its text of, one after the other, from the state `store` on,
and what it comes to. `alone` renders instructions to a text that nothing else is written to. -/
inductive Program.Composes (alone : List Node → Render String σ Unit) (call : Call) :
    Program σ α → σ → List Contribution → Except Failure α → σ → Prop
  | done {value : α} {store : σ} : Composes alone call (.done value) store [] (.ok value) store
  | fail {failure : Failure} {store : σ} :
    Composes alone call (.fail failure) store [] (.error failure) store
  | write {text : String} {next : Except SinkError Unit → Program σ α} {store store' : σ}
      {parts : List Contribution} {result : Except Failure α}
      (hnext : Composes alone call (next (.ok ())) store parts result store') :
    Composes alone call (.write text next) store (.written (call.escape.apply text) :: parts)
      result store'
  | writeRaw {text : String} {next : Except SinkError Unit → Program σ α} {store store' : σ}
      {parts : List Contribution} {result : Except Failure α}
      (hnext : Composes alone call (next (.ok ())) store parts result store') :
    Composes alone call (.writeRaw text next) store (.written text :: parts) result store'
  | rendered {source rendered : String} {template : Template}
      {next : Except Error Unit → Program σ α} {store between store' : σ}
      {parts : List Contribution} {result : Except Failure α}
      (hparse : Template.parse source none call.delimiters = .ok template)
      (halone : alone template.nodes ⟨"", store⟩ = (.ok (), ⟨rendered, between⟩))
      (hnext : Composes alone call (next (.ok ())) between parts result store') :
    Composes alone call (.render source next) store
      (.rendered (call.escape.apply rendered) :: parts) result store'
  | unparsed {source : String} {error : ParseError} {next : Except Error Unit → Program σ α}
      {store store' : σ} {parts : List Contribution} {result : Except Failure α}
      (hparse : Template.parse source none call.delimiters = .error error)
      (hnext : Composes alone call (next (.error (.parse error))) store parts result store') :
    Composes alone call (.render source next) store parts result store'
  | failed {source rendered : String} {template : Template} {error : Error}
      {next : Except Error Unit → Program σ α} {store between store' : σ}
      {parts : List Contribution} {result : Except Failure α}
      (hparse : Template.parse source none call.delimiters = .ok template)
      (halone : alone template.nodes ⟨"", store⟩ =
        (.error (.failed error), ⟨rendered, between⟩))
      (hnext : Composes alone call (next (.error error)) between parts result store') :
    Composes alone call (.render source next) store
      (.leftover (call.escape.leftover rendered) :: parts) result store'
  | get {next : σ → Program σ α} {store store' : σ} {parts : List Contribution}
      {result : Except Failure α}
      (hnext : Composes alone call (next store) store parts result store') :
    Composes alone call (.get next) store parts result store'
  | put {state store store' : σ} {next : Program σ α} {parts : List Contribution}
      {result : Except Failure α} (hnext : Composes alone call next state parts result store') :
    Composes alone call (.put state next) store parts result store'

namespace Engine

variable (engine : Engine) (fuel depth : Nat) (recognize : Failure → Option SinkError)
variable (frames : List (Value σ))

/-! ## Requests -/

theorem write_lambdaHost (text held : String) (escape : Escape) (store : σ) :
    (engine.lambdaHost fuel depth recognize frames).write text escape ⟨held, store⟩ =
      (.ok (.ok ()), ⟨held ++ escape.apply text, store⟩) := by
  rw [scratchHost_write, Render.attemptWrite, Render.emitAll_scratch]
  rfl

/-- A request fails because the template does not compile, or because it fails on its own. -/
theorem render_failed_iff (source : String) (delimiters : Delimiters) (escape : Escape)
    (text : String) (store : σ) (error : Error) (out' : Output String σ) :
    (engine.lambdaHost fuel depth recognize frames).render source delimiters escape
        ⟨text, store⟩ = (.ok (.error error), out') ↔
      (∃ fault, Template.parse source none delimiters = .error fault ∧ error = .parse fault ∧
        out' = ⟨text, store⟩) ∨
      ∃ template rendered, Template.parse source none delimiters = .ok template ∧
        engine.renderAlone fuel depth recognize frames template.nodes ⟨"", store⟩ =
          (.error (.failed error), ⟨rendered, out'.store⟩) ∧
        out'.sink = text ++ escape.leftover rendered := by
  obtain ⟨held, store'⟩ := out'
  cases hparse : Template.parse source none delimiters with
  | error fault =>
    rw [engine.request_of_unparsed fuel depth recognize frames hparse]
    constructor
    · intro h
      cases h
      exact .inl ⟨fault, rfl, rfl, rfl⟩
    · rintro (⟨_, hfault, rfl, hout⟩ | ⟨_, _, hok, -⟩)
      · cases hfault
        rw [hout]
      · cases hok
  | ok template =>
    rw [engine.request_of_parsed fuel depth recognize frames hparse]
    constructor
    · intro h
      cases halone : engine.renderAlone fuel depth recognize frames template.nodes
          ⟨"", store⟩ with
      | mk ended out =>
        rw [halone] at h
        rcases ended with (error' | _) | done
        · cases h
          exact .inr ⟨template, out.sink, rfl, halone, rfl⟩
        · cases h
        · cases h
    · rintro (⟨_, hfault, -⟩ | ⟨template', rendered, hok, hfailed, rfl⟩)
      · cases hfault
      · cases hok
        rw [hfailed]
        rfl

/-! ## Programs -/

variable {engine fuel depth recognize frames}

/-- What a program makes up stands behind the text when it has run. -/
theorem run_of_composes {call : Call} {program : Program σ α} {store store' : σ}
    {parts : List Contribution} {result : Except Failure α}
    (h : program.Composes (engine.renderAlone fuel depth recognize frames) call store parts result
      store') (text : String) :
    program.run (engine.lambdaHost fuel depth recognize frames) call ⟨text, store⟩ =
      (.ok result, ⟨text ++ Contribution.join parts, store'⟩) := by
  induction h generalizing text with
  | done | fail =>
    rw [show Contribution.join [] = "" from rfl, String.append_empty]
    rfl
  | write _ ih =>
    rw [Contribution.join_cons, ← String.append_assoc, Program.run,
      Render.bind_of_ok (engine.write_lambdaHost fuel depth recognize frames _ _ _ _)]
    exact ih _
  | @writeRaw written _ store _ _ _ _ ih =>
    have hwrite := engine.write_lambdaHost fuel depth recognize frames written text .raw store
    rw [Escape.apply_raw] at hwrite
    rw [Contribution.join_cons, ← String.append_assoc, Program.run, Render.bind_of_ok hwrite]
    exact ih _
  | @rendered _ _ _ _ store _ _ _ _ hparse halone _ ih =>
    have hrequest := engine.request_of_parsed fuel depth recognize frames hparse call.escape text
      store
    rw [halone] at hrequest
    rw [Contribution.join_cons, ← String.append_assoc, Program.run, Render.bind_of_ok hrequest]
    exact ih _
  | unparsed hparse _ ih =>
    rw [Program.run,
      Render.bind_of_ok (engine.request_of_unparsed fuel depth recognize frames hparse _ _)]
    exact ih _
  | @failed _ _ _ _ _ store _ _ _ _ hparse halone _ ih =>
    have hrequest := engine.request_of_parsed fuel depth recognize frames hparse call.escape text
      store
    rw [halone] at hrequest
    rw [Contribution.join_cons, ← String.append_assoc, Program.run, Render.bind_of_ok hrequest]
    exact ih _
  | get _ ih => exact ih text
  | put _ ih => exact ih text

/-- A run that is not stopped has made up its text. -/
theorem exists_composes_of_run {call : Call} {program : Program σ α} {text : String} {store : σ}
    {result : Except Failure α} {out' : Output String σ}
    (h : program.run (engine.lambdaHost fuel depth recognize frames) call ⟨text, store⟩ =
      (.ok result, out')) :
    ∃ parts, program.Composes (engine.renderAlone fuel depth recognize frames) call store parts
      result out'.store := by
  induction program generalizing text store with
  | done value =>
    cases h
    exact ⟨[], .done⟩
  | fail failure =>
    cases h
    exact ⟨[], .fail⟩
  | write written next ih =>
    rw [Program.run,
      Render.bind_of_ok (engine.write_lambdaHost fuel depth recognize frames _ _ _ _)] at h
    obtain ⟨parts, hnext⟩ := ih _ h
    exact ⟨_, .write hnext⟩
  | writeRaw written next ih =>
    rw [Program.run,
      Render.bind_of_ok (engine.write_lambdaHost fuel depth recognize frames _ _ _ _)] at h
    obtain ⟨parts, hnext⟩ := ih _ h
    exact ⟨_, .writeRaw hnext⟩
  | render source next ih =>
    rw [Program.run] at h
    cases hparse : Template.parse source none call.delimiters with
    | error fault =>
      rw [Render.bind_of_ok
        (engine.request_of_unparsed fuel depth recognize frames hparse _ _)] at h
      obtain ⟨parts, hnext⟩ := ih _ h
      exact ⟨parts, .unparsed hparse hnext⟩
    | ok template =>
      have hrequest := engine.request_of_parsed fuel depth recognize frames hparse call.escape
        text store
      cases halone : engine.renderAlone fuel depth recognize frames template.nodes
          ⟨"", store⟩ with
      | mk ended out =>
        rw [halone] at hrequest
        rcases ended with (error | _) | done
        · rw [Render.bind_of_ok hrequest] at h
          obtain ⟨parts, hnext⟩ := ih _ h
          exact ⟨_, .failed hparse halone hnext⟩
        · rw [Render.bind_of_error hrequest] at h
          cases h
        · rw [Render.bind_of_ok hrequest] at h
          obtain ⟨parts, hnext⟩ := ih _ h
          exact ⟨_, .rendered hparse halone hnext⟩
  | get next ih =>
    obtain ⟨parts, hnext⟩ := ih store h
    exact ⟨parts, .get hnext⟩
  | put state next ih =>
    obtain ⟨parts, hnext⟩ := ih h
    exact ⟨parts, .put hnext⟩

end Engine

/-- A lambda may ask for a template wherever it is called, whatever it has written before, and
whatever state the lambdas are in. If the template does not compile, nothing changes. If it fails
later, what it had written until then stays behind the text of the lambda, or nothing when it was
to be escaped. So the text of a lambda that goes on is made up of what it wrote itself, of the
templates that were rendered, and of these leftovers, in the order of its requests. -/
theorem Engine.request_leaves (engine : Engine) (fuel depth : Nat)
    (recognize : Failure → Option SinkError) (frames : List (Value σ)) :
    let alone := engine.renderAlone fuel depth recognize frames
    let host := engine.lambdaHost fuel depth recognize frames
    (∀ (source : String) (delimiters : Delimiters) (escape : Escape) (text : String) (store : σ)
      (error : Error) (out' : Output String σ),
      host.render source delimiters escape ⟨text, store⟩ = (.ok (.error error), out') ↔
        (∃ fault, Template.parse source none delimiters = .error fault ∧ error = .parse fault ∧
          out' = ⟨text, store⟩) ∨
        ∃ template rendered, Template.parse source none delimiters = .ok template ∧
          alone template.nodes ⟨"", store⟩ = (.error (.failed error), ⟨rendered, out'.store⟩) ∧
          out'.sink = text ++ escape.leftover rendered) ∧
    ∀ (program : Program σ α) (call : Call) (text : String) (store : σ)
      (result : Except Failure α) (out' : Output String σ),
      program.run host call ⟨text, store⟩ = (.ok result, out') ↔
        ∃ parts, program.Composes alone call store parts result out'.store ∧
          out'.sink = text ++ Contribution.join parts := by
  intro alone host
  refine ⟨engine.render_failed_iff fuel depth recognize frames, ?_⟩
  intro program call text store result out'
  constructor
  · intro h
    obtain ⟨parts, hparts⟩ := exists_composes_of_run h
    have hout := congrArg Prod.snd ((run_of_composes hparts text).symm.trans h)
    exact ⟨parts, hparts, (congrArg Output.sink hout).symm⟩
  · rintro ⟨parts, hparts, hsink⟩
    obtain ⟨held, store'⟩ := out'
    rw [show held = _ from hsink]
    exact run_of_composes hparts text

/-- A text with a partial behind it. -/
def Script.ahead : Script :=
  ⟨['a'], [(⟨.angle, ['p'], .braces⟩, [])]⟩

/-- An engine that is refused every partial. -/
def Engine.unserved : Engine :=
  ⟨fun name => .error (.partialFailed name "gone"), .standard⟩

theorem Script.parse_ahead :
    Template.parse (String.ofList (Script.ahead.text .braces)) none .braces =
      .ok ⟨none, [.literal "a", .inclusion "p" "" ⟨1, 7, 1, 2⟩]⟩ :=
  Template.parse_text none (by decide) rfl

/-- A lambda that writes a text of its own where a template fails. The part of the template in
front of the partial stays before that, unless it was to be escaped. -/
theorem Engine.run_fallback :
    let source := String.ofList (Script.ahead.text .braces)
    let host := Engine.unserved.lambdaHost 1 1 (fun _ => none) ([] : List (Value Unit))
    let program : Program Unit Unit := .render source fun
      | .ok () => .done ()
      | .error _ => .write "!" .ofWrite
    program.run host ⟨"", .raw, .braces⟩ ⟨"x", ()⟩ = (.ok (.ok ()), ⟨"xa!", ()⟩) ∧
      program.run host ⟨"", .html, .braces⟩ ⟨"x", ()⟩ = (.ok (.ok ()), ⟨"x!", ()⟩) := by
  intro source host program
  obtain ⟨_, hruns⟩ := Engine.unserved.request_leaves (α := Unit) 1 1 (fun _ => none)
    ([] : List (Value Unit))
  constructor
  · refine (hruns program _ "x" () _ _).2 ⟨[.leftover "a", .written "!"], ?_, rfl⟩
    exact .failed Script.parse_ahead rfl (.write .done)
  · refine (hruns program _ "x" () _ _).2 ⟨[.leftover "", .written "!"], ?_, rfl⟩
    exact .failed Script.parse_ahead rfl (.write .done)

/-- A template that fails in its second instruction leaves its first one in the text of a lambda
that does not escape. -/
theorem Engine.render_ahead_leaves :
    let source := String.ofList (Script.ahead.text .braces)
    let host := Engine.unserved.lambdaHost 1 1 (fun _ => none) ([] : List (Value Unit))
    ¬ ∀ (escape : Escape) (error : Error) (out' : Output String Unit),
      host.render source .braces escape ⟨"x", ()⟩ = (.ok (.error error), out') →
        out'.sink = "x" := by
  intro source host h
  have hrender : host.render source .braces .raw ⟨"x", ()⟩ =
      (.ok (.error (.partialFailed "p" "gone")), ⟨"xa", ()⟩) :=
    Engine.unserved.request_of_parsed 1 1 _ [] Script.parse_ahead .raw "x" ()
  exact absurd (h _ _ _ hrender) (by decide)

end Mustache
