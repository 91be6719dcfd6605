import Mustache.Proofs.Expansion
import Mustache.Proofs.Gathering

/-!
# Mustache.Proofs.Halting

Where a render halts. A render that halts has come to a place where it halts at once: a call of a
lambda, a write that the sink refuses or a partial that cannot be opened. Names that stand for
nothing are no such places.
-/

namespace Mustache

variable {ω σ α : Type}

/-! ## The step that halts -/

namespace Render

theorem exists_of_forM_error {body : α → Render ω σ Unit} {values : List α} {halt : Halt}
    {out out' : Output ω σ} (h : values.forM body out = (.error halt, out')) :
    ∃ before value after mid, values = before ++ value :: after ∧
      before.forM body out = (.ok (), mid) ∧ body value mid = (.error halt, out') := by
  induction values generalizing out with
  | nil => cases h
  | cons value values ih =>
    rw [List.forM, bind_eq_error_iff] at h
    obtain hvalue | ⟨_, mid, hvalue, hvalues⟩ := h
    · exact ⟨[], value, values, out, rfl, rfl, hvalue⟩
    · obtain ⟨before, value', after, mid', rfl, hbefore, hvalue'⟩ := ih hvalues
      refine ⟨value :: before, value', after, mid', rfl, ?_, hvalue'⟩
      rw [List.forM, bind_of_ok hvalue]
      exact hbefore

end Render

/-- A write that the sink refuses ends the render. -/
inductive Sink.Refuses (sink : Sink ω) : Halt → Prop
  | intro {chunk : String} {held held' : ω} {error : SinkError}
      (h : sink.write chunk held = (.error error, held')) : Refuses sink (.failed (.sink error))

theorem Sink.not_refuses {sink : Sink ω}
    (h : ∀ chunk held, (sink.write chunk held).1 = .ok ()) (halt : Halt) :
    ¬ sink.Refuses halt := by
  rintro @⟨chunk, held, _, _, hrefused⟩
  have hchunk := h chunk held
  rw [hrefused] at hchunk
  cases hchunk

namespace Render

variable {sink : Sink ω} {halt : Halt} {out out' : Output ω σ}

theorem refuses_of_emit {chunk : String} (h : emit sink chunk out = (.error halt, out')) :
    sink.Refuses halt := by
  unfold emit at h
  split at h
  · cases h
  · next hwrite =>
    cases h
    exact .intro hwrite

theorem refuses_of_emitAll {chunks : List String}
    (h : emitAll sink chunks out = (.error halt, out')) : sink.Refuses halt := by
  induction chunks generalizing out with
  | nil => cases h
  | cons chunk chunks ih =>
    rw [emitAll, bind_eq_error_iff] at h
    obtain hchunk | ⟨_, mid, _, hchunks⟩ := h
    · exact refuses_of_emit hchunk
    · exact ih hchunks

end Render

/-- What halts a render at a place, when the output is `out` there. -/
inductive Engine.HaltsAt (engine : Engine) (sink : Sink ω) (nested : Nat → Nested σ)
    (place : Place σ) (out : Output ω σ) : Halt → Prop
  | call {f : Lambda σ} {call : Call} {halt : Halt} {out' : Output ω σ}
      (hcalls : place.node.Calls engine.options.escape place.frames f call)
      (h : expandLambda sink (nested place.depth) place.frames f call out = (.error halt, out')) :
    HaltsAt engine sink nested place out halt
  | write {halt : Halt} (h : sink.Refuses halt) : HaltsAt engine sink nested place out halt
  | inclusion {name indentation : String} {span : Span} {error : Error}
      (hnode : place.node = .inclusion name indentation span) (h : engine.Raises error) :
    HaltsAt engine sink nested place out (.failed error)

/-- Within the instructions the render comes to a place and halts there. -/
def Engine.HaltsIn (engine : Engine) (sink : Sink ω) (nested : Nat → Nested σ) (depth : Nat)
    (nodes : List Node) (frames : List (Value σ)) (out : Output ω σ) (halt : Halt) : Prop :=
  ∃ place mid, engine.Reaches sink nested depth nodes frames out place mid ∧
    engine.HaltsAt sink nested place mid halt

theorem Engine.HaltsIn.through {engine : Engine} {sink : Sink ω} {nested : Nat → Nested σ}
    {depth depth' : Nat} {nodes nodes' : List Node} {frames frames' : List (Value σ)}
    {out out' : Output ω σ} {halt : Halt}
    (h : engine.HaltsIn sink nested depth' nodes' frames' out' halt)
    (hreaches : ∀ {place mid}, engine.Reaches sink nested depth' nodes' frames' out' place mid →
      engine.Reaches sink nested depth nodes frames out place mid) :
    engine.HaltsIn sink nested depth nodes frames out halt := by
  obtain ⟨place, mid, hplace, hhalts⟩ := h
  exact ⟨place, mid, hreaches hplace, hhalts⟩

/-- A render that halts has come to a place where it halts at once, by a call of a lambda, a write
or a partial. -/
theorem Engine.renderWithin_haltsIn (engine : Engine) (sink : Sink ω) (nested : Nat → Nested σ) :
    ∀ (depth : Nat) (nodes : List Node) (frames : List (Value σ)) (out out' : Output ω σ)
      (halt : Halt), engine.renderWithin sink nested depth nodes frames out = (.error halt, out') →
      engine.HaltsIn sink nested depth nodes frames out halt
  | depth, [], frames, out, out', halt, h => by
    rw [renderWithin_eq] at h
    cases h
  | depth, node :: rest, frames, out, out', halt, h => by
    rw [renderWithin_cons, Render.bind_eq_error_iff] at h
    obtain hnode | ⟨_, mid, hnode, hrest⟩ := h
    · cases engine.course sink nested depth node frames with
      | write chunks hcourse =>
        rw [hcourse] at hnode
        exact ⟨_, out, .here, .write (Render.refuses_of_emitAll hnode)⟩
      | call hcall =>
        rw [engine.renderWithin_call sink nested depth hcall] at hnode
        exact ⟨_, out, .here, .call hcall hnode⟩
      | fail hpartial herror hcourse =>
        rw [hcourse] at hnode
        cases hnode
        exact ⟨_, out, .here, .inclusion hpartial herror⟩
      | bodies nodes contexts hsmaller hcourse hreaches =>
        rw [hcourse] at hnode
        obtain ⟨before, frames', after, mid, hsplit, hbefore, hbody⟩ :=
          Render.exists_of_forM_error hnode
        have hbody := engine.renderWithin_haltsIn sink nested _ nodes frames' mid out' halt hbody
        exact hbody.through fun h => (hreaches hsplit hbefore h).inFront rest
    · have hbehind := engine.renderWithin_haltsIn sink nested depth rest frames mid out' halt hrest
      exact hbehind.through (.behind hnode)
termination_by depth nodes => (depth, sizeOf nodes)
decreasing_by
  · exact Node.lex_of_smaller hsmaller rest
  · exact Node.lex_tail depth node rest

/-- Instructions without partials come to no partial. -/
theorem Engine.Reaches.inclusions_eq_nil {engine : Engine} {sink : Sink ω}
    {nested : Nat → Nested σ} {depth : Nat} {nodes : List Node} {frames : List (Value σ)}
    {out out' : Output ω σ} {place : Place σ}
    (h : engine.Reaches sink nested depth nodes frames out place out')
    (hpartials : Node.inclusions nodes = []) : place.node.ownInclusion = [] := by
  induction h with
  | @here _ node _ _ _ =>
    have hnode := (List.append_eq_nil_iff.1 hpartials).1
    cases node with
    | block => rfl
    | literal | interpolation | inclusion => exact hnode
  | behind _ _ ih => exact ih (List.append_eq_nil_iff.1 hpartials).2
  | inSection _ _ _ ih | inInverted _ _ ih => exact ih (List.append_eq_nil_iff.1 hpartials).1
  | inPartial => cases hpartials

/-! ## Names that stand for nothing -/

/-- The elements end where there is none any more. -/
theorem Enumeration.eq_of_end {e : Enumeration σ} {values : List (Value σ)}
    (hvalues : ∀ index value, values[index]? = some value →
      e.atIndex index = .field (some value))
    (hend : (e.atIndex values.length).isResolved = false) :
    e = .each values ∨ e = .broken ∧ values = [] := by
  cases e with
  | broken =>
    cases values with
    | nil => exact .inr ⟨rfl, rfl⟩
    | cons value values => cases hvalues 0 value rfl
  | lambda => cases hend
  | each values' =>
    have hlength : values'.length ≤ values.length := by
      rw [← List.getElem?_eq_none_iff]
      cases hvalue : values'[values.length]? with
      | none => rfl
      | some value =>
        rw [Enumeration.atIndex, hvalue] at hend
        cases hend
    left
    congr 1
    apply List.ext_getElem?
    intro index
    cases hvalue : values[index]? with
    | none =>
      rw [List.getElem?_eq_none_iff] at hvalue ⊢
      exact Nat.le_trans hlength hvalue
    | some value =>
      have hindex := hvalues index value hvalue
      rw [Enumeration.atIndex] at hindex
      split at hindex
      · next value' hvalue' =>
        cases hindex
        exact hvalue'
      · cases hindex

theorem Engine.renderWithin_unresolved (engine : Engine) (sink : Sink ω) (nested : Nat → Nested σ)
    (depth : Nat) {frames : List (Value σ)} {path : Path}
    (h : (resolveFrames .get frames path none).run.isResolved = false) (tagEscape : Escape)
    (span : Span) :
    engine.renderWithin sink nested depth [.interpolation path tagEscape span] frames =
      pure () := by
  rw [renderWithin_eq, renderNodes_singleton, renderNode_interpolation]
  rw [resolveFrames_eq_act] at h
  cases hlocation : locateFrames frames path none with
  | missing | broken | consumed => rfl
  | field | lambda =>
    rw [hlocation] at h
    cases h

theorem Engine.renderWithin_until (engine : Engine) (sink : Sink ω) (nested : Nat → Nested σ)
    (depth : Nat) {frames : List (Value σ)} {path : Path} {values : List (Value σ)}
    (hvalues : ∀ index value, values[index]? = some value →
      (resolveFrames .get frames path (some index)).run = .field (some value))
    (hend : (resolveFrames .get frames path (some values.length)).run.isResolved = false)
    (children : List Node) (inner : String) (delimiters : Delimiters) (span : Span) :
    engine.renderWithin sink nested depth [.block path false children inner delimiters span]
        frames =
      values.forM fun value =>
        engine.renderWithin sink nested depth children (value :: frames) := by
  simp only [resolveFrames_get_some] at hvalues hend
  obtain heach | ⟨hbroken, rfl⟩ := Enumeration.eq_of_end hvalues hend
  · exact engine.renderWithin_each sink nested depth children inner delimiters span heach
  · have hentries := sectionEntries_of_found frames path
    rw [hbroken] at hentries
    rw [renderWithin_section, hentries]
    rfl

/-! ## Calls that end a render -/

namespace Invocation

variable {engine : Engine} {sink : Sink ω} {fuel : Nat}

/-- The call ends the render around it. -/
inductive Ends (i : Invocation engine sink fuel σ) : Halt → Prop
  | exhausted (h : i.answer.1 = .error .exhausted) : Ends i .exhausted
  | recognized {failure : Failure} {error : SinkError}
      (hanswer : i.answer.1 = .ok (.error failure))
      (hown : sink.recognize failure = some error) : Ends i (.failed (.sink error))

theorem Ends.expand_eq {i : Invocation engine sink fuel σ} {halt : Halt} (h : i.Ends halt) :
    ∃ out', i.expand = (.error halt, out') := by
  cases hanswer : i.answer with
  | mk answer scratch =>
    refine ⟨⟨i.out.sink, scratch.store⟩, ?_⟩
    rw [i.expand_eq, hanswer]
    cases h with
    | exhausted h =>
      rw [hanswer] at h
      cases h
      rfl
    | recognized h hown =>
      rw [hanswer] at h
      cases h
      simp only [hown]

/-- A program ends with a failure or runs out of fuel; it does not pass an error on by itself. -/
theorem eq_exhausted_of_answer {i : Invocation engine sink fuel σ} {halt : Halt}
    {scratch : Output String σ} (h : i.answer = (.error halt, scratch)) : halt = .exhausted := by
  cases halt with
  | exhausted => rfl
  | failed error =>
    have hnever := Render.FailsOnly.run (P := fun _ => False) (Sink.scratch sink.recognize)
      (engine.renderNested fuel i.depth) i.frames i.call (i.lambda i.call)
    exact (hnever _ _ _ h).elim

/-- A lambda that goes no further when a template fails has the error of the template. -/
theorem answer_of_failing {i : Invocation engine sink fuel σ} {source : String}
    {asked : Output String σ} {error : Error}
    (hasks : (i.lambda i.call).Asks i.host i.call ⟨"", i.out.store⟩ source .ofRender asked)
    (hrender : (renderTemplate (Sink.scratch sink.recognize) (engine.renderNested fuel i.depth)
      i.frames source i.call.delimiters i.call.escape asked).1 = .error (.failed error)) :
    i.answer.1 = .ok (.error (.engine error)) := by
  cases hrendered : renderTemplate (Sink.scratch sink.recognize)
      (engine.renderNested fuel i.depth) i.frames source i.call.delimiters i.call.escape asked with
  | mk ended mid =>
    obtain rfl : ended = .error (.failed error) := by rwa [hrendered] at hrender
    have hhost : i.host.render source i.call.delimiters i.call.escape asked =
        (.ok (.error error), mid) := by
      simp only [host, scratchHost, Render.attempt, hrendered]
    rw [answer, Program.run_of_asks hasks hhost]
    rfl

theorem ends_or_refuses {i : Invocation engine sink fuel σ} {halt : Halt} {out' : Output ω σ}
    (h : i.expand = (.error halt, out')) : i.Ends halt ∨ sink.Refuses halt := by
  rw [i.expand_eq] at h
  split at h
  · exact .inr (Render.refuses_of_emit h)
  · next failure scratch hanswer =>
    split at h
    · next error hown =>
      cases h
      exact .inl (.recognized (congrArg Prod.fst hanswer) hown)
    · cases h
  · next halt' scratch hanswer =>
    obtain rfl := eq_exhausted_of_answer hanswer
    cases h
    exact .inl (.exhausted (congrArg Prod.fst hanswer))

end Invocation

theorem Engine.exists_ends (engine : Engine) {fuel depth : Nat} {sink : Sink ω}
    (hwrite : ∀ chunk held, (sink.write chunk held).1 = .ok ()) {nodes : List Node}
    (hpartials : Node.inclusions nodes = []) {frames : List (Value σ)} {out out' : Output ω σ}
    {halt : Halt}
    (h : engine.renderWithin sink (engine.renderNested fuel) depth nodes frames out =
      (.error halt, out')) :
    ∃ i : Invocation engine sink fuel σ,
      engine.Reaches sink (engine.renderNested fuel) depth nodes frames out i.toPlace i.out ∧
        i.Ends halt := by
  have hsink := Sink.not_refuses hwrite halt
  obtain ⟨place, mid, hreaches, hhalts⟩ := engine.renderWithin_haltsIn sink _ _ _ _ _ _ _ h
  cases hhalts with
  | @call f call _ _ hcalls hexpand =>
    let i : Invocation engine sink fuel σ := ⟨place, f, call, hcalls, mid⟩
    rw [← engine.renderWithin_call sink _ _ hcalls] at hexpand
    obtain hends | hrefuses := i.ends_or_refuses hexpand
    · exact ⟨i, hreaches, hends⟩
    · exact absurd hrefuses hsink
  | write hrefuses => exact absurd hrefuses hsink
  | inclusion hnode =>
    have hnone := hreaches.inclusions_eq_nil hpartials
    rw [hnode] at hnone
    cases hnone

/-- Nothing that goes wrong in a lambda ends the render of a template without partials, if the
sink takes all that it is given and none of the failures for its own. What halts such a render is
always a call that it comes to in the template itself: the lambda does not come to an end, or its
failure is one that the sink knows. How the templates fail that lambdas render, or the lambdas in
them, makes no difference but by that failure. A name that stands for nothing is written as
nothing and is no error, and no more is the index where the elements of a section end. -/
theorem Engine.renderTo_ok_of_unrecognized (engine : Engine) (fuel : Nat) (sink : Sink ω)
    (hwrite : ∀ chunk held, (sink.write chunk held).1 = .ok ()) {template : Template}
    (hpartials : Node.inclusions template.nodes = []) (data : Data σ) (out : Output ω σ) :
    let rendered := (engine.renderTo fuel sink template data out).1
    let invoked := fun i : Invocation engine sink fuel σ =>
      engine.Reaches sink (engine.renderNested fuel) engine.options.maxPartialDepth
        template.nodes [.host data] out i.toPlace i.out
    ((∀ i, invoked i → ∀ failure, i.answer.1 = .ok (.error failure) →
        sink.recognize failure = none) →
      rendered ≠ .error .exhausted → rendered = .ok ()) ∧
    (∀ halt, rendered = .error halt ↔ ∃ i, invoked i ∧ i.Ends halt) ∧
    ∀ (ω : Type) (sink : Sink ω) (nested : Nat → Nested σ) (depth : Nat)
      (frames : List (Value σ)) (path : Path),
      let found := fun index => (resolveFrames Action.get frames path index).run
      let render := engine.renderWithin sink nested depth
      ((found none).isResolved = false → ∀ tagEscape span,
        render [.interpolation path tagEscape span] frames = pure ()) ∧
      ∀ values : List (Value σ),
        (∀ index value, values[index]? = some value →
          found (some index) = .field (some value)) →
        (found (some values.length)).isResolved = false →
        ∀ children inner delimiters span,
          render [.block path false children inner delimiters span] frames =
            values.forM fun value => render children (value :: frames) := by
  intro rendered invoked
  have hhalts (halt : Halt) : rendered = .error halt ↔ ∃ i, invoked i ∧ i.Ends halt := by
    constructor
    · intro h
      exact engine.exists_ends hwrite hpartials (Prod.ext h rfl)
    · rintro ⟨i, hreaches, hends⟩
      obtain ⟨out', hexpand⟩ := hends.expand_eq
      exact congrArg Prod.fst (hreaches.halts hexpand)
  refine ⟨?_, hhalts, ?_⟩
  · intro hforeign hterminates
    cases hrendered : rendered with
    | ok done => rfl
    | error halt =>
      obtain ⟨i, hinvoked, hends⟩ := (hhalts halt).1 hrendered
      cases hends with
      | exhausted => exact absurd hrendered hterminates
      | recognized hanswer hown =>
        rw [hforeign i hinvoked _ hanswer] at hown
        cases hown
  · intro ω sink nested depth frames path found render
    constructor
    · intro h tagEscape span
      exact engine.renderWithin_unresolved sink nested depth h tagEscape span
    · intro values hvalues hend children inner delimiters span
      exact engine.renderWithin_until sink nested depth hvalues hend children inner delimiters span

def Script.includingP : Script :=
  ⟨[], [(⟨.angle, ['p'], .braces⟩, [])]⟩

/-- One lambda renders a template that does not parse, another one a partial that cannot be
loaded, and both fail with the error. -/
theorem Engine.renderTo_failing_texts :
    let source := String.ofList (Script.includingP.text .braces)
    let engine : Engine := ⟨fun name => .error (.partialFailed name "gone"), .standard⟩
    let data : Data Unit := .record
      [("f", .lambda fun _ => .writeRaw "x" fun _ => .expand "y\x7b\x7b"),
        ("g", .lambda fun _ => .expand source)] []
    let template : Template :=
      ⟨none, [.literal "a", .interpolation ⟨["f"]⟩ .html ⟨1, 6, 1, 2⟩,
        .block ⟨["g"]⟩ false [] "" .braces ⟨6, 12, 1, 7⟩,
        .interpolation ⟨["h", "i"]⟩ .html ⟨18, 25, 1, 19⟩]⟩
    (engine.renderTo 1 Sink.text template data ⟨"", ()⟩).1 = .ok () := by
  intro source engine data template
  obtain ⟨hok, hhalts, _⟩ := engine.renderTo_ok_of_unrecognized 1 Sink.text
    (fun _ _ => rfl) (rfl : Node.inclusions template.nodes = []) data ⟨"", ()⟩
  have hmalformed : ∃ fault, Template.parse "y\x7b\x7b" none .braces = .error fault := by
    have hnone : (Template.parse "y\x7b\x7b" none .braces).toOption.isNone = true := by
      decide +kernel
    cases hparse : Template.parse "y\x7b\x7b" none .braces with
    | error fault => exact ⟨fault, rfl⟩
    | ok template =>
      rw [hparse] at hnone
      cases hnone
  obtain ⟨fault, hmalformed⟩ := hmalformed
  have hpartial : Template.parse source none .braces =
      .ok ⟨none, [.inclusion "p" "" ⟨0, 6, 1, 1⟩]⟩ :=
    Template.parse_text none (by decide) rfl
  -- the tags of the template one after the other; the last one calls nothing
  have hanswers (i : Invocation engine Sink.text 1 Unit)
      (hreaches : engine.Reaches Sink.text (engine.renderNested 1) engine.options.maxPartialDepth
        template.nodes [.host data] ⟨"", ()⟩ i.toPlace i.out) :
      i.answer.1 = .ok (.error (.engine (.parse fault))) ∨
        i.answer.1 = .ok (.error (.engine (.partialFailed "p" "gone"))) := by
    obtain ⟨⟨depth, node, frames⟩, lambda, call, calls, out⟩ := i
    cases hreaches with
    | here => cases calls
    | behind _ hreaches =>
      cases hreaches with
      | here =>
        obtain ⟨hf⟩ := calls
        cases hf
        refine .inl (Invocation.answer_of_failing (.writeRaw rfl .here) ?_)
        simp only [renderTemplate, hmalformed]
        rfl
      | behind _ hreaches =>
        cases hreaches with
        | here =>
          obtain ⟨hf⟩ | ⟨hf⟩ := calls
          cases hf
          refine .inr (Invocation.answer_of_failing .here ?_)
          simp only [renderTemplate, hpartial]
          rfl
        | inSection hvalues => cases hvalues
        | behind _ hreaches =>
          cases hreaches with
          | here =>
            obtain ⟨hf⟩ := calls
            cases hf
          | behind _ hreaches => cases hreaches
  apply hok
  · intro i hreaches failure hfailure
    obtain hanswer | hanswer := hanswers i hreaches <;>
    · rw [hanswer] at hfailure
      cases hfailure
      rfl
  · intro hexhausted
    obtain ⟨i, hreaches, hends⟩ := (hhalts .exhausted).1 hexhausted
    cases hends with
    | exhausted h =>
      obtain hanswer | hanswer := hanswers i hreaches <;>
      · rw [hanswer] at h
        cases h

end Mustache
