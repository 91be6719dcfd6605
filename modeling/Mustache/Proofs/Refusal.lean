import Mustache.Proofs.Related

/-!
# Mustache.Proofs.Refusal

Sinks that refuse a chunk. What a render offers to its sink does not depend on the sink, as long
as the sink takes it: there is one sequence of chunks (`Render.Follows`), each sink is offered
these chunks in order, and the first chunk that it refuses is the last one that it is offered. So
a sink that fails half-way holds the beginning of the full output.
-/

namespace Mustache

variable {ω ω₁ ω₂ σ α β : Type}

/-! ## Offers -/

namespace Sink

/-- Offers chunks to a sink one after the other, up to the first one that it refuses. -/
def offer (sink : Sink ω) : List String → ω → Except SinkError Unit × ω
  | [], held => (.ok (), held)
  | chunk :: chunks, held =>
    match sink.write chunk held with
    | (.ok (), held) => sink.offer chunks held
    | (.error error, held) => (.error error, held)

theorem offer_append (sink : Sink ω) (chunks chunks' : List String) (held : ω) :
    sink.offer (chunks ++ chunks') held =
      match sink.offer chunks held with
      | (.ok (), held) => sink.offer chunks' held
      | (.error error, held) => (.error error, held) := by
  induction chunks generalizing held with
  | nil => rfl
  | cons chunk chunks ih =>
    rw [List.cons_append, offer, offer]
    split
    · next held' _ => exact ih held'
    · rfl

/-- A sink that takes every chunk, and holds them in order. -/
def recorder (recognize : Failure → Option SinkError) : Sink (List String) :=
  ⟨fun chunk taken => (.ok (), taken ++ [chunk]), recognize⟩

end Sink

/-- The contents of a sink, and every chunk that it was offered with its answer, in order. -/
structure Noted (ω : Type) where
  held : ω
  offers : List (String × Except SinkError Unit)

/-- The sink, with a note of what it is offered and what it answers. -/
def Sink.noting (sink : Sink ω) : Sink (Noted ω) :=
  ⟨fun chunk noted =>
    match sink.write chunk noted.held with
    | (answer, held) => (answer, ⟨held, noted.offers ++ [(chunk, answer)]⟩),
    sink.recognize⟩

namespace Sink

theorem offer_noting_of_ok {sink : Sink ω} {chunks : List String} {held held' : ω}
    (h : sink.offer chunks held = (.ok (), held'))
    (offers : List (String × Except SinkError Unit)) :
    sink.noting.offer chunks ⟨held, offers⟩ =
      (.ok (), ⟨held', offers ++ chunks.map fun chunk => (chunk, .ok ())⟩) := by
  induction chunks generalizing held offers with
  | nil =>
    cases h
    simp [offer]
  | cons chunk chunks ih =>
    rw [offer] at h
    split at h
    · next mid hwrite =>
      simp only [offer, noting, hwrite]
      have := ih h (offers ++ [(chunk, .ok ())])
      rw [noting] at this
      rw [this, List.map_cons, List.append_assoc, List.singleton_append]
    · cases h

/-- A sink that refuses a chunk has taken those before it, and is not offered those after it. -/
theorem offer_noting_of_error {sink : Sink ω} {chunks : List String} {held held' : ω}
    {error : SinkError} (h : sink.offer chunks held = (.error error, held'))
    (offers : List (String × Except SinkError Unit)) :
    ∃ before chunk after, chunks = before ++ chunk :: after ∧
      sink.noting.offer chunks ⟨held, offers⟩ =
        (.error error, ⟨held', offers ++ before.map (fun chunk => (chunk, .ok ())) ++
          [(chunk, .error error)]⟩) := by
  induction chunks generalizing held offers with
  | nil => cases h
  | cons chunk chunks ih =>
    rw [offer] at h
    split at h
    · next mid hwrite =>
      obtain ⟨before, refused, after, rfl, hnoting⟩ := ih h (offers ++ [(chunk, .ok ())])
      refine ⟨chunk :: before, refused, after, rfl, ?_⟩
      rw [noting] at hnoting
      simp only [offer, noting, hwrite]
      rw [hnoting, List.map_cons, List.append_assoc offers, List.singleton_append]
    · next mid hwrite =>
      cases h
      refine ⟨[], chunk, chunks, rfl, ?_⟩
      simp only [offer, noting, hwrite]
      simp

/-- A sink that takes every chunk takes any sequence of them. -/
theorem exists_offer_eq_ok {sink : Sink ω} (h : ∀ chunk held, (sink.write chunk held).1 = .ok ())
    (chunks : List String) (held : ω) : ∃ held', sink.offer chunks held = (.ok (), held') := by
  induction chunks generalizing held with
  | nil => exact ⟨held, rfl⟩
  | cons chunk chunks ih =>
    obtain ⟨held', hoffer⟩ := ih (sink.write chunk held).2
    refine ⟨held', ?_⟩
    have hwrite : sink.write chunk held = (.ok (), (sink.write chunk held).2) :=
      Prod.ext (h chunk held) rfl
    rw [offer, hwrite]
    exact hoffer

end Sink

/-! ## One sequence of chunks -/

/-- What the first step writes to a record, the second offers to its sink. If the sink takes all of
it, both steps come to the same answer and state; if not, the second step fails with the error of
the sink. -/
def Render.Follows (sink : Sink ω) (recorded : Render (List String) σ α) (step : Render ω σ α) :
    Prop :=
  ∀ store, ∃ chunks answer store',
    (∀ taken, recorded ⟨taken, store⟩ = (answer, ⟨taken ++ chunks, store'⟩)) ∧
    ∀ held,
      match sink.offer chunks held with
      | (.ok (), held') => step ⟨held, store⟩ = (answer, ⟨held', store'⟩)
      | (.error error, held') =>
        ∃ store'', step ⟨held, store⟩ = (.error (.failed (.sink error)), ⟨held', store''⟩)

namespace Render.Follows

variable {sink : Sink ω}

theorem pure (a : α) :
    Follows sink (Pure.pure a : Render (List String) σ α) (Pure.pure a : Render ω σ α) := by
  intro store
  refine ⟨[], .ok a, store, ?_, ?_⟩
  · intro taken
    rw [List.append_nil]
    rfl
  · intro held
    rfl

theorem fail (error : Error) :
    Follows sink (Render.fail error : Render (List String) σ α) (Render.fail error) := by
  intro store
  refine ⟨[], .error (.failed error), store, ?_, ?_⟩
  · intro taken
    rw [List.append_nil]
    rfl
  · intro held
    rfl

theorem emit (recognize : Failure → Option SinkError) (chunk : String) :
    Follows sink (Render.emit (Sink.recorder recognize) chunk : Render (List String) σ Unit)
      (Render.emit sink chunk) := by
  intro store
  refine ⟨[chunk], .ok (), store, fun taken => rfl, ?_⟩
  intro held
  cases hwrite : sink.write chunk held with
  | mk answer held' =>
    cases answer with
    | ok done => simp only [Sink.offer, Render.emit, hwrite]
    | error error =>
      simp only [Sink.offer, Render.emit, hwrite]
      exact ⟨store, rfl⟩

theorem bind {recorded : Render (List String) σ α} {step : Render ω σ α}
    {recordedNext : α → Render (List String) σ β} {next : α → Render ω σ β}
    (h : Follows sink recorded step) (hnext : ∀ a, Follows sink (recordedNext a) (next a)) :
    Follows sink (recorded >>= recordedNext) (step >>= next) := by
  intro store
  obtain ⟨chunks, answer, mid, hrecorded, hstep⟩ := h store
  cases answer with
  | error halt =>
    refine ⟨chunks, .error halt, mid, fun taken => bind_of_error (hrecorded taken) _, ?_⟩
    intro held
    have := hstep held
    split at this
    · exact bind_of_error this _
    · obtain ⟨store'', this⟩ := this
      exact ⟨store'', bind_of_error this _⟩
  | ok a =>
    obtain ⟨chunks', answer', store', hrecorded', hstep'⟩ := hnext a mid
    refine ⟨chunks ++ chunks', answer', store', ?_, ?_⟩
    · intro taken
      rw [bind_of_ok (hrecorded taken), hrecorded', List.append_assoc]
    · intro held
      have hstep := hstep held
      rw [Sink.offer_append]
      split at hstep
      · next held' hoffer =>
        simp only [bind_of_ok hstep]
        exact hstep' held'
      · next error held' hoffer =>
        obtain ⟨store'', hstep⟩ := hstep
        exact ⟨store'', bind_of_error hstep _⟩

theorem congruence (recognize : Failure → Option SinkError) :
    Render.Congruence (σ := σ) (Sink.recorder recognize) sink fun _ => Follows sink :=
  ⟨pure, bind, emit recognize⟩

theorem onScratch (step : Render String σ α) :
    Follows sink (Render.onScratch step : Render (List String) σ (α × String))
      (Render.onScratch step) := by
  intro store
  cases hstep : step ⟨"", store⟩ with
  | mk answer scratch =>
    cases answer with
    | ok a =>
      refine ⟨[], .ok (a, scratch.sink), scratch.store, ?_, ?_⟩
      · intro taken
        simp only [Render.onScratch, hstep, List.append_nil]
      · intro held
        simp only [Sink.offer, Render.onScratch, hstep]
    | error halt =>
      refine ⟨[], .error halt, scratch.store, ?_, ?_⟩
      · intro taken
        simp only [Render.onScratch, hstep, List.append_nil]
      · intro held
        simp only [Sink.offer, Render.onScratch, hstep]

/-- A lambda writes to a text of its own, which the sink is offered in one chunk. -/
theorem expandLambda (sink : Sink ω) (nested : Nested σ) (frames : List (Value σ))
    (f : Lambda σ) (call : Call) :
    Follows sink (Mustache.expandLambda (Sink.recorder sink.recognize) nested frames f call)
      (Mustache.expandLambda sink nested frames f call) := by
  unfold Mustache.expandLambda
  refine (onScratch _).bind ?_
  rintro ⟨completed, text⟩
  cases completed with
  | error error => exact fail (.sink error)
  | ok completed =>
    cases completed with
    | true => exact emit _ text
    | false => exact pure ()

end Render.Follows

theorem Engine.renderWithin_follows (engine : Engine) (sink : Sink ω) (nested : Nat → Nested σ)
    (depth : Nat) (nodes : List Node) (frames : List (Value σ)) :
    Render.Follows sink
      (engine.renderWithin (Sink.recorder sink.recognize) nested depth nodes frames)
      (engine.renderWithin sink nested depth nodes frames) := by
  refine (Render.Follows.congruence sink.recognize).renderWithin .fail .any engine ?_ depth nodes
    frames trivial
  intro depth frames path f call _ _
  exact .expandLambda sink _ frames f call

theorem Engine.renderTo_follows (engine : Engine) (fuel : Nat) (sink : Sink ω)
    (template : Template) (data : Data σ) :
    Render.Follows sink (engine.renderTo fuel (Sink.recorder sink.recognize) template data)
      (engine.renderTo fuel sink template data) :=
  engine.renderWithin_follows sink _ _ template.nodes [.host data]

namespace Engine

/-- A render offers the same chunks to all sinks that decide alike on failures, and comes to the
same answer with all that take them. -/
theorem exists_chunks (engine : Engine) (fuel : Nat) (recognize : Failure → Option SinkError)
    (template : Template) (data : Data σ) (store : σ) :
    ∃ chunks answer store', ∀ {ω : Type} (sink : Sink ω), sink.recognize = recognize →
      ∀ held,
        match sink.offer chunks held with
        | (.ok (), held') =>
          engine.renderTo fuel sink template data ⟨held, store⟩ = (answer, ⟨held', store'⟩)
        | (.error error, held') =>
          ∃ store'', engine.renderTo fuel sink template data ⟨held, store⟩ =
            (.error (.failed (.sink error)), ⟨held', store''⟩) := by
  obtain ⟨chunks, answer, store', hrecorded, _⟩ :=
    engine.renderTo_follows fuel (Sink.recorder recognize) template data store
  refine ⟨chunks, answer, store', ?_⟩
  rintro ω sink rfl
  obtain ⟨chunks', answer', store'', hrecorded', hstep⟩ :=
    engine.renderTo_follows fuel sink template data store
  -- both records are of one run, so the chunks and the answer are the same
  have heq := (hrecorded []).symm.trans (hrecorded' [])
  cases heq
  exact hstep

end Engine

/-! ## Sinks that refuse -/

theorem Sink.offer_text (chunks : List String) (held : String) :
    Sink.text.offer chunks held = (.ok (), held ++ String.join chunks) := by
  induction chunks generalizing held with
  | nil => simp [offer]
  | cons chunk chunks ih =>
    rw [offer]
    simp only [text] at ih ⊢
    rw [ih, String.join_cons, String.append_assoc]

/-- A writer that has room for so many octets holds as many of what it is offered, and no more. -/
theorem Sink.offer_writer (full : String) (chunks : List String) (held : Array UInt8)
    (room : Nat) :
    ((Sink.writer full).offer chunks ⟨held, some room⟩).2.held =
      held ++ (String.join chunks).toUTF8.data.extract 0 room := by
  induction chunks generalizing held room with
  | nil => simp [offer]
  | cons chunk chunks ih =>
    rw [offer]
    simp only [writer]
    have hoctets : (String.join (chunk :: chunks)).toUTF8.data =
        chunk.toUTF8.data ++ (String.join chunks).toUTF8.data := by
      simp only [String.toUTF8_eq_toByteArray, String.join_cons, String.toByteArray_append,
        ByteArray.data_append]
    rw [hoctets, Array.extract_append, Nat.zero_sub]
    by_cases hfits : chunk.toUTF8.data.size ≤ room
    · simp only [if_pos hfits]
      simp only [writer] at ih
      rw [ih, Array.extract_eq_self_of_le hfits, Array.append_assoc]
    · have hrest : room - chunk.toUTF8.data.size = 0 := by omega
      simp only [if_neg hfits, hrest, Array.extract_zero, Array.append_empty]

/-- Taking notes changes nothing. -/
theorem Sink.noting_alike (sink : Sink ω) :
    sink.noting.Alike (fun noted held => noted.held = held) sink where
  write := by
    rintro chunk noted held rfl
    exact ⟨(sink.write chunk noted.held).1, _, _, rfl, rfl, rfl⟩
  recognize := rfl

namespace Engine

theorem renderTo_eq_noting (engine : Engine) (fuel : Nat) (sink : Sink ω) (template : Template)
    (data : Data σ) (held : ω) (store : σ) (offers : List (String × Except SinkError Unit)) :
    let noted := engine.renderTo fuel sink.noting template data ⟨⟨held, offers⟩, store⟩
    engine.renderTo fuel sink template data ⟨held, store⟩ =
      (noted.1, ⟨noted.2.sink.held, noted.2.store⟩) := by
  obtain ⟨answer, noted, held', store', hnoted, hrender, rfl⟩ :=
    engine.renderWithin_related sink.noting_alike (engine.renderNested fuel)
      engine.options.maxPartialDepth template.nodes [.host data] ⟨held, offers⟩ held store rfl
  rw [renderTo, renderTo, hnoted, hrender]

/-- A writer with room for so many octets holds just as many of the full output. -/
theorem renderTo_writer (engine : Engine) (fuel : Nat) (template : Template) (data : Data σ)
    (store : σ) (cause : String) (room : Nat) :
    (engine.renderTo fuel (Sink.writer cause) template data ⟨⟨#[], some room⟩, store⟩).2.sink.held =
      (engine.renderTo fuel Sink.text template data ⟨"", store⟩).2.sink.toUTF8.data.extract 0
        room := by
  obtain ⟨chunks, answer, store', hchunks⟩ :=
    engine.exists_chunks fuel Sink.recognizeOwn template data store
  have htext := hchunks Sink.text rfl ""
  rw [Sink.offer_text] at htext
  have hwriter := hchunks (Sink.writer cause) rfl ⟨#[], some room⟩
  have hheld := Sink.offer_writer cause chunks #[] room
  rw [Array.empty_append] at hheld
  rw [htext, String.empty_append, ← hheld]
  split at hwriter
  · next held hoffer => rw [hwriter, hoffer]
  · next error held hoffer =>
    obtain ⟨store'', hwriter⟩ := hwriter
    rw [hwriter, hoffer]

/-- Of two sinks that decide alike on failures let the first take every chunk. If the second is
offered no chunk that it refuses, both renders come to the same answer and are offered the same
chunks. If it refuses one, that is the last chunk it is offered, the first sink is offered the
same chunks up to there, and the render ends with the error of the sink. Accordingly a writer with
room for so many octets holds just as many of the full output. -/
theorem renderTo_refusal {full : Sink ω₁} {sink : Sink ω₂}
    (hfull : ∀ chunk held, (full.write chunk held).1 = .ok ())
    (hrecognize : sink.recognize = full.recognize) (engine : Engine) (fuel : Nat)
    (template : Template) (data : Data σ) (held₁ : ω₁) (held₂ : ω₂) (store : σ) :
    let complete := engine.renderTo fuel full.noting template data ⟨⟨held₁, []⟩, store⟩
    let limited := engine.renderTo fuel sink.noting template data ⟨⟨held₂, []⟩, store⟩
    (engine.renderTo fuel full template data ⟨held₁, store⟩ =
        (complete.1, ⟨complete.2.sink.held, complete.2.store⟩) ∧
      engine.renderTo fuel sink template data ⟨held₂, store⟩ =
        (limited.1, ⟨limited.2.sink.held, limited.2.store⟩)) ∧
    ((∀ offer ∈ limited.2.sink.offers, offer.2 = .ok ()) →
      limited.1 = complete.1 ∧ limited.2.sink.offers = complete.2.sink.offers ∧
        limited.2.store = complete.2.store) ∧
    (∀ k chunk error, limited.2.sink.offers[k]? = some (chunk, .error error) →
      limited.1 = .error (.failed (.sink error)) ∧ limited.2.sink.offers.length = k + 1 ∧
        limited.2.sink.offers.take k = complete.2.sink.offers.take k ∧
        complete.2.sink.offers[k]? = some (chunk, .ok ())) ∧
    ∀ cause room,
      (engine.renderTo fuel (Sink.writer cause) template data ⟨⟨#[], some room⟩, store⟩).2.sink.held =
        (engine.renderTo fuel Sink.text template data ⟨"", store⟩).2.sink.toUTF8.data.extract 0
          room := by
  intro complete limited
  obtain ⟨chunks, answer, store', hchunks⟩ :=
    engine.exists_chunks fuel full.recognize template data store
  have hcomplete : complete.1 = answer ∧ complete.2.store = store' ∧
      complete.2.sink.offers = chunks.map fun chunk => (chunk, .ok ()) := by
    obtain ⟨held, hoffer⟩ := Sink.exists_offer_eq_ok hfull chunks held₁
    have hrun := hchunks full.noting rfl ⟨held₁, []⟩
    rw [Sink.offer_noting_of_ok hoffer] at hrun
    simp only [complete, hrun, List.nil_append, and_self]
  obtain ⟨hanswer, hstore, hoffers⟩ := hcomplete
  have hlimited := hchunks sink.noting hrecognize ⟨held₂, []⟩
  refine ⟨⟨engine.renderTo_eq_noting .., engine.renderTo_eq_noting ..⟩, ?_⟩
  rw [hanswer, hstore, hoffers]
  cases hoffer : sink.offer chunks held₂ with
  | mk outcome held =>
    cases outcome with
    | ok done =>
      rw [Sink.offer_noting_of_ok hoffer] at hlimited
      simp only [List.nil_append] at hlimited
      simp only [limited, hlimited]
      refine ⟨fun _ => ⟨trivial, trivial, trivial⟩, ?_,
        engine.renderTo_writer fuel template data store⟩
      intro k chunk error hk
      have hmem := List.mem_of_getElem? hk
      simp at hmem
    | error error =>
      obtain ⟨before, refused, after, rfl, hnoting⟩ := Sink.offer_noting_of_error hoffer []
      rw [hnoting] at hlimited
      obtain ⟨store'', hlimited⟩ := hlimited
      simp only [List.nil_append] at hlimited
      simp only [limited, hlimited]
      refine ⟨?_, ?_, engine.renderTo_writer fuel template data store⟩
      · intro hall
        have := hall (refused, .error error) (by simp)
        cases this
      · intro k chunk error' hk
        -- of the chunks it is offered it refuses only the last one
        have hlast : k = before.length := by
          rcases Nat.lt_trichotomy k before.length with hlt | heq | hgt
          · rw [List.getElem?_append_left (by simpa using hlt)] at hk
            simp [hlt] at hk
          · exact heq
          · rw [List.getElem?_eq_none (by simpa using Nat.succ_le_of_lt hgt)] at hk
            cases hk
        subst hlast
        simp at hk
        obtain ⟨rfl, rfl⟩ := hk
        simp

/-- A sink that refuses the text of a lambda, which completes whatever its writes come to. -/
theorem renderTo_refused_call :
    let engine : Engine := ⟨fun _ => .ok none, .standard⟩
    let sink := Sink.chunkLog .outOfMemory Sink.recognizeOwn
    let data : Data Unit := .record
      [("f", .lambda fun _ => .writeRaw "xy" fun _ => .done ())] []
    let template : Template :=
      ⟨none, [.literal "a", .interpolation ⟨["f"]⟩ .html ⟨1, 6, 1, 2⟩, .literal "b"]⟩
    let complete := engine.renderTo 0 Sink.text.noting template data ⟨⟨"", []⟩, ()⟩
    let limited := engine.renderTo 0 sink.noting template data ⟨⟨.ofRoom (some 2), []⟩, ()⟩
    limited.1 = .error (.failed (.sink .outOfMemory)) ∧ limited.2.sink.offers.length = 2 ∧
      limited.2.sink.offers.take 1 = complete.2.sink.offers.take 1 ∧
      complete.2.sink.offers[1]? = some ("xy", .ok ()) := by
  intro engine sink data template complete limited
  obtain ⟨_, _, hrefused, _⟩ :=
    @renderTo_refusal _ _ _ Sink.text sink (fun _ _ => rfl) rfl engine 0 template data ""
      (ChunkLog.ofRoom (some 2)) ()
  refine hrefused 1 "xy" .outOfMemory ?_
  rfl

end Engine
end Mustache
