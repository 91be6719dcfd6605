import Mustache.Proofs.Related

/-!
# Mustache.Proofs.Sections

Rendering sections. A section renders its body once for each element of what its name stands for,
in order; the inverted section renders its body where the section would do nothing.
-/

namespace Mustache

variable {ω σ : Type}

/-! ## Names looked up twice -/

/-- Calls a lambda and does nothing with a value. -/
def calling (k : Continuation ω σ) (frames : List (Value σ)) (call : Call) :
    Action (Render ω σ) σ Unit :=
  ⟨fun _ => pure (), fun f => k.expansion frames f call⟩

/-- Writes a value and does nothing with a lambda. -/
def writing (sink : Sink ω) (escape : Escape) : Action (Render ω σ) σ Unit :=
  ⟨fun value => Render.emitAll sink (value.chunks escape), fun _ => pure ()⟩

/-- Looking the name up again to call the lambda there makes no difference to an interpolation. -/
theorem interpolation_eq_twice (sink : Sink ω) (k : Continuation ω σ) (frames : List (Value σ))
    (escape : Escape) (path : Path) :
    (do
      let _ ← resolveFrames (interpolation sink k frames escape) frames path none) =
      (do
        let found ← resolveFrames (writing sink escape) frames path none
        match found with
        | .lambda _ =>
          let _ ← resolveFrames (calling k frames ⟨"", escape, .braces⟩) frames path none
        | _ => pure ()) := by
  simp only [resolveFrames_eq_act]
  cases locateFrames frames path none with
  | missing | broken | consumed => simp [Location.act]
  | field value => simp [Location.act, Action.onField, interpolation, writing]
  | lambda f => simp [Location.act, Action.onLambda, interpolation, writing, calling]

/-! ## Rounds -/

/-- Goes through a section from an index on, in no more than so many rounds. The name is looked up
again for each index, and once more to call a lambda. -/
def sectionRounds (k : Continuation ω σ) (frames : List (Value σ)) (path : Path) (call : Call)
    (body : Value σ → Render ω σ Unit) : Nat → Nat → Render ω σ Unit
  | 0, _ => pure ()
  | rounds + 1, index =>
    match (resolveFrames Action.get frames path (some index)).run with
    | .field (some value) => do
      body value
      sectionRounds k frames path call body rounds (index + 1)
    | .lambda _ =>
      if index = 0 then do
        let _ ← resolveFrames (calling k frames call) frames path (some 0)
      else pure ()
    | _ => pure ()

section

variable (k : Continuation ω σ) (frames : List (Value σ)) (path : Path) (call : Call)
variable (body : Value σ → Render ω σ Unit)

theorem sectionRounds_each {values : List (Value σ)}
    (h : sectionEntries frames path = some (.each values)) {rounds index : Nat}
    (hrounds : values.length < index + rounds) :
    sectionRounds k frames path call body rounds index = (values.drop index).forM body := by
  -- there are more rounds than elements, so they end by meeting the index behind the last one
  induction rounds generalizing index with
  | zero =>
    rw [List.drop_of_length_le (by omega)]
    rfl
  | succ rounds ih =>
    rw [sectionRounds, resolveFrames_get_of_entries h, Enumeration.ofEntries, Enumeration.atIndex]
    by_cases hindex : index < values.length
    · rw [List.getElem?_eq_getElem hindex, List.drop_eq_getElem_cons hindex, List.forM]
      simp only
      rw [ih (by omega)]
    · rw [List.getElem?_eq_none (by omega), List.drop_of_length_le (by omega)]
      rfl

/-- Given enough rounds, a section is the same as going through it round by round. -/
theorem exists_sectionRounds :
    ∃ enough, ∀ rounds, enough ≤ rounds →
      sectionRounds k frames path call body rounds 0 =
        match sectionEntries frames path with
        | some (.each values) => values.forM body
        | some (.lambda f) => k.expansion frames f call
        | none => pure () := by
  cases h : sectionEntries frames path with
  | none =>
    refine ⟨1, ?_⟩
    intro rounds hrounds
    obtain ⟨rounds, rfl⟩ := Nat.exists_eq_add_of_le' hrounds
    rw [sectionRounds, resolveFrames_eq_act, locateFrames_index, h]
    rfl
  | some entries =>
    cases entries with
    | each values =>
      refine ⟨values.length + 1, ?_⟩
      intro rounds hrounds
      rw [sectionRounds_each k frames path call body h (by omega), List.drop_zero]
    | lambda f =>
      refine ⟨1, ?_⟩
      intro rounds hrounds
      obtain ⟨rounds, rfl⟩ := Nat.exists_eq_add_of_le' hrounds
      rw [sectionRounds, resolveFrames_eq_act, resolveFrames_eq_act, locateFrames_index, h]
      simp [Entries.atIndex, Location.act, Action.onLambda, calling, Action.get]

end

/-! ## Texts -/

/-- The steps succeed one after the other, each from the state that the one before it leaves, and
write the texts. -/
inductive Render.InTurn : List (Render String σ Unit) → σ → List String → σ → Prop
  | nil (store : σ) : InTurn [] store [] store
  | cons {step : Render String σ Unit} {steps : List (Render String σ Unit)} {text : String}
      {texts : List String} {store mid store' : σ}
      (head : step ⟨"", store⟩ = (.ok (), ⟨text, mid⟩)) (tail : InTurn steps mid texts store') :
      InTurn (step :: steps) store (text :: texts) store'

theorem Engine.exists_inTurn (engine : Engine) (recognize : Failure → Option SinkError)
    (nested : Nat → Nested σ) (depth : Nat) (children : List Node) (frames : List (Value σ))
    {values : List (Value σ)} {front whole : String} {store store' : σ}
    (h : values.forM (fun value => engine.renderWithin (Sink.scratch recognize) nested depth
      children (value :: frames)) ⟨front, store⟩ = (.ok (), ⟨whole, store'⟩)) :
    ∃ texts, Render.InTurn (values.map fun value => engine.renderWithin (Sink.scratch recognize)
        nested depth children (value :: frames)) store texts store' ∧
      whole = front ++ String.join texts := by
  induction values generalizing front store with
  | nil =>
    cases h
    exact ⟨[], .nil _, by simp⟩
  | cons value values ih =>
    rw [List.forM, Render.bind_eq_ok_iff] at h
    obtain ⟨done, ⟨middle, mid⟩, hhead, htail⟩ := h
    obtain ⟨text, rfl, htext⟩ := engine.renderWithin_append recognize nested depth children
      (value :: frames) hhead
    obtain ⟨texts, htexts, rfl⟩ := ih htail
    exact ⟨text :: texts, .cons htext htexts, by rw [String.join_cons, String.append_assoc]⟩

/-! ## Sections and inverted sections -/

theorem Engine.renderWithin_section (engine : Engine) (sink : Sink ω) (nested : Nat → Nested σ)
    (depth : Nat) (path : Path) (children : List Node) (inner : String) (delimiters : Delimiters)
    (span : Span) (frames : List (Value σ)) :
    engine.renderWithin sink nested depth [.block path false children inner delimiters span]
        frames =
      match sectionEntries frames path with
      | some (.each values) =>
        values.forM fun value => engine.renderWithin sink nested depth children (value :: frames)
      | some (.lambda f) => expandLambda sink (nested depth) frames f ⟨inner, .raw, delimiters⟩
      | none => pure () := by
  rw [renderWithin_eq, renderNodes_singleton, renderNode_section]
  rfl

theorem Engine.renderWithin_each (engine : Engine) (sink : Sink ω) (nested : Nat → Nested σ)
    (depth : Nat) (children : List Node) (inner : String) (delimiters : Delimiters) (span : Span)
    {frames : List (Value σ)} {path : Path} {values : List (Value σ)}
    (h : Enumeration.ofFound (resolveFrames .get frames path none).run = .each values) :
    engine.renderWithin sink nested depth [.block path false children inner delimiters span]
        frames =
      values.forM fun value =>
        engine.renderWithin sink nested depth children (value :: frames) := by
  have hentries := sectionEntries_of_found frames path
  rw [h] at hentries
  rw [renderWithin_section, hentries]

theorem Engine.renderWithin_inverted (engine : Engine) (sink : Sink ω) (nested : Nat → Nested σ)
    (depth : Nat) (path : Path) (children : List Node) (inner : String) (delimiters : Delimiters)
    (span : Span) (frames : List (Value σ)) :
    engine.renderWithin sink nested depth [.block path true children inner delimiters span]
        frames =
      if entersSection frames path then pure ()
      else engine.renderWithin sink nested depth children frames := by
  rw [renderWithin_eq, renderNodes_singleton, renderNode, if_pos rfl]

/-- Looking up the name of a section with an index gives the elements of what is found without
one, or nothing for every index, or a lambda for every index. Accordingly the section renders its
body with each element in turn as the innermost context, does nothing, or calls the lambda once;
it is the same to look the name up again for each index. What the body renders to is written one
after the other. The inverted section renders its body in the context as it is, just where the
section would render no body and call no lambda. -/
theorem Engine.section_enumerates (engine : Engine) (nested : Nat → Nested σ) (depth : Nat)
    (frames : List (Value σ)) (path : Path) (children : List Node) (inner : String)
    (delimiters : Delimiters) (span : Span) :
    let found := fun index => (resolveFrames Action.get frames path index).run
    let e := Enumeration.ofFound (found none)
    let block := fun inverted => [Node.block path inverted children inner delimiters span]
    (∀ e', (∀ index, found (some index) = e'.atIndex index) ↔ e' = e) ∧
    (∀ (ω : Type) (sink : Sink ω),
      let render := engine.renderWithin sink nested depth
      let body := fun value => render children (value :: frames)
      (e = .broken → render (block false) frames = pure ()) ∧
      (e = .lambda → ∃ f,
        (∀ index, (resolveFrames .arrive frames path (some index)).run = .lambda (.inr f)) ∧
        render (block false) frames =
          expandLambda sink (nested depth) frames f ⟨inner, .raw, delimiters⟩) ∧
      (∀ values, e = .each values → render (block false) frames = values.forM body) ∧
      (∃ enough, ∀ rounds, enough ≤ rounds → render (block false) frames =
        sectionRounds (engine.continuation sink nested depth) frames path
          ⟨inner, .raw, delimiters⟩ body rounds 0) ∧
      render (block true) frames = if e.isIdle then render children frames else pure ()) ∧
    ∀ (recognize : Failure → Option SinkError) (values : List (Value σ)) (front whole : String)
      (store store' : σ), e = .each values →
      let render := engine.renderWithin (Sink.scratch recognize) nested depth
      render (block false) frames ⟨front, store⟩ = (.ok (), ⟨whole, store'⟩) →
        ∃ texts, Render.InTurn (values.map fun value => render children (value :: frames))
            store texts store' ∧
          whole = front ++ String.join texts := by
  intro found e block
  have hat (index : Nat) : found (some index) = e.atIndex index :=
    resolveFrames_get_some frames path index
  have hsection {ω : Type} (sink : Sink ω) :=
    engine.renderWithin_section sink nested depth path children inner delimiters span frames
  have hentries := sectionEntries_of_found frames path
  refine ⟨?_, ?_, ?_⟩
  · intro e'
    constructor
    · intro h
      apply Enumeration.eq_of_atIndex
      intro index
      rw [← h, hat]
    · rintro rfl
      exact hat
  · intro ω sink render body
    refine ⟨?_, ?_, ?_, ?_, ?_⟩
    · intro h
      rw [show Enumeration.ofFound _ = .broken from h] at hentries
      simp only [render, block, hsection, hentries]
    · intro h
      rw [show Enumeration.ofFound _ = .lambda from h] at hentries
      obtain ⟨f, hentries⟩ := hentries
      refine ⟨f, ?_, ?_⟩
      · intro index
        rw [resolveFrames_eq_act, locateFrames_index, hentries]
        rfl
      · simp only [render, block, hsection, hentries]
    · intro values h
      exact engine.renderWithin_each sink nested depth children inner delimiters span h
    · obtain ⟨enough, henough⟩ := exists_sectionRounds (engine.continuation sink nested depth)
        frames path ⟨inner, .raw, delimiters⟩ body
      refine ⟨enough, ?_⟩
      intro rounds hrounds
      rw [henough rounds hrounds]
      exact hsection sink
    · simp only [render, block]
      rw [engine.renderWithin_inverted, entersSection_eq]
      cases Enumeration.isIdle _ <;> rfl
  · intro recognize values front whole store store' h render hrender
    change engine.renderWithin _ nested depth (block false) frames _ = _ at hrender
    rw [engine.renderWithin_each _ nested depth children inner delimiters span h] at hrender
    exact engine.exists_inTurn recognize nested depth children frames hrender

/-- A section over a list of two names behind a wrapper. -/
theorem Engine.section_two_names :
    let engine : Engine := ⟨fun _ => .ok none, .standard⟩
    let data : Data Unit := .record [("names", .present (.sequence [.string "a", .string "b"]))] []
    let render := fun value => engine.renderWithin (Sink.scratch Sink.recognizeOwn)
      (fun _ _ _ _ => Render.exhaust) 0 [.interpolation ⟨[]⟩ .html ⟨10, 15, 1, 11⟩]
      [value, .host data]
    ∃ texts, Render.InTurn ([.host (.string "a"), .host (.string "b")].map render) () texts () ∧
      "(ab" = "(" ++ String.join texts := by
  intro engine data render
  obtain ⟨_, _, htexts⟩ := engine.section_enumerates (fun _ _ _ _ => Render.exhaust) 0
    [.host data] ⟨["names"]⟩ [.interpolation ⟨[]⟩ .html ⟨10, 15, 1, 11⟩] "\x7b\x7b.\x7d\x7d"
    .braces ⟨0, 10, 1, 1⟩
  exact htexts Sink.recognizeOwn [.host (.string "a"), .host (.string "b")] "(" "(ab" () () rfl rfl

end Mustache
