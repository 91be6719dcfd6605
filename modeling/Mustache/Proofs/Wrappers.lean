import Mustache.Engine
import Mustache.Proofs.Enumeration

/-!
# Mustache.Proofs.Wrappers

Wrappers around values. Data renders like the same data without its wrappers, but for those around
lambdas: an interpolation calls a lambda, and writes nothing for one that is wrapped.
-/

namespace Mustache

variable {ω σ α : Type}

/-! ## Taking wrappers off -/

namespace Data

/-- A wrapper around a lambda stays; around anything else it makes no difference. -/
def wrapped : Data σ → Data σ
  | .lambda f => .pointer (.lambda f)
  | data => data

mutual

/-- The data without wrappers, at any depth. -/
def plain : Data σ → Data σ
  | .pointer target => target.plain.wrapped
  | .present value => value.plain.wrapped
  | .record fields methods => .record (plainFields fields) methods
  | .sequence items => .sequence (plainItems items)
  | .tuple items => .tuple (plainItems items)
  | data => data

def plainItems : List (Data σ) → List (Data σ)
  | [] => []
  | item :: items => item.plain :: plainItems items

def plainFields : List (String × Data σ) → List (String × Data σ)
  | [] => []
  | (name, item) :: fields => (name, item.plain) :: plainFields fields

end

theorem plainItems_eq (items : List (Data σ)) : plainItems items = items.map plain := by
  induction items with
  | nil => rfl
  | cons item items ih => rw [plainItems, ih, List.map_cons]

theorem plainFields_append (before after : List (String × Data σ)) :
    plainFields (before ++ after) = plainFields before ++ plainFields after := by
  induction before with
  | nil => rfl
  | cons field before ih =>
    obtain ⟨name, item⟩ := field
    rw [List.cons_append, plainFields, ih, plainFields, List.cons_append]

theorem lookup_plainFields (fields : List (String × Data σ)) (name : String) :
    (plainFields fields).lookup name = (fields.lookup name).map plain := by
  induction fields with
  | nil => rfl
  | cons field fields ih =>
    obtain ⟨name', item⟩ := field
    rw [plainFields, List.lookup_cons, List.lookup_cons]
    by_cases h : name == name'
    · simp [h]
    · simp [h, ih]

theorem wrapped_eq {data : Data σ} (h : ∀ f, data ≠ .lambda f) : data.wrapped = data := by
  cases data with
  | lambda f => exact absurd rfl (h f)
  | _ => rfl

theorem wrapped_ne_lambda (data : Data σ) (f : Lambda σ) : data.wrapped ≠ .lambda f := by
  cases data <;> simp [wrapped]

theorem target_wrapped (data : Data σ) : data.wrapped.target = data.target := by
  cases data <;> rfl

theorem chunks_wrapped (escape : Escape) (data : Data σ) :
    data.wrapped.chunks escape = data.chunks escape := by
  cases data <;> rfl

theorem entries_wrapped (data : Data σ) : data.wrapped.entries = data.entries := by
  cases data <;> rfl

/-- Only a lambda is a lambda without wrappers. -/
theorem plain_eq_lambda {data : Data σ} {f : Lambda σ} (h : data.plain = .lambda f) :
    data = .lambda f := by
  cases data with
  | pointer target => exact absurd h (wrapped_ne_lambda _ f)
  | present value => exact absurd h (wrapped_ne_lambda _ f)
  | lambda f' => exact h
  | _ => cases h

theorem chunks_plain (escape : Escape) (data : Data σ) :
    data.plain.chunks escape = data.chunks escape := by
  fun_induction data.chunks escape with
  | case5 target ih => rw [plain, chunks_wrapped, ih]
  | case6 value ih => rw [plain, chunks_wrapped, ih]
  | _ => rfl

end Data

/-! ## Lookups in plain data -/

namespace Value

def plain : Value σ → Value σ
  | .host data => .host data.plain
  | .count n => .count n

theorem chunks_plain (escape : Escape) (value : Value σ) :
    value.plain.chunks escape = value.chunks escape := by
  cases value with
  | host data => exact data.chunks_plain escape
  | count n => rfl

end Value

def Entries.plain : Entries σ → Entries σ
  | .each values => .each (values.map .plain)
  | .lambda f => .lambda f

def Hop.plain : Hop σ → Hop σ
  | .member item => .member item.plain
  | hop => hop

def Location.plain : Location σ → Location σ
  | .field value => .field value.plain
  | location => location

theorem Data.entries_plain (data : Data σ) : data.plain.entries = data.entries.plain := by
  fun_induction Data.entries data with
  | case1 items | case2 items =>
    simp [Data.plain, Data.entries, Entries.plain, plainItems_eq, Value.plain]
  | case3 flag => cases flag <;> rfl
  | case4 target ih => rw [Data.plain, entries_wrapped, ih]
  | case5 value ih => rw [Data.plain, entries_wrapped, ih]
  | case6 => rfl
  | case7 f => rfl
  | case8 data =>
    cases data with
    | record | bytes | string | scalar => rfl
    | _ => simp_all

theorem Value.entries_plain (value : Value σ) : value.plain.entries = value.entries.plain := by
  cases value with
  | host data => exact data.entries_plain
  | count n => rfl

theorem Value.hop_plain (host : Value σ) (name : String) :
    host.plain.hop name = (host.hop name).plain := by
  cases host with
  | count n => rfl
  | host data =>
    change data.plain.target.bareHop name = (data.target.bareHop name).plain
    fun_induction Data.target data with
    | case1 target ih => rw [Data.plain, Data.target_wrapped, ih]
    | case2 value ih => rw [Data.plain, Data.target_wrapped, ih]
    | case3 data hpointer hpresent =>
      cases data with
      | pointer target => exact absurd rfl (hpointer target)
      | present value => exact absurd rfl (hpresent value)
      | record fields methods =>
        simp only [Data.plain, Data.target, Data.bareHop, Data.lookup_plainFields]
        cases fields.lookup name with
        | some item => rfl
        | none =>
          cases methods.lookup name with
          | none => rfl
          | some method => cases method <;> rfl
      | sequence items =>
        simp only [Data.plain, Data.target, Data.bareHop, Data.plainItems_eq, List.length_map]
        by_cases hname : name = "len" <;> simp [hname, Hop.plain]
      | _ => rfl

theorem Entries.atIndex_plain (entries : Entries σ) (index : Nat) :
    entries.plain.atIndex index = (entries.atIndex index).plain := by
  cases entries with
  | each values =>
    simp only [Entries.plain, Entries.atIndex, List.getElem?_map]
    cases values[index]? <;> rfl
  | lambda f => rfl

theorem Value.arrival_plain (value : Value σ) (index : Option Nat) :
    value.plain.arrival index = (value.arrival index).plain := by
  cases index with
  | none => rfl
  | some index =>
    rw [arrival, arrival, entries_plain, Entries.atIndex_plain]

theorem locate_plain (depth : Depth) (host : Value σ) (path : List String)
    (index : Option Nat) :
    locate depth host.plain path index = (locate depth host path index).plain := by
  have hfailure (depth : Depth) : (depth.location : Location σ) = depth.location.plain := by
    cases depth <;> rfl
  induction path generalizing depth host with
  | nil =>
    by_cases h : ∃ f, host = .host (.lambda f)
    · obtain ⟨f, rfl⟩ := h
      rfl
    · have hlambda (f : Lambda σ) (hf : host = .host (.lambda f)) : False := h ⟨f, hf⟩
      have hplain (f : Lambda σ) (hf : host.plain = .host (.lambda f)) : False := by
        cases host with
        | count n => cases hf
        | host data =>
          have hdata : data.plain = .lambda f := by simpa [Value.plain] using hf
          exact h ⟨f, by rw [Data.plain_eq_lambda hdata]⟩
      rw [locate, locate]
      · exact host.arrival_plain index
      · exact hlambda
      · exact hplain
  | cons name rest ih =>
    rw [locate, locate, Value.hop_plain]
    cases host.hop name with
    | missing => exact hfailure depth
    | broken => rfl
    | member item => exact ih .leaf (.host item)
    | method f => by_cases hrest : rest = [] <;> simp [hrest, Hop.plain, Location.plain]
    | count n =>
      by_cases hrest : rest = []
      · simp only [Hop.plain, if_pos hrest]
        exact (Value.count n).arrival_plain index
      · simp only [Hop.plain, if_neg hrest]
        exact hfailure depth

theorem locateFrames_plain (frames : List (Value σ)) (path : Path) (index : Option Nat) :
    locateFrames (frames.map .plain) path index = (locateFrames frames path index).plain := by
  induction frames with
  | nil => rfl
  | cons frame frames ih =>
    rw [List.map_cons, locateFrames, locateFrames, locate_plain]
    cases locate .root frame path.segments index with
    | missing => exact ih
    | _ => rfl

/-! ## Rendering plain data -/

theorem resolveFrames_plain {m : Type → Type} [Monad m] [LawfulMonad m]
    {action action' : Action m σ α}
    (hfield : ∀ value, action.field value.plain = action'.field value)
    (hlambda : ∀ f, action.lambda f = action'.lambda f) (frames : List (Value σ)) (path : Path)
    (index : Option Nat) :
    resolveFrames action (frames.map .plain) path index =
      resolveFrames action' frames path index := by
  rw [resolveFrames_eq_act, resolveFrames_eq_act, locateFrames_plain]
  cases locateFrames frames path index with
  | missing | broken | consumed => rfl
  | field value => simp only [Location.plain, Location.act, Action.onField, hfield]
  | lambda f => simp only [Location.plain, Location.act, Action.onLambda, hlambda]

theorem entersSection_plain (frames : List (Value σ)) (path : Path) :
    entersSection (frames.map .plain) path = entersSection frames path := by
  rw [entersSection, entersSection, resolveFrames_eq_act, resolveFrames_eq_act,
    locateFrames_plain]
  cases locateFrames frames path (some 0) <;> rfl

theorem forM_plain {body body' : Value σ → Render ω σ Unit}
    (h : ∀ value, body value.plain = body' value) (values : List (Value σ)) :
    (values.map .plain).forM body = values.forM body' := by
  induction values with
  | nil => rfl
  | cons value values ih => rw [List.map_cons, List.forM, List.forM, h, ih]

section

variable {k : Continuation ω σ}

mutual

theorem renderNode_plain (sink : Sink ω) (escape : Escape)
    (hinclusion : ∀ frames name indentation,
      k.inclusion (frames.map .plain) name indentation = k.inclusion frames name indentation)
    (hexpansion : ∀ frames f call,
      k.expansion (frames.map .plain) f call = k.expansion frames f call) :
    ∀ (node : Node) (frames : List (Value σ)),
      renderNode sink escape k node (frames.map .plain) = renderNode sink escape k node frames
  | .literal text, frames => by rw [renderNode, renderNode]
  | .interpolation path tagEscape span, frames => by
    rw [renderNode, renderNode, resolveFrames_plain]
    · intro value
      simp only [interpolation, Value.chunks_plain]
    · intro f
      exact hexpansion frames f _
  | .block path inverted children inner delimiters span, frames => by
    have hchildren (frames : List (Value σ)) :
        renderNodes sink escape k children (frames.map .plain) =
          renderNodes sink escape k children frames :=
      renderNodes_plain sink escape hinclusion hexpansion children frames
    rw [renderNode, renderNode, entersSection_plain, hchildren]
    dsimp only
    rw [resolveFrames_plain]
    · intro value
      simp only [iteration, Value.entries_plain]
      cases value.entries with
      | each values => exact forM_plain (fun value => hchildren (value :: frames)) values
      | lambda f => exact hexpansion frames f _
    · intro f
      exact hexpansion frames f _
  | .inclusion name indentation span, frames => hinclusion frames name indentation

theorem renderNodes_plain (sink : Sink ω) (escape : Escape)
    (hinclusion : ∀ frames name indentation,
      k.inclusion (frames.map .plain) name indentation = k.inclusion frames name indentation)
    (hexpansion : ∀ frames f call,
      k.expansion (frames.map .plain) f call = k.expansion frames f call) :
    ∀ (nodes : List Node) (frames : List (Value σ)),
      renderNodes sink escape k nodes (frames.map .plain) = renderNodes sink escape k nodes frames
  | [], _ => by rw [renderNodes, renderNodes]
  | node :: nodes, frames => by
    rw [renderNodes, renderNodes, renderNode_plain sink escape hinclusion hexpansion node frames,
      renderNodes_plain sink escape hinclusion hexpansion nodes frames]

end

end

theorem scratchHost_plain {nested : Nested σ} (h : ∀ scratch nodes frames,
      nested scratch nodes (frames.map .plain) = nested scratch nodes frames)
    (scratch : Sink String) (frames : List (Value σ)) :
    scratchHost scratch nested (frames.map .plain) = scratchHost scratch nested frames := by
  simp only [scratchHost, renderTemplate, h]

theorem expandLambda_plain {nested : Nested σ} (h : ∀ scratch nodes frames,
      nested scratch nodes (frames.map .plain) = nested scratch nodes frames)
    (sink : Sink ω) (frames : List (Value σ)) (f : Lambda σ) (call : Call) :
    expandLambda sink nested (frames.map .plain) f call =
      expandLambda sink nested frames f call := by
  simp only [expandLambda, scratchHost_plain h]

namespace Engine

theorem renderWithin_plain (engine : Engine) (sink : Sink ω) {nested : Nat → Nested σ}
    (h : ∀ depth scratch nodes frames,
      nested depth scratch nodes (frames.map .plain) = nested depth scratch nodes frames)
    (depth : Nat) (nodes : List Node) (frames : List (Value σ)) :
    engine.renderWithin sink nested depth nodes (frames.map .plain) =
      engine.renderWithin sink nested depth nodes frames := by
  induction depth generalizing nodes frames with
  | zero =>
    refine renderNodes_plain sink _ ?_ ?_ nodes frames
    · intro frames name indentation
      rfl
    · exact expandLambda_plain (h 0) sink
  | succ depth ih =>
    refine renderNodes_plain sink _ ?_ ?_ nodes frames
    · intro frames name indentation
      simp only [ih]
    · exact expandLambda_plain (h (depth + 1)) sink

theorem renderNested_plain (engine : Engine) (fuel depth : Nat) (scratch : Sink String)
    (nodes : List Node) (frames : List (Value σ)) :
    engine.renderNested fuel depth scratch nodes (frames.map .plain) =
      engine.renderNested fuel depth scratch nodes frames := by
  induction fuel generalizing depth scratch nodes frames with
  | zero => rfl
  | succ fuel ih => exact engine.renderWithin_plain scratch ih depth nodes frames

theorem renderTo_plain (engine : Engine) (fuel : Nat) (sink : Sink ω) (template : Template)
    (data : Data σ) :
    engine.renderTo fuel sink template data.plain = engine.renderTo fuel sink template data :=
  engine.renderWithin_plain sink (engine.renderNested_plain fuel) _ template.nodes [.host data]

end Engine

/-! ## Putting wrappers on -/

/-- The second value is the first one with one wrapper more, around the whole of it or around
something in it that is no lambda. -/
inductive Data.Wraps : Data σ → Data σ → Prop
  | present {data : Data σ} (h : ∀ f, data ≠ .lambda f) : Wraps data (.present data)
  | pointer {data : Data σ} (h : ∀ f, data ≠ .lambda f) : Wraps data (.pointer data)
  | inPresent {data data' : Data σ} (h : Wraps data data') : Wraps (.present data) (.present data')
  | inPointer {data data' : Data σ} (h : Wraps data data') : Wraps (.pointer data) (.pointer data')
  | inField {data data' : Data σ} (before after : List (String × Data σ)) (name : String)
      (methods : List (String × Method σ)) (h : Wraps data data') :
      Wraps (.record (before ++ (name, data) :: after) methods)
        (.record (before ++ (name, data') :: after) methods)
  | inSequence {data data' : Data σ} (before after : List (Data σ)) (h : Wraps data data') :
      Wraps (.sequence (before ++ data :: after)) (.sequence (before ++ data' :: after))
  | inTuple {data data' : Data σ} (before after : List (Data σ)) (h : Wraps data data') :
      Wraps (.tuple (before ++ data :: after)) (.tuple (before ++ data' :: after))

theorem Data.Wraps.plain_eq {data data' : Data σ} (h : data.Wraps data') :
    data'.plain = data.plain := by
  -- what is no lambda has a plain form that is none, so the wrapper around it goes
  have hwrapped {data : Data σ} (h : ∀ f, data ≠ .lambda f) : data.plain.wrapped = data.plain :=
    wrapped_eq fun f hf => h f (plain_eq_lambda hf)
  induction h with
  | present h => exact hwrapped h
  | pointer h => exact hwrapped h
  | inPresent _ ih => rw [plain, plain, ih]
  | inPointer _ ih => rw [plain, plain, ih]
  | inField before after name methods _ ih =>
    simp only [plain, plainFields_append, plainFields, ih]
  | inSequence before after _ ih | inTuple before after _ ih =>
    simp only [plain, plainItems_eq, List.map_append, List.map_cons, ih]

/-- A wrapper around the data, or around anything in it but a lambda, makes no difference to any
render: not to what is written, nor to the answer, nor to the state of the lambdas. -/
theorem Engine.renderTo_of_wraps {data data' : Data σ} (h : data.Wraps data') (engine : Engine)
    (fuel : Nat) (sink : Sink ω) (template : Template) :
    engine.renderTo fuel sink template data' = engine.renderTo fuel sink template data := by
  rw [← renderTo_plain, ← engine.renderTo_plain fuel sink template data, h.plain_eq]

/-- A section over a list of names, with one of the names behind two wrappers. -/
theorem Engine.renderTo_wrapped_item :
    let data : Data Unit := .record [("names", .sequence [.string "a", .pointer (.string "b")])] []
    let data' : Data Unit :=
      .record [("names", .sequence [.string "a", .present (.pointer (.string "b"))])] []
    let template : Template :=
      ⟨none, [.block ⟨["names"]⟩ false [.interpolation ⟨[]⟩ .html ⟨10, 15, 1, 11⟩]
        "\x7b\x7b.\x7d\x7d" .braces ⟨0, 10, 1, 1⟩]⟩
    data.Wraps data' ∧
      Engine.standard.renderTo 0 Sink.text template data' ⟨"", ()⟩ = (.ok (), ⟨"ab", ()⟩) := by
  intro data data' template
  have hwraps : data.Wraps data' :=
    .inField [] [] "names" [] (.inSequence [.string "a"] [] (.present nofun))
  refine ⟨hwraps, ?_⟩
  rw [renderTo_of_wraps hwraps]
  rfl

/-- An interpolation calls a lambda, but a lambda with a wrapper is taken for a value without
text. -/
theorem Engine.renderTo_wrapped_lambda :
    let f : Lambda Unit := fun _ => .emit "x"
    let data : Data Unit := .record [("f", .lambda f)] []
    let data' : Data Unit := .record [("f", .present (.lambda f))] []
    let template : Template := ⟨none, [.interpolation ⟨["f"]⟩ .html ⟨0, 5, 1, 1⟩]⟩
    Engine.standard.renderTo 0 Sink.text template data ⟨"", ()⟩ = (.ok (), ⟨"x", ()⟩) ∧
      Engine.standard.renderTo 0 Sink.text template data' ⟨"", ()⟩ = (.ok (), ⟨"", ()⟩) := by
  intro f data data' template
  constructor
  · rfl
  · rfl

end Mustache
