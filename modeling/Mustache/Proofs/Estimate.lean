import Mustache.Proofs.Decoding
import Mustache.Proofs.Entities
import Mustache.Proofs.Escaping

/-!
# Mustache.Proofs.Estimate

The size estimate next to what is rendered. Of a template without sections and partials it counts
the octets before escaping: of literal text and of each value that has a text, whatever wrappers
are around it. Names that lead nowhere and values without a text count as nothing, and nothing is
written for them.
-/

namespace Mustache

variable {ω σ : Type}

/-! ## Octets of a text -/

theorem Text.utf8ByteSize_ofList (cs : List Char) :
    (String.ofList cs).utf8ByteSize = byteSize cs := by
  rw [String.utf8ByteSize, String.toByteArray_ofList, List.utf8Encode, List.size_toByteArray]
  exact length_toOctets cs

theorem Text.utf8ByteSize_eq (text : String) : text.utf8ByteSize = byteSize text.toList := by
  rw [← utf8ByteSize_ofList, String.ofList_toList]

/-- How many octets chunks take together. -/
def chunksSize : List String → Nat
  | [] => 0
  | chunk :: chunks => chunk.utf8ByteSize + chunksSize chunks

@[simp] theorem chunksSize_singleton (chunk : String) :
    chunksSize [chunk] = chunk.utf8ByteSize :=
  Nat.add_zero _

theorem chunksSize_append (chunks chunks' : List String) :
    chunksSize (chunks ++ chunks') = chunksSize chunks + chunksSize chunks' := by
  induction chunks with
  | nil => exact (Nat.zero_add _).symm
  | cons chunk chunks ih => rw [List.cons_append, chunksSize, chunksSize, ih, Nat.add_assoc]

theorem utf8ByteSize_join (chunks : List String) :
    (String.join chunks).utf8ByteSize = chunksSize chunks := by
  induction chunks with
  | nil => rfl
  | cons chunk chunks ih => rw [String.join_cons, String.utf8ByteSize_append, ih, chunksSize]

theorem Escape.le_byteSize_replacement (c : Char) :
    c.utf8Size ≤ Text.byteSize (replacement c) := by
  cases h : entity? c with
  | none =>
    rw [replacement_of_none h]
    exact Nat.le_refl _
  | some entity =>
    obtain ⟨octet, hencode, _⟩ := utf8EncodeChar_of_some h
    have hall : ∀ entity ∈ entities, 1 ≤ Text.byteSize entity.toList := by decide
    rw [replacement_of_some h, ← String.length_utf8EncodeChar, hencode]
    exact hall entity (mem_entities h)

/-- Escaping makes no text shorter. -/
theorem Escape.size_le_chunks (escape : Escape) (text : String) :
    text.utf8ByteSize ≤ chunksSize (escape.chunks text) := by
  cases escape with
  | raw => simp [chunks]
  | html =>
    rw [← utf8ByteSize_join, ← apply, Text.utf8ByteSize_eq, Text.utf8ByteSize_eq, toList_apply]
    induction text.toList with
    | nil => exact Nat.le_refl _
    | cons c cs ih =>
      rw [List.flatMap_cons, Text.byteSize_append, Text.byteSize]
      exact Nat.add_le_add (le_byteSize_replacement c) ih

theorem Escape.chunks_raw_size (text : String) :
    chunksSize (Escape.raw.chunks text) = text.utf8ByteSize := by
  simp [chunks]

/-! ## Values in host data -/

namespace Data

/-- The value has the other one in it, at any depth. -/
inductive Holds : Data σ → Data σ → Prop
  | refl {data : Data σ} : Holds data data
  | field {fields : List (String × Data σ)} {methods : List (String × Method σ)} {name : String}
      {item part : Data σ} :
      (name, item) ∈ fields → Holds item part → Holds (.record fields methods) part
  | pointer {target part : Data σ} : Holds target part → Holds (.pointer target) part
  | present {value part : Data σ} : Holds value part → Holds (.present value) part
  | item {items : List (Data σ)} {item part : Data σ} :
      item ∈ items → Holds item part → Holds (.sequence items) part
  | entry {items : List (Data σ)} {item part : Data σ} :
      item ∈ items → Holds item part → Holds (.tuple items) part

theorem Holds.trans {data part part' : Data σ} (h : data.Holds part) (h' : part.Holds part') :
    data.Holds part' := by
  induction h with
  | refl => exact h'
  | field hmem _ ih => exact .field hmem (ih h')
  | pointer _ ih => exact .pointer (ih h')
  | present _ ih => exact .present (ih h')
  | item hmem _ ih => exact .item hmem (ih h')
  | entry hmem _ ih => exact .entry hmem (ih h')

theorem holds_target (data : Data σ) : data.Holds data.target := by
  fun_induction target data with
  | case1 target ih => exact .pointer ih
  | case2 value ih => exact .present ih
  | case3 => exact .refl

/-- All octets in the data that stand for text are those of a text. -/
def Encoded (data : Data σ) : Prop :=
  ∀ octets, data.Holds (.bytes octets) → ∃ text, octets = Text.toOctets text

theorem Encoded.part {data part : Data σ} (h : data.Encoded) (hpart : data.Holds part) :
    part.Encoded :=
  fun octets hoctets => h octets (hpart.trans hoctets)

theorem bytesText_size {octets : List UInt8} (h : ∃ text, octets = Text.toOctets text) :
    (bytesText octets).utf8ByteSize = octets.length := by
  obtain ⟨text, rfl⟩ := h
  rw [bytesText, Text.ofOctetsLossy_toOctets, Text.utf8ByteSize_ofList, Text.length_toOctets]

/-- Without escaping the chunks of a value take as many octets as estimated. -/
theorem chunks_raw_size {data : Data σ} (h : data.Encoded) :
    chunksSize (data.chunks .raw) = data.size := by
  fun_induction size data with
  | case1 text | case3 text => exact Escape.chunks_raw_size text
  | case2 octets => rw [chunks, Escape.chunks_raw_size, bytesText_size (h octets .refl)]
  | case4 flag => rw [chunks, chunksSize_singleton]
  | case5 target ih => rw [chunks, ih (h.part (.pointer .refl))]
  | case6 value ih => rw [chunks, ih (h.part (.present .refl))]
  | case7 | case8 | case9 | case10 | case11 => rfl

theorem size_le_chunks {data : Data σ} (h : data.Encoded) (escape : Escape) :
    data.size ≤ chunksSize (data.chunks escape) := by
  fun_induction size data with
  | case1 text | case3 text => exact escape.size_le_chunks text
  | case2 octets =>
    rw [chunks, ← bytesText_size (h octets .refl)]
    exact escape.size_le_chunks _
  | case4 flag => simp [chunks]
  | case5 target ih => exact ih (h.part (.pointer .refl))
  | case6 value ih => exact ih (h.part (.present .refl))
  | case7 | case8 | case9 | case10 | case11 => exact Nat.zero_le _

theorem chunks_target (data : Data σ) (escape : Escape) :
    data.chunks escape = data.target.chunks escape := by
  fun_induction target data with
  | case1 target ih => rw [chunks, ih]
  | case2 value ih => rw [chunks, ih]
  | case3 => rfl

theorem size_target (data : Data σ) : data.size = data.target.size := by
  fun_induction target data with
  | case1 target ih => rw [size, ih]
  | case2 value ih => rw [size, ih]
  | case3 => rfl

end Data

namespace Value

/-- The value has no text: behind its wrappers is a record, a list or nothing. -/
def isSilent : Value σ → Bool
  | .host data =>
    match data.target with
    | .record .. | .sequence _ | .tuple _ | .absent => true
    | _ => false
  | .count _ => false

theorem of_isSilent {value : Value σ} (h : value.isSilent = true) (escape : Escape) :
    value.chunks escape = [] ∧ value.size = 0 := by
  cases value with
  | count n => cases h
  | host data =>
    rw [isSilent] at h
    rw [chunks, size, data.chunks_target, data.size_target]
    generalize data.target = target at h
    cases target with
    | record | sequence | tuple | absent => exact ⟨rfl, rfl⟩
    | _ => cases h

theorem holds_of_hop {data item : Data σ} {name : String}
    (h : (Value.host data).hop name = .member item) : data.Holds item := by
  refine data.holds_target.trans ?_
  rw [hop] at h
  generalize data.target = target at h
  cases target with
  | record fields methods =>
    rw [Data.bareHop] at h
    cases hfield : fields.lookup name with
    | some found =>
      rw [hfield] at h
      cases h
      obtain ⟨before, after, rfl, _⟩ := List.lookup_eq_some_iff.1 hfield
      exact .field (show (name, item) ∈ _ by simp) .refl
    | none =>
      rw [hfield] at h
      simp only at h
      split at h <;> cases h
  | sequence items =>
    rw [Data.bareHop] at h
    split at h <;> cases h
  | _ => cases h

end Value

/-- A lookup in host data arrives at a part of it. -/
theorem holds_of_locate {depth : Depth} {data found : Data σ} {path : List String}
    (h : locate depth (.host data) path none = .field (.host found)) : data.Holds found := by
  have hfailure (depth : Depth) : (depth.location : Location σ) ≠ .field (.host found) := by
    cases depth <;> nofun
  induction path generalizing depth data with
  | nil =>
    unfold locate at h
    split at h
    · cases h
    · cases h
      exact .refl
  | cons name rest ih =>
    rw [locate] at h
    cases hhop : (Value.host data).hop name with
    | missing =>
      rw [hhop] at h
      exact absurd h (hfailure depth)
    | broken =>
      rw [hhop] at h
      cases h
    | member item =>
      rw [hhop] at h
      exact (Value.holds_of_hop hhop).trans (ih h)
    | method f =>
      rw [hhop] at h
      simp only at h
      split at h <;> cases h
    | count n =>
      rw [hhop] at h
      simp only at h
      split at h
      · cases h
      · exact absurd h (hfailure depth)

theorem holds_of_locateFrames {data found : Data σ} {path : Path}
    (h : locateFrames [.host data] path none = .field (.host found)) : data.Holds found := by
  rw [locateFrames] at h
  split at h
  · cases h
  · exact holds_of_locate h

/-! ## Templates without sections and partials -/

namespace Node

def isFlat : Node → Bool
  | .literal _ | .interpolation .. => true
  | .block .. | .inclusion .. => false

/-- What such an instruction writes where no lambda is found. -/
def chunks (escape : Escape) (frames : List (Value σ)) : Node → List String
  | .literal text => [text]
  | .interpolation path tagEscape _ =>
    match locateFrames frames path none with
    | .field value => value.chunks (escape.under tagEscape)
    | _ => []
  | .block .. | .inclusion .. => []

end Node

theorem renderNode_flat {node : Node} (hflat : node.isFlat = true) {frames : List (Value σ)}
    (hframes : LambdaFree frames) (escape : Escape) (k : Continuation String σ)
    (out : Output String σ) :
    renderNode Sink.text escape k node frames out =
      (.ok (), ⟨out.sink ++ String.join (node.chunks escape frames), out.store⟩) := by
  have hnothing : ((.ok (), ⟨out.sink ++ String.join [], out.store⟩) :
      Except Halt Unit × Output String σ) = (.ok (), out) := by simp
  cases node with
  | literal text =>
    rw [Node.chunks, String.join_cons, String.join_nil, String.append_empty]
    rfl
  | interpolation path tagEscape span =>
    have hlocation := locateFrames_lambdaFree hframes path
    rw [renderNode_interpolation, Node.chunks]
    cases hfound : locateFrames frames path none with
    | field value => exact Render.emitAll_text _ out
    | lambda f =>
      rw [hfound] at hlocation
      exact hlocation.elim
    | missing | broken | consumed => exact hnothing.symm
  | block | inclusion => cases hflat

theorem renderNodes_flat {nodes : List Node} (hflat : ∀ node ∈ nodes, node.isFlat = true)
    {frames : List (Value σ)} (hframes : LambdaFree frames) (escape : Escape)
    (k : Continuation String σ) (out : Output String σ) :
    renderNodes Sink.text escape k nodes frames out =
      (.ok (), ⟨out.sink ++ String.join (nodes.flatMap (·.chunks escape frames)), out.store⟩) := by
  induction nodes generalizing out with
  | nil => simp [renderNodes, pure, Render.pure]
  | cons node nodes ih =>
    rw [List.forall_mem_cons] at hflat
    rw [renderNodes, Render.bind_of_ok (renderNode_flat hflat.1 hframes escape k out), ih hflat.2,
      List.flatMap_cons, String.join_append, String.append_assoc]

namespace Engine

theorem pathSize_eq (frames : List (Value σ)) (path : Path) :
    pathSize frames path =
      match locateFrames frames path none with
      | .field value => value.size
      | _ => 0 := by
  rw [pathSize, resolveFrames_eq_act]
  cases locateFrames frames path none <;> rfl

/-- What is written of an instruction is as long as estimated without escaping, and no shorter
with it. -/
theorem size_flat {data : Data σ} (h : data.Encoded) {node : Node} (hflat : node.isFlat = true) :
    let estimate := node.literalSize + valueSize [.host data] node
    chunksSize (node.chunks .raw [.host data]) = estimate ∧
      estimate ≤ chunksSize (node.chunks .html [.host data]) := by
  cases node with
  | literal text => simp [Node.chunks, Node.literalSize, valueSize]
  | interpolation path tagEscape span =>
    simp only [Node.chunks, Node.literalSize, valueSize, pathSize_eq, Nat.zero_add]
    cases hfound : locateFrames [.host data] path none with
    | field value =>
      cases value with
      | host found =>
        have hencoded := h.part (holds_of_locateFrames hfound)
        exact ⟨Data.chunks_raw_size hencoded, Data.size_le_chunks hencoded _⟩
      | count n => simp [Value.chunks, Value.size]
    | missing | broken | consumed | lambda => exact ⟨rfl, Nat.zero_le _⟩
  | block | inclusion => cases hflat

theorem sizes_flat {data : Data σ} (h : data.Encoded) {nodes : List Node}
    (hflat : ∀ node ∈ nodes, node.isFlat = true) :
    let estimate := Node.literalSizes nodes + valueSizes [.host data] nodes
    chunksSize (nodes.flatMap (·.chunks .raw [.host data])) = estimate ∧
      estimate ≤ chunksSize (nodes.flatMap (·.chunks .html [.host data])) := by
  induction nodes with
  | nil => exact ⟨rfl, Nat.le_refl 0⟩
  | cons node nodes ih =>
    rw [List.forall_mem_cons] at hflat
    obtain ⟨hraw, hhtml⟩ := size_flat h hflat.1
    obtain ⟨hraws, hhtmls⟩ := ih hflat.2
    simp only [Node.literalSizes, valueSizes, List.flatMap_cons, chunksSize_append]
    omega

/-- Over data without lambdas, whose octets are those of texts, a template without sections and
partials is rendered. Its estimated size is the size of what it renders to if nothing is escaped,
and no more than that if the engine escapes. A name that leads nowhere, or to a value without a
text, adds nothing to either. -/
theorem render_size (engine : Engine) (template : Template) (data : Data σ) (store : σ)
    (hflat : ∀ node ∈ template.nodes, node.isFlat = true) (hfree : data.lambdaFree = true)
    (hencoded : data.Encoded) :
    (∃ text, engine.render template data store = (.ok text, store) ∧
      (engine.options.escape = .raw → capacityHint template data = text.utf8ByteSize) ∧
      (engine.options.escape = .html → capacityHint template data ≤ text.utf8ByteSize)) ∧
    ∀ path tagEscape span,
      (∀ value, (resolveFrames .get [.host data] path none).run = .field (some value) →
        value.isSilent = true) →
      let node := Node.interpolation path tagEscape span
      valueSize [.host data] node = 0 ∧
        ∀ fuel out, engine.renderTo fuel Sink.text ⟨template.name, [node]⟩ data out =
          (.ok (), out) := by
  have hrender (fuel : Nat) {nodes : List Node} (hflat : ∀ node ∈ nodes, node.isFlat = true)
      (out : Output String σ) :
      engine.renderTo fuel Sink.text ⟨template.name, nodes⟩ data out =
        (.ok (), ⟨out.sink ++ String.join
          (nodes.flatMap (·.chunks engine.options.escape [.host data])), out.store⟩) := by
    rw [renderTo, renderWithin_eq]
    exact renderNodes_flat hflat (.of_data hfree) _ _ out
  constructor
  · obtain ⟨hraw, hhtml⟩ := sizes_flat hencoded hflat
    have hwritten : engine.renderTo lambdaLimit Sink.text template data ⟨"", store⟩ = _ :=
      hrender lambdaLimit hflat ⟨"", store⟩
    rw [String.empty_append] at hwritten
    refine ⟨String.join (template.nodes.flatMap (·.chunks engine.options.escape [.host data])),
      ?_, ?_, ?_⟩
    · rw [render, hwritten]
    · intro hescape
      rw [utf8ByteSize_join, hescape, hraw]
      rfl
    · intro hescape
      rw [utf8ByteSize_join, hescape]
      exact hhtml
  · intro path tagEscape span hsilent node
    have hchunks (escape : Escape) :
        pathSize [.host data] path = 0 ∧ node.chunks escape [.host data] = [] := by
      rw [pathSize_eq, Node.chunks]
      rw [resolveFrames_eq_act] at hsilent
      cases hfound : locateFrames [.host data] path none with
      | field value =>
        rw [hfound] at hsilent
        obtain ⟨hchunks, hsize⟩ := Value.of_isSilent (hsilent value rfl) (escape.under tagEscape)
        exact ⟨hsize, hchunks⟩
      | missing | broken | consumed | lambda => exact ⟨rfl, rfl⟩
    refine ⟨(hchunks .raw).1, fun fuel out => ?_⟩
    rw [hrender fuel (List.forall_mem_singleton.2 rfl) out, List.flatMap_singleton,
      (hchunks engine.options.escape).2, String.join_nil, String.append_empty]

/-- A text behind wrappers, octets, a number of elements, a list, and names that lead nowhere. -/
theorem render_size_of_members :
    let data : Data Unit := .record [("name", .pointer (.present (.string "é<"))),
      ("octets", .bytes [0xC3, 0xA9]), ("items", .sequence [.bool true, .scalar "1.5"])] []
    let tag (path : List String) : Node := .interpolation ⟨path⟩ .html ⟨0, 0, 1, 1⟩
    let template : Template := ⟨none, [.literal "à ", tag ["name"], tag ["octets"],
      tag ["items", "len"], tag ["items"], tag ["who"], tag ["name", "first"]]⟩
    capacityHint template data = 9 ∧
      (∃ text, render ⟨fun _ => .ok none, ⟨.raw, .braces, 0⟩⟩ template data () = (.ok text, ()) ∧
        text.utf8ByteSize = 9) ∧
      ∃ text, standard.render template data () = (.ok text, ()) ∧ 9 ≤ text.utf8ByteSize := by
  intro data tag template
  have hflat : ∀ node ∈ template.nodes, node.isFlat = true := by decide
  have hencoded : data.Encoded := by
    intro octets hoctets
    change (Data.record _ _).Holds _ at hoctets
    obtain _ | ⟨hmem, hpart⟩ := hoctets
    simp only [List.mem_cons, Prod.mk.injEq, List.not_mem_nil, or_false] at hmem
    obtain ⟨_, rfl⟩ | ⟨_, rfl⟩ | ⟨_, rfl⟩ := hmem
    · obtain _ | _ | ⟨_ | _ | _ | ⟨⟨⟩⟩⟩ := hpart
    · cases hpart
      exact ⟨['é'], rfl⟩
    · obtain _ | _ | _ | _ | ⟨hmem, hpart⟩ := hpart
      simp only [List.mem_cons, List.not_mem_nil, or_false] at hmem
      obtain rfl | rfl := hmem <;> cases hpart
  have hsize : capacityHint template data = 9 := rfl
  refine ⟨hsize, ?_, ?_⟩
  · obtain ⟨⟨text, hrender, hraw, _⟩, _⟩ := render_size ⟨fun _ => .ok none, ⟨.raw, .braces, 0⟩⟩
      template data () hflat rfl hencoded
    exact ⟨text, hrender, (hraw rfl).symm.trans hsize⟩
  · obtain ⟨⟨text, hrender, _, hhtml⟩, _⟩ := standard.render_size template data () hflat rfl hencoded
    exact ⟨text, hrender, hsize ▸ hhtml rfl⟩

end Engine

end Mustache
