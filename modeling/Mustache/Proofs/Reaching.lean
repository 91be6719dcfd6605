import Mustache.Proofs.Failing
import Mustache.Proofs.Sections

/-!
# Mustache.Proofs.Reaching

Where a render comes to. `Engine.Reaches` relates a render to each node on its way, in sections,
inverted sections and partials; `Node.Calls` are the tags among them that call a lambda. What the
rendering of one node comes to is said once, by `Engine.course`.
-/

namespace Mustache

variable {ω σ : Type}

/-! ## Places -/

/-- A node that a render comes to, and the contexts there. -/
structure Place (σ : Type) where
  /-- How many more partials may be opened. -/
  depth : Nat
  node : Node
  frames : List (Value σ)

/-- A render that begins with the output `out` comes to a place, with the output it has then. -/
inductive Engine.Reaches (engine : Engine) (sink : Sink ω) (nested : Nat → Nested σ) :
    Nat → List Node → List (Value σ) → Output ω σ → Place σ → Output ω σ → Prop
  | here {depth : Nat} {node : Node} {rest : List Node} {frames : List (Value σ)}
      {out : Output ω σ} :
    Reaches engine sink nested depth (node :: rest) frames out ⟨depth, node, frames⟩ out
  | behind {depth : Nat} {node : Node} {rest : List Node} {frames : List (Value σ)}
      {out mid out' : Output ω σ} {place : Place σ}
      (hnode : engine.renderWithin sink nested depth [node] frames out = (.ok (), mid))
      (hrest : Reaches engine sink nested depth rest frames mid place out') :
    Reaches engine sink nested depth (node :: rest) frames out place out'
  | inSection {depth : Nat} {path : Path} {children : List Node} {inner : String}
      {delimiters : Delimiters} {span : Span} {rest : List Node} {frames : List (Value σ)}
      {before after : List (Value σ)} {value : Value σ} {out mid out' : Output ω σ}
      {place : Place σ}
      (hvalues : Enumeration.ofFound (resolveFrames .get frames path none).run =
        .each (before ++ value :: after))
      (hbefore : before.forM (fun value =>
        engine.renderWithin sink nested depth children (value :: frames)) out = (.ok (), mid))
      (hbody : Reaches engine sink nested depth children (value :: frames) mid place out') :
    Reaches engine sink nested depth (.block path false children inner delimiters span :: rest)
      frames out place out'
  | inInverted {depth : Nat} {path : Path} {children : List Node} {inner : String}
      {delimiters : Delimiters} {span : Span} {rest : List Node} {frames : List (Value σ)}
      {out out' : Output ω σ} {place : Place σ}
      (hidle : entersSection frames path = false)
      (hbody : Reaches engine sink nested depth children frames out place out') :
    Reaches engine sink nested depth (.block path true children inner delimiters span :: rest)
      frames out place out'
  | inPartial {depth : Nat} {name indentation source : String} {span : Span} {rest : List Node}
      {frames : List (Value σ)} {template : Template} {out out' : Output ω σ} {place : Place σ}
      (hsource : engine.partials name = .ok (some source))
      (htemplate : engine.parsePartial name indentation source = .ok template)
      (hbody : Reaches engine sink nested depth template.nodes frames out place out') :
    Reaches engine sink nested (depth + 1) (.inclusion name indentation span :: rest) frames out
      place out'

theorem Engine.Reaches.inFront {engine : Engine} {sink : Sink ω} {nested : Nat → Nested σ}
    {depth : Nat} {node : Node} {frames : List (Value σ)} {out out' : Output ω σ}
    {place : Place σ} (h : engine.Reaches sink nested depth [node] frames out place out')
    (rest : List Node) : engine.Reaches sink nested depth (node :: rest) frames out place out' := by
  cases h with
  | here => exact .here
  | behind _ hrest => cases hrest
  | inSection hvalues hbefore hbody => exact .inSection hvalues hbefore hbody
  | inInverted hidle hbody => exact .inInverted hidle hbody
  | inPartial hsource htemplate hbody => exact .inPartial hsource htemplate hbody

/-- A render that comes to a place where it halts has halted there. -/
theorem Engine.Reaches.halts {engine : Engine} {sink : Sink ω} {nested : Nat → Nested σ}
    {depth : Nat} {nodes : List Node} {frames : List (Value σ)} {out out' out'' : Output ω σ}
    {place : Place σ} {halt : Halt}
    (h : engine.Reaches sink nested depth nodes frames out place out')
    (hhalt : engine.renderWithin sink nested place.depth [place.node] place.frames out' =
      (.error halt, out'')) :
    engine.renderWithin sink nested depth nodes frames out = (.error halt, out'') := by
  induction h with
  | here => rw [renderWithin_cons, Render.bind_of_error hhalt]
  | behind hnode _ ih =>
    rw [renderWithin_cons, Render.bind_of_ok hnode]
    exact ih hhalt
  | inSection hvalues hbefore _ ih =>
    rw [renderWithin_cons]
    apply Render.bind_of_error
    rw [renderWithin_each _ _ _ _ _ _ _ _ hvalues, List.forM_eq_forM, List.forM_append,
      ← List.forM_eq_forM, Render.bind_of_ok hbefore, List.forM,
      Render.bind_of_error (ih hhalt)]
  | inInverted hidle _ ih =>
    rw [renderWithin_cons]
    apply Render.bind_of_error
    rw [renderWithin_inverted, hidle, if_neg Bool.false_ne_true]
    exact ih hhalt
  | inPartial hsource htemplate _ ih =>
    rw [renderWithin_cons]
    apply Render.bind_of_error
    rw [renderWithin_eq, renderNodes_singleton, renderNode, continuation]
    simp only [hsource, htemplate]
    exact ih hhalt

/-! ## Calls -/

/-- In the contexts a tag stands for a lambda, and is a call of it. -/
inductive Node.Calls (escape : Escape) (frames : List (Value σ)) :
    Node → Lambda σ → Call → Prop
  | interpolation {path : Path} {tagEscape : Escape} {span : Span} {f : Lambda σ}
      (hf : (resolveFrames .arrive frames path none).run = .lambda (.inr f)) :
    Calls escape frames (.interpolation path tagEscape span) f
      ⟨"", escape.under tagEscape, .braces⟩
  | block {path : Path} {children : List Node} {inner : String} {delimiters : Delimiters}
      {span : Span} {f : Lambda σ}
      (hf : (resolveFrames .arrive frames path (some 0)).run = .lambda (.inr f)) :
    Calls escape frames (.block path false children inner delimiters span) f
      ⟨inner, .raw, delimiters⟩

theorem Node.Calls.of_location {escape : Escape} {frames : List (Value σ)} {path : Path}
    {f : Lambda σ} (h : locateFrames frames path none = .lambda f) (tagEscape : Escape)
    (span : Span) :
    (Node.interpolation path tagEscape span).Calls escape frames f
      ⟨"", escape.under tagEscape, .braces⟩ := by
  apply Node.Calls.interpolation
  rw [resolveFrames_eq_act, h]
  rfl

theorem Node.Calls.of_entries {escape : Escape} {frames : List (Value σ)} {path : Path}
    {f : Lambda σ} (h : sectionEntries frames path = some (.lambda f)) (children : List Node)
    (inner : String) (delimiters : Delimiters) (span : Span) :
    (Node.block path false children inner delimiters span).Calls escape frames f
      ⟨inner, .raw, delimiters⟩ := by
  apply Node.Calls.block
  rw [resolveFrames_eq_act, locateFrames_index, h]
  rfl

theorem Location.eq_lambda_of_arrive {location : Location σ} {f : Lambda σ}
    (h : (location.act .arrive).run = .lambda (.inr f)) : location = .lambda f := by
  cases location with
  | missing | broken | consumed | field => cases h
  | lambda f' =>
    cases h
    rfl

theorem sectionEntries_of_arrive {frames : List (Value σ)} {path : Path} {f : Lambda σ}
    (h : (resolveFrames .arrive frames path (some 0)).run = .lambda (.inr f)) :
    sectionEntries frames path = some (.lambda f) := by
  rw [resolveFrames_eq_act] at h
  have hlocation := Location.eq_lambda_of_arrive h
  rw [locateFrames_index] at hlocation
  cases hentries : sectionEntries frames path with
  | none =>
    rw [hentries] at hlocation
    cases hlocation
  | some entries =>
    rw [hentries] at hlocation
    cases entries with
    | lambda f' =>
      cases hlocation
      rfl
    | each values =>
      simp only [Entries.atIndex] at hlocation
      split at hlocation <;> cases hlocation

theorem Engine.renderWithin_call {engine : Engine} (sink : Sink ω) (nested : Nat → Nested σ)
    (depth : Nat) {frames : List (Value σ)} {node : Node} {f : Lambda σ} {call : Call}
    (h : node.Calls engine.options.escape frames f call) :
    engine.renderWithin sink nested depth [node] frames =
      expandLambda sink (nested depth) frames f call := by
  cases h with
  | interpolation hf =>
    rw [resolveFrames_eq_act] at hf
    rw [renderWithin_eq, renderNodes_singleton, renderNode, resolveFrames_eq_act,
      Location.eq_lambda_of_arrive hf]
    simp [Location.act, Action.onLambda, interpolation, continuation]
  | block hf => rw [renderWithin_section, sectionEntries_of_arrive hf]

/-! ## Nodes -/

/-- What the rendering of a node comes to: writes, the call of a lambda, an error, or renderings of
smaller bodies one after the other, each in a context of its own. -/
inductive Engine.Course (engine : Engine) (sink : Sink ω) (nested : Nat → Nested σ) (depth : Nat)
    (node : Node) (frames : List (Value σ)) : Prop
  | write (chunks : List String)
      (h : engine.renderWithin sink nested depth [node] frames = Render.emitAll sink chunks) :
    Course engine sink nested depth node frames
  | call {f : Lambda σ} {call : Call} (h : node.Calls engine.options.escape frames f call) :
    Course engine sink nested depth node frames
  | fail {name indentation : String} {span : Span} {error : Error}
      (hnode : node = .inclusion name indentation span) (herror : engine.Raises error)
      (h : engine.renderWithin sink nested depth [node] frames = Render.fail error) :
    Course engine sink nested depth node frames
  | bodies {depth' : Nat} (nodes : List Node) (contexts : List (List (Value σ)))
      (hsmaller : depth' < depth ∨ depth' = depth ∧ sizeOf nodes < sizeOf node)
      (h : engine.renderWithin sink nested depth [node] frames =
        contexts.forM (engine.renderWithin sink nested depth' nodes))
      (hreaches : ∀ {before frames' after out mid place out'},
        contexts = before ++ frames' :: after →
        before.forM (engine.renderWithin sink nested depth' nodes) out = (.ok (), mid) →
        engine.Reaches sink nested depth' nodes frames' mid place out' →
        engine.Reaches sink nested depth [node] frames out place out') :
    Course engine sink nested depth node frames

theorem Node.lex_of_smaller {depth depth' : Nat} {node : Node} {nodes : List Node}
    (h : depth' < depth ∨ depth' = depth ∧ sizeOf nodes < sizeOf node) (rest : List Node) :
    Prod.Lex (· < ·) (· < ·) (depth', sizeOf nodes) (depth, sizeOf (node :: rest)) := by
  rcases h with hdepth | ⟨rfl, hsize⟩
  · exact Prod.Lex.left _ _ hdepth
  · refine Prod.Lex.right _ ?_
    simp only [List.cons.sizeOf_spec]
    omega

theorem Node.lex_tail (depth : Nat) (node : Node) (rest : List Node) :
    Prod.Lex (· < ·) (· < ·) (depth, sizeOf rest) (depth, sizeOf (node :: rest)) := by
  refine Prod.Lex.right _ ?_
  simp only [List.cons.sizeOf_spec]
  omega

/-- A single body in place of the node. -/
theorem Engine.Course.body {engine : Engine} {sink : Sink ω} {nested : Nat → Nested σ}
    {depth depth' : Nat} {node : Node} {nodes : List Node} {frames frames' : List (Value σ)}
    (hsmaller : depth' < depth ∨ depth' = depth ∧ sizeOf nodes < sizeOf node)
    (h : engine.renderWithin sink nested depth [node] frames =
      engine.renderWithin sink nested depth' nodes frames')
    (hreaches : ∀ {out place out'},
      engine.Reaches sink nested depth' nodes frames' out place out' →
      engine.Reaches sink nested depth [node] frames out place out') :
    engine.Course sink nested depth node frames := by
  refine .bodies nodes [frames'] hsmaller (h.trans bind_pure_unit.symm) ?_
  intro before context after out mid place out' hsplit hbefore hbody
  cases before with
  | nil =>
    cases hsplit
    cases hbefore
    exact hreaches hbody
  | cons => simp at hsplit

theorem Engine.course_section (engine : Engine) (sink : Sink ω) (nested : Nat → Nested σ)
    (depth : Nat) (path : Path) (children : List Node) (inner : String) (delimiters : Delimiters)
    (span : Span) (frames : List (Value σ)) :
    engine.Course sink nested depth (.block path false children inner delimiters span) frames := by
  cases hentries : sectionEntries frames path with
  | none =>
    refine .write [] ?_
    rw [renderWithin_section, hentries]
    rfl
  | some entries =>
    cases entries with
    | lambda f => exact .call (.of_entries hentries children inner delimiters span)
    | each values =>
      have hvalues : Enumeration.ofFound (resolveFrames .get frames path none).run =
          .each values := by
        rw [ofFound_get, hentries]
        rfl
      have hmap (values : List (Value σ)) :
          (values.map (· :: frames)).forM (engine.renderWithin sink nested depth children) =
            values.forM fun value =>
              engine.renderWithin sink nested depth children (value :: frames) := by
        rw [List.forM_eq_forM, List.forM_map, List.forM_eq_forM]
      refine .bodies children (values.map (· :: frames)) (.inr ⟨rfl, by simp; omega⟩) ?_ ?_
      · rw [renderWithin_section, hentries]
        exact (hmap values).symm
      · intro before context after out mid place out' hsplit hbefore hbody
        obtain ⟨front, rest, rfl, rfl, hrest⟩ := List.map_eq_append_iff.1 hsplit
        obtain ⟨value, back, rfl, rfl, -⟩ := List.map_eq_cons_iff.1 hrest
        rw [hmap front] at hbefore
        exact .inSection hvalues hbefore hbody

theorem Engine.course_inclusion (engine : Engine) (sink : Sink ω) (nested : Nat → Nested σ)
    (depth : Nat) (name indentation : String) (span : Span) (frames : List (Value σ)) :
    engine.Course sink nested depth (.inclusion name indentation span) frames := by
  cases depth with
  | zero => exact .fail rfl (.depth name) rfl
  | succ depth =>
    have hrender : engine.renderWithin sink nested (depth + 1)
        [.inclusion name indentation span] frames =
          (engine.continuation sink nested (depth + 1)).inclusion frames name indentation := by
      rw [renderWithin_eq, renderNodes_singleton, renderNode]
    simp only [continuation] at hrender
    cases hloaded : engine.partials name with
    | error error =>
      simp only [hloaded] at hrender
      exact .fail rfl (.loading hloaded) hrender
    | ok loaded =>
      cases loaded with
      | none =>
        simp only [hloaded] at hrender
        exact .write [] hrender
      | some source =>
        cases htemplate : engine.parsePartial name indentation source with
        | error error =>
          simp only [hloaded, htemplate] at hrender
          exact .fail rfl (.parsing hloaded htemplate) hrender
        | ok template =>
          simp only [hloaded, htemplate] at hrender
          exact .body (.inl (Nat.lt_succ_self depth)) hrender (.inPartial hloaded htemplate)

theorem Engine.course (engine : Engine) (sink : Sink ω) (nested : Nat → Nested σ) (depth : Nat)
    (node : Node) (frames : List (Value σ)) : engine.Course sink nested depth node frames := by
  cases node with
  | literal text =>
    refine .write [text] ?_
    rw [renderWithin_eq, renderNodes_singleton, renderNode]
    exact bind_pure_unit.symm
  | interpolation path tagEscape span =>
    cases hlocation : locateFrames frames path none with
    | lambda f => exact .call (.of_location hlocation tagEscape span)
    | field value =>
      refine .write (value.chunks (engine.options.escape.under tagEscape)) ?_
      rw [renderWithin_eq, renderNodes_singleton, renderNode_interpolation, hlocation]
    | missing | broken | consumed =>
      refine .write [] ?_
      rw [renderWithin_eq, renderNodes_singleton, renderNode_interpolation, hlocation]
      rfl
  | block path inverted children inner delimiters span =>
    cases inverted with
    | false => exact engine.course_section sink nested depth path children inner delimiters span frames
    | true =>
      have hrender := engine.renderWithin_inverted sink nested depth path children inner delimiters
        span frames
      cases henters : entersSection frames path with
      | true =>
        rw [henters] at hrender
        exact .write [] hrender
      | false =>
        rw [henters] at hrender
        exact .body (.inr ⟨rfl, by simp; omega⟩) hrender (.inInverted henters)
  | inclusion name indentation span =>
    exact engine.course_inclusion sink nested depth name indentation span frames

end Mustache
