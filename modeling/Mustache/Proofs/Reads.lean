import Mathlib.Data.List.Forall2
import Mustache.Data.Document
import Mustache.Engine
import Mustache.Proofs.Gathering
import Mustache.Proofs.LambdaFree

/-!
# Mustache.Proofs.Reads

What rendering reads. Of a record it only looks at the fields that a template names at the start
of a path, wherever on the stack of contexts the record is: two records that agree on those names
are rendered alike, though each of them may become a context again on the way.
-/

namespace Mustache

variable {ω σ : Type}

mutual

/-- The names that lookups for the instruction begin with. -/
def Node.reads : Node → List String
  | .interpolation path _ _ => path.segments.take 1
  | .block path _ children _ _ _ => path.segments.take 1 ++ Node.readsAll children
  | .literal _ | .inclusion .. => []

/-- The names that lookups for the instructions begin with. -/
def Node.readsAll : List Node → List String
  | [] => []
  | node :: nodes => node.reads ++ Node.readsAll nodes

end

/-! ## Agreement -/

/-- The same value, or two records with the same fields under the names. -/
inductive Value.AgreeOn (names : List String) : Value σ → Value σ → Prop
  | refl (value : Value σ) : AgreeOn names value value
  | record {fields fields' : List (String × Data σ)} (methods : List (String × Method σ))
      (h : ∀ name ∈ names, fields.lookup name = fields'.lookup name) :
    AgreeOn names (.host (.record fields methods)) (.host (.record fields' methods))

/-- The same location, or the fields of two values that agree. -/
inductive Location.AgreeOn (names : List String) : Location σ → Location σ → Prop
  | refl (location : Location σ) : AgreeOn names location location
  | field {value value' : Value σ} (h : value.AgreeOn names value') :
    AgreeOn names (.field value) (.field value')

/-- The same lambda, or as many values that agree one by one. -/
inductive Entries.AgreeOn (names : List String) : Entries σ → Entries σ → Prop
  | lambda (f : Lambda σ) : AgreeOn names (.lambda f) (.lambda f)
  | each {values values' : List (Value σ)}
      (h : List.Forall₂ (Value.AgreeOn names) values values') :
    AgreeOn names (.each values) (.each values')

variable {names : List String}

theorem Entries.AgreeOn.refl (entries : Entries σ) : entries.AgreeOn names entries := by
  cases entries with
  | each values => exact .each (List.forall₂_same.2 fun value _ => .refl value)
  | lambda f => exact .lambda f

namespace Value.AgreeOn

variable {value value' : Value σ}

/-- Records are not written. -/
theorem chunks_eq (h : value.AgreeOn names value') (escape : Escape) :
    value.chunks escape = value'.chunks escape := by
  cases h with
  | refl => rfl
  | record => rfl

/-- A record is its own only element. -/
theorem entries (h : value.AgreeOn names value') :
    value.entries.AgreeOn names value'.entries := by
  cases h with
  | refl => exact .refl _
  | record methods hfields => exact .each (.cons (.record methods hfields) .nil)

theorem hop_eq (h : value.AgreeOn names value') {name : String} (hname : name ∈ names) :
    value.hop name = value'.hop name := by
  cases h with
  | refl => rfl
  | record methods hfields =>
    simp only [Value.hop, Data.target, Data.bareHop, hfields name hname]

end Value.AgreeOn

/-! ## Lookups -/

/-- A lookup that begins with one of the names goes the same way. -/
theorem locate_agree {host host' : Value σ} (h : host.AgreeOn names host') (depth : Depth)
    {path : List String} (hpath : path.take 1 ⊆ names) :
    (locate depth host path none).AgreeOn names (locate depth host' path none) := by
  cases path with
  | nil =>
    cases h with
    | refl => exact .refl _
    | record methods hfields => exact .field (.record methods hfields)
  | cons name rest =>
    have hname : name ∈ names := hpath (by simp)
    rw [locate, locate, h.hop_eq hname]
    exact .refl _

theorem locateFrames_agree {frames frames' : List (Value σ)}
    (h : List.Forall₂ (Value.AgreeOn names) frames frames') {path : Path}
    (hpath : path.segments.take 1 ⊆ names) :
    (locateFrames frames path none).AgreeOn names (locateFrames frames' path none) := by
  induction h with
  | nil => exact .refl _
  | cons hframe _ ih =>
    rw [locateFrames, locateFrames]
    have hlocation := locate_agree hframe .root hpath
    revert hlocation
    generalize locate .root _ path.segments none = location
    generalize locate .root _ path.segments none = location'
    intro hlocation
    cases hlocation with
    | refl =>
      cases location with
      | missing => exact ih
      | _ => exact .refl _
    | field hvalue => exact .field hvalue

theorem sectionEntries_agree {frames frames' : List (Value σ)}
    (h : List.Forall₂ (Value.AgreeOn names) frames frames') {path : Path}
    (hpath : path.segments.take 1 ⊆ names) :
    Option.Rel (Entries.AgreeOn names) (sectionEntries frames path)
      (sectionEntries frames' path) := by
  have hlocation := locateFrames_agree h hpath
  rw [sectionEntries, sectionEntries]
  generalize locateFrames frames path none = location at hlocation
  generalize locateFrames frames' path none = location' at hlocation
  cases hlocation with
  | refl =>
    cases location with
    | missing | broken => exact .none
    | consumed | field | lambda => exact .some (.refl _)
  | field hvalue => exact .some hvalue.entries

theorem entersSection_agree {frames frames' : List (Value σ)}
    (h : List.Forall₂ (Value.AgreeOn names) frames frames') {path : Path}
    (hpath : path.segments.take 1 ⊆ names) :
    entersSection frames path = entersSection frames' path := by
  have hentries := sectionEntries_agree h hpath
  rw [entersSection_eq, entersSection_eq, ofFound_get, ofFound_get]
  generalize sectionEntries frames path = entries at hentries
  generalize sectionEntries frames' path = entries' at hentries
  cases hentries with
  | none => rfl
  | some hentries =>
    cases hentries with
    | lambda f => rfl
    | each hvalues => cases hvalues <;> rfl

/-! ## Rendering -/

theorem forM_agree {body body' : Value σ → Render ω σ Unit} {values values' : List (Value σ)}
    (h : List.Forall₂ (Value.AgreeOn names) values values')
    (hbody : ∀ value value', value.AgreeOn names value' → value ∈ values →
      body value = body' value') :
    values.forM body = values'.forM body' := by
  induction h with
  | nil => rfl
  | cons hvalue _ ih =>
    rw [List.forM, List.forM, hbody _ _ hvalue List.mem_cons_self,
      ih fun value value' hagree hmem => hbody value value' hagree (List.mem_cons_of_mem _ hmem)]

section

variable (sink : Sink ω) (escape : Escape) (k : Continuation ω σ)

mutual

/-- An instruction that begins its lookups with the names is rendered alike in contexts that agree
on them. -/
theorem renderNode_agree : ∀ (node : Node), node.reads ⊆ names →
    node.gather Node.ownInclusion = [] → ∀ frames frames' : List (Value σ), LambdaFree frames →
      List.Forall₂ (Value.AgreeOn names) frames frames' →
      renderNode sink escape k node frames = renderNode sink escape k node frames'
  | .literal text, _, _, frames, frames', _, _ => by rw [renderNode, renderNode]
  | .interpolation path tagEscape span, hreads, _, frames, frames', hfree, hframes => by
    have hlocation := locateFrames_agree hframes hreads
    have hlambda := locateFrames_lambdaFree hfree path
    rw [renderNode_interpolation, renderNode_interpolation]
    generalize locateFrames frames path none = location at hlocation hlambda
    generalize locateFrames frames' path none = location' at hlocation
    cases hlocation with
    | refl =>
      cases location with
      | lambda f => exact hlambda.elim
      | _ => rfl
    | field hvalue => simp only [hvalue.chunks_eq]
  | .block path true children inner delimiters span, hreads, hpartials, frames, frames', hfree,
      hframes => by
    obtain ⟨hpath, hchildren⟩ := List.append_subset.1 hreads
    rw [renderNode, renderNode, if_pos rfl, if_pos rfl, entersSection_agree hframes hpath,
      renderNodes_agree children hchildren hpartials frames frames' hfree hframes]
  | .block path false children inner delimiters span, hreads, hpartials, frames, frames', hfree,
      hframes => by
    obtain ⟨hpath, hchildren⟩ := List.append_subset.1 hreads
    have hentries := sectionEntries_agree hframes hpath
    rw [renderNode_section, renderNode_section]
    generalize hfound : sectionEntries frames path = entries at hentries
    generalize sectionEntries frames' path = entries' at hentries
    cases hentries with
    | none => rfl
    | some hentries =>
      cases hentries with
      | lambda f => exact absurd hfound (sectionEntries_ne_lambda hfree f)
      | each hvalues =>
        refine forM_agree hvalues ?_
        intro value value' hvalue hmem
        exact renderNodes_agree children hchildren hpartials (value :: frames) (value' :: frames')
          (Contexts.lambdaFree.each hfree hfound value hmem) (.cons hvalue hframes)
  | .inclusion name indentation span, _, hpartials, _, _, _, _ => by cases hpartials

theorem renderNodes_agree : ∀ (nodes : List Node), Node.readsAll nodes ⊆ names →
    Node.inclusions nodes = [] → ∀ frames frames' : List (Value σ), LambdaFree frames →
      List.Forall₂ (Value.AgreeOn names) frames frames' →
      renderNodes sink escape k nodes frames = renderNodes sink escape k nodes frames'
  | [], _, _, _, _, _, _ => by rw [renderNodes, renderNodes]
  | node :: nodes, hreads, hpartials, frames, frames', hfree, hframes => by
    obtain ⟨hnode, hnodes⟩ := List.append_subset.1 hreads
    obtain ⟨hpartial, hpartials⟩ := List.append_eq_nil_iff.1 hpartials
    rw [renderNodes, renderNodes,
      renderNode_agree node hnode hpartial frames frames' hfree hframes,
      renderNodes_agree nodes hnodes hpartials frames frames' hfree hframes]

end

end

/-- Instructions without partials are rendered alike over data that agree on the names that they
read. -/
theorem Engine.renderTo_agree (engine : Engine) (fuel : Nat) (sink : Sink ω) {template : Template}
    (hpartials : Node.inclusions template.nodes = []) {data data' : Data σ}
    (hfree : data.lambdaFree = true)
    (hagree : (Value.host data).AgreeOn (Node.readsAll template.nodes) (.host data')) :
    engine.renderTo fuel sink template data = engine.renderTo fuel sink template data' := by
  rw [renderTo, renderTo, renderWithin_eq]
  exact renderNodes_agree sink _ _ template.nodes (List.Subset.refl _) hpartials _ _
    (.of_data hfree) (.cons hagree .nil)

/-! ## Documents -/

namespace Data

mutual

theorem lambdaFree_ofJson : ∀ document : Json, (ofJson document : Data σ).lambdaFree = true
  | .null | .bool _ | .number _ | .string _ => by rw [ofJson, lambdaFree]
  | .array items => by rw [ofJson, lambdaFree, itemsLambdaFree_ofItems items]
  | .object members => by
    rw [ofJson, lambdaFree, fieldsLambdaFree_ofMembers members]
    rfl

theorem itemsLambdaFree_ofItems : ∀ items : List Json,
    itemsLambdaFree (ofItems items : List (Data σ)) = true
  | [] => rfl
  | item :: items => by
    rw [ofItems, itemsLambdaFree, lambdaFree_ofJson item, itemsLambdaFree_ofItems items]
    rfl

theorem fieldsLambdaFree_ofMembers : ∀ members : List (String × Json),
    fieldsLambdaFree (ofMembers members : List (String × Data σ)) = true
  | [] => rfl
  | (name, value) :: members => by
    rw [ofMembers, fieldsLambdaFree, lambdaFree_ofJson value, fieldsLambdaFree_ofMembers members]
    rfl

end

theorem lookup_ofMembers (members : List (String × Json)) (name : String) :
    (ofMembers members : List (String × Data σ)).lookup name =
      (members.lookup name).map ofJson := by
  induction members with
  | nil => rfl
  | cons member members ih =>
    rw [ofMembers, List.lookup_cons, List.lookup_cons, ih]
    cases name == member.1 <;> rfl

end Data

/-- A template without partials reads nothing of a document but the members that its paths begin
with. Two objects with the same members under those names, or with none there, are rendered alike:
to any sink, whatever it holds and answers, with the same failure or success and the same
contents. -/
theorem Engine.render_members (engine : Engine) {template : Template}
    (hpartials : Node.inclusions template.nodes = []) {members members' : List (String × Json)}
    (hagree : ∀ name ∈ Node.readsAll template.nodes,
      members.lookup name = members'.lookup name) :
    let document : {σ : Type} → Data σ := Data.ofJson (.object members)
    let document' : {σ : Type} → Data σ := Data.ofJson (.object members')
    (∀ (ω σ : Type) (fuel : Nat) (sink : Sink ω),
      engine.renderTo fuel sink template (document : Data σ) =
        engine.renderTo fuel sink template document') ∧
    ∀ (σ : Type) (store : σ),
      engine.render template document store = engine.render template document' store := by
  intro document document'
  have hrender (ω σ : Type) (fuel : Nat) (sink : Sink ω) :
      engine.renderTo fuel sink template (document : Data σ) =
        engine.renderTo fuel sink template document' := by
    refine engine.renderTo_agree fuel sink hpartials (Data.lambdaFree_ofJson _) ?_
    simp only [document, document', Data.ofJson]
    refine .record [] ?_
    intro name hname
    rw [Data.lookup_ofMembers, Data.lookup_ofMembers, hagree name hname]
  refine ⟨hrender, fun σ store => ?_⟩
  rw [render, render, hrender]

/-- The document becomes a context again, in the section of its own, and is fallen back to from
the context inside that. -/
theorem Engine.render_own_section :
    let block path inverted children := Node.block ⟨path⟩ inverted children "" .braces default
    let write path := Node.interpolation ⟨path⟩ .html default
    let template : Template := ⟨none, [block [] false
      [block ["a"] false [write ["b"], write ["c", "d"], block ["x"] true [write []]]]]⟩
    let a := ("a", Json.object [("b", .string "<")])
    let c := ("c", Json.object [("d", .bool true)])
    let members := [a, ("secret", .string "s"), c]
    let members' := [("secret", .null), c, a, ("more", .bool true)]
    let document : Data Unit := .ofJson (.object members)
    let document' : Data Unit := .ofJson (.object members')
    Node.inclusions template.nodes = [] ∧
      (∀ name ∈ Node.readsAll template.nodes, members.lookup name = members'.lookup name) ∧
      standard.render template document () = (.ok "&lt;true", ()) ∧
      standard.render template document' () = (.ok "&lt;true", ()) := by
  intro block write template a c members members' document document'
  have hagree : ∀ name ∈ Node.readsAll template.nodes,
      members.lookup name = members'.lookup name := by
    have hreads : Node.readsAll template.nodes = ["a", "b", "c", "x"] := rfl
    rw [hreads]
    simp only [List.forall_mem_cons]
    exact ⟨rfl, rfl, rfl, rfl, nofun⟩
  have hrender : standard.render template document () = (.ok "&lt;true", ()) := by
    rfl
  obtain ⟨_, hsame⟩ := render_members standard (rfl : Node.inclusions template.nodes = []) hagree
  exact ⟨rfl, hagree, hrender, (hsame Unit ()).symm.trans hrender⟩

end Mustache
