import Mathlib.Data.List.Forall2
import Mustache.Template.Parse

/-!
# Mustache.Proofs.InStep

Two trees built in step. Where related tags come one after the other, the trees have the same
sections open, and what is known of their instructions stays known (`Tree.Coupling`, and
`Tree.Correspondence` where nothing is known of the raw text of sections). The second tree may
stand inside sections that the first one knows nothing of.
-/

namespace Mustache

/-! ## Trees without an end -/

/-- The instruction that a tag becomes by itself. -/
def PlacedTag.node? (placed : PlacedTag) : Option Node :=
  match placed.tag.kind with
  | .interpolation escape =>
    some (.interpolation (Path.parse placed.tag.name) escape placed.tag.span)
  | .inclusion =>
    some (.inclusion placed.tag.name (String.ofList (placed.margin.getD [])) placed.tag.span)
  | .opener _ | .closer | .comment | .setDelimiters => none

/-- What two tags of the same kind become. -/
theorem PlacedTag.node?_cases {placed placed' : PlacedTag} {node node' : Node}
    (hkind : placed'.tag.kind = placed.tag.kind) (h : placed.node? = some node)
    (h' : placed'.node? = some node') :
    (∃ escape, placed.tag.kind = .interpolation escape ∧
      node = .interpolation (Path.parse placed.tag.name) escape placed.tag.span ∧
      node' = .interpolation (Path.parse placed'.tag.name) escape placed'.tag.span) ∨
    placed.tag.kind = .inclusion ∧
      node = .inclusion placed.tag.name (String.ofList (placed.margin.getD [])) placed.tag.span ∧
      node' = .inclusion placed'.tag.name (String.ofList (placed'.margin.getD []))
        placed'.tag.span := by
  unfold PlacedTag.node? at h h'
  rw [hkind] at h'
  cases hk : placed.tag.kind with
  | interpolation escape =>
    rw [hk] at h h'
    exact .inl ⟨escape, rfl, (Option.some.inj h).symm, (Option.some.inj h').symm⟩
  | inclusion =>
    rw [hk] at h h'
    exact .inr ⟨rfl, (Option.some.inj h).symm, (Option.some.inj h').symm⟩
  | opener inverted | closer | comment | setDelimiters =>
    rw [hk] at h
    cases h

/-- The section that a tag opens. -/
def Tag.block (opener : Tag) (children : List Node) (inner : String) : Node :=
  .block (Path.parse opener.name) (opener.kind = .opener true) children inner opener.delimiters
    opener.span

/-- The raw text of a section, by the tags that open and close it. -/
def Tag.inner (source : List Char) (opener closer : Tag) : String :=
  String.ofList (Text.slice opener.span.stop closer.span.start source)

namespace Tree

/-- Adds tags, each with the text behind it. -/
def run (source : List Char) (tree : Tree) :
    List (PlacedTag × List Char) → Except LocatedFault Tree
  | [] => .ok tree
  | (placed, text) :: rest =>
    match tree.addTag source placed with
    | .error fault => .error fault
    | .ok tree => run source { tree with nodes := addText text tree.nodes } rest

theorem build_eq (source : List Char) (tree : Tree) (items : List (PlacedTag × List Char)) :
    build source tree items =
      match tree.run source items with
      | .error fault => .error fault
      | .ok tree => tree.finish := by
  induction items generalizing tree with
  | nil => rfl
  | cons item items ih =>
    rw [build, run]
    cases tree.addTag source item.1 with
    | error fault => rfl
    | ok tree => exact ih _

/-! ## Related trees -/

variable {R : PlacedTag → PlacedTag → Prop} {X : List Char → List Char → Prop}
variable {Q : Nat → List Node → List Node → Prop} {base : List (Tag × List Node)}

/-- Adding related tags and texts of two sources to instructions keeps them related. How they are
depends on how many sections are open around them. -/
structure Coupling (source source' : List Char) (R : PlacedTag → PlacedTag → Prop)
    (X : List Char → List Char → Prop) (Q : Nat → List Node → List Node → Prop) : Prop where
  kind : ∀ {placed placed' : PlacedTag}, R placed placed' → placed'.tag.kind = placed.tag.kind
  name_iff : ∀ {opener opener' closer closer' : PlacedTag} {inverted : Bool}, R opener opener' →
    opener.tag.kind = .opener inverted → R closer closer' → closer.tag.kind = .closer →
    (opener'.tag.name = closer'.tag.name ↔ opener.tag.name = closer.tag.name)
  nil : ∀ {level : Nat}, Q (level + 1) [] []
  text : ∀ {level : Nat} {text text' : List Char} {nodes nodes' : List Node}, X text text' →
    Q level nodes nodes' → Q level (addText text nodes) (addText text' nodes')
  node : ∀ {level : Nat} {placed placed' : PlacedTag} {node node' : Node}
    {nodes nodes' : List Node}, R placed placed' → placed.node? = some node →
    placed'.node? = some node' → Q level nodes nodes' → Q level (node :: nodes) (node' :: nodes')
  block : ∀ {level : Nat} {opener opener' closer closer' : PlacedTag} {inverted : Bool}
    {children children' nodes nodes' : List Node},
    R opener opener' → opener.tag.kind = .opener inverted → R closer closer' →
    closer.tag.kind = .closer → Q (level + 1) children children' → Q level nodes nodes' →
    Q level (opener.tag.block children.reverse (opener.tag.inner source closer.tag) :: nodes)
      (opener'.tag.block children'.reverse (opener'.tag.inner source' closer'.tag) :: nodes')

/-- A coupling that does not look at the raw text of sections. -/
structure Correspondence (R : PlacedTag → PlacedTag → Prop) (X : List Char → List Char → Prop)
    (Q : Nat → List Node → List Node → Prop) : Prop where
  kind : ∀ {placed placed' : PlacedTag}, R placed placed' → placed'.tag.kind = placed.tag.kind
  name_iff : ∀ {opener opener' closer closer' : PlacedTag}, R opener opener' → R closer closer' →
    (opener'.tag.name = closer'.tag.name ↔ opener.tag.name = closer.tag.name)
  nil : ∀ {level : Nat}, Q (level + 1) [] []
  text : ∀ {level : Nat} {text text' : List Char} {nodes nodes' : List Node}, X text text' →
    Q level nodes nodes' → Q level (addText text nodes) (addText text' nodes')
  node : ∀ {level : Nat} {placed placed' : PlacedTag} {node node' : Node}
    {nodes nodes' : List Node}, R placed placed' → placed.node? = some node →
    placed'.node? = some node' → Q level nodes nodes' → Q level (node :: nodes) (node' :: nodes')
  block : ∀ {level : Nat} {opener opener' : PlacedTag} {inverted : Bool}
    {children children' nodes nodes' : List Node} {inner inner' : String},
    R opener opener' → opener.tag.kind = .opener inverted → Q (level + 1) children children' →
    Q level nodes nodes' →
    Q level (opener.tag.block children.reverse inner :: nodes)
      (opener'.tag.block children'.reverse inner' :: nodes')

theorem Correspondence.coupling (hc : Correspondence R X Q) (source source' : List Char) :
    Coupling source source' R X Q where
  kind := hc.kind
  name_iff hopener _ hcloser _ := hc.name_iff hopener hcloser
  nil := hc.nil
  text := hc.text
  node := hc.node
  block hopener hkind _ _ hchildren hnodes := hc.block hopener hkind hchildren hnodes

/-- The trees have related sections open, the second one inside those of `base`. -/
inductive InStep (R : PlacedTag → PlacedTag → Prop) (Q : Nat → List Node → List Node → Prop)
    (base : List (Tag × List Node)) : Tree → Tree → Prop
  | bottom {nodes nodes' : List Node} (h : Q 0 nodes nodes') :
      InStep R Q base ⟨nodes, []⟩ ⟨nodes', base⟩
  | within {nodes nodes' before before' : List Node} {enclosing enclosing' : List (Tag × List Node)}
      {opener opener' : PlacedTag} {inverted : Bool} (hopener : R opener opener')
      (hkind : opener.tag.kind = .opener inverted) (h : Q (enclosing.length + 1) nodes nodes')
      (houter : InStep R Q base ⟨before, enclosing⟩ ⟨before', enclosing'⟩) :
      InStep R Q base ⟨nodes, (opener.tag, before) :: enclosing⟩
        ⟨nodes', (opener'.tag, before') :: enclosing'⟩

theorem InStep.nodes {tree tree' : Tree} (h : InStep R Q base tree tree') :
    Q tree.enclosing.length tree.nodes tree'.nodes := by
  cases h with
  | bottom h => exact h
  | within _ _ h _ => exact h

theorem InStep.with_nodes {tree tree' : Tree} (h : InStep R Q base tree tree')
    {nodes nodes' : List Node} (hnodes : Q tree.enclosing.length nodes nodes') :
    InStep R Q base ⟨nodes, tree.enclosing⟩ ⟨nodes', tree'.enclosing⟩ := by
  cases h with
  | bottom _ => exact .bottom hnodes
  | within hopener hkind _ houter => exact .within hopener hkind hnodes houter

/-- The same fault of related tags. -/
inductive SameFault (R : PlacedTag → PlacedTag → Prop) : LocatedFault → LocatedFault → Prop
  | unopened {closer closer' : PlacedTag} (h : R closer closer')
      (hkind : closer.tag.kind = .closer) :
      SameFault R (faultAt closer.tag (.unopenedSection closer.tag.name))
        (faultAt closer'.tag (.unopenedSection closer'.tag.name))
  | mismatched {opener opener' closer closer' : PlacedTag} {inverted : Bool}
      (hopener : R opener opener') (hkind : opener.tag.kind = .opener inverted)
      (h : R closer closer') (hcloser : closer.tag.kind = .closer) :
      SameFault R (faultAt closer.tag (.mismatchedSection opener.tag.name closer.tag.name))
        (faultAt closer'.tag (.mismatchedSection opener'.tag.name closer'.tag.name))
  | unclosed {opener opener' : PlacedTag} {inverted : Bool} (h : R opener opener')
      (hkind : opener.tag.kind = .opener inverted) :
      SameFault R (faultAt opener.tag (.unclosedSection opener.tag.name))
        (faultAt opener'.tag (.unclosedSection opener'.tag.name))

variable {source source' : List Char} {tree tree' : Tree} {placed placed' : PlacedTag}

theorem addTag_of_node? {node : Node} (h : placed.node? = some node) :
    tree.addTag source placed = .ok { tree with nodes := node :: tree.nodes } := by
  unfold PlacedTag.node? at h
  unfold addTag
  split at h
  · next hkind =>
    cases h
    simp only [hkind]
  · next hkind =>
    cases h
    simp only [hkind]
  all_goals cases h

/-- A tag that closes a section. One that closes a section of `base` is known to the second tree
only. -/
theorem Coupling.close (hc : Coupling source source' R X Q) (htree : InStep R Q base tree tree')
    (hplaced : R placed placed') (hkind : placed.tag.kind = .closer) :
    (∃ next next', Tree.close source placed.tag tree = .ok next ∧
      Tree.close source' placed'.tag tree' = .ok next' ∧ InStep R Q base next next') ∨
    ∃ fault, Tree.close source placed.tag tree = .error fault ∧
      (base = [] → ∃ fault', Tree.close source' placed'.tag tree' = .error fault' ∧
        SameFault R fault fault') := by
  cases htree with
  | bottom h =>
    refine .inr ⟨_, rfl, ?_⟩
    rintro rfl
    exact ⟨_, rfl, .unopened hplaced hkind⟩
  | @within _ _ _ _ _ _ opener opener' _ hopener hopens h houter =>
    have hname := hc.name_iff hopener hopens hplaced hkind
    by_cases heq : opener.tag.name = placed.tag.name
    · left
      refine ⟨_, _, if_pos heq, if_pos (hname.2 heq), houter.with_nodes ?_⟩
      exact hc.block hopener hopens hplaced hkind h houter.nodes
    · right
      refine ⟨_, if_neg heq, fun _ => ⟨_, if_neg (mt hname.1 heq), ?_⟩⟩
      exact .mismatched hopener hopens hplaced hkind

/-- One tag on either side. -/
theorem Coupling.addTag (hc : Coupling source source' R X Q) (htree : InStep R Q base tree tree')
    (hplaced : R placed placed') :
    (∃ next next', tree.addTag source placed = .ok next ∧ tree'.addTag source' placed' = .ok next' ∧
      InStep R Q base next next') ∨
    ∃ fault, tree.addTag source placed = .error fault ∧
      (base = [] → ∃ fault', tree'.addTag source' placed' = .error fault' ∧
        SameFault R fault fault') := by
  have hkind := hc.kind hplaced
  have hnode (node node' : Node) (h : placed.node? = some node) (h' : placed'.node? = some node') :
      ∃ next next', tree.addTag source placed = .ok next ∧
        tree'.addTag source' placed' = .ok next' ∧ InStep R Q base next next' :=
    ⟨_, _, addTag_of_node? h, addTag_of_node? h',
      htree.with_nodes (hc.node hplaced h h' htree.nodes)⟩
  cases h : placed.tag.kind with
  | interpolation escape =>
    rw [h] at hkind
    left
    refine hnode (.interpolation (Path.parse placed.tag.name) escape placed.tag.span)
      (.interpolation (Path.parse placed'.tag.name) escape placed'.tag.span) ?_ ?_
    · rw [PlacedTag.node?, h]
    · rw [PlacedTag.node?, hkind]
  | inclusion =>
    rw [h] at hkind
    left
    let inclusion (placed : PlacedTag) : Node :=
      .inclusion placed.tag.name (String.ofList (placed.margin.getD [])) placed.tag.span
    refine hnode (inclusion placed) (inclusion placed') ?_ ?_
    · rw [PlacedTag.node?, h]
    · rw [PlacedTag.node?, hkind]
  | opener inverted =>
    rw [h] at hkind
    left
    refine ⟨⟨[], (placed.tag, tree.nodes) :: tree.enclosing⟩,
      ⟨[], (placed'.tag, tree'.nodes) :: tree'.enclosing⟩, ?_, ?_, .within hplaced h hc.nil htree⟩
    · simp only [Tree.addTag, h]
    · simp only [Tree.addTag, hkind]
  | closer =>
    rw [h] at hkind
    simp only [Tree.addTag, h, hkind]
    exact hc.close htree hplaced h
  | comment | setDelimiters =>
    rw [h] at hkind
    left
    refine ⟨tree, tree', ?_, ?_, htree⟩
    · simp only [Tree.addTag, h]
    · simp only [Tree.addTag, hkind]

/-- Tags and texts on either side. -/
theorem Coupling.run (hc : Coupling source source' R X Q)
    {items items' : List (PlacedTag × List Char)}
    (hitems : List.Forall₂ (fun item item' => R item.1 item'.1 ∧ X item.2 item'.2) items items')
    (htree : InStep R Q base tree tree') :
    (∃ next next', tree.run source items = .ok next ∧ tree'.run source' items' = .ok next' ∧
      InStep R Q base next next') ∨
    ∃ fault, tree.run source items = .error fault ∧
      (base = [] → ∃ fault', tree'.run source' items' = .error fault' ∧
        SameFault R fault fault') := by
  induction hitems generalizing tree tree' with
  | nil => exact .inl ⟨tree, tree', rfl, rfl, htree⟩
  | @cons item item' items items' hitem _ ih =>
    rw [Tree.run, Tree.run]
    obtain ⟨next, next', hnext, hnext', hstep⟩ | ⟨fault, hfault, hfault'⟩ :=
      hc.addTag htree hitem.1
    · rw [hnext, hnext']
      exact ih (hstep.with_nodes (hc.text hitem.2 hstep.nodes))
    · right
      rw [hfault]
      refine ⟨fault, rfl, ?_⟩
      intro hbase
      obtain ⟨fault', hfault', hsame⟩ := hfault' hbase
      rw [hfault']
      exact ⟨fault', rfl, hsame⟩

theorem InStep.finish (h : InStep R Q [] tree tree') :
    (∃ nodes nodes', tree.finish = .ok nodes ∧ tree'.finish = .ok nodes' ∧
      Q 0 nodes.reverse nodes'.reverse) ∨
    ∃ fault fault', tree.finish = .error fault ∧ tree'.finish = .error fault' ∧
      SameFault R fault fault' := by
  cases h with
  | @bottom nodes nodes' h =>
    refine .inl ⟨nodes.reverse, nodes'.reverse, rfl, rfl, ?_⟩
    rwa [List.reverse_reverse, List.reverse_reverse]
  | within hopener hkind _ _ => exact .inr ⟨_, _, rfl, rfl, .unclosed hopener hkind⟩

/-- Related tags compile to related instructions, or to the same fault. -/
theorem Coupling.build (hc : Coupling source source' R X Q)
    {items items' : List (PlacedTag × List Char)}
    (hitems : List.Forall₂ (fun item item' => R item.1 item'.1 ∧ X item.2 item'.2) items items')
    (htree : InStep R Q [] tree tree') :
    (∃ nodes nodes', Tree.build source tree items = .ok nodes ∧
      Tree.build source' tree' items' = .ok nodes' ∧ Q 0 nodes.reverse nodes'.reverse) ∨
    ∃ fault fault', Tree.build source tree items = .error fault ∧
      Tree.build source' tree' items' = .error fault' ∧ SameFault R fault fault' := by
  rw [build_eq, build_eq]
  obtain ⟨next, next', hnext, hnext', hstep⟩ | ⟨fault, hfault, hfault'⟩ := hc.run hitems htree
  · rw [hnext, hnext']
    exact hstep.finish
  · obtain ⟨fault', hfault', hsame⟩ := hfault' rfl
    rw [hfault, hfault']
    exact .inr ⟨fault, fault', rfl, rfl, hsame⟩

end Tree
end Mustache
