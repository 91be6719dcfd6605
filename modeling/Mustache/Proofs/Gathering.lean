import Mustache.Template.Parse

/-!
# Mustache.Proofs.Gathering

What the instructions of a template hold in the order of the source. `Node.gathers f` collects
`f` of every instruction that is not a section, children in place; nesting the tags of a layout
neither loses nor reorders anything of that (`gathers_ofLayout`).
-/

namespace Mustache

section Gathering

variable {α : Type}

mutual

def Node.gather (f : Node → List α) : Node → List α
  | .block _ _ children _ _ _ => Node.gathers f children
  | node => f node

def Node.gathers (f : Node → List α) : List Node → List α
  | [] => []
  | node :: nodes => node.gather f ++ Node.gathers f nodes

end

def Node.ownText : Node → List Char
  | .literal text => text.toList
  | _ => []

def Node.ownInclusion : Node → List (String × String × Span)
  | .inclusion name indentation span => [(name, indentation, span)]
  | _ => []

/-- All text in the order of the source. -/
def Node.texts (nodes : List Node) : List Char :=
  Node.gathers Node.ownText nodes

/-- The name, indentation and extent of every partial in the order of the source. -/
def Node.inclusions (nodes : List Node) : List (String × String × Span) :=
  Node.gathers Node.ownInclusion nodes

/-- What `f` makes of the instruction that a tag becomes; sections only hold others. -/
def PlacedTag.gather (f : Node → List α) (placed : PlacedTag) : List α :=
  match placed.tag.kind with
  | .interpolation escape =>
    f (.interpolation (Path.parse placed.tag.name) escape placed.tag.span)
  | .inclusion =>
    f (.inclusion placed.tag.name (String.ofList (placed.margin.getD [])) placed.tag.span)
  | .opener _ | .closer | .comment | .setDelimiters => []

/-- What is gathered from a list under construction and the sections open around it. -/
def Tree.gathers (f : Node → List α) (tree : Tree) : List α :=
  (tree.enclosing.reverse.flatMap fun entry => Node.gathers f entry.2.reverse) ++
    Node.gathers f tree.nodes.reverse

/-- What `f` makes of text may be cut anywhere. -/
structure Additive (f : Node → List α) : Prop where
  empty : f (.literal "") = []
  append : ∀ text text', f (.literal (text ++ text')) = f (.literal text) ++ f (.literal text')

variable {f : Node → List α}

theorem Node.gathers_append (nodes nodes' : List Node) :
    Node.gathers f (nodes ++ nodes') = Node.gathers f nodes ++ Node.gathers f nodes' := by
  induction nodes with
  | nil => rw [List.nil_append, Node.gathers, List.nil_append]
  | cons node nodes ih =>
    rw [List.cons_append, Node.gathers, Node.gathers, ih, List.append_assoc]

theorem Node.gathers_reverse_cons (node : Node) (nodes : List Node) :
    Node.gathers f (node :: nodes).reverse =
      Node.gathers f nodes.reverse ++ node.gather f := by
  rw [List.reverse_cons, Node.gathers_append]
  simp [Node.gathers]

namespace Tree

theorem gathers_addText (hf : Additive f) (text : List Char) (nodes : List Node) :
    Node.gathers f (addText text nodes).reverse =
      Node.gathers f nodes.reverse ++ f (.literal (String.ofList text)) := by
  unfold addText
  split
  · next h =>
    rw [List.isEmpty_iff.1 h, show String.ofList [] = "" from rfl, hf.empty, List.append_nil]
  · split
    · next before rest =>
      rw [Node.gathers_reverse_cons, Node.gathers_reverse_cons, Node.gather, Node.gather,
        hf.append, List.append_assoc]
      · nofun
      · nofun
    · rw [Node.gathers_reverse_cons, Node.gather]
      nofun

theorem gathers_cons (f : Node → List α) (node : Node) (nodes : List Node)
    (enclosing : List (Tag × List Node)) :
    gathers f ⟨node :: nodes, enclosing⟩ = gathers f ⟨nodes, enclosing⟩ ++ node.gather f := by
  simp only [gathers, Node.gathers_reverse_cons, List.append_assoc]

theorem gathers_close {source : List Char} {tag : Tag} {tree tree' : Tree}
    (h : close source tag tree = .ok tree') : tree'.gathers f = tree.gathers f := by
  unfold close at h
  split at h
  · cases h
  · next opener before enclosing he =>
    split at h
    · cases h
      rw [gathers_cons, Node.gather]
      simp [gathers, he]
    · cases h

theorem gathers_addTag {source : List Char} {placed : PlacedTag} {tree tree' : Tree}
    (h : tree.addTag source placed = .ok tree') :
    tree'.gathers f = tree.gathers f ++ placed.gather f := by
  unfold addTag at h
  unfold PlacedTag.gather
  cases hk : placed.tag.kind with
  | interpolation escape =>
    simp only [hk] at h
    cases h
    rw [gathers_cons, Node.gather]
    nofun
  | opener inverted =>
    simp only [hk] at h
    cases h
    simp [gathers, Node.gathers]
  | closer =>
    simp only [hk] at h
    rw [gathers_close h, List.append_nil]
  | inclusion =>
    simp only [hk] at h
    cases h
    rw [gathers_cons, Node.gather]
    nofun
  | comment | setDelimiters =>
    simp only [hk] at h
    cases h
    rw [List.append_nil]

theorem gathers_build (hf : Additive f) {source : List Char} {tree : Tree}
    {rest : List (PlacedTag × List Char)} {nodes : List Node}
    (h : build source tree rest = .ok nodes) :
    Node.gathers f nodes = tree.gathers f ++
      rest.flatMap fun entry => entry.1.gather f ++ f (.literal (String.ofList entry.2)) := by
  induction rest generalizing tree with
  | nil =>
    unfold build finish at h
    split at h
    · next he =>
      cases h
      simp [gathers, he]
    · cases h
  | cons entry rest ih =>
    obtain ⟨placed, text⟩ := entry
    unfold build at h
    split at h
    · cases h
    · next tree' ht =>
      have htext : gathers f { tree' with nodes := addText text tree'.nodes } =
          tree'.gathers f ++ f (.literal (String.ofList text)) := by
        simp only [gathers, gathers_addText hf, List.append_assoc]
      rw [ih h, htext, gathers_addTag ht]
      simp only [List.flatMap_cons, List.append_assoc]

theorem gathers_ofLayout (hf : Additive f) {source : List Char} {layout : Layout}
    {nodes : List Node} (h : ofLayout source layout = .ok nodes) :
    Node.gathers f nodes = f (.literal (String.ofList layout.head)) ++
      layout.rest.flatMap fun entry =>
        entry.1.gather f ++ f (.literal (String.ofList entry.2)) := by
  rw [gathers_build hf h]
  have := gathers_addText hf layout.head []
  simpa [gathers, Node.gathers] using this

theorem texts_ofLayout {source : List Char} {layout : Layout} {nodes : List Node}
    (h : ofLayout source layout = .ok nodes) :
    Node.texts nodes = layout.head ++ layout.rest.flatMap (·.2) := by
  have hf : Additive Node.ownText := ⟨rfl, fun _ _ => String.toList_append⟩
  have htag (placed : PlacedTag) : placed.gather Node.ownText = [] := by
    unfold PlacedTag.gather
    split <;> rfl
  rw [Node.texts, gathers_ofLayout hf h]
  simp [htag, Node.ownText]

theorem inclusions_ofLayout {source : List Char} {layout : Layout} {nodes : List Node}
    (h : ofLayout source layout = .ok nodes) :
    Node.inclusions nodes =
      ((layout.rest.map (·.1)).filter (·.tag.kind = .inclusion)).map fun placed =>
        (placed.tag.name, String.ofList (placed.margin.getD []), placed.tag.span) := by
  have hf : Additive Node.ownInclusion := ⟨rfl, fun _ _ => rfl⟩
  rw [Node.inclusions, gathers_ofLayout hf h]
  show [] ++ _ = _
  rw [List.nil_append]
  induction layout.rest with
  | nil => rfl
  | cons entry rest ih =>
    rw [List.flatMap_cons, ih, List.map_cons, List.filter_cons, PlacedTag.gather]
    cases hk : entry.1.tag.kind <;> simp [Node.ownInclusion]

end Tree
end Gathering
end Mustache
