import Mathlib.Data.List.Chain
import Mustache.Template.Parse

/-!
# Mustache.Proofs.Merging

Texts are merged in whatever compiles: in every list of instructions, at any depth, none is empty
and no two stand side by side (`Template.normal_of_compile`). A tree under construction keeps to
that in all the lists it is made of, which are still the wrong way round.
-/

namespace Mustache

variable {source : List Char}

/-! ## Lists of instructions -/

namespace Node

def isLiteral : Node → Bool
  | .literal _ => true
  | .interpolation .. | .block .. | .inclusion .. => false

/-- No text is empty, and no two stand side by side. -/
structure Merged (nodes : List Node) : Prop where
  nonempty : ∀ text, .literal text ∈ nodes → text ≠ ""
  apart : nodes.IsChain fun node next => ¬ (node.isLiteral = true ∧ next.isLiteral = true)

/-- The list is all of the others, or all that stands in a section among them at some depth. -/
inductive Level (siblings : List Node) : List Node → Prop
  | here : Level siblings siblings
  | inside {path : Path} {inverted : Bool} {children nodes : List Node} {inner : String}
      {delimiters : Delimiters} {span : Span}
      (h : .block path inverted children inner delimiters span ∈ nodes)
      (hlevel : Level siblings children) : Level siblings nodes

/-- Texts are merged here and in all sections. -/
def Normal (nodes : List Node) : Prop :=
  ∀ siblings, Level siblings nodes → Merged siblings

theorem normal_iff {nodes : List Node} :
    Normal nodes ↔ Merged nodes ∧
      ∀ path inverted children inner delimiters span,
        .block path inverted children inner delimiters span ∈ nodes → Normal children := by
  constructor
  · intro h
    refine ⟨h _ .here, ?_⟩
    intro path inverted children inner delimiters span hmem siblings hlevel
    exact h siblings (.inside hmem hlevel)
  · rintro ⟨hmerged, hinside⟩ siblings hlevel
    cases hlevel with
    | here => exact hmerged
    | inside hmem hlevel => exact hinside _ _ _ _ _ _ hmem siblings hlevel

theorem Merged.reverse {nodes : List Node} (h : Merged nodes) : Merged nodes.reverse := by
  refine ⟨fun text hmem => h.nonempty text (List.mem_reverse.1 hmem), ?_⟩
  rw [List.isChain_reverse]
  exact h.apart.imp fun _ _ hapart hboth => hapart ⟨hboth.2, hboth.1⟩

theorem Normal.reverse {nodes : List Node} (h : Normal nodes) : Normal nodes.reverse := by
  obtain ⟨hmerged, hinside⟩ := normal_iff.1 h
  refine normal_iff.2 ⟨hmerged.reverse, ?_⟩
  intro path inverted children inner delimiters span hmem
  exact hinside _ _ _ _ _ _ (List.mem_reverse.1 hmem)

theorem normal_nil : Normal [] :=
  normal_iff.2 ⟨⟨nofun, .nil⟩, nofun⟩

/-- Anything but text may follow anything. -/
theorem Normal.cons {node : Node} {nodes : List Node} (h : Normal nodes)
    (hnode : node.isLiteral = false)
    (hinside : ∀ path inverted children inner delimiters span,
      node = .block path inverted children inner delimiters span → Normal children) :
    Normal (node :: nodes) := by
  obtain ⟨hmerged, hothers⟩ := normal_iff.1 h
  refine normal_iff.2 ⟨⟨?_, ?_⟩, ?_⟩
  · intro text hmem
    obtain rfl | hmem := List.mem_cons.1 hmem
    · cases hnode
    · exact hmerged.nonempty text hmem
  · refine List.isChain_cons.2 ⟨?_, hmerged.apart⟩
    rintro next - ⟨hliteral, -⟩
    rw [hnode] at hliteral
    cases hliteral
  · intro path inverted children inner delimiters span hmem
    obtain rfl | hmem := List.mem_cons.1 hmem
    · exact hinside _ _ _ _ _ _ rfl
    · exact hothers _ _ _ _ _ _ hmem

theorem ofList_ne_empty {text : List Char} (h : ¬ text.isEmpty = true) :
    String.ofList text ≠ "" := by
  intro hempty
  rw [← String.ofList_nil, String.ofList_inj] at hempty
  exact h (List.isEmpty_iff.2 hempty)

/-- Text goes behind other text, or into it. -/
theorem Merged.addText {nodes : List Node} (h : Merged nodes) (text : List Char) :
    Merged (Tree.addText text nodes) := by
  unfold Tree.addText
  split
  · exact h
  · next htext =>
    split
    · next before rest =>
      obtain ⟨hhead, hrest⟩ := List.isChain_cons.1 h.apart
      refine ⟨?_, List.isChain_cons.2 ⟨hhead, hrest⟩⟩
      intro text' hmem
      obtain hmem | hmem := List.mem_cons.1 hmem
      · cases hmem
        intro hempty
        exact ofList_ne_empty htext (String.append_eq_empty_iff.1 hempty).2
      · exact h.nonempty text' (List.mem_cons_of_mem _ hmem)
    · next hnodes =>
      refine ⟨?_, List.isChain_cons.2 ⟨?_, h.apart⟩⟩
      · intro text' hmem
        obtain hmem | hmem := List.mem_cons.1 hmem
        · cases hmem
          exact ofList_ne_empty htext
        · exact h.nonempty text' hmem
      · rintro next hnext ⟨-, hliteral⟩
        obtain ⟨rest, rfl⟩ := List.head?_eq_some_iff.1 hnext
        cases next with
        | literal before => exact hnodes before rest rfl
        | interpolation | block | inclusion => cases hliteral

theorem mem_of_addText {node : Node} {text : List Char} {nodes : List Node}
    (h : node ∈ Tree.addText text nodes) : node.isLiteral = true ∨ node ∈ nodes := by
  unfold Tree.addText at h
  split at h
  · exact .inr h
  · split at h
    · obtain rfl | h := List.mem_cons.1 h
      · exact .inl rfl
      · exact .inr (List.mem_cons_of_mem _ h)
    · obtain rfl | h := List.mem_cons.1 h
      · exact .inl rfl
      · exact .inr h

theorem Normal.addText {nodes : List Node} (h : Normal nodes) (text : List Char) :
    Normal (Tree.addText text nodes) := by
  obtain ⟨hmerged, hinside⟩ := normal_iff.1 h
  refine normal_iff.2 ⟨hmerged.addText text, ?_⟩
  intro path inverted children inner delimiters span hmem
  obtain hliteral | hmem := mem_of_addText hmem
  · cases hliteral
  · exact hinside _ _ _ _ _ _ hmem

end Node

/-! ## Trees under construction -/

namespace Tree

/-- Texts are merged in a tree under construction, in what is open around it too. -/
structure Normal (tree : Tree) : Prop where
  nodes : Node.Normal tree.nodes
  enclosing : ∀ entry ∈ tree.enclosing, Node.Normal entry.2

theorem Normal.close {tag : Tag} {tree tree' : Tree} (h : tree.Normal)
    (hc : close source tag tree = .ok tree') : tree'.Normal := by
  unfold Tree.close at hc
  split at hc
  · cases hc
  · next opener before enclosing henclosing =>
    obtain ⟨hbefore, henclosing⟩ := List.forall_mem_cons.1 (henclosing ▸ h.enclosing)
    split at hc
    · cases hc
      refine ⟨hbefore.cons rfl ?_, henclosing⟩
      intro path inverted children inner delimiters span hblock
      cases hblock
      exact h.nodes.reverse
    · cases hc

theorem Normal.addTag {placed : PlacedTag} {tree tree' : Tree} (h : tree.Normal)
    (ht : tree.addTag source placed = .ok tree') : tree'.Normal := by
  unfold Tree.addTag at ht
  cases hkind : placed.tag.kind with
  | interpolation escape =>
    simp only [hkind] at ht
    cases ht
    exact ⟨h.nodes.cons rfl nofun, h.enclosing⟩
  | opener inverted =>
    simp only [hkind] at ht
    cases ht
    exact ⟨Node.normal_nil, List.forall_mem_cons.2 ⟨h.nodes, h.enclosing⟩⟩
  | closer =>
    simp only [hkind] at ht
    exact h.close ht
  | inclusion =>
    simp only [hkind] at ht
    cases ht
    exact ⟨h.nodes.cons rfl nofun, h.enclosing⟩
  | comment | setDelimiters =>
    simp only [hkind] at ht
    cases ht
    exact h

theorem Normal.build {tree : Tree} {rest : List (PlacedTag × List Char)} {nodes : List Node}
    (h : tree.Normal) (hb : build source tree rest = .ok nodes) : Node.Normal nodes := by
  induction rest generalizing tree with
  | nil =>
    unfold Tree.build finish at hb
    split at hb
    · cases hb
      exact h.nodes.reverse
    · cases hb
  | cons entry rest ih =>
    obtain ⟨placed, text⟩ := entry
    unfold Tree.build at hb
    split at hb
    · cases hb
    · next tree' ht =>
      have htree := h.addTag ht
      have hnext : Normal { tree' with nodes := addText text tree'.nodes } :=
        ⟨htree.nodes.addText text, htree.enclosing⟩
      exact ih hnext hb

theorem normal_of_ofLayout {layout : Layout} {nodes : List Node}
    (h : ofLayout source layout = .ok nodes) : Node.Normal nodes := by
  have hstart : Normal ⟨addText layout.head [], []⟩ :=
    ⟨Node.normal_nil.addText layout.head, nofun⟩
  exact hstart.build h

end Tree

theorem Template.normal_of_compile {d : Delimiters} {nodes : List Node}
    (h : compile source d = .ok nodes) : Node.Normal nodes := by
  obtain ⟨scan, -, hnodes⟩ := compile_eq_ok_iff.1 h
  exact Tree.normal_of_ofLayout hnodes

end Mustache
