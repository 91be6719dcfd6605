import Mustache.Template.Parse

/-!
# Mustache.Proofs.Nesting

Sections as brackets. `Nests` says how tags nest without going through them one after the other;
compiling succeeds exactly on tags that nest, and its result has their outline: what the
instructions are and hold, without text, indentation, lines and columns.
-/

namespace Mustache

/-- An instruction apart from its layout. -/
inductive Outline where
  | interpolation (path : Path) (escape : Escape) (start stop : Nat)
  | block (path : Path) (inverted : Bool) (children : List Outline) (inner : String)
      (delimiters : Delimiters) (start stop : Nat)
  | inclusion (name : String) (start stop : Nat)

mutual

/-- The outline of an instruction of a source that begins at octet `offset` of another. -/
def Node.outline (offset : Nat) : Node → List Outline
  | .literal _ => []
  | .interpolation path escape span =>
    [.interpolation path escape (offset + span.start) (offset + span.stop)]
  | .block path inverted children inner delimiters span =>
    [.block path inverted (Node.outlines offset children) inner delimiters
      (offset + span.start) (offset + span.stop)]
  | .inclusion name _ span => [.inclusion name (offset + span.start) (offset + span.stop)]

def Node.outlines (offset : Nat) : List Node → List Outline
  | [] => []
  | node :: nodes => node.outline offset ++ Node.outlines offset nodes

end

/-- The instruction stands among the others at some depth. -/
inductive Node.Within (node : Node) : List Node → Prop
  | here {nodes : List Node} (h : node ∈ nodes) : Within node nodes
  | inside {path : Path} {inverted : Bool} {children nodes : List Node} {inner : String}
      {delimiters : Delimiters} {span : Span}
      (h : .block path inverted children inner delimiters span ∈ nodes)
      (hnode : Within node children) : Within node nodes

/-- The section between two tags. -/
def Tag.section (source : List Char) (offset : Nat) (opener closer : Tag) (inverted : Bool)
    (children : List Outline) : Outline :=
  .block (Path.parse opener.name) inverted children
    (String.ofList (Text.slice opener.span.stop closer.span.start source)) opener.delimiters
    (offset + opener.span.start) (offset + opener.span.stop)

/-- The tags nest, and are an outline together. -/
inductive Nests (source : List Char) (offset : Nat) : List Tag → List Outline → Prop
  | nil : Nests source offset [] []
  | idle {tag : Tag} {tags : List Tag} {outlines : List Outline}
      (hkind : tag.kind = .comment ∨ tag.kind = .setDelimiters)
      (hrest : Nests source offset tags outlines) : Nests source offset (tag :: tags) outlines
  | interpolation {tag : Tag} {tags : List Tag} {outlines : List Outline} {escape : Escape}
      (hkind : tag.kind = .interpolation escape) (hrest : Nests source offset tags outlines) :
      Nests source offset (tag :: tags)
        (.interpolation (Path.parse tag.name) escape (offset + tag.span.start)
          (offset + tag.span.stop) :: outlines)
  | inclusion {tag : Tag} {tags : List Tag} {outlines : List Outline}
      (hkind : tag.kind = .inclusion) (hrest : Nests source offset tags outlines) :
      Nests source offset (tag :: tags)
        (.inclusion tag.name (offset + tag.span.start) (offset + tag.span.stop) :: outlines)
  | block {opener closer : Tag} {body tags : List Tag} {children outlines : List Outline}
      {inverted : Bool} (hopener : opener.kind = .opener inverted)
      (hcloser : closer.kind = .closer) (hname : opener.name = closer.name)
      (hbody : Nests source offset body children) (hrest : Nests source offset tags outlines) :
      Nests source offset (opener :: (body ++ closer :: tags))
        (opener.section source offset closer inverted children :: outlines)

variable {source : List Char} {offset : Nat}

theorem Nests.append {tags tags' : List Tag} {outlines outlines' : List Outline}
    (h : Nests source offset tags outlines) (h' : Nests source offset tags' outlines') :
    Nests source offset (tags ++ tags') (outlines ++ outlines') := by
  induction h with
  | nil => exact h'
  | idle hkind _ ih => exact .idle hkind ih
  | interpolation hkind _ ih => exact .interpolation hkind ih
  | inclusion hkind _ ih => exact .inclusion hkind ih
  | block hopener hcloser hname hbody _ _ ih =>
    have := Nests.block hopener hcloser hname hbody ih
    rwa [List.cons_append, List.append_assoc, List.cons_append]

/-! ## Outlines of lists -/

namespace Node

theorem outlines_append (nodes nodes' : List Node) :
    outlines offset (nodes ++ nodes') = outlines offset nodes ++ outlines offset nodes' := by
  induction nodes with
  | nil => rw [List.nil_append, outlines, List.nil_append]
  | cons node nodes ih => rw [List.cons_append, outlines, outlines, ih, List.append_assoc]

theorem outlines_reverse_cons (node : Node) (nodes : List Node) :
    outlines offset (node :: nodes).reverse =
      outlines offset nodes.reverse ++ node.outline offset := by
  rw [List.reverse_cons, outlines_append, outlines, outlines, List.append_nil]

theorem outlines_addText (text : List Char) (nodes : List Node) :
    outlines offset (Tree.addText text nodes).reverse = outlines offset nodes.reverse := by
  unfold Tree.addText
  split
  · rfl
  · split
    · next before rest => rw [outlines_reverse_cons, outlines_reverse_cons, outline, outline]
    · rw [outlines_reverse_cons, outline, List.append_nil]

end Node

/-! ## What compiles nests -/

namespace Tree

/-- The tags that a tree under construction has taken up: those since each open section nest. -/
def TakesUp (source : List Char) : List Tag → List Node → List (Tag × List Node) → Prop
  | tags, nodes, [] => Nests source 0 tags (Node.outlines 0 nodes.reverse)
  | tags, nodes, (opener, before) :: enclosing =>
    ∃ gone body inverted, tags = gone ++ opener :: body ∧ opener.kind = .opener inverted ∧
      Nests source 0 body (Node.outlines 0 nodes.reverse) ∧
      TakesUp source gone before enclosing

theorem TakesUp.append {tags tags' : List Tag} {nodes nodes' : List Node}
    {enclosing : List (Tag × List Node)} {outlines : List Outline}
    (h : TakesUp source tags nodes enclosing) (h' : Nests source 0 tags' outlines)
    (hnodes : Node.outlines 0 nodes'.reverse = Node.outlines 0 nodes.reverse ++ outlines) :
    TakesUp source (tags ++ tags') nodes' enclosing := by
  cases enclosing with
  | nil =>
    rw [TakesUp, hnodes]
    exact Nests.append h h'
  | cons entry enclosing =>
    obtain ⟨gone, body, inverted, rfl, hopener, hbody, houter⟩ := h
    refine ⟨gone, body ++ tags', inverted, ?_, hopener, ?_, houter⟩
    · rw [List.append_assoc, List.cons_append]
    · rw [hnodes]
      exact hbody.append h'

theorem TakesUp.addText {tags : List Tag} {nodes : List Node}
    {enclosing : List (Tag × List Node)} (h : TakesUp source tags nodes enclosing)
    (text : List Char) : TakesUp source tags (Tree.addText text nodes) enclosing := by
  have hnodes : Node.outlines 0 (Tree.addText text nodes).reverse =
      Node.outlines 0 nodes.reverse ++ [] := by
    rw [Node.outlines_addText, List.append_nil]
  have := h.append .nil hnodes
  rwa [List.append_nil] at this

theorem TakesUp.close {tags : List Tag} {tag : Tag} {tree tree' : Tree}
    (h : TakesUp source tags tree.nodes tree.enclosing) (hkind : tag.kind = .closer)
    (hc : Tree.close source tag tree = .ok tree') :
    TakesUp source (tags ++ [tag]) tree'.nodes tree'.enclosing := by
  obtain ⟨nodes, enclosing⟩ := tree
  cases enclosing with
  | nil => cases hc
  | cons entry enclosing =>
    obtain ⟨opener, before⟩ := entry
    obtain ⟨gone, body, inverted, rfl, hopener, hbody, houter⟩ := h
    unfold Tree.close at hc
    simp only at hc
    split at hc
    · next hname =>
      cases hc
      have hclosed := Nests.block hopener hkind hname hbody .nil
      rw [List.append_assoc, List.cons_append]
      refine houter.append hclosed ?_
      rw [Node.outlines_reverse_cons, Node.outline, Tag.section, hopener]
      cases inverted <;> rfl
    · cases hc

theorem TakesUp.addTag {tags : List Tag} {placed : PlacedTag} {tree tree' : Tree}
    (h : TakesUp source tags tree.nodes tree.enclosing)
    (ht : tree.addTag source placed = .ok tree') :
    TakesUp source (tags ++ [placed.tag]) tree'.nodes tree'.enclosing := by
  unfold Tree.addTag at ht
  cases hkind : placed.tag.kind with
  | interpolation escape =>
    simp only [hkind] at ht
    cases ht
    exact h.append (.interpolation hkind .nil) (Node.outlines_reverse_cons _ _)
  | opener inverted =>
    simp only [hkind] at ht
    cases ht
    exact ⟨tags, [], inverted, rfl, hkind, .nil, h⟩
  | closer =>
    simp only [hkind] at ht
    exact h.close hkind ht
  | comment =>
    simp only [hkind] at ht
    cases ht
    exact h.append (.idle (.inl hkind) .nil) (List.append_nil _).symm
  | inclusion =>
    simp only [hkind] at ht
    cases ht
    exact h.append (.inclusion hkind .nil) (Node.outlines_reverse_cons _ _)
  | setDelimiters =>
    simp only [hkind] at ht
    cases ht
    exact h.append (.idle (.inr hkind) .nil) (List.append_nil _).symm

theorem TakesUp.build {tags : List Tag} {tree : Tree} {rest : List (PlacedTag × List Char)}
    {nodes : List Node} (h : TakesUp source tags tree.nodes tree.enclosing)
    (hb : Tree.build source tree rest = .ok nodes) :
    Nests source 0 (tags ++ rest.map (·.1.tag)) (Node.outlines 0 nodes) := by
  induction rest generalizing tags tree with
  | nil =>
    unfold Tree.build Tree.finish at hb
    split at hb
    · next henclosing =>
      cases hb
      rw [henclosing] at h
      rwa [List.map_nil, List.append_nil]
    · cases hb
  | cons entry rest ih =>
    obtain ⟨placed, text⟩ := entry
    unfold Tree.build at hb
    split at hb
    · cases hb
    · next tree' ht =>
      have := ih ((h.addTag ht).addText text) hb
      rwa [List.append_assoc] at this

/-- Tags that compile nest. -/
theorem nests_of_ofLayout {layout : Layout} {nodes : List Node}
    (h : ofLayout source layout = .ok nodes) :
    Nests source 0 (layout.rest.map (·.1.tag)) (Node.outlines 0 nodes) := by
  have hstart : TakesUp source [] [] [] := Nests.nil
  exact (hstart.addText layout.head).build h

/-! ## What nests compiles -/

theorem close_of_name {opener tag : Tag} {inverted : Bool} {nodes before : List Node}
    {enclosing : List (Tag × List Node)} (hopener : opener.kind = .opener inverted)
    (hname : opener.name = tag.name) :
    close source tag ⟨nodes, (opener, before) :: enclosing⟩ =
      .ok ⟨.block (Path.parse opener.name) inverted nodes.reverse
        (String.ofList (Text.slice opener.span.stop tag.span.start source)) opener.delimiters
        opener.span :: before, enclosing⟩ := by
  rw [close]
  simp only [hname, hopener, if_true]
  cases inverted <;> rfl

/-- A tag that only adds instructions goes before what is known of the tags behind it. -/
theorem build_of_added {placed : PlacedTag} {text : List Char} {tree : Tree}
    {items rest : List (PlacedTag × List Char)} {outlines : List Outline} {added : List Node}
    (hadd : tree.addTag source placed = .ok ⟨added ++ tree.nodes, tree.enclosing⟩)
    (hitems : ∀ tree : Tree, ∃ nodes,
      Node.outlines offset nodes.reverse = Node.outlines offset tree.nodes.reverse ++ outlines ∧
      build source tree (items ++ rest) = build source ⟨nodes, tree.enclosing⟩ rest) :
    ∃ nodes,
      Node.outlines offset nodes.reverse =
        Node.outlines offset tree.nodes.reverse ++
          (Node.outlines offset added.reverse ++ outlines) ∧
      build source tree ((placed, text) :: items ++ rest) =
        build source ⟨nodes, tree.enclosing⟩ rest := by
  obtain ⟨nodes, hnodes, hbuild⟩ := hitems ⟨addText text (added ++ tree.nodes), tree.enclosing⟩
  refine ⟨nodes, ?_, ?_⟩
  · rw [hnodes, Node.outlines_addText, List.reverse_append, Node.outlines_append,
      List.append_assoc]
  · rw [List.cons_append, build, hadd]
    exact hbuild

/-- Tags that nest leave the sections around them alone. -/
theorem build_of_nests {tags : List Tag} {outlines : List Outline}
    (h : Nests source offset tags outlines) {items : List (PlacedTag × List Char)}
    (hitems : items.map (·.1.tag) = tags) (rest : List (PlacedTag × List Char)) (tree : Tree) :
    ∃ nodes,
      Node.outlines offset nodes.reverse = Node.outlines offset tree.nodes.reverse ++ outlines ∧
      build source tree (items ++ rest) = build source ⟨nodes, tree.enclosing⟩ rest := by
  induction h generalizing items tree rest with
  | nil =>
    rw [List.map_eq_nil_iff] at hitems
    subst hitems
    exact ⟨tree.nodes, (List.append_nil _).symm, rfl⟩
  | idle hkind _ ih =>
    obtain ⟨⟨placed, text⟩, items, rfl, rfl, htags⟩ := List.map_eq_cons_iff.1 hitems
    refine @build_of_added _ _ placed text tree items rest _ [] ?_ (ih htags rest)
    simp only at hkind
    obtain hkind | hkind := hkind
    · simp only [addTag, hkind, List.nil_append]
    · simp only [addTag, hkind, List.nil_append]
  | @interpolation _ _ _ escape hkind _ ih =>
    obtain ⟨⟨placed, text⟩, items, rfl, rfl, htags⟩ := List.map_eq_cons_iff.1 hitems
    refine @build_of_added _ _ placed text tree items rest _
      [.interpolation (Path.parse placed.tag.name) escape placed.tag.span] ?_ (ih htags rest)
    simp only at hkind
    simp only [addTag, hkind]
    rfl
  | inclusion hkind _ ih =>
    obtain ⟨⟨placed, text⟩, items, rfl, rfl, htags⟩ := List.map_eq_cons_iff.1 hitems
    refine @build_of_added _ _ placed text tree items rest _
      [.inclusion placed.tag.name (String.ofList (placed.margin.getD [])) placed.tag.span] ?_
      (ih htags rest)
    simp only at hkind
    simp only [addTag, hkind]
    rfl
  | @block opener closer body tags children outlines inverted hopener hcloser hname _ _ ihbody ih =>
    obtain ⟨⟨placed, text⟩, items, rfl, rfl, htags⟩ := List.map_eq_cons_iff.1 hitems
    obtain ⟨within, after, rfl, hwithin, hafter⟩ := List.map_eq_append_iff.1 htags
    obtain ⟨⟨last, text'⟩, after, rfl, rfl, htags'⟩ := List.map_eq_cons_iff.1 hafter
    simp only at hopener hcloser hname
    -- The body is built on top of the open section, and what follows it on top of the closed one.
    obtain ⟨inside, hinside, hbuild⟩ := ihbody hwithin ((last, text') :: after ++ rest)
      ⟨addText text [], (placed.tag, tree.nodes) :: tree.enclosing⟩
    let closed := Node.block (Path.parse placed.tag.name) inverted inside.reverse
      (String.ofList (Text.slice placed.tag.span.stop last.tag.span.start source))
      placed.tag.delimiters placed.tag.span
    obtain ⟨nodes, hnodes, hbuild'⟩ :=
      ih htags' rest ⟨addText text' (closed :: tree.nodes), tree.enclosing⟩
    refine ⟨nodes, ?_, ?_⟩
    · rw [Node.outlines_addText] at hinside
      rw [hnodes, Node.outlines_addText, Node.outlines_reverse_cons, Node.outline, hinside,
        List.append_assoc]
      rfl
    · rw [List.cons_append, List.append_assoc, build, addTag]
      simp only [hopener]
      rw [hbuild, List.cons_append, build, addTag]
      simp only [hcloser, close_of_name hopener hname]
      exact hbuild'

theorem ofLayout_of_nests {layout : Layout} {outlines : List Outline}
    (h : Nests source offset (layout.rest.map (·.1.tag)) outlines) :
    ∃ nodes, ofLayout source layout = .ok nodes ∧ Node.outlines offset nodes = outlines := by
  obtain ⟨nodes, hnodes, hbuild⟩ := build_of_nests h rfl [] ⟨addText layout.head [], []⟩
  rw [List.append_nil] at hbuild
  refine ⟨nodes.reverse, ?_, ?_⟩
  · rw [ofLayout, hbuild]
    rfl
  · rw [hnodes, Node.outlines_addText]
    rfl

end Tree

/-! ## Sections -/

/-- The tags of a section among others: its own two, and those between them, which nest. -/
def HasSection (source : List Char) (offset : Nat) (tags : List Tag) (children : List Outline)
    (inner : String) (delimiters : Delimiters) (stop : Nat) : Prop :=
  ∃ gone opener body closer rest,
    tags = gone ++ opener :: (body ++ closer :: rest) ∧
    inner = String.ofList (Text.slice opener.span.stop closer.span.start source) ∧
    delimiters = opener.delimiters ∧ stop = offset + opener.span.stop ∧
    Nests source offset body children

theorem HasSection.extend {tags : List Tag} {children : List Outline} {inner : String}
    {delimiters : Delimiters} {stop : Nat}
    (h : HasSection source offset tags children inner delimiters stop)
    (before after : List Tag) :
    HasSection source offset (before ++ (tags ++ after)) children inner delimiters stop := by
  obtain ⟨gone, opener, body, closer, rest, rfl, hsection⟩ := h
  refine ⟨before ++ gone, opener, body, closer, rest ++ after, ?_, hsection⟩
  simp only [List.append_assoc, List.cons_append]

theorem Nests.hasSection {tags : List Tag} {outlines children : List Outline} {path : Path}
    {inverted : Bool} {inner : String} {delimiters : Delimiters} {start stop : Nat}
    (h : Nests source offset tags outlines)
    (hmem : .block path inverted children inner delimiters start stop ∈ outlines) :
    HasSection source offset tags children inner delimiters stop := by
  induction h with
  | nil => cases hmem
  | @idle tag _ _ _ _ ih => simpa using (ih hmem).extend [tag] []
  | @interpolation tag _ _ _ _ _ ih =>
    obtain hmem | hmem := List.mem_cons.1 hmem
    · cases hmem
    · simpa using (ih hmem).extend [tag] []
  | @inclusion tag _ _ _ _ ih =>
    obtain hmem | hmem := List.mem_cons.1 hmem
    · cases hmem
    · simpa using (ih hmem).extend [tag] []
  | @block opener closer body tags _ _ _ _ _ _ hbody _ _ ih =>
    obtain hmem | hmem := List.mem_cons.1 hmem
    · cases hmem
      exact ⟨[], opener, body, closer, tags, rfl, rfl, rfl, rfl, hbody⟩
    · simpa using (ih hmem).extend (opener :: (body ++ [closer])) []

theorem Node.mem_outlines {node : Node} {nodes : List Node} {outline : Outline}
    (h : node ∈ nodes) (ho : outline ∈ node.outline offset) :
    outline ∈ Node.outlines offset nodes := by
  induction h with
  | head nodes => exact List.mem_append_left _ ho
  | tail _ _ ih => exact List.mem_append_right _ ih

/-- So does a section at any depth. -/
theorem Nests.hasSection_of_within {tags : List Tag} {nodes children : List Node} {path : Path}
    {inverted : Bool} {inner : String} {delimiters : Delimiters} {span : Span}
    (h : Nests source offset tags (Node.outlines offset nodes))
    (hwithin : Node.Within (.block path inverted children inner delimiters span) nodes) :
    HasSection source offset tags (Node.outlines offset children) inner delimiters
      (offset + span.stop) := by
  induction hwithin generalizing tags with
  | here hmem => exact h.hasSection (Node.mem_outlines hmem (List.mem_singleton_self _))
  | inside hmem _ ih =>
    obtain ⟨gone, opener, body, closer, rest, rfl, _, _, _, hbody⟩ :=
      h.hasSection (Node.mem_outlines hmem (List.mem_singleton_self _))
    simpa using (ih hbody).extend (gone ++ [opener]) (closer :: rest)

/-! ## Templates -/

theorem Layout.map_tag_ofRuns (opens : Bool) (run : List Char) (keepFrom : Nat)
    (rest : List (Tag × List Char)) :
    (ofRuns opens run keepFrom rest).rest.map (·.1.tag) = rest.map (·.1) := by
  induction rest generalizing opens run keepFrom with
  | nil => rfl
  | cons entry rest ih =>
    rw [ofRuns]
    split
    · exact congrArg (entry.1 :: ·) (ih false entry.2 0)
    · next cutTo _ => exact congrArg (entry.1 :: ·) (ih false entry.2 cutTo)

namespace Template

theorem exists_nests_of_compile {d : Delimiters} {nodes : List Node}
    (h : compile source d = .ok nodes) :
    ∃ scan, Scan.ofSource d Position.start source = .ok scan ∧
      Nests source 0 (scan.rest.map (·.1)) (Node.outlines 0 nodes) := by
  obtain ⟨scan, hscan, hnodes⟩ := compile_eq_ok_iff.1 h
  have hnests := Tree.nests_of_ofLayout hnodes
  rw [Layout.ofScan, Layout.map_tag_ofRuns] at hnests
  exact ⟨scan, hscan, hnests⟩

theorem exists_compile_of_nests {d : Delimiters} {scan : Scan} {outlines : List Outline}
    (hscan : Scan.ofSource d Position.start source = .ok scan)
    (h : Nests source offset (scan.rest.map (·.1)) outlines) :
    ∃ nodes, compile source d = .ok nodes ∧ Node.outlines offset nodes = outlines := by
  rw [← Layout.map_tag_ofRuns true scan.head 0] at h
  obtain ⟨nodes, hnodes, houtlines⟩ := Tree.ofLayout_of_nests h
  exact ⟨nodes, compile_eq_ok_iff.2 ⟨scan, hscan, hnodes⟩, houtlines⟩

end Template
end Mustache
