import Mustache.Partials.Folder
import Mustache.Proofs.Pieces

/-!
# Mustache.Proofs.Contained

Files of partials stay in their folder. What is checked are the components of the name of a
partial, and what is used is its text, with the extension behind it. The components of the whole
path are those of the folder and then those of the name, all of them ordinary, the last one with
the extension behind it (`PartialFolder.pathFor?_contained`).
-/

namespace Mustache
namespace FilePath

/-! ## Components -/

/-- A name of an entry of a folder: not empty, without slashes, and none of the two names with a
meaning of their own. -/
structure Ordinary (name : String) : Prop where
  filled : name ≠ ""
  slash : '/' ∉ name.toList
  current : name ≠ "."
  parent : name ≠ ".."

/-- What a path begins with, apart from its names: the root, or a dot. -/
def lead (path : FilePath) : List Component :=
  if path.isAbsolute then [.root]
  else if path.pieces.head? = some ['.'] then [.current]
  else []

theorem components_eq (path : FilePath) :
    path.components = path.lead ++ path.pieces.filterMap Component.ofPiece? :=
  rfl

theorem slash_not_mem_of_mem_pieces {path : FilePath} {piece : List Char}
    (h : piece ∈ path.pieces) : '/' ∉ piece := by
  intro hmem
  simpa using Text.not_of_mem_splitWhere h '/' hmem

theorem pieces_slash (front back : List Char) :
    Text.splitWhere (· == '/') (front ++ '/' :: back) =
      Text.splitWhere (· == '/') front ++ Text.splitWhere (· == '/') back := by
  simp only [Text.splitWhere_eq_splitOnP]
  exact List.splitOnP_append_cons front back rfl

/-- A name among the components is ordinary. -/
theorem ordinary_of_mem_components {path : FilePath} {name : String}
    (h : .name name ∈ path.components) : Ordinary name := by
  have hlead : .name name ∉ path.lead := by
    unfold lead
    split
    · simp
    · split <;> simp
  rw [components_eq, List.mem_append, List.mem_filterMap] at h
  obtain h | ⟨piece, hpiece, h⟩ := h
  · exact absurd h hlead
  · have hslash := slash_not_mem_of_mem_pieces hpiece
    unfold Component.ofPiece? at h
    split at h
    · cases h
    · next hempty =>
      split at h
      · cases h
      · next hparent =>
        cases h
        simp only [not_or] at hempty
        have hlit (s : String) : String.ofList piece = s ↔ piece = s.toList := by
          rw [← String.toList_inj, String.toList_ofList]
        refine ⟨?_, ?_, ?_, ?_⟩
        · rw [Ne, hlit]
          exact hempty.1
        · rwa [String.toList_ofList]
        · rw [Ne, hlit]
          exact hempty.2
        · rw [Ne, hlit]
          exact hparent

/-- A path is contained unless it starts at the root or with a dot, or goes up somewhere. -/
theorem isContained_iff {path : FilePath} :
    path.isContained = true ↔
      path.isAbsolute = false ∧ path.pieces.head? ≠ some ['.'] ∧ ['.', '.'] ∉ path.pieces := by
  have hpieces : (path.pieces.filterMap Component.ofPiece?).all Component.isName = true ↔
      ['.', '.'] ∉ path.pieces := by
    rw [List.all_eq_true]
    constructor
    · intro h hmem
      have hparent := h .parent (List.mem_filterMap.2 ⟨_, hmem, rfl⟩)
      cases hparent
    · intro h component hcomponent
      obtain ⟨piece, hpiece, hof⟩ := List.mem_filterMap.1 hcomponent
      unfold Component.ofPiece? at hof
      split at hof
      · cases hof
      · split at hof
        · next hparent =>
          rw [hparent] at hpiece
          exact absurd hpiece h
        · cases hof
          rfl
  rw [isContained, components_eq, List.all_append, Bool.and_eq_true, hpieces, lead]
  cases path.isAbsolute with
  | true => simp [Component.isName]
  | false =>
    by_cases hdot : path.pieces.head? = some ['.']
    · simp [hdot, Component.isName]
    · simp [hdot]

theorem lead_of_isContained {path : FilePath} (h : path.isContained = true) : path.lead = [] := by
  obtain ⟨habsolute, hdot, _⟩ := isContained_iff.1 h
  rw [lead, habsolute, if_neg Bool.false_ne_true, if_neg hdot]

theorem exists_map_name {components : List Component}
    (h : components.all Component.isName = true) :
    ∃ names : List String, components = names.map .name := by
  induction components with
  | nil => exact ⟨[], rfl⟩
  | cons component components ih =>
    simp only [List.all_cons, Bool.and_eq_true] at h
    obtain ⟨names, rfl⟩ := ih h.2
    cases component with
    | name text => exact ⟨text :: names, rfl⟩
    | root | current | parent => cases h.1

/-- The components of a contained path are ordinary names. -/
theorem exists_names {path : FilePath} (h : path.isContained = true) :
    ∃ names : List String, path.components = names.map .name ∧ ∀ name ∈ names, Ordinary name := by
  obtain ⟨names, hnames⟩ := exists_map_name h
  refine ⟨names, hnames, ?_⟩
  intro name hmem
  refine @ordinary_of_mem_components path name ?_
  rw [hnames]
  exact List.mem_map_of_mem hmem

/-! ## Paths behind a folder -/

/-- A path behind a folder leads from where the folder leads. -/
theorem components_join {folder path : FilePath} (h : path.isContained = true) :
    (folder.join path).components = folder.components ++ path.components := by
  have habsolute := (isContained_iff.1 h).1
  have hlead := lead_of_isContained h
  -- whatever is in front of the slash decides how the whole begins
  have hbehind {front : List Char} {whole : FilePath}
      (hwhole : whole.text.toList = front ++ '/' :: path.text.toList)
      (hfirst : whole.isAbsolute = folder.isAbsolute)
      (hfolder : folder.pieces = Text.splitWhere (· == '/') front ∨
        folder.pieces = Text.splitWhere (· == '/') front ++ [[]]) :
      whole.components = folder.components ++ path.components := by
    have hpieces : whole.pieces = Text.splitWhere (· == '/') front ++ path.pieces := by
      rw [pieces, hwhole, pieces_slash, pieces]
    obtain ⟨first, more, hfront⟩ := List.exists_cons_of_ne_nil
      (Text.splitWhere_ne_nil (· == '/') front)
    have hhead : whole.pieces.head? = folder.pieces.head? := by
      obtain hfolder | hfolder := hfolder
      · rw [hpieces, hfolder, hfront]
        rfl
      · rw [hpieces, hfolder, hfront]
        rfl
    have hnames : (Text.splitWhere (· == '/') front).filterMap Component.ofPiece? =
        folder.pieces.filterMap Component.ofPiece? := by
      obtain hfolder | hfolder := hfolder
      · rw [hfolder]
      · rw [hfolder, List.filterMap_append]
        exact (List.append_nil _).symm
    rw [components_eq, components_eq, components_eq, hlead, lead, lead, hfirst, hhead, hpieces,
      List.filterMap_append, hnames, List.nil_append, List.append_assoc]
  rw [join, habsolute, if_neg Bool.false_ne_true]
  split
  · next hplain =>
    by_cases hempty : folder.text = ""
    · obtain ⟨text⟩ := folder
      subst hempty
      rw [String.empty_append]
      exact (List.nil_append _).symm
    · have hslash : folder.text.toList.getLast? = some '/' :=
        of_decide_eq_true (hplain.resolve_left hempty)
      obtain ⟨front, hfront⟩ := List.getLast?_eq_some_iff.1 hslash
      have hwhole : (folder.text ++ path.text).toList = front ++ '/' :: path.text.toList := by
        rw [String.toList_append, hfront, List.append_assoc, List.singleton_append]
      refine hbehind hwhole ?_ (.inr ?_)
      · rw [isAbsolute, isAbsolute, hwhole, hfront]
        cases front <;> rfl
      · rw [pieces, hfront, pieces_slash]
        rfl
  · next hplain =>
    rw [not_or] at hplain
    have hwhole : (folder.text ++ "/" ++ path.text).toList =
        folder.text.toList ++ '/' :: path.text.toList := by
      simp [String.toList_append]
    refine hbehind hwhole ?_ (.inl rfl)
    have hfilled : folder.text.toList ≠ [] := by
      rw [Ne, String.toList_eq_nil_iff]
      exact hplain.1
    obtain ⟨first, more, htext⟩ := List.exists_cons_of_ne_nil hfilled
    rw [isAbsolute, isAbsolute, hwhole, htext]
    rfl

/-! ## Extensions -/

/-- An extension holds no slash, and does not bring a dot of its own. -/
structure IsExtension (extension : String) : Prop where
  slash : '/' ∉ extension.toList
  dot : extension.toList.head? ≠ some '.'

theorem exists_pieces_withExtension (path : FilePath) {extension : String}
    (h : IsExtension extension) (hfilled : extension ≠ "") :
    ∃ front last, path.pieces = front ++ [last] ∧
      (path.withExtension extension).pieces = front ++ [last ++ '.' :: extension.toList] := by
  have hslash : ∀ c ∈ '.' :: extension.toList, (c == '/') = false := by
    intro c hc
    obtain rfl | hc := List.mem_cons.1 hc
    · rfl
    · rw [beq_eq_false_iff_ne]
      rintro rfl
      exact h.slash hc
  have htext : (path.withExtension extension).text.toList =
      path.text.toList ++ '.' :: extension.toList := by
    rw [withExtension, if_neg hfilled]
    simp [String.toList_append]
  rw [pieces, pieces, htext]
  exact Text.exists_splitWhere_append hslash

/-- With the extension behind it, the last piece is neither one dot nor two. -/
theorem isContained_withExtension {path : FilePath} {extension : String}
    (hpath : path.isContained = true) (h : IsExtension extension) :
    (path.withExtension extension).isContained = true := by
  by_cases hfilled : extension = ""
  · rwa [withExtension, if_pos hfilled]
  obtain ⟨front, last, hpieces, hextended⟩ := path.exists_pieces_withExtension h hfilled
  obtain ⟨habsolute, hdot, hparent⟩ := isContained_iff.1 hpath
  obtain ⟨c, extension', hextension⟩ := List.exists_cons_of_ne_nil
    (mt String.toList_eq_nil_iff.1 hfilled)
  have hc : c ≠ '.' := by
    rintro rfl
    exact h.dot (by rw [hextension]; rfl)
  have hcurrent : last ++ '.' :: extension.toList ≠ ['.'] := by
    intro hlast
    have hlength := congrArg List.length hlast
    simp only [hextension, List.length_append, List.length_cons, List.length_nil] at hlength
    omega
  have hup : last ++ '.' :: extension.toList ≠ ['.', '.'] := by
    intro hlast
    have hlength := congrArg List.length hlast
    simp only [hextension, List.length_append, List.length_cons, List.length_nil] at hlength
    obtain rfl := List.eq_nil_of_length_eq_zero (by omega : last.length = 0)
    simp [hextension, hc] at hlast
  refine isContained_iff.2 ⟨?_, ?_, ?_⟩
  · rw [isAbsolute, withExtension, if_neg hfilled]
    cases htext : path.text.toList with
    | nil => simp [String.toList_append, htext]
    | cons first text =>
      rw [isAbsolute, htext] at habsolute
      simpa [String.toList_append, htext] using habsolute
  · rw [hextended]
    cases front with
    | nil => simpa using hcurrent
    | cons first front =>
      rw [hpieces] at hdot
      exact hdot
  · rw [hextended, List.mem_append, List.mem_singleton, not_or]
    refine ⟨?_, Ne.symm hup⟩
    intro hmem
    exact hparent (by rw [hpieces]; exact List.mem_append_left _ hmem)

/-! ## Names of partials -/

theorem pieces_intercalate {names : List String} (hfilled : names ≠ [])
    (h : ∀ name ∈ names, Ordinary name) :
    (⟨"/".intercalate names⟩ : FilePath).pieces = names.map String.toList := by
  have hslash : ∀ piece ∈ names.map String.toList, '/' ∉ piece := by
    intro piece hpiece
    obtain ⟨name, hname, rfl⟩ := List.mem_map.1 hpiece
    exact (h name hname).slash
  rw [pieces, String.toList_intercalate, Text.splitWhere_eq_iff]
  exact ⟨by simpa using hfilled, hslash, rfl⟩

/-- Ordinary names with single slashes between them are a contained path. -/
theorem isContained_intercalate {names : List String} (h : ∀ name ∈ names, Ordinary name) :
    (⟨"/".intercalate names⟩ : FilePath).isContained = true := by
  cases names with
  | nil => rfl
  | cons name names =>
    have hpieces := pieces_intercalate (List.cons_ne_nil name names) h
    have hfirst := h name List.mem_cons_self
    refine isContained_iff.2 ⟨?_, ?_, ?_⟩
    · -- a slash in front would make the first piece empty
      rw [← Bool.not_eq_true]
      intro habsolute
      obtain ⟨rest, hrest⟩ := List.head?_eq_some_iff.1 (of_decide_eq_true habsolute)
      rw [pieces, hrest] at hpieces
      exact hfirst.filled (String.toList_eq_nil_iff.1 (List.cons.inj hpieces).1.symm)
    · rw [hpieces]
      intro hdot
      exact hfirst.current (String.toList_inj.1 (Option.some.inj hdot))
    · rw [hpieces]
      intro hmem
      obtain ⟨up, hup, heq⟩ := List.mem_map.1 hmem
      exact (h up hup).parent (String.toList_inj.1 heq)

end FilePath

namespace PartialFolder

variable {partials : PartialFolder} {name : String} {path : FilePath}

theorem pathFor?_eq_some_iff : partials.pathFor? name = some path ↔
    (⟨name⟩ : FilePath).isContained = true ∧
      path = (partials.folder.join ⟨name⟩).withExtension partials.extension := by
  rw [pathFor?]
  split
  · next h => simp [h, eq_comm]
  · next h => simp [h]

/-- The extension goes behind what is joined to the folder. -/
theorem join_withExtension (folder path : FilePath) (extension : String)
    (h : path.isContained = true) (hextension : FilePath.IsExtension extension) :
    (folder.join path).withExtension extension = folder.join (path.withExtension extension) := by
  have habsolute := (FilePath.isContained_iff.1 h).1
  have habsolute' := (FilePath.isContained_iff.1
    (FilePath.isContained_withExtension h hextension)).1
  rw [FilePath.join, FilePath.join, habsolute, habsolute', if_neg Bool.false_ne_true,
    if_neg Bool.false_ne_true]
  by_cases hempty : extension = ""
  · simp only [FilePath.withExtension, hempty, if_true]
  · simp only [FilePath.withExtension, hempty, if_false]
    split <;> simp [String.append_assoc]

/-- A partial has a file in the folder or none. Whatever slashes and dots its name is written
with, the path is the folder with a relative path behind it, which is the name with the extension;
that path has only ordinary names as components, and the components of the whole are those of the
folder and then these. Every name that is made of ordinary names with single slashes between them
has such a path. -/
theorem pathFor?_contained (partials : PartialFolder)
    (hextension : FilePath.IsExtension partials.extension) (name : String) :
    (∀ path, partials.pathFor? name = some path →
      ∃ relative : FilePath, path = partials.folder.join relative ∧
        relative = (⟨name⟩ : FilePath).withExtension partials.extension ∧
        relative.isAbsolute = false ∧
        ∃ entries : List String, (∀ entry ∈ entries, FilePath.Ordinary entry) ∧
          relative.components = entries.map .name ∧
          path.components = partials.folder.components ++ entries.map .name) ∧
    ∀ entries : List String, (∀ entry ∈ entries, FilePath.Ordinary entry) →
      name = "/".intercalate entries → ∃ path, partials.pathFor? name = some path := by
  constructor
  · intro path hpath
    obtain ⟨hcontained, rfl⟩ := pathFor?_eq_some_iff.1 hpath
    have hrelative := FilePath.isContained_withExtension hcontained hextension
    obtain ⟨entries, hentries, hordinary⟩ := FilePath.exists_names hrelative
    rw [join_withExtension partials.folder ⟨name⟩ partials.extension hcontained hextension]
    refine ⟨_, rfl, rfl, (FilePath.isContained_iff.1 hrelative).1, entries, hordinary, hentries, ?_⟩
    rw [FilePath.components_join hrelative, hentries]
  · rintro entries hentries rfl
    exact ⟨_, pathFor?_eq_some_iff.2 ⟨FilePath.isContained_intercalate hentries, rfl⟩⟩

/-- A name that ends in a slash and a dot: the dot is dropped from the components, and goes on as
part of a name with the extension behind it. -/
theorem pathFor?_contained_dot :
    let partials : PartialFolder := ⟨⟨"./views/"⟩, "html"⟩
    partials.pathFor? "a//b/." = some ⟨"./views/a//b/..html"⟩ ∧
      ∃ relative : FilePath, relative = ⟨"a//b/..html"⟩ ∧ relative.isAbsolute = false ∧
        relative.components = ["a", "b", "..html"].map .name := by
  intro partials
  have hpath : partials.pathFor? "a//b/." = some ⟨"./views/a//b/..html"⟩ := by decide
  obtain ⟨relative, _, rfl, habsolute, _⟩ :=
    (partials.pathFor?_contained ⟨by decide, by decide⟩ "a//b/.").1 _ hpath
  exact ⟨hpath, _, by decide, habsolute, by decide⟩

end PartialFolder
end Mustache
