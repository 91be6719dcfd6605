import Mustache.Files.Tree
import Mustache.Proofs.Contained

/-!
# Mustache.Proofs.Overwriting

Overwriting a file that is there. Paths lead where they led before, and only the paths that lead to
the file read anything else (`Files.read_put`). A path that a file can be read at is one that it can
be created at, and leads to the same place (`Files.place_of_read`).
-/

namespace Mustache

/-! ## Places of a tree -/

namespace Entry

/-- What a file holds; a folder holds no octets of its own. -/
def octets? : Entry → Option (List UInt8)
  | .file octets => some octets
  | .folder _ => none

/-- What is at a place: nothing, a folder, or a file with its octets. -/
def view (here : Entry) (names : List String) : Option (Option (List UInt8)) :=
  (here.at? names).map octets?

@[simp] theorem at?_nil (here : Entry) : here.at? [] = some here := by
  unfold at?
  rfl

@[simp] theorem at?_folder_cons (entries : List (String × Entry)) (name : String)
    (names : List String) :
    (folder entries).at? (name :: names) = (entries.lookup name).bind (·.at? names) := by
  rw [at?]
  cases entries.lookup name <;> rfl

theorem at?_append (here : Entry) (names more : List String) :
    here.at? (names ++ more) = (here.at? names).bind (·.at? more) := by
  induction names generalizing here with
  | nil => simp
  | cons name names ih =>
    cases here with
    | file octets => rfl
    | folder entries =>
      rw [List.cons_append, at?_folder_cons, at?_folder_cons, Option.bind_assoc]
      simp only [ih]

theorem view_folder_cons (entries : List (String × Entry)) (name : String) (names : List String) :
    (folder entries).view (name :: names) = (entries.lookup name).bind (·.view names) := by
  rw [view, at?_folder_cons]
  cases entries.lookup name <;> rfl

theorem view_eq_folder_iff {here : Entry} {names : List String} :
    here.view names = some none ↔ ∃ entries, here.at? names = some (.folder entries) := by
  rw [view]
  cases here.at? names with
  | none => simp
  | some entry => cases entry <;> simp [octets?]

/-- What is right below a folder. -/
theorem view_concat {here : Entry} {names : List String} {entries : List (String × Entry)}
    (h : here.at? names = some (.folder entries)) (name : String) :
    here.view (names ++ [name]) = (entries.lookup name).map octets? := by
  rw [view, at?_append, h, Option.bind_some, at?_folder_cons]
  cases entries.lookup name <;> simp

/-- A file put in the place of a file changes what is at that place, and nothing else. -/
theorem view_put {here : Entry} {names : List String} {old : List UInt8}
    (h : here.view names = some (some old)) (octets : List UInt8) (other : List String) :
    (here.put names (.file octets)).view other =
      if other = names then some (some octets) else here.view other := by
  induction names generalizing here other with
  | nil =>
    cases here with
    | folder entries => cases h
    | file held =>
      cases other with
      | nil => rfl
      | cons name other => rfl
  | cons name names ih =>
    cases here with
    | file held => cases h
    | folder entries =>
      rw [view_folder_cons] at h
      obtain ⟨entry, hentry, hheld⟩ := Option.bind_eq_some_iff.1 h
      have hput : (folder entries).put (name :: names) (.file octets) =
          .folder (insert name (entry.put names (.file octets)) entries) := by
        rw [put, Entry.entries, hentry]
        rfl
      rw [hput]
      cases other with
      | nil => rfl
      | cons first other =>
        rw [view_folder_cons, view_folder_cons]
        by_cases hfirst : first = name
        · subst hfirst
          simp [lookup_insert_self, hentry, ih hheld]
        · simp [lookup_insert_of_ne hfirst, hfirst]

end Entry

/-! ## Paths -/

namespace Files

variable {files : Files} {names : List String} {old : List UInt8} {path : FilePath}

/-- One piece of a path is followed by what is at a place and right below it. -/
theorem step_eq (files : Files) (place : List String) (piece : List Char) :
    files.step place piece =
      if files.root.view place = some none then
        if piece = [] ∨ piece = ['.'] then .ok place
        else if piece = ['.', '.'] then .ok place.dropLast
        else if Text.byteSize piece > nameLimit then .error .nameTooLong
        else if (files.root.view (place ++ [String.ofList piece])).isSome then
          .ok (place ++ [String.ofList piece])
        else .error .notFound
      else .error .notFolder := by
  unfold step
  split
  · next entries hfolder =>
    rw [if_pos (Entry.view_eq_folder_iff.2 ⟨entries, hfolder⟩), Entry.view_concat hfolder,
      Option.isSome_map]
  · next hfolder =>
    rw [if_neg]
    intro hview
    obtain ⟨entries, hentries⟩ := Entry.view_eq_folder_iff.1 hview
    exact hfolder entries hentries

theorem step_put (h : files.root.view names = some (some old)) (octets : List UInt8) :
    (files.put names octets).step = files.step := by
  have hview := Entry.view_put h octets
  funext place piece
  have hfolder : (files.put names octets).root.view place = some none ↔
      files.root.view place = some none := by
    rw [put, hview]
    split
    · next hplace => simp [hplace, h]
    · rfl
  have hbelow : ((files.put names octets).root.view (place ++ [String.ofList piece])).isSome =
      (files.root.view (place ++ [String.ofList piece])).isSome := by
    rw [put, hview]
    split
    · next hplace => simp [hplace, h]
    · rfl
  simp only [step_eq, hfolder, hbelow]

theorem locate_put (h : files.root.view names = some (some old)) (octets : List UInt8)
    (path : FilePath) : (files.put names octets).locate path = files.locate path := by
  rw [locate, locate, follow, follow, step_put h]
  rfl

/-! ## Reading -/

theorem read_eq (files : Files) (path : FilePath) :
    files.read path = (files.locate path).bind fun place =>
      match files.root.view place with
      | some (some octets) => .ok octets
      | some none => .error .isFolder
      | none => .error .notFound := by
  rw [read]
  cases files.locate path with
  | error fault => rfl
  | ok place =>
    simp only [bind, Except.bind, Entry.view]
    cases files.root.at? place with
    | none => rfl
    | some entry => cases entry <;> rfl

theorem read_eq_ok_iff {octets : List UInt8} : files.read path = .ok octets ↔
    ∃ place, files.locate path = .ok place ∧ files.root.view place = some (some octets) := by
  rw [read_eq]
  cases files.locate path with
  | error fault => simp [Except.bind]
  | ok place =>
    simp only [Except.bind, Except.ok.injEq, exists_eq_left']
    cases files.root.view place with
    | none => simp
    | some held => cases held <;> simp

/-- What was written to a file is read at every path that leads to it. -/
theorem read_put_self (h : files.root.view names = some (some old)) (octets : List UInt8)
    (hpath : files.locate path = .ok names) : (files.put names octets).read path = .ok octets := by
  refine read_eq_ok_iff.2 ⟨names, by rw [locate_put h, hpath], ?_⟩
  rw [put, Entry.view_put h, if_pos rfl]

/-- A path that does not lead to the file reads what it did before. -/
theorem read_put (h : files.root.view names = some (some old)) (octets : List UInt8)
    (hpath : files.locate path ≠ .ok names) :
    (files.put names octets).read path = files.read path := by
  rw [read_eq, read_eq, locate_put h]
  cases hlocate : files.locate path with
  | error fault => rfl
  | ok place =>
    have hplace : place ≠ names := by
      rintro rfl
      exact hpath hlocate
    simp only [Except.bind, put, Entry.view_put h, if_neg hplace]

theorem readText_eq (files : Files) (path : FilePath) :
    files.readText path = (files.read path).bind fun octets =>
      match Text.ofOctets? octets with
      | some text => .ok (String.ofList text)
      | none => .error .notText :=
  rfl

theorem readText_of_read {octets : List UInt8} {text : String} (h : files.read path = .ok octets)
    (htext : Text.ofOctets? octets = some text.toList) : files.readText path = .ok text := by
  rw [readText_eq, h]
  simp only [Except.bind, htext, String.ofList_toList]

theorem readText_put (h : files.root.view names = some (some old)) (octets : List UInt8)
    (hpath : files.locate path ≠ .ok names) :
    (files.put names octets).readText path = files.readText path := by
  rw [readText_eq, readText_eq, read_put h octets hpath]

/-! ## Creating -/

/-- A folder lies in a folder. -/
theorem view_dropLast {place : List String} (h : files.root.view place = some none) :
    files.root.view place.dropLast = some none := by
  rcases List.eq_nil_or_concat place with rfl | ⟨front, name, rfl⟩
  · exact h
  · rw [List.concat_eq_append] at h ⊢
    rw [List.dropLast_concat]
    rw [Entry.view, Entry.at?_append] at h
    cases hfront : files.root.at? front with
    | none =>
      rw [hfront] at h
      cases h
    | some entry =>
      cases entry with
      | file octets =>
        rw [hfront] at h
        cases h
      | folder entries => exact Entry.view_eq_folder_iff.2 ⟨entries, hfront⟩

/-- The last piece of a path to a file is a name in the folder that the pieces before lead to. -/
theorem step_of_file {place names : List String} {piece : List Char}
    (hstep : files.step place piece = .ok names)
    (hfile : files.root.view names = some (some old)) :
    files.root.view place = some none ∧ piece ≠ [] ∧ piece ≠ ['.'] ∧ piece ≠ ['.', '.'] ∧
      ¬ Text.byteSize piece > nameLimit ∧ names = place ++ [String.ofList piece] := by
  rw [step_eq] at hstep
  split at hstep
  · next hfolder =>
    split at hstep
    · cases hstep
      rw [hfolder] at hfile
      cases hfile
    · next hhere =>
      split at hstep
      · cases hstep
        rw [view_dropLast hfolder] at hfile
        cases hfile
      · next hup =>
        split at hstep
        · cases hstep
        · next hsize =>
          split at hstep
          · cases hstep
            rw [not_or] at hhere
            exact ⟨hfolder, hhere.1, hhere.2, hup, hsize, rfl⟩
          · cases hstep
  · cases hstep

end Files

theorem FilePath.not_endsInSlash {path : FilePath} {front : List (List Char)} {last : List Char}
    (h : path.pieces = front ++ [last]) (hlast : last ≠ []) : path.endsInSlash = false := by
  rw [endsInSlash, decide_eq_false_iff_not]
  intro hslash
  obtain ⟨text, htext⟩ := List.getLast?_eq_some_iff.1 hslash
  rw [FilePath.pieces, htext, pieces_slash] at h
  exact hlast (List.singleton_inj.1 (List.append_inj_right' h rfl)).symm

namespace Files

variable {files : Files} {names : List String} {old : List UInt8} {path : FilePath}

theorem follow_concat_eq_ok_iff {pieces : List (List Char)} {piece : List Char} :
    files.follow path (pieces ++ [piece]) = .ok names ↔
      ∃ place, files.follow path pieces = .ok place ∧ files.step place piece = .ok names := by
  rw [follow, follow, List.foldlM_append]
  cases pieces.foldlM files.step (if path.isAbsolute then [] else files.current) with
  | error fault => simp [bind, Except.bind]
  | ok place =>
    simp only [bind, Except.bind, Except.ok.injEq, exists_eq_left', List.foldlM_cons,
      List.foldlM_nil]
    cases files.step place piece with
    | error fault => simp
    | ok found => simp [pure, Except.pure]

theorem locate_eq_ok_iff : files.locate path = .ok names ↔
    checkPath path = .ok () ∧ files.follow path path.pieces = .ok names := by
  rw [locate]
  cases checkPath path with
  | error fault => simp [bind, Except.bind]
  | ok => simp [bind, Except.bind]

/-- A path that a file can be read at is one that it can be created at, and leads to the same
place. -/
theorem place_of_read (h : files.read path = .ok old) :
    ∃ names, files.locate path = .ok names ∧ files.place path = .ok names ∧
      files.root.view names = some (some old) := by
  obtain ⟨names, hlocate, hfile⟩ := read_eq_ok_iff.1 h
  refine ⟨names, hlocate, ?_, hfile⟩
  obtain ⟨hcheck, hfollow⟩ := locate_eq_ok_iff.1 hlocate
  obtain ⟨front, last, hpieces⟩ : ∃ front last, path.pieces = front ++ [last] :=
    ⟨_, _, (List.dropLast_concat_getLast (Text.splitWhere_ne_nil _ _)).symm⟩
  rw [hpieces] at hfollow
  obtain ⟨folder, hfront, hstep⟩ := follow_concat_eq_ok_iff.1 hfollow
  obtain ⟨hfolder, hempty, hcurrent, hparent, hsize, rfl⟩ := step_of_file hstep hfile
  obtain ⟨entries, hentries⟩ := Entry.view_eq_folder_iff.1 hfolder
  rw [Entry.view_concat hentries] at hfile
  obtain ⟨entry, hentry, hheld⟩ := Option.map_eq_some_iff.1 hfile
  -- the last piece is a name, so creating cuts no slash off the path
  have hnamed : (path.pieces.reverse.dropWhile List.isEmpty).reverse = front ++ [last] := by
    rw [hpieces, List.reverse_append, List.reverse_singleton, List.singleton_append,
      List.dropWhile_cons_of_neg (by simpa using hempty)]
    simp
  rw [place, hcheck, hnamed]
  simp only [bind, Except.bind, List.dropLast_concat, hfront, List.getLast?_concat, hentries,
    FilePath.not_endsInSlash hpieces hempty, hcurrent, hparent, hsize, hentry]
  cases entry with
  | file octets => simp
  | folder entries => cases hheld

end Files
end Mustache
