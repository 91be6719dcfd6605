import Mustache.Cli.Render
import Mustache.Proofs.Overwriting
import Mustache.Proofs.Refinement
import Mustache.Proofs.Scanning

/-!
# Mustache.Proofs.Output

What a render leaves in a file that is there already. The file is emptied before anything is read
(`Cli.render_overwrites`): no other file changes, and where none of the files that the render reads
is that file, it holds in the end what would have been printed, which is nothing if the template or
the data cannot be loaded.
-/

namespace Mustache

/-! ## Texts without tags -/

theorem Text.cut?_nil {pattern : List Char} (h : pattern ≠ []) : cut? pattern [] = none := by
  rw [cut?, if_neg]
  rwa [List.isEmpty_iff]

/-- A source in which no tag opens is a text. -/
theorem Template.parse_of_cut?_eq_none {source : String} {d : Delimiters}
    (h : Text.cut? d.opening.toList source.toList = none) (name : Option String) :
    parse source name d = .ok ⟨name, (Tree.addText source.toList []).reverse⟩ := by
  rw [parse_eq_ok_iff, compile_eq_ok_iff]
  refine ⟨⟨_, Scan.ofSource_of_cut?_eq_none .start h, ?_⟩, rfl⟩
  rw [Layout.ofScan, Layout.ofRuns, Text.dropBytes_zero]
  rfl

namespace Cli

variable {files files' : Files} {config : Config} {request : RenderRequest} {fault : Fault}

theorem loadData_congr {path : Option FilePath}
    (h : ∀ source, path = some source → files'.readText source = files.readText source) :
    loadData files' path = loadData files path := by
  cases path with
  | none => rfl
  | some source => rw [loadData, loadData, h source rfl]

namespace RenderRequest

/-- The files that a request may read: the template, the data, and the files of partials. -/
inductive Reads (config : Config) (request : RenderRequest) : FilePath → Prop
  | template : Reads config request request.template
  | data {path : FilePath} (h : request.data = some path) : Reads config request path
  | inclusion {folder path : FilePath} {name : String}
      (hfolder : (request.partials <|> config.partials.folder) = some folder)
      (hpath : PartialFolder.pathFor? ⟨folder, config.partials.extension⟩ name = some path) :
    Reads config request path

/-- Loading reads the template and the data. -/
theorem load_congr
    (htemplate : files'.readText request.template = files.readText request.template)
    (hdata : ∀ source, request.data = some source →
      files'.readText source = files.readText source) :
    request.load files' config = request.load files config := by
  rw [load, load, htemplate, loadData_congr hdata]
  rfl

theorem engine_congr
    (h : ∀ source, request.Reads config source → files'.readText source = files.readText source) :
    request.engine files' config = request.engine files config := by
  rw [engine, engine]
  cases hfolder : request.partials <|> config.partials.folder with
  | none => rfl
  | some folder =>
    have hsource : PartialFolder.partials files' ⟨folder, config.partials.extension⟩ =
        PartialFolder.partials files ⟨folder, config.partials.extension⟩ := by
      funext name
      rw [PartialFolder.partials, PartialFolder.partials, PartialFolder.source?,
        PartialFolder.source?]
      cases hpath : PartialFolder.pathFor? ⟨folder, config.partials.extension⟩ name with
      | none => rfl
      | some path => simp only [h path (.inclusion hfolder hpath)]
    simp only [hsource]

/-- A render depends on the files that it may read, and on no others. -/
theorem text_congr
    (h : ∀ source, request.Reads config source → files'.readText source = files.readText source) :
    request.text files' config = request.text files config := by
  rw [text, text, engine_congr h,
    load_congr (h _ .template) fun source hsource => h source (.data hsource)]

theorem text_of_load_error (h : request.load files config = .error fault) :
    request.text files config = (.error fault, "") := by
  rw [text, h]

/-- A template in which no tag opens renders to itself, once the data is loaded. -/
theorem text_of_cut?_eq_none {source : String} (h : files.readText request.template = .ok source)
    (hcut : Text.cut? (request.engine files config).options.delimiters.opening.toList
      source.toList = none) :
    request.text files config =
      match loadData files request.data with
      | .error fault => (.error (.data fault), "")
      | .ok _ => (.ok (), source) := by
  let template : Template := ⟨some request.template.text, (Tree.addText source.toList []).reverse⟩
  have hcompile : (request.engine files config).compile (some request.template.text) source =
      .ok template := by
    rw [Engine.compile, Template.parse_of_cut?_eq_none hcut]
  have hrender (data : Data Unit) : (request.engine files config).renderTo Engine.lambdaLimit
      Sink.text template data ⟨"", ()⟩ = (.ok (), ⟨source, ()⟩) := by
    rw [Engine.renderTo, Engine.renderWithin_eq, renderNodes_addText, List.reverse_nil,
      List.nil_append, renderNodes_singleton, String.ofList_toList]
    show (Except.ok (), (⟨"" ++ source, ()⟩ : Output String Unit)) = _
    rw [String.empty_append]
  rw [text, load, h]
  simp only [hcompile]
  cases loadData files request.data with
  | error fault => rfl
  | ok document => simp only [hrender]

end RenderRequest

/-! ## Rendering to a file -/

theorem render_of_place {path : FilePath} {names : List String}
    (houtput : request.output = some path) (hplace : files.place path = .ok names) :
    render files config request =
      ⟨(request.text (files.put names []) config).1, "",
        files.put names (Text.toOctets (request.text (files.put names []) config).2.toList)⟩ := by
  rw [render, houtput]
  simp only [hplace]

/-- What is printed without an output file does not depend on the output file. -/
theorem render_printing (files : Files) (config : Config) (request : RenderRequest) :
    render files config { request with output := none } =
      ⟨(request.text files config).1, (request.text files config).2, files⟩ :=
  rfl

/-- Rendering to a file that is there empties it before anything is read. Every path that leads
elsewhere reads the same afterwards, and what is read on the way is read with the file empty. If
the template or the data cannot be loaded so, the render fails with that fault and leaves the file
empty; loading goes on as ever where neither of them is the file. Where no file that the render may
read is the file, it ends as if it printed, and the file holds what would have been printed. A
template that is to be overwritten is rendered as an empty one, whatever it held. -/
theorem render_overwrites {path : FilePath} {old : List UInt8}
    (houtput : request.output = some path) (hold : files.read path = .ok old) :
    let outcome := render files config request
    let printing := render files config { request with output := none }
    outcome.printed = "" ∧
    (∀ other, files.locate other ≠ files.locate path →
      outcome.files.read other = files.read other) ∧
    ∃ emptied : Files,
      (∀ other, files.locate other = files.locate path → emptied.readText other = .ok "") ∧
      (∀ other, files.locate other ≠ files.locate path →
        emptied.readText other = files.readText other) ∧
      (∀ fault, request.load emptied config = .error fault →
        outcome.result = .error fault ∧ outcome.files.read path = .ok []) ∧
      (files.locate request.template ≠ files.locate path →
        (∀ source, request.data = some source → files.locate source ≠ files.locate path) →
        request.load emptied config = request.load files config) ∧
      ((∀ source, request.Reads config source → files.locate source ≠ files.locate path) →
        outcome.result = printing.result ∧
          outcome.files.read path = .ok (Text.toOctets printing.printed.toList)) ∧
      (files.locate request.template = files.locate path →
        outcome.result = ((loadData emptied request.data).mapError Fault.data).map (fun _ => ()) ∧
          outcome.files.read path = .ok []) := by
  intro outcome printing
  obtain ⟨names, hlocate, hplace, hfile⟩ := files.place_of_read hold
  have houtcome : outcome = _ := render_of_place houtput hplace
  have hprinting : printing = _ := render_printing files config request
  have hwritten (octets : List UInt8) : (files.put names octets).read path = .ok octets :=
    Files.read_put_self hfile octets hlocate
  have hempty : ∀ other, files.locate other = files.locate path →
      (files.put names []).readText other = .ok "" := by
    intro other hother
    rw [Files.readText_eq, Files.read_put_self hfile [] (hother.trans hlocate)]
    rfl
  have helsewhere : ∀ other, files.locate other ≠ files.locate path →
      (files.put names []).readText other = files.readText other := by
    intro other hother
    rw [hlocate] at hother
    exact Files.readText_put hfile [] hother
  rw [houtcome, hprinting]
  refine ⟨rfl, ?_, files.put names [], hempty, helsewhere, ?_, ?_, ?_, ?_⟩
  · intro other hother
    rw [hlocate] at hother
    exact Files.read_put hfile _ hother
  · intro fault hload
    rw [RenderRequest.text_of_load_error hload]
    exact ⟨rfl, hwritten []⟩
  · intro htemplate hdata
    exact RenderRequest.load_congr (helsewhere _ htemplate)
      fun source hsource => helsewhere source (hdata source hsource)
  · intro hsources
    rw [RenderRequest.text_congr fun source hsource => helsewhere source (hsources source hsource)]
    exact ⟨rfl, hwritten _⟩
  · intro htemplate
    rw [RenderRequest.text_of_cut?_eq_none (hempty _ htemplate)
      (Text.cut?_nil (Delimiters.opening_ne_nil _))]
    cases loadData (files.put names []) request.data with
    | error fault => exact ⟨rfl, hwritten []⟩
    | ok document => exact ⟨rfl, hwritten []⟩

/-- A file that is not read, overwritten with what is printed. -/
theorem render_overwrites_text :
    let files : Files := ⟨.folder [("o", .file [0x62, 0x63]), ("t", .file [0x61])], []⟩
    let request : RenderRequest := ⟨⟨"t"⟩, none, none, some ⟨"./o"⟩, false⟩
    files.read ⟨"./o"⟩ = .ok [0x62, 0x63] ∧
      (render files .standard request).result = .ok () ∧
      (render files .standard request).files.read ⟨"./o"⟩ = .ok [0x61] := by
  intro files request
  have hold : files.read ⟨"./o"⟩ = .ok [0x62, 0x63] := by rfl
  obtain ⟨_, _, _, _, _, _, _, hprints, _⟩ :=
    @render_overwrites files .standard request ⟨"./o"⟩ _ rfl hold
  have hsources : ∀ source, request.Reads .standard source →
      files.locate source ≠ files.locate ⟨"./o"⟩ := by
    have houtput : files.locate ⟨"./o"⟩ = .ok ["o"] := by rfl
    have htemplate : files.locate request.template = .ok ["t"] := by
      simp only [files, request]
      rfl
    intro source hsource
    cases hsource with
    | template => simp [houtput, htemplate]
    | data h => cases h
    | inclusion hfolder => cases hfolder
  have hread : files.read request.template = .ok [0x61] := by
    simp only [files, request]
    rfl
  have htemplate : files.readText request.template = .ok "a" :=
    Files.readText_of_read hread (by decide)
  have hprinting : render files .standard { request with output := none } =
      ⟨.ok (), "a", files⟩ := by
    rw [render_printing, RenderRequest.text_of_cut?_eq_none htemplate (by decide)]
    rfl
  obtain ⟨hresult, hread⟩ := hprints hsources
  rw [hprinting] at hresult hread
  have hoctets : Text.toOctets "a".toList = [0x61] := by decide
  exact ⟨hold, hresult, hread.trans (congrArg Except.ok hoctets)⟩

/-- A file is lost to a template that is not there, and to being its own template. -/
theorem render_empties_output :
    let files : Files := ⟨.folder [("o", .file [0x61])], []⟩
    let missing : RenderRequest := ⟨⟨"t"⟩, none, none, some ⟨"o"⟩, false⟩
    let same : RenderRequest := ⟨⟨"o"⟩, none, none, some ⟨"o"⟩, false⟩
    files.read ⟨"o"⟩ = .ok [0x61] ∧
      (render files .standard missing).result = .error (.unreadableTemplate ⟨"t"⟩ .notFound) ∧
      (render files .standard missing).files.read ⟨"o"⟩ = .ok [] ∧
      (render files .standard { same with output := none }).result = .ok () ∧
      (render files .standard { same with output := none }).printed = "a" ∧
      (render files .standard same).result = .ok () ∧
      (render files .standard same).files.read ⟨"o"⟩ = .ok [] := by
  intro files missing same
  have hlost : (files.put ["o"] []).read ⟨"o"⟩ = .ok [] :=
    @Files.read_put_self files ["o"] [0x61] ⟨"o"⟩ rfl [] rfl
  have hmissing : missing.text (files.put ["o"] []) .standard =
      (.error (.unreadableTemplate ⟨"t"⟩ .notFound), "") := by
    simp only [files, missing]
    rfl
  have hread : files.read ⟨"o"⟩ = .ok [0x61] := rfl
  have hprinted : same.text files .standard = (.ok (), "a") :=
    RenderRequest.text_of_cut?_eq_none (Files.readText_of_read hread (by decide)) (by decide)
  have hsame : same.text (files.put ["o"] []) .standard = (.ok (), "") :=
    RenderRequest.text_of_cut?_eq_none (Files.readText_of_read hlost (by decide)) (by decide)
  rw [@render_of_place files .standard missing ⟨"o"⟩ ["o"] rfl rfl, hmissing,
    @render_of_place files .standard same ⟨"o"⟩ ["o"] rfl rfl, hsame, render_printing, hprinted]
  exact ⟨hread, rfl, hlost, rfl, rfl, rfl, hlost⟩

end Cli
end Mustache
