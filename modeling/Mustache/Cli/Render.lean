import Mustache.Cli.Config
import Mustache.Cli.Data
import Mustache.Data.Document
import Mustache.Engine
import Mustache.Partials.Folder

/-!
# Mustache.Cli.Render

The command that renders one template with the data of one file, to a file or to the standard
output.
-/

namespace Mustache
namespace Cli

structure RenderRequest where
  template : FilePath
  data : Option FilePath
  /-- The folder of the partials in place of the configured one. -/
  partials : Option FilePath
  output : Option FilePath
  /-- Whether nothing is escaped. -/
  raw : Bool
  deriving DecidableEq, Repr

namespace RenderRequest

/-- The engine that a request and the configuration ask for. -/
def engine (files : Files) (config : Config) (request : RenderRequest) : Engine where
  partials :=
    match request.partials <|> config.partials.folder with
    | some folder => PartialFolder.partials files ⟨folder, config.partials.extension⟩
    | none => fun _ => .ok none
  options := if request.raw then { config.render with escape := .raw } else config.render

def load (files : Files) (config : Config) (request : RenderRequest) :
    Except Fault (Template × Json) :=
  match files.readText request.template with
  | .error cause => .error (.unreadableTemplate request.template cause)
  | .ok source =>
    match (request.engine files config).compile (some request.template.text) source with
    | .error error => .error (.halted (.failed error))
    | .ok template =>
      match loadData files request.data with
      | .error fault => .error (.data fault)
      | .ok document => .ok (template, document)

/-- How a request ends, and the text that it renders to that end. -/
def text (files : Files) (config : Config) (request : RenderRequest) :
    Except Fault Unit × String :=
  match request.load files config with
  | .error fault => (.error fault, "")
  | .ok (template, document) =>
    let data : Data Unit := .ofJson document
    match (request.engine files config).renderTo Engine.lambdaLimit Sink.text template data
        ⟨"", ()⟩ with
    | (.ok (), out) => (.ok (), out.sink)
    | (.error halt, out) => (.error (.halted halt), out.sink)

end RenderRequest

structure RenderOutcome where
  result : Except Fault Unit
  /-- What went to the standard output. -/
  printed : String
  files : Files

/-- Renders as requested. An output file is emptied before anything else is read, and holds what
was rendered even when the render fails. All of that is put into the file at the end. Left out is
that a full buffer of it goes to the file before, which only a partial that is the output file could
see; here such a partial is empty. -/
def render (files : Files) (config : Config) (request : RenderRequest) : RenderOutcome :=
  match request.output with
  | none =>
    let (result, text) := request.text files config
    ⟨result, text, files⟩
  | some path =>
    match files.place path with
    | .error cause => ⟨.error (.cannotCreate path cause), "", files⟩
    | .ok names =>
      let (result, text) := request.text (files.put names []) config
      ⟨result, "", files.put names (Text.toOctets text.toList)⟩

end Cli
end Mustache
