import Mustache.Cli.Fault
import Mustache.Options.Document
import Mustache.Toml.Read

/-!
# Mustache.Cli.Config

The configuration of the commands, read from a TOML document in which every table and every
member may be missing.
-/

namespace Mustache
namespace Cli

structure PartialSettings where
  /-- The folder of the partials; without one every partial is empty. -/
  folder : Option FilePath
  /-- The extension of their files, without its dot. -/
  extension : String
  deriving DecidableEq, Repr

def PartialSettings.standard : PartialSettings := ⟨none, "mustache"⟩

structure Config where
  render : Options
  partials : PartialSettings
  deriving DecidableEq

def Config.standard : Config := ⟨.standard, .standard⟩

namespace PartialSettings

/-- Reads the settings from their values, where there are values. -/
def ofValues? (folder extension : Option Json) : Option PartialSettings := do
  let folder ←
    match folder with
    | none => some none
    | some (.string text) => some (some ⟨text⟩)
    | some _ => none
  match extension with
  | none => some ⟨folder, standard.extension⟩
  | some (.string text) => some ⟨folder, text⟩
  | some _ => none

/-- Reads the settings from an object, or from an array that has them in order. -/
def ofJson? (document : Json) : Option PartialSettings :=
  match document with
  | .object _ => ofValues? (document.member? "dir") (document.member? "extension")
  | .array items => ofValues? items[0]? items[1]?
  | _ => none

end PartialSettings

namespace Config

def standardPath : FilePath := ⟨"stache.toml"⟩

/-- Reads the configuration from the document of a TOML text. -/
def ofJson? (document : Json) : Option Config := do
  let render ←
    match document.member? "render" with
    | none => some Options.standard
    | some settings => (Options.ofJson .toml settings).toOption
  let partials ←
    match document.member? "partials" with
    | none => some PartialSettings.standard
    | some settings => PartialSettings.ofJson? settings
  return ⟨render, partials⟩

def ofText? (text : String) : Option Config :=
  (Toml.read? text).bind fun document => ofJson? document.toJson

def ofFile (files : Files) (path : FilePath) : Except Fault Config :=
  match files.readText path with
  | .error cause => .error (.unreadable path cause)
  | .ok text =>
    match ofText? text with
    | some config => .ok config
    | none => .error (.badConfig path)

/-- Loads the configuration from the file named, which has to be there, or from the standard file
if that is there. -/
def load (files : Files) (path : Option FilePath) : Except Fault Config :=
  match path with
  | some path => ofFile files path
  | none => if files.contains standardPath then ofFile files standardPath else .ok standard

end Config
end Cli
end Mustache
