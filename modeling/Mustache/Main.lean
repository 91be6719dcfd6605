import Mustache.Cli.Footprint
import Mustache.Cli.Run

/-!
# Mustache.Main

The program on a real file system. It loads the files that a run may read, runs, prints, and
writes the files that the run has changed.
-/

namespace Mustache
namespace Main

/-- Loads a file, or a folder with all that is in it. What cannot be read is not there. -/
partial def load (place : IO.FS.DirEntry) : IO (Option Entry) := do
  try
    if ← place.path.isDir then
      let mut entries := []
      for child in ← place.path.readDir do
        if let some entry ← load child then
          entries := Entry.insert child.fileName entry entries
      return some (.folder entries)
    else return some (.file (← IO.FS.readBinFile place.path).data.toList)
  catch _ => return none

/-- Loads what is at a path, and what leads there, into a file system. -/
def loadPath (files : Files) (path : FilePath) : IO Files := do
  let mut files := files
  let mut names := if path.isAbsolute then [] else files.current
  for component in path.components do
    match component with
    | .root | .current => pure ()
    | .parent => names := names.dropLast
    | .name text =>
      names := names ++ [text]
      if (files.root.at? names).isNone then
        let place : IO.FS.DirEntry := ⟨"/", "/".intercalate names⟩
        if ← place.path.isDir then
          files := { files with root := files.root.put names (.folder []) }
        else if ← place.path.pathExists then
          files := { files with root := files.root.put names (.file []) }
  if let some entry ← load ⟨"/", "/".intercalate names⟩ then
    files := { files with root := files.root.put names entry }
  return files

/-- A file system in which nothing is loaded but the way to the working folder. -/
def start : IO Files := do
  let names := (FilePath.mk (← IO.currentDir).toString).components.filterMap fun
    | .name text => some text
    | _ => none
  return ⟨Entry.put (.folder []) names (.folder []), names⟩

def save (before after : Files) (paths : List FilePath) : IO Unit := do
  for path in paths do
    match before.read path, after.read path with
    | held, .ok octets =>
      if held.toOption ≠ some octets then
        IO.FS.writeBinFile path.text ⟨octets.toArray⟩
    | _, .error _ => pure ()

def run (arguments : List String) : IO UInt32 := do
  let mut files ← start
  let mut targets := []
  if let .ok invocation := Cli.Invocation.ofArguments arguments then
    files ← loadPath files invocation.configPath
    if let .ok config := Cli.Config.load files invocation.config then
      files ← (invocation.command.sources config).foldlM loadPath files
      targets := invocation.command.targets
  let outcome := Cli.run files arguments
  IO.print outcome.stdout
  IO.eprint outcome.stderr
  save files outcome.files targets
  return outcome.code.toUInt32

end Main
end Mustache

def main (arguments : List String) : IO UInt32 :=
  Mustache.Main.run arguments
