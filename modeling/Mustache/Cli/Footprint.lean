import Mustache.Cli.Arguments

/-!
# Mustache.Cli.Footprint

The parts of a file system that a run may look at or change.
-/

namespace Mustache
namespace Glob

/-- The folder that a path reaches before the first part that asks for more than one name. -/
def fixedFolder (folder : FilePath) : List Part → FilePath
  | .entry name :: parts => fixedFolder (entryPath folder (String.ofList name)) parts
  | _ => folder

end Glob

namespace Cli

def Invocation.configPath (invocation : Invocation) : FilePath :=
  invocation.config.getD Config.standardPath

/-- The files and folders that a command may read, each with all that is in it. -/
def Command.sources (config : Config) : Command → List FilePath
  | .render request =>
    request.template :: request.data.toList ++ request.output.toList ++
      (request.partials <|> config.partials.folder).toList
  | .check patterns =>
    patterns.filterMap fun text =>
      match Glob.Pattern.ofText text with
      | .ok pattern => some (Glob.fixedFolder pattern.start pattern.parts)
      | .error _ => none

def Command.targets : Command → List FilePath
  | .render request => request.output.toList
  | .check _ => []

end Cli
end Mustache
