import Mustache.Files.Search
import Mustache.Render

/-!
# Mustache.Cli.Fault

Why a command failed. A fault has a message and the messages of what lies behind it.
-/

namespace Mustache
namespace Cli

inductive DataFault where
  | unreadable (path : FilePath) (cause : FileFault)
  | badJson (path : FilePath)
  | badToml (path : FilePath)
  /-- The extension names neither format. -/
  | unsupported (path : FilePath)
  deriving DecidableEq, Repr

def DataFault.message : DataFault → String
  | .unreadable path cause => "failed to read data file " ++ path.text ++ ": " ++ cause.message
  | .badJson path => "invalid JSON in " ++ path.text
  | .badToml path => "invalid TOML in " ++ path.text
  | .unsupported path =>
    "unsupported data file " ++ path.text ++ ": expected a .json or .toml extension"

inductive Fault where
  | halted (halt : Halt)
  | data (fault : DataFault)
  | unreadable (path : FilePath) (cause : FileFault)
  | unreadableTemplate (path : FilePath) (cause : FileFault)
  | cannotCreate (path : FilePath) (cause : FileFault)
  | badConfig (path : FilePath)
  | badPattern (pattern : String) (cause : Glob.Fault)
  deriving DecidableEq, Repr

namespace Fault

def message : Fault → String
  | .halted (.failed error) => error.message
  | .halted .exhausted => "lambdas are nested too deeply"
  | .data fault => fault.message
  | .unreadable path _ => "failed to read " ++ path.text
  | .unreadableTemplate path _ => "failed to read template " ++ path.text
  | .cannotCreate path _ => "failed to create " ++ path.text
  | .badConfig path => "invalid configuration in " ++ path.text
  | .badPattern pattern _ => "invalid glob pattern " ++ Text.quoted pattern

/-- The messages of what lies behind a fault, outermost first. -/
def causes : Fault → List String
  | .halted (.failed (.sink error)) =>
    match error with
    | .write cause => [error.message, cause]
    | _ => [error.message]
  | .data (.unreadable _ cause) => [cause.message]
  | .unreadable _ cause | .unreadableTemplate _ cause | .cannotCreate _ cause => [cause.message]
  | .badPattern _ cause => [cause.message]
  | .halted _ | .data _ | .badConfig _ => []

/-- What a command reports about the fault that it failed with. -/
def report (fault : Fault) : String :=
  let lines :=
    match fault.causes with
    | [] => []
    | [cause] => ["", "Caused by:", "    " ++ cause]
    | causes =>
      "" :: "Caused by:" :: causes.mapIdx fun n cause => "    " ++ toString n ++ ": " ++ cause
  "\n".intercalate (("Error: " ++ fault.message) :: lines) ++ "\n"

end Fault
end Cli
end Mustache
