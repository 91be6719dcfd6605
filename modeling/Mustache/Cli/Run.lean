import Mustache.Cli.Arguments
import Mustache.Cli.Check

/-!
# Mustache.Cli.Run

The whole program: from its arguments and the file system to its exit code, what it prints, and
the file system that it leaves behind.
-/

namespace Mustache
namespace Cli

structure Outcome where
  code : UInt8
  stdout : String
  stderr : String
  files : Files

def versionText : String := "stache 0.1.0\n"

def helpText : String :=
  "\n".intercalate ["Render and check Mustache templates", "",
    "Usage: stache [OPTIONS] <COMMAND>", "",
    "Commands:",
    "  render  Render a template against a JSON or TOML data file",
    "  check   Compile templates and report syntax errors", ""]

namespace Outcome

/-- What comes of arguments that name no command to run. -/
def ofStop (files : Files) : Stop → Outcome
  | .version => ⟨0, versionText, "", files⟩
  | .help => ⟨0, helpText, "", files⟩
  | .misuse misuse => ⟨2, "", "error: " ++ misuse.message ++ "\n", files⟩

def ofFault (files : Files) (printed : String) (fault : Fault) : Outcome :=
  ⟨1, printed, fault.report, files⟩

def ofRender (request : RenderRequest) (outcome : RenderOutcome) : Outcome :=
  match outcome.result with
  | .error fault => ofFault outcome.files outcome.printed fault
  | .ok () =>
    let note :=
      match request.output with
      | none => ""
      | some path => "Rendered " ++ path.text ++ "\n"
    ⟨0, outcome.printed, note, outcome.files⟩

def ofCheck (files : Files) (report : CheckReport) : Outcome :=
  ⟨if report.isClean then 0 else 1, report.text, "", files⟩

end Outcome

def Command.run (files : Files) (config : Config) : Command → Outcome
  | .render request => .ofRender request (Cli.render files config request)
  | .check patterns =>
    match Cli.check files config patterns with
    | .ok report => .ofCheck files report
    | .error fault => .ofFault files "" fault

def run (files : Files) (arguments : List String) : Outcome :=
  match Invocation.ofArguments arguments with
  | .error stop => .ofStop files stop
  | .ok invocation =>
    match Config.load files invocation.config with
    | .error fault => .ofFault files "" fault
    | .ok config => invocation.command.run files config

end Cli
end Mustache
