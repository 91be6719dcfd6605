import Mustache.Cli.Config
import Mustache.Engine

/-!
# Mustache.Cli.Check

The command that compiles templates without rendering them.
-/

namespace Mustache
namespace Cli

structure CheckReport where
  passed : List FilePath
  /-- The files that did not, with the message. -/
  failed : List (FilePath × String)
  /-- The patterns that matched no file. -/
  unmatched : List String
  deriving DecidableEq, Repr

namespace CheckReport

def empty : CheckReport := ⟨[], [], []⟩

/-- Whether every pattern matched and every file compiled. -/
def isClean (report : CheckReport) : Bool :=
  report.failed.isEmpty && report.unmatched.isEmpty

def addFile (files : Files) (engine : Engine) (report : CheckReport) (path : FilePath) :
    Except Fault CheckReport :=
  match files.readText path with
  | .error cause => .error (.unreadable path cause)
  | .ok source =>
    match engine.compile (some path.text) source with
    | .ok _ => .ok { report with passed := report.passed ++ [path] }
    | .error error => .ok { report with failed := report.failed ++ [(path, error.message)] }

def addPattern (files : Files) (engine : Engine) (report : CheckReport) (pattern : String) :
    Except Fault CheckReport :=
  match Glob.Pattern.ofText pattern with
  | .error cause => .error (.badPattern pattern cause)
  | .ok read =>
    match (read.paths files).filter files.isFile with
    | [] => .ok { report with unmatched := report.unmatched ++ [pattern] }
    | paths => paths.foldlM (addFile files engine) report

def text (report : CheckReport) : String :=
  let checked := report.passed.length + report.failed.length
  let summary :=
    if report.isClean then "All good! " ++ toString checked ++ " template(s) checked"
    else
      "Check failed: " ++ toString report.failed.length ++ " of " ++ toString checked ++
        " template(s) failed"
  let lines :=
    report.unmatched.map ("Warning: no files match " ++ ·) ++
      report.passed.map (fun path => "ok " ++ path.text) ++
      report.failed.flatMap (fun (path, message) => ["error " ++ path.text, message]) ++
      ["", summary]
  "\n".intercalate lines ++ "\n"

end CheckReport

/-- Checks all files that match the patterns. A file that cannot be read ends the check. -/
def check (files : Files) (config : Config) (patterns : List String) :
    Except Fault CheckReport :=
  let engine : Engine := ⟨fun _ => .ok none, config.render⟩
  patterns.foldlM (CheckReport.addPattern files engine) .empty

end Cli
end Mustache
