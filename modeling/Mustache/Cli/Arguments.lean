import Mustache.Cli.Render

/-!
# Mustache.Cli.Arguments

The arguments of the program: options that count for every command, the name of a command, and
the options and words of that command.
-/

namespace Mustache
namespace Cli

inductive Command where
  | render (request : RenderRequest)
  | check (patterns : List String)
  deriving DecidableEq, Repr

structure Invocation where
  config : Option FilePath
  command : Command
  deriving DecidableEq, Repr

inductive Misuse where
  | unknownOption (text : String)
  | unknownCommand (name : String)
  | unexpectedWord (text : String)
  | missingValue (option : String)
  | unexpectedValue (option : String)
  | repeatedOption (option : String)
  | missingCommand
  | missingWord (name : String)
  deriving DecidableEq, Repr

def Misuse.message : Misuse → String
  | .unknownOption text => "unexpected argument '" ++ text ++ "' found"
  | .unknownCommand name => "unrecognized subcommand '" ++ name ++ "'"
  | .unexpectedWord text => "unexpected argument '" ++ text ++ "' found"
  | .missingValue option => "a value is required for '--" ++ option ++ "' but none was supplied"
  | .unexpectedValue option => "unexpected value for '--" ++ option ++ "' found"
  | .repeatedOption option => "the argument '--" ++ option ++ "' cannot be used multiple times"
  | .missingCommand => "a subcommand is required but one was not provided"
  | .missingWord name => "the following required arguments were not provided: <" ++ name ++ ">"

inductive Stop where
  | version
  | help
  | misuse (misuse : Misuse)
  deriving DecidableEq, Repr

/-! ## Options -/

inductive OptionKind where
  | flag
  | value (mayBeEmpty : Bool)
  | version
  | help
  deriving DecidableEq, Repr

/-- An option: its name behind two dashes, and the letter that does the same behind one. -/
structure OptionForm where
  name : String
  letter : Option Char
  kind : OptionKind
  deriving DecidableEq, Repr

namespace OptionForm

def logLevel : OptionForm := ⟨"log-level", none, .value true⟩
def config : OptionForm := ⟨"config", none, .value false⟩
def version : OptionForm := ⟨"version", some 'V', .version⟩
def help : OptionForm := ⟨"help", some 'h', .help⟩
def data : OptionForm := ⟨"data", some 'd', .value false⟩
def partials : OptionForm := ⟨"partials", some 'p', .value false⟩
def output : OptionForm := ⟨"output", some 'o', .value false⟩
def raw : OptionForm := ⟨"raw", none, .flag⟩

def forProgram : List OptionForm := [logLevel, config, version, help]

def forRender : List OptionForm := [logLevel, config, data, partials, output, raw, help]

def forCheck : List OptionForm := [logLevel, config, help]

end OptionForm

/-- An option as it was written, with the value attached to it. -/
structure Mention where
  /-- The option, if there is one of that name. -/
  form : Option OptionForm
  attached : Option String
  written : String

inductive Argument where
  | word (text : String)
  /-- Options, of which only the last one may take the next argument for its value. -/
  | options (mentions : List Mention)
  /-- All that follows are words. -/
  | dashes

namespace Argument

/-- Whether an argument is not a word and so no value of the option before it. -/
def isDashed (text : String) : Bool :=
  match text.toList with
  | '-' :: _ :: _ => true
  | _ => false

/-- Reads letters behind one dash. What follows the letter of an option with a value is that
value. -/
def ofLetters (forms : List OptionForm) : List Char → List Mention
  | [] => []
  | c :: cs =>
    let written := String.ofList ['-', c]
    match forms.find? fun form => form.letter = some c with
    | none => [⟨none, none, written⟩]
    | some form =>
      match form.kind, cs with
      | .value _, [] => [⟨some form, none, written⟩]
      | .value _, '=' :: value => [⟨some form, some (String.ofList value), written⟩]
      | .value _, value => [⟨some form, some (String.ofList value), written⟩]
      | _, cs => ⟨some form, none, written⟩ :: ofLetters forms cs

/-- Reads a name behind two dashes, with a value behind an equals sign. -/
def ofName (forms : List OptionForm) (cs : List Char) : Mention :=
  let name := String.ofList (cs.takeWhile (· != '='))
  let attached :=
    match cs.dropWhile (· != '=') with
    | [] => none
    | _ :: value => some (String.ofList value)
  ⟨forms.find? fun form => form.name = name, attached, "--" ++ name⟩

def ofText (forms : List OptionForm) (text : String) : Argument :=
  match text.toList with
  | ['-', '-'] => .dashes
  | '-' :: '-' :: cs => .options [ofName forms cs]
  | '-' :: c :: cs => .options (ofLetters forms (c :: cs))
  | _ => .word text

end Argument

/-! ## Reading arguments -/

/-- The values of the options read so far, and the words. -/
structure Reading where
  options : List (OptionForm × String)
  words : List String

namespace Reading

def empty : Reading := ⟨[], []⟩

def value? (reading : Reading) (form : OptionForm) : Option String :=
  reading.options.lookup form

def path? (reading : Reading) (form : OptionForm) : Option FilePath :=
  (reading.value? form).map FilePath.mk

def addOption (reading : Reading) (form : OptionForm) (value : String) : Except Stop Reading :=
  if (reading.value? form).isSome then .error (.misuse (.repeatedOption form.name))
  else if form.kind = .value false ∧ value = "" then .error (.misuse (.missingValue form.name))
  else .ok { reading with options := (form, value) :: reading.options }

/-- Adds options, and gives the one that still waits for its value. -/
def addMentions (reading : Reading) : List Mention → Except Stop (Reading × Option OptionForm)
  | [] => .ok (reading, none)
  | mention :: mentions =>
    match mention.form with
    | none => .error (.misuse (.unknownOption mention.written))
    | some form =>
      match form.kind, mention.attached with
      | .value _, none => .ok (reading, some form)
      | .value _, some value =>
        (reading.addOption form value).bind fun reading => reading.addMentions mentions
      | _, some _ => .error (.misuse (.unexpectedValue form.name))
      | .version, none => .error .version
      | .help, none => .error .help
      | .flag, none => (reading.addOption form "").bind fun reading => reading.addMentions mentions

end Reading

structure Usage where
  options : List OptionForm
  /-- Whether one more word may follow as many. -/
  mayFollow : Nat → String → Bool

namespace Usage

def render : Usage := ⟨OptionForm.forRender, fun count text => count = 0 && text ≠ ""⟩

def check : Usage := ⟨OptionForm.forCheck, fun _ _ => true⟩

def addWord (usage : Usage) (reading : Reading) (text : String) : Except Stop Reading :=
  if usage.mayFollow reading.words.length text then
    .ok { reading with words := reading.words ++ [text] }
  else .error (.misuse (.unexpectedWord text))

/-- Reads the arguments behind the name of a command. -/
def read (usage : Usage) (reading : Reading) : List String → Except Stop Reading
  | [] => .ok reading
  | text :: rest =>
    match Argument.ofText usage.options text with
    | .dashes => rest.foldlM usage.addWord reading
    | .word text => do
      let reading ← usage.addWord reading text
      usage.read reading rest
    | .options mentions => do
      let (reading, waiting) ← reading.addMentions mentions
      match waiting, rest with
      | none, rest => usage.read reading rest
      | some form, [] => .error (.misuse (.missingValue form.name))
      | some form, value :: rest =>
        if Argument.isDashed value then .error (.misuse (.missingValue form.name))
        else do
          let reading ← reading.addOption form value
          usage.read reading rest

end Usage

/-- Reads the arguments up to the name of a command, and gives that name and what follows it. -/
def readProgram (reading : Reading) : List String → Except Stop (Reading × String × List String)
  | [] => .error (.misuse .missingCommand)
  | text :: rest =>
    match Argument.ofText OptionForm.forProgram text with
    | .dashes => .error (.misuse .missingCommand)
    | .word name => .ok (reading, name, rest)
    | .options mentions => do
      let (reading, waiting) ← reading.addMentions mentions
      match waiting, rest with
      | none, rest => readProgram reading rest
      | some form, [] => .error (.misuse (.missingValue form.name))
      | some form, value :: rest =>
        if Argument.isDashed value then .error (.misuse (.missingValue form.name))
        else do
          let reading ← reading.addOption form value
          readProgram reading rest

namespace Command

def ofRender (reading : Reading) : Except Stop Command :=
  match reading.words with
  | [] => .error (.misuse (.missingWord "TEMPLATE"))
  | template :: _ =>
    .ok (.render ⟨⟨template⟩, reading.path? .data, reading.path? .partials,
      reading.path? .output, (reading.value? .raw).isSome⟩)

def ofCheck (reading : Reading) : Except Stop Command :=
  match reading.words with
  | [] => .error (.misuse (.missingWord "PATTERNS"))
  | patterns => .ok (.check patterns)

end Command

/-- What comes of the name of no command to run: help, which may be asked for on a command. -/
def stopOf (name : String) (rest : List String) : Stop :=
  if name ≠ "help" then .misuse (.unknownCommand name)
  else
    match rest with
    | [] | ["render"] | ["check"] | ["help"] => .help
    | topic :: _ => .misuse (.unknownCommand topic)

/-- Reads the arguments of the program. An option behind the command counts more than the same
one before it. -/
def Invocation.ofArguments (arguments : List String) : Except Stop Invocation := do
  let (program, name, rest) ← readProgram .empty arguments
  let (reading, command) ←
    match name with
    | "render" => do
      let reading ← Usage.render.read .empty rest
      pure (reading, ← Command.ofRender reading)
    | "check" => do
      let reading ← Usage.check.read .empty rest
      pure (reading, ← Command.ofCheck reading)
    | _ => throw (stopOf name rest)
  return ⟨reading.path? .config <|> program.path? .config, command⟩

end Cli
end Mustache
