import RuleTidy.Pattern.Client
import RuleTidy.Report.Diagnostic
import RuleTidy.Yaml.Scalar.Schema

/-! The arguments of the command line. Options may stand before and behind the name of the
subcommand, and what stands behind wins. The first problem from left to right is reported, and what
is missing only at the end. -/

namespace RuleTidy.CommandLine

open Pattern Report

inductive LogFormat where
  | json
  | compact
  deriving DecidableEq

def LogFormat.ofName? (name : String) : Option LogFormat :=
  let name := String.ofList (name.toList.map Char.toLower)
  if name = "json" then some .json else if name = "compact" then some .compact else none

inductive ReportFormat where
  | text
  | json
  deriving DecidableEq

def ReportFormat.ofName? (name : String) : Option ReportFormat :=
  if name = "text" then some .text else if name = "json" then some .json else none

inductive Subcommand where
  | autofix (paths : List String)
  | lint (format : ReportFormat) (paths : List String)
  | dumpAst (request : Request)
  deriving DecidableEq

structure Settings where
  logFilter : Option String := none
  logFormat : Option LogFormat := none
  executable : Option String := none
  contextBefore : Option UInt32 := none
  contextAfter : Option UInt32 := none
  deriving DecidableEq

def Settings.within (inner outer : Settings) : Settings where
  logFilter := inner.logFilter <|> outer.logFilter
  logFormat := inner.logFormat <|> outer.logFormat
  executable := inner.executable <|> outer.executable
  contextBefore := inner.contextBefore <|> outer.contextBefore
  contextAfter := inner.contextAfter <|> outer.contextAfter

structure Arguments where
  settings : Settings
  subcommand : Subcommand
  deriving DecidableEq

/-- Why there are no arguments to act on. -/
inductive Interruption where
  | help
  | version
  | nothingGiven
  | argumentUnexpected (argument : String)
  | valueMissing (option : String)
  | valueInvalid (option value : String)
  | optionRepeated (option : String)
  | optionsConflict (first second : String)
  | optionMissing (option : String)
  | subcommandMissing
  | subcommandUnknown (name : String)
  deriving DecidableEq

def Interruption.isInformation : Interruption → Bool
  | .help | .version => true
  | _ => false

inductive Item where
  /-- A switch or an option, with the value behind an equals sign. -/
  | option (name : String) (value : Option String)
  | help
  | version
  | positional (text : String)
  /-- From here on all arguments are positional. -/
  | separator
  | unknown (text : String)
  deriving DecidableEq

def splitOption (text : List Char) : String × Option String :=
  match text.dropWhile (· ≠ '=') with
  | [] => (.ofList text, none)
  | _ :: value => (.ofList (text.takeWhile (· ≠ '=')), some (.ofList value))

/-- Recognises one argument. A single dash is positional. -/
def Item.of (argument : String) : Item :=
  match argument.toList with
  | ['-', '-'] => .separator
  | '-' :: '-' :: rest =>
    match splitOption rest with
    | ("help", none) => .help
    | ("version", none) => .version
    | (name, value) => .option name value
  | '-' :: 'h' :: _ => .help
  | '-' :: 'V' :: _ => .version
  | '-' :: _ :: _ => .unknown argument
  | _ => .positional argument

structure Grammar (σ : Type) where
  /-- Whether an option is known, and whether it takes a value. -/
  takesValue? : String → Option Bool
  /-- Takes an option. Switches have an empty value. -/
  option : String → String → σ → Except Interruption σ
  /-- Takes a positional argument, if there can be any. -/
  positional : Option (String → σ → Except Interruption σ)
  hasVersion : Bool

variable {σ : Type}

def Grammar.take (g : Grammar σ) (argument : String) (state : σ) : Except Interruption σ :=
  match g.positional with
  | some take => take argument state
  | none => .error (.argumentUnexpected argument)

/-- Takes all arguments up to the first positional one, if there can be none here. -/
def Grammar.read (g : Grammar σ) : List String → σ → Except Interruption (σ × List String)
  | [], state => .ok (state, [])
  | argument :: rest, state =>
    match Item.of argument with
    | .help => .error .help
    | .version => .error (if g.hasVersion then .version else .argumentUnexpected argument)
    | .unknown text => .error (.argumentUnexpected text)
    | .separator => do return (← rest.foldlM (fun state text => g.take text state) state, [])
    | .positional text =>
      match g.positional with
      | none => .ok (state, argument :: rest)
      | some take => do g.read rest (← take text state)
    | .option name value =>
      match g.takesValue? name, value with
      | none, _ => .error (.argumentUnexpected argument)
      | some false, some _ => .error (.valueInvalid name (value.getD ""))
      | some false, none => do g.read rest (← g.option name "" state)
      | some true, some value => do g.read rest (← g.option name value state)
      | some true, none =>
        match rest with
        | [] => .error (.valueMissing name)
        | value :: rest =>
          match Item.of value with
          | .positional value => do g.read rest (← g.option name value state)
          | _ => .error (.valueMissing name)

def setOnce {α : Type} (name : String) (old : Option α) (value : Option α) (text : String) :
    Except Interruption (Option α) :=
  match old, value with
  | some _, _ => .error (.optionRepeated name)
  | none, none => .error (.valueInvalid name text)
  | none, some value => .ok (some value)

def nonEmpty? (text : String) : Option String := if text.isEmpty then none else some text

def lineCount? (text : String) : Option UInt32 :=
  let (negative, digits) := Yaml.Schema.splitSign text.toList
  if digits.isEmpty || !digits.all Char.isDigit then none
  else
    let n := Text.decimalValue digits
    if n < Nat.pow 2 32 && (!negative || n = 0) then some (.ofNat n) else none

def isSetting (name : String) : Bool :=
  name ∈ ["log-filter", "log-format", "semgrep-core", "context-before", "context-after"]

def Settings.set (s : Settings) (name text : String) : Except Interruption Settings := do
  match name with
  | "log-filter" => return { s with logFilter := ← setOnce name s.logFilter (some text) text }
  | "log-format" =>
    return { s with logFormat := ← setOnce name s.logFormat (LogFormat.ofName? text) text }
  | "semgrep-core" =>
    return { s with executable := ← setOnce name s.executable (nonEmpty? text) text }
  | "context-before" =>
    return { s with contextBefore := ← setOnce name s.contextBefore (lineCount? text) text }
  | _ => return { s with contextAfter := ← setOnce name s.contextAfter (lineCount? text) text }

def topGrammar : Grammar Settings where
  takesValue? name := if isSetting name then some true else none
  option name text s := s.set name text
  positional := none
  hasVersion := true

def withSettings (own : String → Option Bool)
    (take : String → String → σ → Except Interruption σ)
    (positional : Option (String → σ → Except Interruption σ)) : Grammar (Settings × σ) where
  takesValue? name := if isSetting name then some true else own name
  option name text := fun (s, state) =>
    if isSetting name then do return (← s.set name text, state)
    else do return (s, ← take name text state)
  positional := positional.map fun take text => fun (s, state) => do return (s, ← take text state)
  hasVersion := false

def takePath (path : String) (paths : List String) : Except Interruption (List String) :=
  match nonEmpty? path with
  -- the last one first
  | some path => .ok (path :: paths)
  | none => .error (.valueMissing "<PATH>")

def checkPaths (paths : List String) : Except Interruption (List String) :=
  if paths.isEmpty then .error (.optionMissing "<PATH>") else .ok paths.reverse

def autofixGrammar : Grammar (Settings × List String) :=
  withSettings (fun _ => none) (fun _ _ state => .ok state) (some takePath)

def lintGrammar : Grammar (Settings × Option ReportFormat × List String) :=
  withSettings (fun name => if name = "format" then some true else none)
    (fun name text (format, paths) => do
      return (← setOnce name format (ReportFormat.ofName? text) text, paths))
    (some fun path (format, paths) => do return (format, ← takePath path paths))

structure DumpOptions where
  language : Option String := none
  pattern : Option String := none
  /-- The last one first. -/
  targets : List String := []
  json : Option Unit := none

def DumpOptions.set (name text : String) (o : DumpOptions) : Except Interruption DumpOptions := do
  match name with
  | "lang" => return { o with language := ← setOnce name o.language (some text) text }
  | "pattern" => return { o with pattern := ← setOnce name o.pattern (some text) text }
  | "json" => return { o with json := ← setOnce name o.json (some ()) text }
  | _ =>
    match nonEmpty? text with
    | some path => return { o with targets := path :: o.targets }
    | none => .error (.valueMissing name)

def DumpOptions.request (o : DumpOptions) : Except Interruption Request := do
  let some language := o.language | .error (.optionMissing "lang")
  let json := o.json.isSome
  match o.pattern, o.targets with
  | some _, _ :: _ => .error (.optionsConflict "pattern" "target")
  | some pattern, [] => return { language, target := .pattern pattern, json }
  | none, [] => .error (.optionMissing "pattern")
  | none, targets => return { language, target := .files targets.reverse, json }

def dumpGrammar : Grammar (Settings × DumpOptions) :=
  withSettings (fun name =>
      if name ∈ ["lang", "pattern", "target"] then some true
      else if name = "json" then some false
      else none)
    DumpOptions.set none

def Grammar.readAll (g : Grammar (Settings × σ)) (outer : Settings) (arguments : List String)
    (state : σ) (finish : σ → Except Interruption Subcommand) : Except Interruption Arguments := do
  let ((inner, state), rest) ← g.read arguments ({}, state)
  match rest with
  | argument :: _ => .error (.argumentUnexpected argument)
  | [] => return ⟨inner.within outer, ← finish state⟩

def Arguments.parse (arguments : List String) : Except Interruption Arguments := do
  if arguments.isEmpty then .error .nothingGiven
  let (outer, rest) ← topGrammar.read arguments {}
  match rest with
  | [] => .error .subcommandMissing
  | "autofix" :: rest =>
    autofixGrammar.readAll outer rest [] fun paths => do return .autofix (← checkPaths paths)
  | "lint" :: rest =>
    lintGrammar.readAll outer rest (none, []) fun (format, paths) => do
      return .lint (format.getD .text) (← checkPaths paths)
  | "dump-ast" :: rest =>
    dumpGrammar.readAll outer rest {} fun o => do return .dumpAst (← o.request)
  | name :: _ => .error (.subcommandUnknown name)

def usage : String := "\n".intercalate [
  "Finds and removes redundant pattern alternatives in Semgrep rules",
  "",
  "Usage: sempai-lint [OPTIONS] <COMMAND>",
  "",
  "Commands:",
  "  autofix <PATH>...                        Removes redundant alternatives in place",
  "  lint [--format <text|json>] <PATH>...    Reports redundant alternatives",
  "  dump-ast --lang <LANG> (--pattern <PATTERN> | --target <FILE>) [--json]",
  "                                           Prints the syntax tree of a pattern or file",
  "",
  "Options:",
  "      --log-filter <FILTER>      Log filter directives",
  "      --log-format <FORMAT>      Log output format: compact or json",
  "      --semgrep-core <PATH>      The executable used to parse patterns",
  "      --context-before <LINES>   Source lines shown before each reported span",
  "      --context-after <LINES>    Source lines shown after each reported span",
  "  -h, --help                     Print help",
  "  -V, --version                  Print version"]

def Interruption.message : Interruption → String
  | .help | .nothingGiven => usage
  | .version => "sempai-lint 0.1.0"
  | .argumentUnexpected argument => s!"error: unexpected argument '{argument}' found"
  | .valueMissing option => s!"error: a value is required for '{option}' but none was supplied"
  | .valueInvalid option value => s!"error: invalid value '{value}' for '{option}'"
  | .optionRepeated option => s!"error: the argument '{option}' cannot be used multiple times"
  | .optionsConflict first second =>
    s!"error: the argument '{first}' cannot be used with '{second}'"
  | .optionMissing option => s!"error: the argument '{option}' was not provided"
  | .subcommandMissing => "error: a subcommand is required but one was not provided"
  | .subcommandUnknown name => s!"error: unrecognized subcommand '{name}'"

end RuleTidy.CommandLine
