import RuleTidy.CommandLine.Config
import RuleTidy.CommandLine.LogFilter
import RuleTidy.Report.Diagnostic.Json
import RuleTidy.Report.Snippet
import RuleTidy.Tidy.File

/-! A run of the command line, from its arguments to what it writes and how it ends. -/

namespace RuleTidy.CommandLine

open Pattern Platform Report Source Tidy

inductive Status where
  | clean
  /-- There was something to report. -/
  | reported
  /-- An inconsistency stopped the run. -/
  | aborted
  deriving DecidableEq

namespace Status

def merge : Status → Status → Status
  | .aborted, _ => .aborted
  | _, .aborted => .aborted
  | .reported, _ => .reported
  | _, .reported => .reported
  | .clean, .clean => .clean

def exitCode : Status → UInt8
  | .clean => 0
  | .reported => 1
  | .aborted => 2

end Status

structure Streams where
  stdout : String := ""
  stderr : String := ""
  deriving DecidableEq

instance : Append Streams := ⟨fun a b => ⟨a.stdout ++ b.stdout, a.stderr ++ b.stderr⟩⟩

def Streams.line (text : String) : Streams := ⟨text ++ "\n", ""⟩

def Streams.errorLine (text : String) : Streams := ⟨"", text ++ "\n"⟩

def renderAll (registry : Registry) (window : ContextWindow) (ds : List Diagnostic) : String :=
  String.join (ds.map (·.render registry window))

def renderJsonLines (ds : List Diagnostic) : String :=
  String.join (ds.map fun d => .ofList (d.toJson ++ ['\n']))

/-- Whether a name has the extension of rule files. A name with nothing before the point has no
extension. -/
def isRuleFile (path : String) : Bool :=
  let name := (path.toList.reverse.takeWhile (· ≠ '/')).reverse
  let hasExtension (extension : String) : Bool :=
    extension.toList.isSuffixOf name && name.length > extension.length
  hasExtension ".yaml" || hasExtension ".yml"

variable {m : Type → Type} [Monad m]

def ruleFilesAt (host : Host m) (path : String) : m (List String) := do
  if ← host.isDirectory path then return (← host.filesBelow path).filter isRuleFile
  else return [path]

def ruleFiles (host : Host m) : List String → m (List String)
  | [] => return []
  | path :: rest => return (← ruleFilesAt host path) ++ (← ruleFiles host rest)

/-- What a run needs at every file. -/
structure Session (m : Type → Type) where
  host : Host m
  asts : AstSource m
  context : ContextWindow

def Session.of (host : Host m) (config : Config) : Session (StateT Memo m) :=
  ⟨host.lift, programAsts host config.executable, config.context⟩

/-- What happened at one file: what is written, how grave it is, and whether to go on. -/
structure FileReport where
  streams : Streams
  status : Status
  stop : Bool := false

def autofixReport (context : ContextWindow) (registry : Registry) (path : String) :
    Except Tidy.Error Outcome → FileReport
  | .ok outcome => {
      streams := {
        stdout := if outcome.changed then
            s!"{path}: removed {outcome.removed} alternative(s), rewrote {outcome.rewritten}\n"
          else ""
        stderr := renderAll registry context outcome.skipped }
      status := if outcome.skipped.isEmpty then .clean else .reported }
  | .error e => {
      streams := { stderr := renderAll registry context [e.toDiagnostic] }
      status := if e.isFatal then .aborted else .reported
      stop := e.isFatal }

def lintReport (context : ContextWindow) (format : ReportFormat) (registry : Registry) :
    Except Tidy.Error (List Diagnostic) → FileReport
  | .ok findings => {
      streams := { stdout := match format with
        | .text => renderAll registry context findings
        | .json => renderJsonLines findings }
      status := if findings.isEmpty then .clean else .reported }
  | .error e => {
      streams := { stderr := renderAll registry context [e.toDiagnostic] }
      status := if e.isFatal then .aborted else .reported }

def forFiles (step : String → StateT Registry m FileReport) :
    List String → StateT Registry m (Streams × Status)
  | [] => return ({}, .clean)
  | path :: rest => do
    let report ← step path
    if report.stop then return (report.streams, report.status)
    let (streams, status) ← forFiles step rest
    return (report.streams ++ streams, report.status.merge status)

def autofixFile (session : Session m) (path : String) : StateT Registry m FileReport := do
  let result ← (fixFile session.host session.asts defaultMaxPasses path).run
  return autofixReport session.context (← get) path result

def lintOne (session : Session m) (format : ReportFormat) (path : String) :
    StateT Registry m FileReport := do
  let result ← (lintFile session.host session.asts path).run
  return lintReport session.context format (← get) result

def overFiles (session : Session m) (paths : List String)
    (step : String → StateT Registry m FileReport) : m (Streams × Status) := do
  let files ← ruleFiles session.host paths
  let note := if files.isEmpty then Streams.errorLine "no rule files found" else {}
  let ((streams, status), _) ← (forFiles step files).run .empty
  return (note ++ streams, status)

structure Ending where
  streams : Streams
  code : UInt8
  deriving DecidableEq

def Ending.failure (message : String) : Ending := ⟨.errorLine message, 1⟩

def dumpEnding : Except LookupError String → Ending
  | .error e => .failure e.message
  | .ok text => ⟨⟨if text.toList.getLast? = some '\n' then text else text ++ "\n", ""⟩, 0⟩

def execute (host : Host m) (config : Config) : Subcommand → StateT Memo m Ending
  | .dumpAst request => return dumpEnding (← (dump host config.executable request).run)
  | .autofix paths => do
    let session := Session.of host config
    let (streams, status) ← overFiles session paths (autofixFile session)
    return ⟨streams, status.exitCode⟩
  | .lint format paths => do
    let session := Session.of host config
    let (streams, status) ← overFiles session paths (lintOne session format)
    return ⟨streams, status.exitCode⟩

def Interruption.ending (interruption : Interruption) : Ending :=
  if interruption.isInformation then ⟨.line interruption.message, 0⟩
  else .failure interruption.message

def run (host : Host m) (arguments : List String) : m Ending := do
  match Arguments.parse arguments with
  | .error interruption => return interruption.ending
  | .ok arguments =>
    match ← Config.resolve host arguments.settings with
    | .error bad => return .failure bad.message
    | .ok config =>
      match LogFilter.check config.logFilter with
      | .error fault => return .failure s!"invalid log filter: {fault.message}"
      | .ok () => do
        let (ending, _) ← (execute host config arguments.subcommand).run {}
        return ending

end RuleTidy.CommandLine
