import RuleTidy.CommandLine.Arguments

/-! The settings of one run. Each comes from its option, else from its variable in the environment,
else from a default. -/

namespace RuleTidy.CommandLine

open Platform Report

/-- A variable of the environment that makes no sense. -/
structure BadVariable where
  name : String
  value : String
  deriving DecidableEq

def BadVariable.message (bad : BadVariable) : String :=
  s!"invalid {bad.name}: Matching variant not found: `{bad.value}`"

structure Config where
  logFilter : String := "info"
  logFormat : LogFormat := .compact
  executable : String := "semgrep-core"
  context : ContextWindow := {}
  deriving DecidableEq

def logFilterVariable : String := "SEMPAI_LOG_FILTER"

def logFormatVariable : String := "SEMPAI_LOG_FORMAT"

def executableVariable : String := "SEMPAI_SEMGREP_CORE"

def resolveLogFormat (option : Option LogFormat) (value? : Option String) :
    Except BadVariable LogFormat :=
  match option, value? with
  | some format, _ => .ok format
  | none, none => .ok ({} : Config).logFormat
  | none, some value =>
    match LogFormat.ofName? value with
    | some format => .ok format
    | none => .error ⟨logFormatVariable, value⟩

def Config.resolve {m : Type → Type} [Monad m] (host : Host m) (settings : Settings) :
    m (Except BadVariable Config) := do
  let filter ← host.environment logFilterVariable
  let format ← host.environment logFormatVariable
  let executable ← host.environment executableVariable
  let defaults : Config := {}
  return (resolveLogFormat settings.logFormat format).map fun logFormat => {
    logFilter := (settings.logFilter <|> filter).getD defaults.logFilter
    logFormat
    executable := (settings.executable <|> executable).getD defaults.executable
    context := ⟨settings.contextBefore.getD 0, settings.contextAfter.getD 0⟩ }

end RuleTidy.CommandLine
