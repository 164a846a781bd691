import RuleTidy.Platform.Fault

/-! What a program asks of the system that it runs on: files, directories, the environment and other
programs. -/

namespace RuleTidy.Platform

/-- An argument of a command: a word, or the name of a new file that holds a text. -/
inductive Argument where
  | word (text : String)
  | staged (content : String)
  deriving DecidableEq

def Argument.text : Argument → String
  | .word text => text
  | .staged content => content

structure Command where
  executable : String
  arguments : List Argument
  deriving DecidableEq

structure Output where
  status : Option Int
  stdout : List UInt8
  stderr : List UInt8
  deriving DecidableEq

inductive StartError where
  /-- A text for it cannot be put into a file. -/
  | staging (fault : Fault)
  | spawning (fault : Fault)
  deriving DecidableEq

/-- A system, whose answers are effects of `m`. -/
structure Host (m : Type → Type) where
  environment : String → m (Option String)
  isDirectory : String → m Bool
  /-- The files below a directory, at any depth. The entries of a directory come in the order of
  their names. -/
  filesBelow : String → m (List String)
  readFile : String → m (Except Fault (List UInt8))
  writeFile : String → List UInt8 → m (Except Fault Unit)
  run : Command → m (Except StartError Output)

def Host.lift {m : Type → Type} [Monad m] {σ : Type} (host : Host m) : Host (StateT σ m) where
  environment name := StateT.lift (host.environment name)
  isDirectory path := StateT.lift (host.isDirectory path)
  filesBelow path := StateT.lift (host.filesBelow path)
  readFile path := StateT.lift (host.readFile path)
  writeFile path bytes := StateT.lift (host.writeFile path bytes)
  run command := StateT.lift (host.run command)

end RuleTidy.Platform
