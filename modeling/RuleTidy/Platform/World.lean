import RuleTidy.Platform.FileTree
import RuleTidy.Platform.Host

/-! A small system that is a value: a tree of files, the settings of the environment, and a record of
the commands that were run. Programs run on any host; this one is for running them without one. -/

namespace RuleTidy.Platform

structure World where
  files : FileTree := {}
  settings : List (String × String) := []
  /-- The arguments of the commands that were run, the last one first. -/
  commands : List (List String) := []

namespace World

def checkStaging (world : World) : Except Fault Unit :=
  match world.settings.lookup "TMPDIR" with
  | none | some "" | some "/tmp" | some "/tmp/" => .ok ()
  | some path =>
    match world.files.resolve path with
    | .ok (_, .directory) => .ok ()
    | .ok (_, .file ..) => .error .notADirectory
    | .error fault => .error fault

def checkStart (world : World) (command : Command) : Except StartError Unit := do
  if command.arguments.any fun | .staged _ => true | .word _ => false then
    world.checkStaging.mapError .staging
  (world.files.findProgram (world.settings.lookup "PATH") command.executable).mapError .spawning

/-- The system of a world, in which every program that starts answers by `answer`. -/
def host (answer : World → List Argument → Output) : Host (StateM World) where
  environment name := return (← get).settings.lookup name
  isDirectory path := return (← get).files.isDirectory path
  filesBelow path := return (← get).files.filesBelow path
  readFile path := return (← get).files.content path
  writeFile path bytes := do
    match (← get).files.overwrite path bytes with
    | .ok files => do
      modify ({ · with files })
      return .ok ()
    | .error fault => return .error fault
  run command := do
    let world ← get
    match world.checkStart command with
    | .error e => return .error e
    | .ok () => do
      set { world with commands := command.arguments.map Argument.text :: world.commands }
      return .ok (answer world command.arguments)

end World

end RuleTidy.Platform
