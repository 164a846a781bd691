import RuleTidy.CommandLine.Run
import RuleTidy.Platform.FileTree

/-! The command line on the machine that it runs on. It reads and writes rule files but starts no
other program: a host that does is a value of `Host IO` with another `run`. -/

namespace RuleTidy.Machine

open Platform

def faultOf (path : String) (isDirectory : Bool) : IO.Error → Fault
  | .noFileOrDirectory .. => .noSuchFile
  | .inappropriateType .. => if isDirectory then .isADirectory else .notADirectory
  | .invalidArgument .. =>
    if path.toList.contains '\x00' then .containsNul
    else .nameTooLong
  | _ => .permissionDenied

def isDirectory (path : String) : IO Bool :=
  try (← IO.FS.realPath path).isDir catch _ => return false

def accessing {α : Type} (path : String) (action : IO α) : IO (Except Fault α) := do
  try return .ok (← action)
  catch e => return .error (faultOf path (← isDirectory path) e)

/-- The files below a directory, in the order of their names. Links are not followed, so that a path
grows with each step down and `depth` need not exceed the longest path. -/
def filesBelow : (depth : Nat) → (path : String) → IO (List String)
  | 0, _ => return []
  | depth + 1, path => do
    let entries ← (← IO.FS.realPath path).readDir
    let ordered := entries.toList.mergeSort fun a b => a.fileName ≤ b.fileName
    let below ← ordered.mapM fun entry => do
      let name := FileTree.join path [entry.fileName]
      match (← entry.path.symlinkMetadata).type with
      | .file => return [name]
      | .dir => filesBelow depth name
      | _ => return []
    return below.flatten

/-- The machine as a host. A command fails as one whose program may not be run. -/
def host : Host IO where
  environment name := IO.getEnv name
  isDirectory := isDirectory
  filesBelow path := try filesBelow FileTree.maxPathLength path catch _ => return []
  readFile path := accessing path (return (← IO.FS.readBinFile path).toList)
  writeFile path bytes := accessing path (IO.FS.writeBinFile path ⟨bytes.toArray⟩)
  run _ := return .error (.spawning .permissionDenied)

end RuleTidy.Machine

def main (arguments : List String) : IO UInt32 := do
  let ending ← RuleTidy.CommandLine.run RuleTidy.Machine.host arguments
  IO.print ending.streams.stdout
  IO.eprint ending.streams.stderr
  return ending.code.toUInt32
