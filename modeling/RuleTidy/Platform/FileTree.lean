import RuleTidy.Platform.Fault
import RuleTidy.Platform.Path

/-! Trees of files and directories, and where paths lead in them. There are no links. -/

namespace RuleTidy.Platform

inductive Entry where
  | file (bytes : List UInt8) (executable : Bool)
  | directory
  deriving DecidableEq

abbrev Route := List String

/-- The entries are distinct and stand in the order of their routes, so that a directory comes
before what lies in it. The working directory and those above it need no entry. -/
structure FileTree where
  entries : List (Route × Entry) := []
  workingDirectory : Route := ["work"]

namespace FileTree

def precedes : Route → Route → Bool
  | _, [] => false
  | [], _ :: _ => true
  | a :: as, b :: bs => a < b || (a = b && precedes as bs)

def get? (tree : FileTree) (route : Route) : Option Entry :=
  if route.isPrefixOf tree.workingDirectory then some .directory else tree.entries.lookup route

def insertEntry (route : Route) (entry : Entry) : List (Route × Entry) → List (Route × Entry)
  | [] => [(route, entry)]
  | (other, old) :: rest =>
    if route = other then (route, entry) :: rest
    else if precedes route other then (route, entry) :: (other, old) :: rest
    else (other, old) :: insertEntry route entry rest

def set (tree : FileTree) (route : Route) (entry : Entry) : FileTree :=
  { tree with entries := insertEntry route entry tree.entries }

def parents : Route → List Route
  | [] => []
  | [_] => []
  | name :: rest => [name] :: (parents rest).map (name :: ·)

def add (tree : FileTree) (route : Route) (entry : Entry) : FileTree :=
  let place (route : Route) := tree.workingDirectory ++ route
  ((parents route).foldl (fun tree parent => tree.set (place parent) .directory) tree).set
    (place route) entry

def filesUnder (tree : FileTree) (top : Route) : List (Route × List UInt8) :=
  tree.entries.filterMap fun (route, entry) =>
    match entry with
    | .file bytes _ => if top.isPrefixOf route then some (route.drop top.length, bytes) else none
    | .directory => none

def files (tree : FileTree) : List (Route × List UInt8) := tree.filesUnder tree.workingDirectory

/-! ### Paths -/

def components (path : String) : List String := (piecesAt '/' path.toList).map String.ofList

def maxNameLength : Nat := 255

def maxPathLength : Nat := 4095

/-- Follows one piece of a path. Only a directory leads on, and above the root is the root. -/
def follow (tree : FileTree) (route : Route) (piece : String) : Except Fault Route :=
  match tree.get? route with
  | none => .error .noSuchFile
  | some (.file ..) => .error .notADirectory
  | some .directory =>
    if piece = "" || piece = "." then .ok route
    else if piece = ".." then .ok route.dropLast
    else if piece.utf8ByteSize > maxNameLength then .error .nameTooLong
    else .ok (route ++ [piece])

def startOf (tree : FileTree) (path : String) : Route :=
  if path.toList.head? = some '/' then [] else tree.workingDirectory

def resolve (tree : FileTree) (path : String) : Except Fault (Route × Entry) := do
  if path.toList.contains '\x00' then .error .containsNul
  if path.isEmpty then .error .noSuchFile
  if path.utf8ByteSize > maxPathLength then .error .nameTooLong
  let route ← (components path).foldlM tree.follow (tree.startOf path)
  match tree.get? route with
  | some entry => return (route, entry)
  | none => .error .noSuchFile

def isDirectory (tree : FileTree) (path : String) : Bool :=
  match tree.resolve path with
  | .ok (_, .directory) => true
  | _ => false

def content (tree : FileTree) (path : String) : Except Fault (List UInt8) := do
  match ← tree.resolve path with
  | (_, .file bytes _) => return bytes
  | (_, .directory) => .error .isADirectory

def overwrite (tree : FileTree) (path : String) (bytes : List UInt8) : Except Fault FileTree := do
  match ← tree.resolve path with
  | (route, .file _ executable) => return tree.set route (.file bytes executable)
  | (_, .directory) => .error .isADirectory

def join (path : String) (names : Route) : String :=
  path ++ (if path.toList.getLast? = some '/' then "" else "/") ++ "/".intercalate names

def filesBelow (tree : FileTree) (path : String) : List String :=
  match tree.resolve path with
  | .ok (route, .directory) => (tree.filesUnder route).map fun (below, _) => join path below
  | _ => []

def checkExecutable (tree : FileTree) (path : String) : Except Fault Unit := do
  match ← tree.resolve path with
  | (_, .file _ true) => return ()
  | _ => .error .permissionDenied

def searchDirectories (searchPath : String) : List String :=
  -- an empty one is the working directory
  (piecesAt ':' searchPath.toList).map fun piece => if piece.isEmpty then "." else .ofList piece

/-- Looks for a program in one directory after the other. One that cannot be run is passed over, but
remembered as the reason for failure. -/
def search (tree : FileTree) (name : String) : List String → Fault → Except Fault Unit
  | [], fault => .error fault
  | directory :: rest, fault =>
    match tree.checkExecutable (join directory [name]) with
    | .ok () => .ok ()
    | .error .permissionDenied => search tree name rest .permissionDenied
    | .error .nameTooLong => .error .nameTooLong
    | .error _ => search tree name rest fault

def findProgram (tree : FileTree) (searchPath : Option String) (name : String) :
    Except Fault Unit :=
  if name.isEmpty then .error .noSuchFile
  else if name.toList.contains '/' then tree.checkExecutable name
  else tree.search name (searchDirectories (searchPath.getD "/bin:/usr/bin")) .noSuchFile

end FileTree

end RuleTidy.Platform
