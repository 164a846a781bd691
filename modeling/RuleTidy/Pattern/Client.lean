import RuleTidy.Pattern.Lookup
import RuleTidy.Platform.Host
import RuleTidy.Platform.Path
import RuleTidy.Text.Blank
import RuleTidy.Text.Utf8

/-! Syntax trees from another program, which dumps them on request. A request that was answered is
not made again, and one that failed is. -/

namespace RuleTidy.Pattern

open Platform

inductive DumpTarget where
  | pattern (text : String)
  | files (paths : List String)
  deriving DecidableEq

structure Request where
  language : String
  target : DumpTarget
  /-- Whether the dump is to be JSON, or the program's own text form. -/
  json : Bool := true
  deriving DecidableEq

inductive TargetKey where
  | pattern (text : String)
  | files (paths : List (List Component))
  deriving DecidableEq

/-- What requests are told apart by. A file is the same however its path is spelled. -/
structure RequestKey where
  language : String
  target : TargetKey
  json : Bool
  deriving DecidableEq

/-- The answers so far. -/
structure Memo where
  dumps : List (RequestKey × String) := []
  trees : List (RequestKey × Ast) := []

def DumpTarget.key : DumpTarget → TargetKey
  | .pattern text => .pattern text
  | .files paths => .files (paths.map pathComponents)

namespace Request

def ofPattern (language pattern : String) : Request := { language, target := .pattern pattern }

def key (request : Request) : RequestKey := ⟨request.language, request.target.key, request.json⟩

def arguments (request : Request) : Except LookupError (List Argument) :=
  let options := (if request.json then [.word "-json"] else []) ++
    [.word "-lang", .word request.language]
  match request.target with
  | .pattern text => .ok (options ++ [.word "-dump_pattern", .staged text])
  -- of files there can be only one
  | .files [path] => .ok (options ++ [.word "-dump_ast", .word path])
  | .files paths => .error (.targetCount paths.length)

end Request

def readOutput (executable language : String) (output : Output) : Except LookupError String :=
  if output.status = some 0 then
    (Text.Utf8.decode output.stdout).mapError fun fault => .decode fault.message
  else
    .error (.exit executable language (output.status.getD (-1))
      (Text.trimString (Text.Utf8.decodeLossy output.stderr)))

variable {m : Type → Type} [Monad m]

def invoke (host : Host m) (executable : String) (request : Request) :
    m (Except LookupError String) :=
  match request.arguments with
  | .error e => return .error e
  | .ok arguments => do
    match ← host.run ⟨executable, arguments⟩ with
    | .error (.staging fault) => return .error (.stage fault)
    | .error (.spawning fault) => return .error (.spawn executable fault)
    | .ok output => return readOutput executable request.language output

def dump (host : Host m) (executable : String) (request : Request) :
    ExceptT LookupError (StateT Memo m) String := fun memo => do
  match memo.dumps.lookup request.key with
  | some text => return (.ok text, memo)
  | none =>
    match ← invoke host executable request with
    | .error e => return (.error e, memo)
    | .ok text => return (.ok text, { memo with dumps := (request.key, text) :: memo.dumps })

def programAst (host : Host m) (executable : String) (request : Request) :
    ExceptT LookupError (StateT Memo m) Ast := fun memo => do
  match memo.trees.lookup request.key with
  | some ast => return (.ok ast, memo)
  | none =>
    match ← (dump host executable request).run memo with
    | (.error e, memo) => return (.error e, memo)
    | (.ok text, memo) =>
      match decodeDump text with
      | .error e => return (.error e, memo)
      | .ok ast => return (.ok ast, { memo with trees := (request.key, ast) :: memo.trees })

def programAsts (host : Host m) (executable : String) : AstSource (StateT Memo m) :=
  fun language pattern => programAst host executable (.ofPattern language pattern)

end RuleTidy.Pattern
