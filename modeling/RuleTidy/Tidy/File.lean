import RuleTidy.Platform.Host
import RuleTidy.Text.Utf8
import RuleTidy.Tidy.Fix

/-! Rule files. A file is written only when an edit was made, and never after an error. -/

namespace RuleTidy.Tidy

open Pattern Platform Report Source

variable {m : Type → Type} [Monad m]

/-- The steps for one file. Texts are registered even if the file turns out to be at fault. -/
abbrev FileStep (m : Type → Type) := ExceptT Error (StateT Registry m)

def outside {α : Type} (x : ExceptT Error m α) : FileStep m α := ExceptT.mk (StateT.lift x.run)

def accessing {α : Type} (path : String) (x : m (Except Fault α)) : FileStep m α :=
  outside (ExceptT.mk (Except.mapError (.access path) <$> x))

def load (host : Host m) (path : String) : FileStep m Document := do
  let bytes ← accessing path (host.readFile path)
  match Text.Utf8.decode bytes with
  | .error _ => throw (.access path .notUtf8)
  | .ok text => do
    let (parsed, registry) := Document.parse (← getThe Registry) text path
    set registry
    match parsed with
    | .error e => throw (.parse e)
    | .ok document => return document

def fixFile (host : Host m) (asts : AstSource m) (maxPasses : Nat) (path : String) :
    FileStep m Outcome := do
  let document ← load host path
  let (outcome, document) ← outside (fixDocument asts maxPasses document)
  if document.isModified then
    accessing path (host.writeFile path (Text.Utf8.encode document.render))
  return outcome

def lintFile (host : Host m) (asts : AstSource m) (path : String) :
    FileStep m (List Diagnostic) := do
  let document ← load host path
  outside (findings asts document)

end RuleTidy.Tidy
