import RuleTidy.Platform.Host

/-! What is assumed of the system under a run that nothing else disturbs: files hold what was written
to them, to write one file changes no other, and a command is answered in one way. -/

namespace RuleTidy.Platform

abbrev Contents := String → Except Fault (List UInt8)

/-- What programs see of a system whose states are of type `σ`. -/
structure View (σ : Type) where
  /-- The states of the system while a run lasts. -/
  During : σ → Prop
  content : σ → Contents
  directory : String → Bool
  /-- Paths of different files. -/
  Apart : String → String → Prop
  answer : Command → Except StartError Output

/-- A step that changes no file. -/
structure View.Quiet {σ : Type} (view : View σ) (s s' : σ) : Prop where
  during : view.During s'
  content : view.content s' = view.content s

structure Host.Lawful {σ : Type} (host : Host (StateM σ)) (view : View σ) : Prop where
  apart_symm : ∀ {path other : String}, view.Apart path other → view.Apart other path
  read : ∀ {s : σ}, view.During s → ∀ path, ∃ s',
    (host.readFile path).run s = (view.content s path, s') ∧ view.Quiet s s'
  isDirectory : ∀ {s : σ}, view.During s → ∀ path, ∃ s',
    (host.isDirectory path).run s = (view.directory path, s') ∧ view.Quiet s s'
  run : ∀ {s : σ}, view.During s → ∀ command, ∃ s',
    (host.run command).run s = (view.answer command, s') ∧ view.Quiet s s'
  /-- A file that can be read can be written. -/
  write : ∀ {s : σ}, view.During s → ∀ path bytes {old : List UInt8},
    view.content s path = .ok old → ∃ s',
      (host.writeFile path bytes).run s = (.ok (), s') ∧ view.During s' ∧
        view.content s' path = .ok bytes ∧
        ∀ other, view.Apart path other → view.content s' other = view.content s other

end RuleTidy.Platform
