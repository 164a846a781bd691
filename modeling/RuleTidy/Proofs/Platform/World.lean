import RuleTidy.Platform.World
import RuleTidy.Proofs.Platform.FileTree
import RuleTidy.Proofs.Platform.Lawful

/-! The small system is lawful. Its files keep their places, so paths lead where they led at first, and
the same programs are found. -/

namespace RuleTidy.Platform.World

open FileTree

theorem checkStart_eq {world after : World} (hfiles : SameShape world.files after.files)
    (hsettings : after.settings = world.settings) (command : Command) :
    after.checkStart command = world.checkStart command := by
  have hstaging : after.checkStaging = world.checkStaging := by
    unfold checkStaging
    rw [hsettings]
    split
    · rfl
    · rfl
    · rfl
    · rfl
    · next path _ _ _ _ =>
        rcases hfiles.resolve_cases path with
          ⟨fault, hworld, hafter⟩ | ⟨route, entry, entry', hworld, hafter, hblank⟩
        · rw [hworld, hafter]
        · rw [hworld, hafter]
          cases entry <;> cases entry' <;> first
            | rfl
            | cases hblank
  unfold checkStart
  rw [hstaging, hsettings, hfiles.findProgram_eq]

/-- What is seen of the system from a first state on, if its programs answer by `answer`. -/
def view (answer : List Argument → Output) (first : World) : View World where
  During world := SameShape first.files world.files ∧ world.settings = first.settings
  content world := world.files.content
  directory := first.files.isDirectory
  Apart := FileTree.Apart first.files
  answer command := (first.checkStart command).map fun _ => answer command.arguments

variable {answer : List Argument → Output} {first world : World}

theorem run_command (world : World) (command : Command) :
    ((host fun _ => answer).run command).run world =
      match world.checkStart command with
      | .error e => (.error e, world)
      | .ok () => (.ok (answer command.arguments),
        { world with commands := command.arguments.map Argument.text :: world.commands }) := by
  have hrun : ((host fun _ => answer).run command).run world =
      (match world.checkStart command with
        | .error e => (pure (.error e) : StateM World (Except StartError Output))
        | .ok () => do
          set { world with commands := command.arguments.map Argument.text :: world.commands }
          return .ok (answer command.arguments)).run world := rfl
  rw [hrun]
  split <;> rfl

theorem run_writeFile {path : String} {bytes : List UInt8} {after : FileTree}
    (h : world.files.overwrite path bytes = .ok after) :
    ((host fun _ => answer).writeFile path bytes).run world =
      (.ok (), { world with files := after }) := by
  simp only [host, StateT.run_bind, StateT.run_get, pure_bind, h]
  rfl

theorem lawful_host (answer : List Argument → Output) (first : World) :
    (host fun _ => answer).Lawful (view answer first) where
  apart_symm := Apart.symm
  read h path := ⟨_, rfl, h, rfl⟩
  isDirectory {world} h path := ⟨world, congrArg (·, world) (h.1.isDirectory_eq path), h, rfl⟩
  run {world} h command := by
    have hrun := @run_command answer world command
    rw [checkStart_eq h.1 h.2] at hrun
    unfold view
    dsimp only
    cases hstart : first.checkStart command with
    | error e =>
        rw [hstart] at hrun
        exact ⟨world, hrun, h, rfl⟩
    | ok u =>
        rw [hstart] at hrun
        exact ⟨_, hrun, h, rfl⟩
  write {world} h path bytes old hold := by
    obtain ⟨after, hwrite, hshape, hown, hothers⟩ := exists_overwrite hold bytes
    exact ⟨_, run_writeFile hwrite, ⟨h.1.trans hshape, h.2⟩, hown,
      fun other hother => hothers other (hother.of_sameShape h.1)⟩

end RuleTidy.Platform.World
