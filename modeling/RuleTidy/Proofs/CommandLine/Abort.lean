import Mathlib
import RuleTidy.CommandLine.Run
import RuleTidy.Platform.World
import RuleTidy.Proofs.Tidy.Fix
import RuleTidy.Proofs.Tidy.Reach

/-! Runs that are aborted. Only an edit can meet a contradiction, so a run that edits nothing is
never aborted. -/

namespace RuleTidy

open Document Pattern Platform Source Yaml

namespace Tidy

variable {m : Type → Type} [Monad m] {α β : Type}

/-- Steps that fail for no reason that should stop a run. -/
def NotFatal (steps : ExceptT Error m α) : Prop :=
  SatisfiesM (fun result => ∀ e, result = .error e → e.isFatal = false) steps.run

variable [LawfulMonad m]

theorem NotFatal.pure (a : α) : NotFatal (pure a : ExceptT Error m α) :=
  SatisfiesM.pure fun _ h => nomatch h

theorem NotFatal.lift (x : m α) : NotFatal (ExceptT.lift x) :=
  SatisfiesM.map (p := fun _ => True) SatisfiesM.trivial fun _ _ h => nomatch h

theorem NotFatal.throw {e : Error} (h : e.isFatal = false) :
    NotFatal (throw e : ExceptT Error m α) :=
  SatisfiesM.pure fun _ heq => by rw [← Except.error.inj heq, h]

theorem NotFatal.bind {steps : ExceptT Error m α} {next : α → ExceptT Error m β}
    (hsteps : NotFatal steps) (hnext : ∀ a, NotFatal (next a)) : NotFatal (steps >>= next) := by
  unfold NotFatal
  rw [ExceptT.run_bind]
  refine SatisfiesM.bind hsteps fun result hresult => ?_
  cases result with
  | ok a => exact hnext a
  | error e =>
      have hfatal := hresult e rfl
      exact SatisfiesM.pure fun _ heq => by rw [← Except.error.inj heq, hfatal]

theorem NotFatal.mapError {ε : Type} {wrap : ε → Error} (hwrap : ∀ e, (wrap e).isFatal = false)
    (x : m (Except ε α)) : NotFatal (ExceptT.mk (Except.mapError wrap <$> x)) := by
  refine SatisfiesM.map (p := fun _ => True) SatisfiesM.trivial fun {result} _ e h => ?_
  obtain ⟨cause, -, rfl⟩ := mapError_eq_error.1 h
  exact hwrap cause

theorem NotFatal.outside {steps : ExceptT Error m α} (h : NotFatal steps) :
    NotFatal (outside steps) := by
  refine SatisfiesM_StateT_eq.2 fun registry => ?_
  exact SatisfiesM.bind h fun result hresult => SatisfiesM.pure hresult

theorem NotFatal.accessing (path : String) (x : m (Except Fault α)) :
    NotFatal (accessing path x) :=
  (NotFatal.mapError (fun _ => rfl) x).outside

theorem notFatal_findings (asts : AstSource m) (d : Document) : NotFatal (findings asts d) :=
  (NotFatal.mapError (fun _ => rfl) _).bind fun _ => .pure _

theorem notFatal_load (host : Host m) (path : String) : NotFatal (load host path) := by
  refine (NotFatal.accessing path _).bind fun bytes => ?_
  cases Text.Utf8.decode bytes with
  | error e => exact .throw rfl
  | ok text =>
      refine NotFatal.bind (.lift _) fun registry => NotFatal.bind (.lift _) fun _ => ?_
      split
      · exact .throw rfl
      · exact .pure _

theorem notFatal_lintFile (host : Host m) (asts : AstSource m) (path : String) :
    NotFatal (lintFile host asts path) :=
  (notFatal_load host path).bind fun d => (notFatal_findings asts d).outside

end Tidy

namespace CommandLine

open Report Tidy

variable {m : Type → Type} [Monad m] [LawfulMonad m]

theorem status_lintReport {context : ContextWindow} {format : ReportFormat} {registry : Registry}
    {result : Except Tidy.Error (List Diagnostic)}
    (h : ∀ e, result = .error e → e.isFatal = false) :
    (lintReport context format registry result).status ≠ .aborted := by
  cases result with
  | error e => simp [lintReport, h e rfl]
  | ok findings =>
      unfold lintReport
      dsimp only
      split <;> simp

theorem status_lintOne (session : Session m) (format : ReportFormat) (path : String) :
    SatisfiesM (fun report => report.status ≠ .aborted) (lintOne session format path) :=
  SatisfiesM.bind (notFatal_lintFile session.host session.asts path) fun _ hresult =>
    SatisfiesM.bind (p := fun _ => True) SatisfiesM.trivial fun _ _ =>
      SatisfiesM.pure (status_lintReport hresult)

theorem merge_ne_aborted {a b : Status} (ha : a ≠ .aborted) (hb : b ≠ .aborted) :
    a.merge b ≠ .aborted := by
  cases a <;> cases b <;> simp_all [Status.merge]

theorem satisfiesM_forFiles {P : Streams × Status → Prop} (hnone : P ({}, .clean))
    (hadd : ∀ a b, P a → P b → P (a.1 ++ b.1, a.2.merge b.2))
    {step : String → StateT Registry m FileReport}
    (hstep : ∀ path, SatisfiesM (fun report => P (report.streams, report.status)) (step path))
    (paths : List String) : SatisfiesM P (forFiles step paths) := by
  induction paths with
  | nil => exact SatisfiesM.pure hnone
  | cons path rest ih =>
      refine SatisfiesM.bind (hstep path) fun report hreport => ?_
      split
      · exact SatisfiesM.pure hreport
      · refine SatisfiesM.bind ih fun result hresult => ?_
        exact SatisfiesM.pure (hadd _ _ hreport hresult)

theorem satisfiesM_overFiles {P : Streams × Status → Prop} {session : Session m}
    {step : String → StateT Registry m FileReport} {paths : List String}
    (hfiles : ∀ files, SatisfiesM P (forFiles step files))
    (hnote : ∀ note : Streams, note.stdout = "" →
      ∀ result, P result → P (note ++ result.1, result.2)) :
    SatisfiesM P (overFiles session paths step) := by
  refine SatisfiesM.bind (p := fun _ => True) SatisfiesM.trivial fun files _ => ?_
  refine SatisfiesM.bind (SatisfiesM_StateT_eq.1 (hfiles files) .empty) ?_
  rintro ⟨result, registry⟩ hresult
  refine SatisfiesM.pure (hnote _ ?_ result hresult)
  split <;> rfl

theorem status_overFiles {session : Session m} {step : String → StateT Registry m FileReport}
    (hstep : ∀ path, SatisfiesM (fun report => report.status ≠ .aborted) (step path))
    (paths : List String) :
    SatisfiesM (fun result => result.2 ≠ .aborted) (overFiles session paths step) :=
  satisfiesM_overFiles (satisfiesM_forFiles (by simp) (fun _ _ => merge_ne_aborted) hstep)
    fun _ _ _ h => h

theorem exitCode_ne_two {status : Status} (h : status ≠ .aborted) : status.exitCode ≠ 2 := by
  cases status with
  | clean => decide
  | reported => decide
  | aborted => exact absurd rfl h

theorem code_failure (message : String) : (Ending.failure message).code ≠ 2 := by
  have h : (1 : UInt8) ≠ 2 := by decide
  exact h

theorem code_execute (host : Host m) (config : Config) {subcommand : Subcommand}
    (h : ∀ paths, subcommand ≠ .autofix paths) :
    SatisfiesM (fun ending => ending.code ≠ 2) (execute host config subcommand) := by
  cases subcommand with
  | autofix paths => exact absurd rfl (h paths)
  | dumpAst request =>
      refine SatisfiesM.bind (p := fun _ => True) SatisfiesM.trivial fun result _ => ?_
      refine SatisfiesM.pure ?_
      have hzero : (0 : UInt8) ≠ 2 := by decide
      cases result with
      | error e => exact code_failure _
      | ok text => exact hzero
  | lint format paths =>
      refine SatisfiesM.bind (status_overFiles (status_lintOne _ format) paths) ?_
      rintro ⟨streams, status⟩ hstatus
      exact SatisfiesM.pure (exitCode_ne_two hstatus)

theorem code_run (host : Host m) {arguments : List String}
    (h : ∀ parsed paths, Arguments.parse arguments = .ok parsed →
      parsed.subcommand ≠ .autofix paths) :
    SatisfiesM (fun ending => ending.code ≠ 2) (run host arguments) := by
  unfold run
  cases hparse : Arguments.parse arguments with
  | error interruption =>
      refine SatisfiesM.pure ?_
      have hzero : (0 : UInt8) ≠ 2 := by decide
      unfold Interruption.ending
      split
      · exact hzero
      · exact code_failure _
  | ok parsed =>
      refine SatisfiesM.bind (p := fun _ => True) SatisfiesM.trivial fun resolved _ => ?_
      cases resolved with
      | error bad => exact SatisfiesM.pure (code_failure _)
      | ok config =>
          dsimp only
          cases LogFilter.check config.logFilter with
          | error fault => exact SatisfiesM.pure (code_failure _)
          | ok u =>
              refine SatisfiesM.bind (SatisfiesM_StateT_eq.1 (code_execute host config
                fun paths => h parsed paths hparse) {}) ?_
              rintro ⟨ending, memo⟩ hending
              exact SatisfiesM.pure hending

/-- Tidying meets a contradiction only where two alternatives with equal trees hold different
values, or where a list has a related pair after as many edits as are allowed. Looking at a document
meets none, and no run that lints ends with the code of one. -/
theorem inconsistent_only (asts : AstSource Id) (maxPasses : Nat) (d : Document) :
    (∀ cause span, (fixDocument asts maxPasses d).run.run = .error (.inconsistent cause span) →
      ∃ target n p pair, Reaches asts maxPasses d target n p ∧
        (firstRelated asts p.document.root target).run.run = .ok (some pair) ∧
        ((∃ kept dropped, Clash asts target p.document.root pair.first pair.second kept dropped ∧
            cause = .valuesDiffer target.path pair.first pair.second ∧
            span = some dropped.span) ∨
          n = maxPasses ∧ cause = .stillRelated target.path maxPasses ∧
            span = (p.document.root.at? target.path).map (·.span))) ∧
      (∀ cause span, (findings asts d).run.run ≠ .error (.inconsistent cause span)) ∧
      ∀ (n : Type → Type) [Monad n] [LawfulMonad n] (host : Host n) (arguments : List String)
        (parsed : Arguments) (format : ReportFormat) (paths : List String),
        Arguments.parse arguments = .ok parsed → parsed.subcommand = .lint format paths →
          SatisfiesM (fun ending => ending.code ≠ 2) (run host arguments) := by
  refine ⟨fun _ _ => fixDocument_eq_inconsistent, fun cause span h => ?_, ?_⟩
  · have hfatal := SatisfiesM_Id_eq.1 (notFatal_findings asts d) _ h
    cases hfatal
  · intro n _ _ host arguments parsed format paths hparse hlint
    refine code_run host fun parsed' paths' hparse' heq => ?_
    rw [hparse] at hparse'
    obtain rfl := Except.ok.inj hparse'
    rw [hlint] at heq
    cases heq

def contradiction? {α : Type} : Except Tidy.Error α → Option Inconsistency
  | .error (.inconsistent cause _) => some cause
  | _ => none

theorem exists_of_contradiction? {α : Type} {result : Except Tidy.Error α} {cause : Inconsistency}
    (h : contradiction? result = some cause) :
    ∃ span, result = .error (.inconsistent cause span) := by
  unfold contradiction? at h
  split at h
  · next found span =>
      obtain rfl := Option.some.inj h
      exact ⟨span, rfl⟩
  · cases h

def clashingList : String :=
  "rules:\n- languages: [python]\n  pattern-either:\n  - pattern: x\n  - pattern: x\n" ++
    "    focus-metavariable: y\n"

theorem inconsistent_only_clashingList :
    ∃ d registry' span, Document.parse .empty clashingList none = (.ok d, registry') ∧
      (fixDocument nameAsts 2 d).run.run = .error (.inconsistent
        (.valuesDiffer [.key "rules", .index 0, .key "pattern-either"] 0 1) span) ∧
      (∃ target n p, ∃ pair : Pair, ∃ kept dropped, Reaches nameAsts 2 d target n p ∧
        Clash nameAsts target p.document.root pair.first pair.second kept dropped) ∧
      Arguments.parse ["lint", "r.yaml"] = .ok ⟨{}, .lint .text ["r.yaml"]⟩ ∧
      ((run (World.host fun _ _ => ⟨none, [], []⟩) ["lint", "r.yaml"]).run {}).run.1.code ≠ 2 := by
  have hrun : ((Document.parse .empty clashingList none).1.toOption.bind fun d =>
      contradiction? (fixDocument nameAsts 2 d).run.run) =
        some (.valuesDiffer [.key "rules", .index 0, .key "pattern-either"] 0 1) := by
    decide +kernel
  obtain ⟨d, registry', hparse, hrun⟩ := exists_parse_of_bind hrun
  obtain ⟨span, hfix⟩ := exists_of_contradiction? hrun
  have harguments : Arguments.parse ["lint", "r.yaml"] = .ok ⟨{}, .lint .text ["r.yaml"]⟩ := rfl
  obtain ⟨hcauses, -, hlint⟩ := inconsistent_only nameAsts 2 d
  have hcode := hlint (StateM World) (World.host fun _ _ => ⟨none, [], []⟩) _ _ _ _ harguments rfl
  refine ⟨d, registry', span, hparse, hfix, ?_, harguments, ?_⟩
  · obtain ⟨target, n, p, pair, hreaches, -, ⟨kept, dropped, hclash, -, -⟩ | ⟨-, heq, -⟩⟩ :=
      hcauses _ span hfix
    · exact ⟨target, n, p, pair, kept, dropped, hreaches, hclash⟩
    · cases heq
  · have hworld := SatisfiesM_Id_eq.1 (SatisfiesM_StateT_eq.1 hcode {})
    exact hworld

end CommandLine

end RuleTidy
