import RuleTidy.Proofs.CommandLine.Abort
import RuleTidy.Proofs.Report.Json
import RuleTidy.Proofs.Text.Lines

/-! Runs that lint and print JSON. Each finding takes one line of what is printed, and can be read
back from that line. -/

namespace RuleTidy.CommandLine

open Pattern Platform Report Source Text

theorem renderJsonLines_append (ds es : List Diagnostic) :
    renderJsonLines (ds ++ es) = renderJsonLines ds ++ renderJsonLines es := by
  apply String.toList_injective
  simp only [renderJsonLines, String.toList_append, String.toList_join, List.map_append,
    List.flatMap_append]

theorem lines_renderJsonLines (ds : List Diagnostic) :
    lines (renderJsonLines ds).toList = ds.map Diagnostic.toJson := by
  rw [renderJsonLines, String.toList_join, List.flatMap_map]
  induction ds with
  | nil => rfl
  | cons d ds ih =>
      have hfeed := (unbroken_diagnostic d).not_mem (c := '\n') (by decide)
      have hreturn : d.toJson.getLast? ≠ some '\r' := fun h =>
        (unbroken_diagnostic d).not_mem (c := '\r') (by decide) (List.mem_of_getLast? h)
      rw [List.flatMap_cons, String.toList_ofList, List.append_assoc, List.singleton_append,
        lines_append_feed, ih, splitLines_of_not_mem hfeed, List.map_cons]
      simp [dropReturn, hreturn]

def found (result : Except Tidy.Error (List Diagnostic)) : List Diagnostic :=
  result.toOption.getD []

section Runs

variable {m : Type → Type} [Monad m] [LawfulMonad m]

/-- What is found in each of a list of files, which have one registry in common. -/
def lintFiles (session : Session m) (paths : List String) :
    m (List (Except Tidy.Error (List Diagnostic))) := do
  let (results, _) ←
    (paths.mapM fun path => (Tidy.lintFile session.host session.asts path).run).run .empty
  return results

theorem stdout_lintReport (context : ContextWindow) (registry : Registry)
    (result : Except Tidy.Error (List Diagnostic)) :
    (lintReport context .json registry result).streams.stdout = renderJsonLines (found result) := by
  cases result <;> rfl

theorem stop_lintReport (context : ContextWindow) (format : ReportFormat) (registry : Registry)
    (result : Except Tidy.Error (List Diagnostic)) :
    (lintReport context format registry result).stop = false := by
  cases result <;> rfl

theorem stdout_forFiles_lintOne (session : Session m) (paths : List String) :
    (fun result => result.1.stdout) <$> forFiles (lintOne session .json) paths =
      (fun results => renderJsonLines (results.flatMap found)) <$>
        paths.mapM fun path => (Tidy.lintFile session.host session.asts path).run := by
  induction paths with
  | nil => simp [forFiles, renderJsonLines, String.join]
  | cons path rest ih =>
      have hrest : ∀ text : String,
          (fun result : Streams × Status => text ++ result.1.stdout) <$>
              forFiles (lintOne session .json) rest =
            (fun results => text ++ renderJsonLines (results.flatMap found)) <$>
              rest.mapM fun path => (Tidy.lintFile session.host session.asts path).run := by
        intro text
        have happend := congrArg (Functor.map (text ++ ·)) ih
        rwa [Functor.map_map, Functor.map_map] at happend
      have hget : ∀ next : StateT Registry m String, (get >>= fun _ => next) = next := by
        intro next
        apply StateT.ext
        simp
      simp only [forFiles, lintOne, bind_assoc, pure_bind, map_bind, stop_lintReport, map_pure,
        Bool.false_eq_true, if_false, List.mapM_cons, List.flatMap_cons, renderJsonLines_append]
      refine bind_congr fun result => ?_
      have hstdout : ∀ registry (streams : Streams),
          ((lintReport session.context .json registry result).streams ++ streams).stdout =
            renderJsonLines (found result) ++ streams.stdout := by
        intro registry streams
        rw [← stdout_lintReport session.context registry result]
        rfl
      simp only [hstdout, ← map_eq_pure_bind, hrest, hget]

theorem stdout_execute_lint (host : Host m) (config : Config) (paths : List String) :
    (fun ending => ending.streams.stdout) <$> execute host config (.lint .json paths) =
      (fun results => renderJsonLines (results.flatMap found)) <$>
        (ruleFiles host.lift paths >>= lintFiles (.of host config)) := by
  have hexecute : execute host config (.lint .json paths) =
      overFiles (.of host config) paths (lintOne (.of host config) .json) >>= fun result =>
        pure ⟨result.1, result.2.exitCode⟩ := rfl
  have hfiles : ∀ files, (fun result => result.1.1.stdout) <$>
      (forFiles (lintOne (.of host config) .json) files).run .empty =
        (fun results => renderJsonLines (results.flatMap found)) <$>
          lintFiles (.of host config) files := by
    intro files
    have hrun := congrArg (fun steps => Prod.fst <$> steps.run .empty)
      (stdout_forFiles_lintOne (.of host config) files)
    simp only [StateT.run_map, Functor.map_map] at hrun
    rw [hrun, lintFiles]
    simp
  have hnote : ∀ (files : List String) (streams : Streams),
      ((if files.isEmpty then Streams.errorLine "no rule files found" else {}) ++ streams).stdout =
        streams.stdout := by
    intro files streams
    cases files <;> exact String.empty_append
  rw [hexecute]
  simp only [overFiles, map_bind, bind_assoc, pure_bind, map_pure, hnote]
  refine bind_congr fun files => ?_
  simpa only [map_eq_pure_bind] using hfiles files

end Runs

/-- The text of a diagnostic has no line break, and the diagnostic is read back from it. What is
found in a file is printed as one such text to a line, and a whole run prints nothing else. -/
theorem jsonLines_readBack :
    (∀ d : Diagnostic, '\n' ∉ d.toJson ∧ '\r' ∉ d.toJson ∧
        Json.Reader.diagnostic.run (String.ofList d.toJson) = .ok d) ∧
      (∀ (context : ContextWindow) (registry : Registry) (findings : List Diagnostic),
        lines (lintReport context .json registry (.ok findings)).streams.stdout.toList =
          findings.map Diagnostic.toJson) ∧
      ∀ (m : Type → Type) [Monad m] [LawfulMonad m] (host : Host m) (config : Config)
        (paths : List String),
        (fun ending => lines ending.streams.stdout.toList) <$>
            execute host config (.lint .json paths) =
          (fun results => (results.flatMap found).map Diagnostic.toJson) <$>
            (ruleFiles host.lift paths >>= lintFiles (.of host config)) := by
  refine ⟨fun d => ⟨?_, ?_, (reads_diagnostic d).run⟩, ?_, ?_⟩
  · exact (unbroken_diagnostic d).not_mem (by decide)
  · exact (unbroken_diagnostic d).not_mem (by decide)
  · exact fun context registry findings => lines_renderJsonLines findings
  · intro m _ _ host config paths
    have hstdout := congrArg (Functor.map fun text => lines text.toList)
      (stdout_execute_lint host config paths)
    rw [Functor.map_map, Functor.map_map] at hstdout
    simpa only [lines_renderJsonLines] using hstdout

def twoLines : Diagnostic := ⟨.warning, "a \"b\"\n\x01c", none, [.synthetic], some "d\r"⟩

def twoFiles : World where
  files.entries := [
    (["work", "a.yaml"], .file (Utf8.encode
      "rules:\n- languages: [python]\n  pattern-either:\n  - pattern: x\n  - pattern: x\n") false),
    (["work", "b.yaml"], .file (Utf8.encode "rules:\n- id: a\n") false),
    (["work", "core"], .file [] true)]

def twoFilesHost : Host (StateM World) := World.host fun _ _ => ⟨some 0, Utf8.encode "0", []⟩

def returned {α : Type} (steps : StateT Memo (StateM World) α) : α :=
  ((steps.run {}).run twoFiles).1.1

theorem returned_map {α β : Type} (f : α → β) (steps : StateT Memo (StateM World) α) :
    returned (f <$> steps) = f (returned steps) := rfl

def twoFilesConfig : Config := { executable := "./core" }

theorem jsonLines_readBack_twoLines :
    Json.Reader.diagnostic.run (String.ofList twoLines.toJson) = .ok twoLines ∧
      lines (lintReport ⟨0, 0⟩ .json .empty (.ok [twoLines, twoLines])).streams.stdout.toList =
        [twoLines.toJson, twoLines.toJson] ∧
      ∃ first second : Diagnostic,
        lines (returned (execute twoFilesHost twoFilesConfig
          (.lint .json ["a.yaml", "b.yaml"]))).streams.stdout.toList =
            [first.toJson, second.toJson] ∧
        first.shortMessage = "alternatives of `rules[0].pattern-either` are equivalent" ∧
        second.shortMessage = "rule `a`: rule has no `languages`" := by
  obtain ⟨hdiagnostic, hreport, hrun⟩ := jsonLines_readBack
  refine ⟨(hdiagnostic twoLines).2.2, hreport ⟨0, 0⟩ .empty [twoLines, twoLines], ?_⟩
  have hlines := congrArg returned
    (hrun (StateM World) twoFilesHost twoFilesConfig ["a.yaml", "b.yaml"])
  rw [returned_map, returned_map] at hlines
  have hmessages : ((returned (ruleFiles twoFilesHost.lift ["a.yaml", "b.yaml"] >>=
      lintFiles (.of twoFilesHost twoFilesConfig))).flatMap found).map (·.shortMessage) =
        ["alternatives of `rules[0].pattern-either` are equivalent",
          "rule `a`: rule has no `languages`"] := by decide +kernel
  obtain ⟨first, rest, hfirst, hmessage, hrest⟩ := List.map_eq_cons_iff.1 hmessages
  obtain ⟨second, others, rfl, hmessage', hothers⟩ := List.map_eq_cons_iff.1 hrest
  obtain rfl := List.map_eq_nil_iff.1 hothers
  rw [hfirst] at hlines
  exact ⟨first, second, hlines, hmessage, hmessage'⟩

end RuleTidy.CommandLine
