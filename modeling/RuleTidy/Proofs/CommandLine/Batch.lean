import RuleTidy.CommandLine.Run
import RuleTidy.Proofs.CommandLine.Abort
import RuleTidy.Proofs.Platform.World
import RuleTidy.Proofs.Source.Registry
import RuleTidy.Proofs.Tidy.File

/-! Runs that tidy several files. The files have one memory of trees and one registry of texts in
common, and still each of them comes to what it comes to alone. -/

namespace RuleTidy

open Document Pattern Platform Report Source Tidy Yaml

/-! What is reported for one file. -/

namespace CommandLine

variable {asts : AstSource Id} {contents : Contents} {path : String} {context : ContextWindow}
  {registry : Registry}

def reportAt (context : ContextWindow) (asts : AstSource Id) (contents : Contents) (path : String) :
    FileReport :=
  autofixReport context (registerAt contents path .empty) path
    ((tidied asts contents path).map (·.1))

/-- Under the digest of the text of a file, no other text is stored. -/
def Faithful (contents : Contents) (path : String) (registry : Registry) : Prop :=
  ∀ text, textAt contents path = .ok text →
    ∀ stored, registry.get? (Digest.of text) = some stored → stored = text

theorem renderAll_congr {digest : Digest} {ds : List Diagnostic} {other : Registry}
    (h : ∀ d ∈ ds, d.NamesOnly digest) (hsame : registry.get? digest = other.get? digest)
    (context : ContextWindow) : renderAll registry context ds = renderAll other context ds := by
  unfold renderAll
  rw [List.map_congr_left fun d hd => (h d hd).render_congr hsame context]

theorem autofixReport_eq (h : Faithful contents path registry) :
    autofixReport context (registerAt contents path registry) path
        ((tidied asts contents path).map (·.1)) = reportAt context asts contents path := by
  unfold reportAt
  cases htext : textAt contents path with
  | error e =>
      have htidied : tidied asts contents path = .error e := by
        unfold tidied documentAt
        rw [htext]
        rfl
      obtain ⟨fault, rfl⟩ := textAt_eq_error htext
      rw [htidied]
      rfl
  | ok text =>
      obtain ⟨herror, hok⟩ := @namesOnly_tidied contents path asts text htext
      have hsame : (registerAt contents path registry).get? (Digest.of text) =
          (registerAt contents path .empty).get? (Digest.of text) := by
        unfold registerAt
        rw [htext]
        exact (Registry.get?_register_self (h text htext)).trans
          (Registry.get?_register_self (by simp)).symm
      cases htidied : tidied asts contents path with
      | error e =>
          have hnames := List.forall_mem_singleton.2 (herror e htidied)
          have hrender := renderAll_congr hnames hsame context
          simp only [Except.map, autofixReport, hrender]
      | ok result =>
          have hrender := renderAll_congr (hok _ _ htidied) hsame context
          simp only [Except.map, autofixReport, hrender]

theorem reportAt_congr {other : Contents} (h : other path = contents path) :
    reportAt context asts other path = reportAt context asts contents path := by
  unfold reportAt
  rw [tidied_congr h, registerAt_congr h]

variable {σ : Type} {host : Host (StateM σ)} {view : View σ} {config : Config} {memo : Memo} {s : σ}

theorem exists_run_autofixFile (hlaws : host.Lawful view)
    (h : Known view config.executable contents memo s) (hfaithful : Faithful contents path registry) :
    ∃ after memo' s',
      (((autofixFile (.of host config) path).run registry).run memo).run s =
        (((reportAt config.context (freshAsts view.answer config.executable) contents path,
          registerAt contents path registry), memo'), s') ∧
      Leaves view (freshAsts view.answer config.executable) contents path after ∧
      Known view config.executable after memo' s' := by
  obtain ⟨after, memo', s', hrun, hleaves, h'⟩ := exists_runSteps_fixFile hlaws h path registry
  refine ⟨after, memo', s', ?_, hleaves, h'⟩
  rw [← autofixReport_eq hfaithful]
  unfold autofixFile
  rw [StateT.run_bind, StateT.run_bind, StateT.run_bind]
  unfold runSteps at hrun
  simp only [Session.of, hrun]
  rfl

/-! The files of a batch. -/

/-- The elements of a list up to the first one with a property, which is among them. -/
def throughFirst {α : Type} (p : α → Bool) : List α → List α
  | [] => []
  | a :: rest => a :: if p a then [] else throughFirst p rest

theorem mem_of_mem_throughFirst {α : Type} {p : α → Bool} {list : List α} {a : α}
    (h : a ∈ throughFirst p list) : a ∈ list := by
  induction list with
  | nil => exact h
  | cons b rest ih =>
      unfold throughFirst at h
      rcases List.mem_cons.1 h with rfl | h
      · exact List.mem_cons_self
      · split at h
        · cases h
        · exact List.mem_cons_of_mem _ (ih h)

def joined (reports : List FileReport) : Streams × Status :=
  (reports.foldr (fun report streams => report.streams ++ streams) {},
    reports.foldr (fun report status => report.status.merge status) .clean)

/-- The texts of distinct contents have distinct digests. -/
def DistinctDigests (contents : Contents) (paths : List String) : Prop :=
  ∀ path ∈ paths, ∀ other ∈ paths, ∀ text text', textAt contents path = .ok text →
    textAt contents other = .ok text' → Digest.of text = Digest.of text' → text = text'

theorem Faithful.registerAt {other : String} (h : Faithful contents other registry)
    (hdigests : ∀ text text', textAt contents path = .ok text → textAt contents other = .ok text' →
      Digest.of text = Digest.of text' → text = text') :
    Faithful contents other (registerAt contents path registry) := by
  intro text' htext' stored hstored
  unfold Tidy.registerAt at hstored
  cases htext : textAt contents path with
  | error e =>
      rw [htext] at hstored
      exact h text' htext' stored hstored
  | ok text =>
      rw [htext] at hstored
      by_cases hsame : Digest.of text = Digest.of text'
      · obtain rfl := hdigests text text' htext htext' hsame
        rw [Registry.get?_register_self (h text htext')] at hstored
        exact (Option.some.inj hstored).symm
      · have hinsert := Registry.get?_insert registry (Digest.of text') (Digest.of text) text
        rw [if_neg (Ne.symm hsame)] at hinsert
        exact h text' htext' stored (hinsert.symm.trans hstored)

theorem streams_append_empty (streams : Streams) : streams ++ {} = streams := by
  change Streams.mk (streams.stdout ++ "") (streams.stderr ++ "") = streams
  simp

theorem empty_append_streams (streams : Streams) : ({} : Streams) ++ streams = streams := by
  change Streams.mk ("" ++ streams.stdout) ("" ++ streams.stderr) = streams
  simp

theorem merge_clean (status : Status) : status.merge .clean = status := by
  cases status <;> rfl

theorem run_forFiles_cons {step : String → StateT Registry (StateT Memo (StateM σ)) FileReport}
    {report : FileReport} {registry' : Registry} {memo' : Memo} {s' : σ}
    (h : (((step path).run registry).run memo).run s = (((report, registry'), memo'), s'))
    (rest : List String) :
    (((forFiles step (path :: rest)).run registry).run memo).run s =
      if report.stop then ((((report.streams, report.status), registry'), memo'), s')
      else
        let after := (((forFiles step rest).run registry').run memo').run s'
        ((((report.streams ++ after.1.1.1.1, report.status.merge after.1.1.1.2), after.1.1.2),
          after.1.2), after.2) := by
  rw [forFiles, StateT.run_bind, StateT.run_bind, StateT.run_bind, h]
  change (((if report.stop then pure (report.streams, report.status)
    else forFiles step rest >>= fun after =>
      pure (report.streams ++ after.1, report.status.merge after.2) :
        StateT Registry (StateT Memo (StateM σ)) (Streams × Status)).run registry').run
          memo').run s' = _
  split
  · rfl
  · rw [StateT.run_bind, StateT.run_bind, StateT.run_bind]
    rfl

theorem exists_run_forFiles {paths : List String} {first : Contents} (hlaws : host.Lawful view)
    (h : Known view config.executable contents memo s)
    (hsame : ∀ path ∈ paths, contents path = first path) (hapart : paths.Pairwise view.Apart)
    (hdigests : DistinctDigests first paths)
    (hfaithful : ∀ path ∈ paths, Faithful first path registry) :
    let asts := freshAsts view.answer config.executable
    let report := reportAt config.context asts first
    let done := throughFirst (fun path => (report path).stop) paths
    ∃ registry' memo' s',
      (((forFiles (autofixFile (.of host config)) paths).run registry).run memo).run s =
        (((joined (done.map report), registry'), memo'), s') ∧
      (∀ path ∈ done, view.content s' path = contentAfter asts first path) ∧
      ∀ other, (∀ path ∈ done, view.Apart path other) →
        view.content s' other = contents other := by
  intro asts report done
  subst done
  -- on the files: those still to come hold what they held, and under their digests
  -- no other text is stored
  induction paths generalizing contents registry memo s with
  | nil =>
      refine ⟨registry, memo, s, rfl, ?_, fun other _ => by rw [h.content]⟩
      exact fun path hpath => nomatch hpath
  | cons path rest ih =>
      obtain ⟨hpath, hrest⟩ := List.forall_mem_cons.1 hsame
      obtain ⟨hfirst, hlater⟩ := List.pairwise_cons.1 hapart
      obtain ⟨hown, hothers⟩ := List.forall_mem_cons.1 hfaithful
      have hown' : Faithful contents path registry := by
        unfold Faithful
        rw [textAt_congr hpath]
        exact hown
      obtain ⟨after, memo', s', hrun, hleaves, h'⟩ := exists_run_autofixFile hlaws h hown'
      rw [reportAt_congr hpath, registerAt_congr hpath] at hrun
      have hwritten : after path = contentAfter asts first path := by
        rw [hleaves.own, contentAfter_congr hpath]
      rw [run_forFiles_cons hrun]
      unfold throughFirst
      cases hstop : (report path).stop with
      | true =>
          refine ⟨registerAt first path registry, memo', s', ?_, ?_, fun other hother => ?_⟩
          · simp [joined, streams_append_empty, merge_clean, report, asts]
          · rw [h'.content]
            exact List.forall_mem_singleton.2 hwritten
          · rw [h'.content]
            exact hleaves.others other (hother path List.mem_cons_self)
      | false =>
          -- what was written is apart from the files still to come
          have hrest' : ∀ other ∈ rest, after other = first other :=
            fun other hmem => (hleaves.others other (hfirst other hmem)).trans (hrest other hmem)
          have hdigests' : DistinctDigests first rest := fun a ha b hb =>
            hdigests a (List.mem_cons_of_mem _ ha) b (List.mem_cons_of_mem _ hb)
          have hothers' : ∀ other ∈ rest, Faithful first other (registerAt first path registry) :=
            fun other hmem => (hothers other hmem).registerAt
              (hdigests path List.mem_cons_self other (List.mem_cons_of_mem _ hmem))
          obtain ⟨registry', memo'', s'', hrun', hdone, hleft⟩ :=
            ih h' hrest' hlater hdigests' hothers'
          refine ⟨registry', memo'', s'', ?_, ?_, fun other hother => ?_⟩
          · simp only [Bool.false_eq_true, if_false, hrun']
            rfl
          · refine List.forall_mem_cons.2 ⟨?_, hdone⟩
            -- and later files are apart from what was written
            have hapart' : ∀ other ∈ throughFirst (fun path => (report path).stop) rest,
                view.Apart other path :=
              fun other hmem => hlaws.apart_symm (hfirst other (mem_of_mem_throughFirst hmem))
            rw [hleft path hapart', hwritten]
          · obtain ⟨hpath', hother'⟩ := List.forall_mem_cons.1 hother
            rw [hleft other hother', hleaves.others other hpath']

/-! Whole runs. -/

/-- The end of a run that tidies files, and the state that it leaves. -/
def tidyFiles (host : Host (StateM σ)) (config : Config) (s : σ) (paths : List String) :
    Ending × σ :=
  let ((ending, _), after) := ((execute host config (.autofix paths)).run {}).run s
  (ending, after)

def noteOn (paths : List String) : Streams :=
  if paths.isEmpty then .errorLine "no rule files found" else {}

theorem exists_run_ruleFiles {paths : List String} (hlaws : host.Lawful view)
    (h : Known view config.executable contents memo s)
    (hfiles : ∀ path ∈ paths, view.directory path = false) :
    ∃ s', ((ruleFiles host.lift paths).run memo).run s = ((paths, memo), s') ∧
      Known view config.executable contents memo s' := by
  induction paths generalizing s with
  | nil => exact ⟨s, rfl, h⟩
  | cons path rest ih =>
      obtain ⟨hpath, hrest⟩ := List.forall_mem_cons.1 hfiles
      obtain ⟨s₁, hdirectory, hquiet⟩ := hlaws.isDirectory h.during path
      have hat : ((ruleFilesAt host.lift path).run memo).run s = (([path], memo), s₁) := by
        have hsteps : ((ruleFilesAt host.lift path).run memo).run s =
            let found := (host.isDirectory path).run s
            (((if found.1 then do
                return (← host.lift.filesBelow path).filter isRuleFile
              else return [path] : StateT Memo (StateM σ) (List String)).run memo).run found.2) :=
          rfl
        rw [hsteps, hdirectory, hpath]
        rfl
      obtain ⟨s₂, hrun, h₂⟩ := ih (h.quiet hquiet) hrest
      refine ⟨s₂, ?_, h₂⟩
      rw [ruleFiles, StateT.run_bind, StateT.run_bind, hat]
      change (((do
        let more ← ruleFiles host.lift rest
        return [path] ++ more : StateT Memo (StateM σ) (List String)).run memo).run s₁) = _
      rw [StateT.run_bind, StateT.run_bind, hrun]
      rfl

theorem run_overFiles {session : Session (StateT Memo (StateM σ))} {paths : List String}
    {step : String → StateT Registry (StateT Memo (StateM σ)) FileReport}
    {result : Streams × Status} {registry' : Registry} {memo' : Memo} {s₁ s₂ : σ}
    (hfiles : ((ruleFiles session.host paths).run memo).run s = ((paths, memo), s₁))
    (hrun : (((forFiles step paths).run .empty).run memo).run s₁ =
      (((result, registry'), memo'), s₂)) :
    ((overFiles session paths step).run memo).run s =
      (((noteOn paths ++ result.1, result.2), memo'), s₂) := by
  rw [overFiles, StateT.run_bind, StateT.run_bind, hfiles]
  change (((forFiles step paths).run .empty >>= fun after =>
    pure (noteOn paths ++ after.1.1, after.1.2) :
      StateT Memo (StateM σ) (Streams × Status)).run memo).run s₁ = _
  rw [StateT.run_bind, StateT.run_bind, hrun]
  rfl

theorem exists_tidyFiles (hlaws : host.Lawful view) (hduring : view.During s) (config : Config)
    {paths : List String} (hfiles : ∀ path ∈ paths, view.directory path = false)
    (hapart : paths.Pairwise view.Apart) (hdigests : DistinctDigests (view.content s) paths) :
    let asts := freshAsts view.answer config.executable
    let report := reportAt config.context asts (view.content s)
    let done := throughFirst (fun path => (report path).stop) paths
    ∃ after, tidyFiles host config s paths =
        (⟨noteOn paths ++ (joined (done.map report)).1, (joined (done.map report)).2.exitCode⟩,
          after) ∧
      (∀ path ∈ done, view.content after path = contentAfter asts (view.content s) path) ∧
      ∀ other, (∀ path ∈ done, view.Apart path other) →
        view.content after other = view.content s other := by
  intro asts report done
  have hknown : Known view config.executable (view.content s) {} s := ⟨.empty _, hduring, rfl⟩
  have hfaithful : ∀ path ∈ paths, Faithful (view.content s) path .empty :=
    fun path _ text _ stored hstored => by simp at hstored
  obtain ⟨s', hfound, h'⟩ := exists_run_ruleFiles hlaws hknown hfiles
  obtain ⟨registry', memo', after, hrun, hdone, hleft⟩ :=
    exists_run_forFiles hlaws h' (fun _ _ => rfl) hapart hdigests hfaithful
  have hlisted : ((ruleFiles (Session.of host config).host paths).run {}).run s =
      ((paths, {}), s') := hfound
  have hover := run_overFiles hlisted hrun
  have hexecute : execute host config (.autofix paths) =
      overFiles (.of host config) paths (autofixFile (.of host config)) >>= fun result =>
        pure ⟨result.1, result.2.exitCode⟩ := rfl
  refine ⟨after, ?_, hdone, hleft⟩
  rw [tidyFiles, hexecute, StateT.run_bind, StateT.run_bind, hover]
  rfl

def aborts (result : Except Tidy.Error (Outcome × Document)) : Bool :=
  (contradiction? result).isSome

def reports : Except Tidy.Error (Outcome × Document) → Bool
  | .error _ => true
  | .ok (outcome, _) => !outcome.skipped.isEmpty

theorem stop_reportAt (context : ContextWindow) (asts : AstSource Id) (contents : Contents)
    (path : String) :
    (reportAt context asts contents path).stop = aborts (tidied asts contents path) := by
  unfold reportAt
  cases tidied asts contents path with
  | error e => cases e <;> rfl
  | ok result => rfl

theorem status_reportAt (context : ContextWindow) (asts : AstSource Id) (contents : Contents)
    (path : String) :
    (reportAt context asts contents path).status =
      if aborts (tidied asts contents path) then .aborted
      else if reports (tidied asts contents path) then .reported else .clean := by
  unfold reportAt
  cases tidied asts contents path with
  | error e => cases e <;> rfl
  | ok result =>
      obtain ⟨outcome, d⟩ := result
      cases hskipped : outcome.skipped <;>
        simp [Except.map, autofixReport, aborts, reports, contradiction?, hskipped]

theorem exitCode_joined (context : ContextWindow) (asts : AstSource Id) (contents : Contents)
    (paths : List String) :
    (joined (paths.map (reportAt context asts contents))).2.exitCode =
      if paths.any fun path => aborts (tidied asts contents path) then 2
      else if paths.any fun path => reports (tidied asts contents path) then 1 else 0 := by
  induction paths with
  | nil => rfl
  | cons path rest ih =>
      have hmerge : ∀ a b : Status, (a.merge b).exitCode = max a.exitCode b.exitCode := by
        intro a b
        cases a <;> cases b <;> rfl
      have hjoined : (joined ((path :: rest).map (reportAt context asts contents))).2 =
          (reportAt context asts contents path).status.merge
            (joined (rest.map (reportAt context asts contents))).2 := rfl
      rw [hjoined, hmerge, ih, status_reportAt, List.any_cons, List.any_cons]
      cases aborts (tidied asts contents path) <;> cases reports (tidied asts contents path) <;>
        cases rest.any (fun path => aborts (tidied asts contents path)) <;>
        cases rest.any (fun path => reports (tidied asts contents path)) <;> rfl

theorem exists_tidyFiles_singleton (hlaws : host.Lawful view) (hduring : view.During s)
    (config : Config) {path : String} (hfile : view.directory path = false) :
    let asts := freshAsts view.answer config.executable
    let report := reportAt config.context asts (view.content s) path
    ∃ after, tidyFiles host config s [path] =
        (⟨report.streams, report.status.exitCode⟩, after) ∧
      view.content after path = contentAfter asts (view.content s) path := by
  intro asts report
  have hdigests : DistinctDigests (view.content s) [path] := by
    intro a ha b hb text text' htext htext' _
    rw [List.mem_singleton.1 ha] at htext
    rw [List.mem_singleton.1 hb, htext] at htext'
    exact Except.ok.inj htext'
  obtain ⟨after, hrun, hdone, -⟩ := exists_tidyFiles hlaws hduring config
    (List.forall_mem_singleton.2 hfile) (List.pairwise_singleton _ _) hdigests
  have hthrough : throughFirst (fun path =>
      (reportAt config.context asts (view.content s) path).stop) [path] = [path] := by
    simp [throughFirst]
  rw [hthrough] at hrun hdone
  refine ⟨after, ?_, hdone path List.mem_cons_self⟩
  rw [hrun]
  simp [joined, noteOn, streams_append_empty, merge_clean, empty_append_streams, report, asts]

def fixAlone (host : Host (StateM σ)) (executable : String) (s : σ) (path : String) :
    Except Tidy.Error Outcome :=
  (runSteps (fixFile host.lift (programAsts host executable) defaultMaxPasses path) .empty {}
    s).1.1.1

theorem fixAlone_eq (hlaws : host.Lawful view) (hduring : view.During s) (executable : String)
    (path : String) :
    fixAlone host executable s path =
      (tidied (freshAsts view.answer executable) (view.content s) path).map (·.1) := by
  have hknown : Known view executable (view.content s) {} s := ⟨.empty _, hduring, rfl⟩
  obtain ⟨_, _, _, hrun, -, -⟩ := exists_runSteps_fixFile hlaws hknown path .empty
  rw [fixAlone, hrun]

theorem throughFirst_append_drop {α : Type} (p : α → Bool) (list : List α) :
    throughFirst p list ++ list.drop (throughFirst p list).length = list := by
  induction list with
  | nil => rfl
  | cons a rest ih =>
      unfold throughFirst
      cases p a with
      | true => rfl
      | false => exact congrArg (a :: ·) ih

/-- The files of a run do not depend on each other. Each of them, up to the first one that ends in a
contradiction, is written and reported as if it were alone, and those behind it are left as they
are. A file is written when an alternative was touched, and then holds the text of the tidied
document. -/
theorem tidyFiles_independent (hlaws : host.Lawful view) (hduring : view.During s) (config : Config)
    {paths : List String} (hfiles : ∀ path ∈ paths, view.directory path = false)
    (hapart : paths.Pairwise view.Apart) (hdigests : DistinctDigests (view.content s) paths) :
    let result := tidied (freshAsts view.answer config.executable) (view.content s)
    let done := throughFirst (fun path => aborts (result path)) paths
    let batch := tidyFiles host config s paths
    let alone := fun path => tidyFiles host config s [path]
    batch.1.streams = noteOn paths ++
        (done.map fun path => (alone path).1.streams).foldr (· ++ ·) {} ∧
      batch.1.code = (if done.any fun path => aborts (result path) then 2
        else if done.any fun path => reports (result path) then 1 else 0) ∧
      (∀ path ∈ done, view.content batch.2 path = view.content (alone path).2 path) ∧
      (∀ path ∈ paths.drop done.length, view.content batch.2 path = view.content s path) ∧
      ∀ path ∈ paths,
        fixAlone host config.executable s path = (result path).map (·.1) ∧
        view.content (alone path).2 path =
          match result path with
          | .ok (outcome, document) =>
            if outcome.changed then .ok (Text.Utf8.encode document.render)
            else view.content s path
          | .error _ => view.content s path := by
  intro result done batch alone
  let report := reportAt config.context (freshAsts view.answer config.executable) (view.content s)
  have hstop : (fun path => (report path).stop) = fun path => aborts (result path) :=
    funext fun path => stop_reportAt _ _ _ path
  obtain ⟨after, hrun, hdone, hleft⟩ := exists_tidyFiles hlaws hduring config hfiles hapart hdigests
  rw [hstop] at hrun hdone hleft
  have hmem : ∀ path ∈ done, path ∈ paths := fun path => mem_of_mem_throughFirst
  -- a run with one file is a batch too, so both sides come to the same report
  have halone : ∀ path ∈ paths, (alone path).1.streams = (report path).streams ∧
      view.content (alone path).2 path =
        contentAfter (freshAsts view.answer config.executable) (view.content s) path := by
    intro path hpath
    obtain ⟨after, hrun, hown⟩ :=
      exists_tidyFiles_singleton hlaws hduring config (hfiles path hpath)
    dsimp only [alone]
    rw [hrun]
    exact ⟨rfl, hown⟩
  have hbatch : batch = _ := hrun
  refine ⟨?_, ?_, fun path hpath => ?_, fun path hpath => ?_, fun path hpath => ⟨?_, ?_⟩⟩
  · rw [hbatch, List.map_congr_left fun path hpath => (halone path (hmem path hpath)).1]
    simp only [joined, List.foldr_map]
    rfl
  · rw [hbatch]
    exact exitCode_joined _ _ _ done
  · rw [hbatch, hdone path hpath, (halone path (hmem path hpath)).2]
  · rw [hbatch]
    refine hleft path fun other hother => ?_
    rw [← throughFirst_append_drop (fun path => aborts (result path)) paths] at hapart
    exact (List.pairwise_append.1 hapart).2.2 other hother path hpath
  · exact fixAlone_eq hlaws hduring config.executable path
  · exact (halone path hpath).2

def equalAlternatives : String :=
  "rules:\n- languages: [python]\n  pattern-either:\n  - pattern: x\n  - pattern: x\n"

def sameTree (_ : List Argument) : Output := ⟨some 0, Text.Utf8.encode "0", []⟩

def coreConfig : Config := { executable := "./core" }

def threeFiles : World where
  files.entries := [
    (["work", "a.yaml"], .file (Text.Utf8.encode equalAlternatives) false),
    (["work", "b.yaml"], .file (Text.Utf8.encode clashingList) false),
    (["work", "c.yaml"], .file (Text.Utf8.encode equalAlternatives) false),
    (["work", "core"], .file [] true)]

def threePaths : List String := ["a.yaml", "/work/b.yaml", "c.yaml"]

def threeView : View World := World.view sameTree threeFiles

def threeResult : String → Except Tidy.Error (Outcome × Document) :=
  tidied (freshAsts threeView.answer coreConfig.executable) (threeView.content threeFiles)

theorem distinctDigests_threeFiles : DistinctDigests threeFiles.files.content threePaths := by
  have htexts : ∀ path ∈ threePaths,
      (textAt threeFiles.files.content path).toOption = some equalAlternatives ∨
        (textAt threeFiles.files.content path).toOption = some clashingList := by decide +kernel
  have hne : Digest.of equalAlternatives ≠ Digest.of clashingList := by decide +kernel
  have hcases : ∀ path ∈ threePaths, ∀ text, textAt threeFiles.files.content path = .ok text →
      text = equalAlternatives ∨ text = clashingList := by
    intro path hpath text htext
    have hfound := htexts path hpath
    rw [htext] at hfound
    exact hfound.imp Option.some.inj Option.some.inj
  intro a ha b hb text text' htext htext' hdigest
  rcases hcases a ha text htext with rfl | rfl <;> rcases hcases b hb text' htext' with rfl | rfl
  · rfl
  · exact absurd hdigest hne
  · exact absurd hdigest.symm hne
  · rfl

theorem tidyFiles_independent_threeFiles :
    let host := World.host fun _ => sameTree
    host.Lawful threeView ∧ threeView.During threeFiles ∧
      (∀ path ∈ threePaths, threeView.directory path = false) ∧
      threePaths.Pairwise threeView.Apart ∧ DistinctDigests threeFiles.files.content threePaths ∧
      (tidyFiles host coreConfig threeFiles threePaths).1.code = 2 ∧
      (tidyFiles host coreConfig threeFiles threePaths).2.files.content "a.yaml" =
        (tidyFiles host coreConfig threeFiles ["a.yaml"]).2.files.content "a.yaml" ∧
      (tidyFiles host coreConfig threeFiles threePaths).2.files.content "c.yaml" =
        .ok (Text.Utf8.encode equalAlternatives) := by
  intro host
  have hcontents : ∀ world, threeView.content world = world.files.content := fun _ => rfl
  have hlaws : host.Lawful threeView := World.lawful_host sameTree threeFiles
  have hduring : threeView.During threeFiles := ⟨.refl _, rfl⟩
  have hfiles : ∀ path ∈ threePaths, threeFiles.files.isDirectory path = false := by decide +kernel
  have hplaces : threePaths.Pairwise fun a b => (threeFiles.files.resolve a).toOption.map (·.1) ≠
      (threeFiles.files.resolve b).toOption.map (·.1) := by decide +kernel
  have hapart : threePaths.Pairwise threeView.Apart := hplaces.imp FileTree.apart_of_ne
  have hdone : throughFirst (fun path => aborts (threeResult path)) threePaths =
      ["a.yaml", "/work/b.yaml"] := by decide +kernel
  have haborts : aborts (threeResult "/work/b.yaml") = true := by decide +kernel
  have hbefore : threeFiles.files.content "c.yaml" =
      .ok (Text.Utf8.encode equalAlternatives) := by decide +kernel
  obtain ⟨-, hcode, hcontent, hlater, -⟩ := tidyFiles_independent hlaws hduring coreConfig hfiles
    hapart distinctDigests_threeFiles
  have hlast : "c.yaml" ∈ threePaths.drop ["a.yaml", "/work/b.yaml"].length := List.mem_cons_self
  unfold threeResult at hdone haborts
  rw [hdone] at hcode hcontent hlater
  refine ⟨hlaws, hduring, hfiles, hapart, distinctDigests_threeFiles, ?_, ?_, ?_⟩
  · rw [hcode, List.any_cons, List.any_cons, haborts, Bool.true_or, Bool.or_true, if_pos rfl]
  · simpa only [hcontents] using hcontent "a.yaml" List.mem_cons_self
  · rw [← hcontents, hlater "c.yaml" hlast, hcontents, hbefore]

end CommandLine

end RuleTidy
