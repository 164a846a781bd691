import RuleTidy.Proofs.Pattern.Client
import RuleTidy.Proofs.Tidy.Shown
import RuleTidy.Tidy.File

/-! Tidying of one file. What it comes to depends on the text of the file and on the answers of the
program, and all that it writes is the content of the file. -/

namespace RuleTidy.Tidy

open Document Pattern Platform Report Source Yaml

/-! Edits and their count. -/

theorem changed_eq_isModified {asts : AstSource Id} {maxPasses : Nat} {d after : Document}
    {outcome : Outcome} (h : (fixDocument asts maxPasses d).run.run = .ok (outcome, after))
    (hd : d.edits = []) : outcome.changed = after.isModified := by
  obtain ⟨p, hfix, heq⟩ := run_bind_eq_ok.1 h
  obtain ⟨rfl, rfl⟩ := Prod.mk.inj (run_pure_eq_ok.1 heq)
  obtain ⟨edits, hrun⟩ := exists_run_fixLists hfix
  cases edits with
  | nil =>
      obtain rfl := hrun.eq_of_nil
      simp [Outcome.changed, isModified, hd]
  | cons first rest =>
      have hremoved : 0 < p.removed := by
        rw [hrun.removed, List.length_cons]
        omega
      have hchanges : first.pair.changes first.target.path ≠ [] := by
        have hrelated := (hrun.made first List.mem_cons_self).related
        unfold Pair.changes
        cases hrelation : first.pair.relation with
        | different => exact absurd hrelation hrelated
        | same => exact List.cons_ne_nil _ _
        | returnPaired side rewritten => exact List.cons_ne_nil _ _
      have hedits : p.document.edits ≠ [] := by
        refine edits_ne_nil_of_foldlM_perform (foldlM_perform_of_run hrun) ?_
        rw [List.flatMap_cons]
        exact List.append_ne_nil_of_left_ne_nil hchanges _
      simp [Outcome.changed, isModified, hremoved, hedits]

/-! What a file comes to. -/

def textAt (contents : Contents) (path : String) : Except Error String := do
  let bytes ← (contents path).mapError (.access path)
  match Text.Utf8.decode bytes with
  | .error _ => .error (.access path .notUtf8)
  | .ok text => .ok text

def documentAt (contents : Contents) (path : String) : Except Error Document := do
  let text ← textAt contents path
  (Document.parse .empty text path).1.mapError .parse

def tidied (asts : AstSource Id) (contents : Contents) (path : String) :
    Except Error (Outcome × Document) := do
  let document ← documentAt contents path
  (fixDocument asts defaultMaxPasses document).run.run

/-- What a file holds once it has been tidied. -/
def contentAfter (asts : AstSource Id) (contents : Contents) (path : String) :
    Except Fault (List UInt8) :=
  match tidied asts contents path with
  | .ok (outcome, document) =>
    if outcome.changed then .ok (Text.Utf8.encode document.render) else contents path
  | .error _ => contents path

def registerAt (contents : Contents) (path : String) (registry : Registry) : Registry :=
  match textAt contents path with
  | .ok text => (registry.register text).2
  | .error _ => registry

variable {contents : Contents} {path : String}

theorem textAt_eq_ok {text : String} :
    textAt contents path = .ok text ↔
      ∃ bytes, contents path = .ok bytes ∧ Text.Utf8.decode bytes = .ok text := by
  unfold textAt
  simp only [bind_eq_ok, mapError_eq_ok]
  refine exists_congr fun bytes => and_congr_right fun _ => ?_
  cases Text.Utf8.decode bytes <;> simp

theorem textAt_eq_error {e : Error} (h : textAt contents path = .error e) :
    ∃ fault, e = .access path fault := by
  rcases bind_eq_error.1 h with h | ⟨bytes, -, h⟩
  · obtain ⟨fault, -, rfl⟩ := mapError_eq_error.1 h
    exact ⟨fault, rfl⟩
  · split at h
    · exact ⟨_, (Except.error.inj h).symm⟩
    · cases h

theorem documentAt_eq_ok {text : String} {d : Document} (htext : textAt contents path = .ok text)
    (h : documentAt contents path = .ok d) : d.edits = [] ∧ d.root.ReadFrom (Digest.of text) := by
  unfold documentAt at h
  rw [htext] at h
  have hparse := mapError_eq_ok.1 h
  exact ⟨(parse_eq_ok (Prod.ext hparse rfl)).2, readFrom_parse hparse⟩

theorem namesOnly_tidied {asts : AstSource Id} {text : String}
    (htext : textAt contents path = .ok text) :
    (∀ e, tidied asts contents path = .error e → e.toDiagnostic.NamesOnly (Digest.of text)) ∧
      ∀ outcome after, tidied asts contents path = .ok (outcome, after) →
        ∀ d ∈ outcome.skipped, d.NamesOnly (Digest.of text) := by
  unfold tidied
  cases hdocument : documentAt contents path with
  | error e =>
      refine ⟨fun e' he => ?_, nofun⟩
      obtain rfl := Except.error.inj he
      unfold documentAt at hdocument
      rw [htext] at hdocument
      obtain ⟨fault, hparse, rfl⟩ := mapError_eq_error.1 hdocument
      exact namesOnly_parse hparse
  | ok d =>
      obtain ⟨-, hroot⟩ := documentAt_eq_ok htext hdocument
      refine ⟨fun e he => namesOnly_error hroot he, fun outcome after hfix => ?_⟩
      obtain ⟨p, -, heq⟩ := run_bind_eq_ok.1 hfix
      obtain ⟨rfl, -⟩ := Prod.mk.inj (run_pure_eq_ok.1 heq)
      exact namesOnly_skipped hroot

section

variable {asts : AstSource Id} {d : Document} {outcome : Outcome} {e : Error}

theorem tidied_of_error (h : documentAt contents path = .error e) :
    tidied asts contents path = .error e := by
  rw [tidied, h]
  rfl

theorem tidied_of_ok (h : documentAt contents path = .ok d) :
    tidied asts contents path = (fixDocument asts defaultMaxPasses d).run.run := by
  rw [tidied, h]
  rfl

theorem contentAfter_of_error (h : tidied asts contents path = .error e) :
    contentAfter asts contents path = contents path := by
  rw [contentAfter, h]

theorem contentAfter_of_ok (h : tidied asts contents path = .ok (outcome, d)) :
    contentAfter asts contents path =
      if outcome.changed then .ok (Text.Utf8.encode d.render) else contents path := by
  rw [contentAfter, h]

end

/-! Nothing but the content of the file counts. -/

section

variable {asts : AstSource Id} {other : Contents}

theorem textAt_congr (h : other path = contents path) : textAt other path = textAt contents path := by
  unfold textAt
  rw [h]

theorem tidied_congr (h : other path = contents path) :
    tidied asts other path = tidied asts contents path := by
  unfold tidied documentAt
  rw [textAt_congr h]

theorem contentAfter_congr (h : other path = contents path) :
    contentAfter asts other path = contentAfter asts contents path := by
  unfold contentAfter
  rw [tidied_congr h, h]

theorem registerAt_congr (h : other path = contents path) (registry : Registry) :
    registerAt other path registry = registerAt contents path registry := by
  unfold registerAt
  rw [textAt_congr h]

end

/-! The steps for one file. -/

variable {σ : Type} {host : Host (StateM σ)} {view : View σ} {executable : String} {memo : Memo}
  {s : σ} {α β : Type}

def runSteps (x : FileStep (StateT Memo (StateM σ)) α) (registry : Registry) (memo : Memo)
    (s : σ) : ((Except Error α × Registry) × Memo) × σ :=
  ((x.run.run registry).run memo).run s

theorem runSteps_bind (x : FileStep (StateT Memo (StateM σ)) α)
    (f : α → FileStep (StateT Memo (StateM σ)) β) (registry : Registry) (memo : Memo) (s : σ) :
    runSteps (x >>= f) registry memo s =
      match runSteps x registry memo s with
      | (((.ok a, registry), memo), s) => runSteps (f a) registry memo s
      | (((.error e, registry), memo), s) => (((.error e, registry), memo), s) := by
  unfold runSteps
  rw [ExceptT.run_bind, StateT.run_bind, StateT.run_bind, StateT.run_bind]
  rcases ((x.run.run registry).run memo).run s with ⟨⟨⟨result, registry'⟩, memo'⟩, s'⟩
  cases result <;> rfl

theorem runSteps_accessing {access : StateM σ (Except Fault α)} {result : Except Fault α} {s' : σ}
    (h : access.run s = (result, s')) (path : String) (registry : Registry) (memo : Memo) :
    runSteps (accessing path (StateT.lift access : StateT Memo (StateM σ) (Except Fault α)))
        registry memo s = (((result.mapError (.access path), registry), memo), s') := by
  have hsteps : runSteps (accessing path
      (StateT.lift access : StateT Memo (StateM σ) (Except Fault α))) registry memo s =
        ((((access.run s).1.mapError (.access path), registry), memo), (access.run s).2) := rfl
  rw [hsteps, h]

theorem exists_runSteps_load (hlaws : host.Lawful view) (hduring : view.During s) (path : String)
    (registry : Registry) (memo : Memo) :
    ∃ s', runSteps (load host.lift path) registry memo s =
        (((documentAt (view.content s) path, registerAt (view.content s) path registry), memo), s') ∧
      view.Quiet s s' := by
  obtain ⟨s', hrun, hquiet⟩ := hlaws.read hduring path
  have hread : runSteps (accessing path (host.lift.readFile path)) registry memo s =
      ((((view.content s path).mapError (.access path), registry), memo), s') :=
    runSteps_accessing hrun path registry memo
  refine ⟨s', ?_, hquiet⟩
  unfold load documentAt registerAt textAt
  rw [runSteps_bind, hread]
  cases view.content s path with
  | error fault => rfl
  | ok bytes =>
      simp only [Except.mapError, bind, Except.bind]
      cases Text.Utf8.decode bytes with
      | error e => rfl
      | ok text =>
          have hget : runSteps (getThe Registry) registry memo s' =
              (((.ok registry, registry), memo), s') := rfl
          have hset : runSteps (set (registry.register text).2 : FileStep _ PUnit) registry memo
              s' = (((.ok ⟨⟩, (registry.register text).2), memo), s') := rfl
          change runSteps (getThe Registry >>= _) registry memo s' = _
          rw [runSteps_bind, hget]
          change runSteps (set (registry.register text).2 >>= _) registry memo s' = _
          rw [runSteps_bind, hset, fst_parse registry .empty]
          dsimp only
          cases (Document.parse .empty text path).1 <;> rfl

theorem runSteps_outside {x : ExceptT Error (StateT Memo (StateM σ)) α} {result : Except Error α}
    {memo' : Memo} {s' : σ} (h : (x.run.run memo).run s = ((result, memo'), s'))
    (registry : Registry) :
    runSteps (outside x) registry memo s = (((result, registry), memo'), s') := by
  have hsteps : runSteps (outside x) registry memo s =
      let after := (x.run.run memo).run s
      (((after.1.1, registry), after.1.2), after.2) := rfl
  rw [hsteps, h]

structure Leaves (view : View σ) (asts : AstSource Id) (contents : Contents) (path : String)
    (after : Contents) : Prop where
  own : after path = contentAfter asts contents path
  others : ∀ other, view.Apart path other → after other = contents other

theorem Leaves.untouched {asts : AstSource Id}
    (h : contentAfter asts contents path = contents path) :
    Leaves view asts contents path contents :=
  ⟨h.symm, fun _ _ => rfl⟩

/-- Tidying a file returns what the text of the file comes to, and leaves all other files alone. -/
theorem exists_runSteps_fixFile (hlaws : host.Lawful view)
    (h : Known view executable contents memo s) (path : String) (registry : Registry) :
    ∃ after memo' s',
      runSteps (fixFile host.lift (programAsts host executable) defaultMaxPasses path)
        registry memo s =
          ((((tidied (freshAsts view.answer executable) contents path).map (·.1),
            registerAt contents path registry), memo'), s') ∧
      Leaves view (freshAsts view.answer executable) contents path after ∧
      Known view executable after memo' s' := by
  obtain ⟨s₁, hload, hquiet⟩ := exists_runSteps_load hlaws h.during path registry memo
  rw [h.content] at hload
  have h₁ := h.quiet hquiet
  unfold fixFile
  rw [runSteps_bind, hload]
  cases hdocument : documentAt contents path with
  | error e =>
      have htidied := @tidied_of_error contents path (freshAsts view.answer executable) e hdocument
      refine ⟨contents, memo, s₁, ?_, .untouched (contentAfter_of_error htidied), h₁⟩
      rw [htidied]
      rfl
  | ok d =>
      obtain ⟨memo', s₂, hfix, h₂⟩ :=
        (simulates_programAsts hlaws).fixDocument defaultMaxPasses d memo s₁ h₁
      have htidied := @tidied_of_ok contents path (freshAsts view.answer executable) d hdocument
      dsimp only
      rw [runSteps_bind, runSteps_outside hfix, ← htidied]
      cases hresult : tidied (freshAsts view.answer executable) contents path with
      | error e =>
          exact ⟨contents, memo', s₂, rfl, .untouched (contentAfter_of_error hresult), h₂⟩
      | ok result =>
          obtain ⟨outcome, document⟩ := result
          obtain ⟨text, htext, -⟩ := bind_eq_ok.1 hdocument
          -- the file is written when an edit was recorded, and the outcome counts edits
          have hchanged := changed_eq_isModified (htidied.symm.trans hresult)
            (documentAt_eq_ok htext hdocument).1
          have hafter := contentAfter_of_ok hresult
          rw [hchanged] at hafter
          dsimp only
          cases hmodified : document.isModified with
          | false =>
              rw [hmodified] at hafter
              exact ⟨contents, memo', s₂, rfl, .untouched hafter, h₂⟩
          | true =>
              obtain ⟨bytes, hcontent, -⟩ := textAt_eq_ok.1 htext
              rw [← h₂.content] at hcontent
              obtain ⟨s₃, hwrite, hduring, hown, hothers⟩ :=
                hlaws.write h₂.during path (Text.Utf8.encode document.render) hcontent
              have hwritten : runSteps (accessing path (host.lift.writeFile path
                  (Text.Utf8.encode document.render))) (registerAt contents path registry) memo' s₂ =
                    (((.ok (), registerAt contents path registry), memo'), s₃) :=
                runSteps_accessing hwrite path _ memo'
              rw [hmodified] at hafter
              rw [h₂.content] at hothers
              refine ⟨view.content s₃, memo', s₃, ?_, ⟨hown.trans hafter.symm, hothers⟩, h₂.memo,
                hduring, rfl⟩
              simp only [if_true]
              rw [runSteps_bind, hwritten]
              rfl

end RuleTidy.Tidy
