import RuleTidy.Proofs.Tidy.Run

/-! What is lost with an alternative that goes. Of two equal alternatives either holds all that the
other one does. Of a return pair only the patterns have been compared. -/

namespace RuleTidy.Tidy

open Document Pattern Source Yaml

variable {asts : AstSource Id} {maxPasses : Nat}

def otherEntries (alternative : Node) : List (Node × Node) :=
  (alternative.entries?.getD []).eraseP fun entry => entry.1.text? = some "pattern"

def hasEntry (entries : List (Node × Node)) (entry : Node × Node) : Bool :=
  entries.any fun other => other.1 == entry.1 && other.2 == entry.2

/-- What a dropped alternative has besides its pattern and the kept one has not. -/
def missing (dropped kept : Node) : List (Node × Node) :=
  (otherEntries dropped).filter fun entry => !hasEntry (kept.entries?.getD []) entry

theorem missing_eq_nil {dropped kept : Node} :
    missing dropped kept = [] ↔
      ∀ entry ∈ otherEntries dropped, hasEntry (kept.entries?.getD []) entry = true := by
  simp [missing, List.filter_eq_nil_iff]

namespace Edit

def dropped? (e : Edit) : Option Node :=
  e.before.document.root.at? (e.target.path ++ [.index e.pair.dropped])

def former? (e : Edit) : Option Node :=
  e.before.document.root.at? (e.target.path ++ [.index e.pair.kept])

def kept? (e : Edit) : Option Node :=
  (e.follow (e.target.path ++ [.index e.pair.kept])).bind e.after.document.root.at?

def lost (e : Edit) : List (Node × Node) :=
  (e.dropped?.bind fun dropped => e.kept?.map (missing dropped)).getD []

end Edit

/-! Equal alternatives. -/

theorem hasEntry_of_beqEntries {kept dropped : List (Node × Node)}
    (h : Node.beqEntries kept dropped = true) {entry : Node × Node} (hentry : entry ∈ dropped) :
    hasEntry kept entry = true := by
  induction kept generalizing dropped with
  | nil =>
      cases dropped with
      | nil => cases hentry
      | cons first rest => simp [Node.beqEntries] at h
  | cons own kept ih =>
      cases dropped with
      | nil => cases hentry
      | cons first rest =>
          simp only [Node.beqEntries, Bool.and_eq_true] at h
          rw [hasEntry, List.any_cons, Bool.or_eq_true]
          rcases List.mem_cons.1 hentry with rfl | hentry
          · exact .inl (Bool.and_eq_true_iff.2 h.1)
          · exact .inr (ih h.2 hentry)

theorem missing_of_beq {dropped kept : Node} (h : (kept == dropped) = true) :
    missing dropped kept = [] := by
  rw [missing_eq_nil]
  intro entry hentry
  cases dropped with
  | scalar info value => cases hentry
  | sequence info items => cases hentry
  | mapping info entries =>
      cases kept with
      | scalar info' value => exact absurd h (by simp [BEq.beq, Node.beq])
      | sequence info' items => exact absurd h (by simp [BEq.beq, Node.beq])
      | mapping info' own =>
          have hentries : Node.beqEntries own entries = true := by
            simpa [BEq.beq, Node.beq] using h
          exact hasEntry_of_beqEntries hentries (List.mem_of_mem_eraseP hentry)

/-! Alternatives whose pattern is written anew. -/

theorem eraseP_setEntry (text : Node) (entries : List (Node × Node)) :
    (Node.setEntry "pattern" text entries).eraseP (fun entry => entry.1.text? = some "pattern") =
      entries.eraseP fun entry => entry.1.text? = some "pattern" := by
  induction entries with
  | nil => rfl
  | cons entry rest ih =>
      obtain ⟨key, value⟩ := entry
      unfold Node.setEntry
      by_cases hkey : key.text? = some "pattern"
      · simp [hkey]
      · simp [hkey, ih]

theorem otherEntries_withPattern (text : String) (alternative : Node) :
    otherEntries (withPattern text alternative) = otherEntries alternative := by
  unfold withPattern
  cases alternative.get? "pattern" with
  | none => rfl
  | some old =>
      cases alternative with
      | scalar info value => rfl
      | sequence info items => rfl
      | mapping info entries => exact eraseP_setEntry _ entries

theorem hasEntry_of_sublist {entries rest : List (Node × Node)} {entry : Node × Node}
    (h : rest.Sublist entries) (hrest : hasEntry rest entry = true) :
    hasEntry entries entry = true := by
  obtain ⟨other, hother, hsame⟩ := List.any_eq_true.1 hrest
  exact List.any_eq_true.2 ⟨other, h.mem hother, hsame⟩

/-! Edits. -/

/-- How much an edit can lose. Of equal alternatives the one that stays holds the same entries. In a
return pair it has no other entries than before, and those of them that it shares with the one that
goes are not lost. -/
inductive Edit.Loses (e : Edit) (dropped former kept : Node) : Prop
  | nothing (same : e.pair.relation = .same) (kept_eq : kept = former)
      (none_lost : missing dropped kept = [])
  | unshared (side : Side) (rewritten : String)
      (paired : e.pair.relation = .returnPaired side rewritten)
      (kept_eq : kept = withPattern rewritten former)
      (others : otherEntries kept = otherEntries former)
      (lost : ∀ entry ∈ missing dropped kept, hasEntry (otherEntries former) entry = false)

theorem Edit.Made.loses {e : Edit} (h : e.Made asts) :
    ∃ dropped former kept, e.dropped? = some dropped ∧ e.former? = some former ∧
      e.kept? = some kept ∧ e.Loses dropped former kept := by
  obtain ⟨info, items, first, second, _, _, hlist, hrelates⟩ := firstRelated_eq_some h.found
  have hfirst := at?_alternative hlist hrelates.firstAt
  have hsecond := at?_alternative hlist hrelates.secondAt
  have hstays := Pair.kept_ne_dropped hrelates.lt
  have hkept : ∀ former, e.former? = some former →
      e.kept? = some (e.pair.revise e.pair.kept former) := by
    intro former hformer
    have hafter := h.at?_of_stays hformer hstays
    rw [kept?, follow_alternative, if_neg hstays, Option.bind_some]
    exact hafter
  cases hrelation : e.pair.relation with
  | different => exact absurd hrelation h.related
  | same =>
      have hdropped? : e.dropped? = some second := by
        simpa only [dropped?, Pair.dropped, hrelation] using hsecond
      have hformer? : e.former? = some first := by
        simpa only [former?, Pair.kept, hrelation] using hfirst
      have hrevise : e.pair.revise e.pair.kept first = first := by
        simp only [Pair.revise, hrelation]
      -- the pair is dropped only when the whole values are equal
      have hsame : (first == second) = true := by
        have hmerged := h.merged
        unfold mergePair at hmerged
        rw [hrelation] at hmerged
        obtain ⟨_, _, _, _, hfirst', hsecond', hsame, -, -⟩ := dropDuplicate_eq_ok.1 hmerged
        rw [hfirst] at hfirst'
        rw [hsecond] at hsecond'
        rwa [← Option.some.inj hfirst', ← Option.some.inj hsecond'] at hsame
      exact ⟨second, first, first, hdropped?, hformer?, hrevise ▸ hkept first hformer?,
        .nothing hrelation rfl (missing_of_beq hsame)⟩
  | returnPaired side rewritten =>
      obtain ⟨dropped, former, hdropped?, hformer?⟩ : ∃ dropped former,
          e.dropped? = some dropped ∧ e.former? = some former := by
        simp only [dropped?, former?, Pair.dropped, Pair.kept, hrelation]
        cases side with
        | first => exact ⟨second, first, hsecond, hfirst⟩
        | second => exact ⟨first, second, hfirst, hsecond⟩
      have hrevise : e.pair.revise e.pair.kept former = withPattern rewritten former := by
        simp only [Pair.revise, hrelation, if_pos]
      -- a new pattern leaves all other entries, so what they share is not missing
      have hothers := otherEntries_withPattern rewritten former
      refine ⟨dropped, former, withPattern rewritten former, hdropped?, hformer?,
        hrevise ▸ hkept former hformer?, .unshared side rewritten hrelation rfl hothers ?_⟩
      intro entry hentry
      obtain ⟨-, hnot⟩ := List.mem_filter.1 hentry
      cases hshared : hasEntry (otherEntries former) entry with
      | false => rfl
      | true =>
          rw [← hothers] at hshared
          rw [hasEntry_of_sublist (List.eraseP_sublist) hshared] at hnot
          cases hnot

/-- Each edit of a run that succeeds keeps all entries of the alternative that goes, unless it is one
of a return pair. Then it can lose those that the returning alternative does not have. -/
theorem loses_of_fixDocument {d after : Document} {outcome : Outcome}
    (h : (fixDocument asts maxPasses d).run.run = .ok (outcome, after)) :
    ∃ edits, Tidies asts d edits after ∧ outcome.removed = edits.length ∧
      ∀ e ∈ edits, ∃ dropped former kept, e.dropped? = some dropped ∧ e.former? = some former ∧
        e.kept? = some kept ∧ e.Loses dropped former kept := by
  obtain ⟨edits, htidies, hremoved⟩ := exists_tidies h
  obtain ⟨p, hrun, hafter⟩ := htidies
  exact ⟨edits, ⟨p, hrun, hafter⟩, hremoved, fun e he => (hrun.made e he).loses⟩

/-- Three alternatives go, one of them in a return pair. -/
theorem loses_of_fixDocument_nestedLists :
    ∃ d registry' outcome after edits,
      Document.parse .empty nestedLists none = (.ok d, registry') ∧
      (fixDocument nameAsts 2 d).run.run = .ok (outcome, after) ∧
      Tidies nameAsts d edits after ∧ edits.length = 3 ∧
      ∀ e ∈ edits, ∃ dropped former kept, e.dropped? = some dropped ∧ e.former? = some former ∧
        e.kept? = some kept ∧ e.Loses dropped former kept := by
  have hrun : ((Document.parse .empty nestedLists none).1.toOption.bind fun d =>
      (fixDocument nameAsts 2 d).run.run.toOption.map fun (outcome, _) => outcome.removed) =
        some 3 := by decide +kernel
  obtain ⟨d, registry', hparse, hrun⟩ := exists_parse_of_bind hrun
  obtain ⟨⟨outcome, after⟩, hfix, hthree⟩ := Option.map_eq_some_iff.1 hrun
  rw [toOption_eq_some] at hfix
  obtain ⟨edits, htidies, hremoved, hloses⟩ := loses_of_fixDocument hfix
  exact ⟨d, registry', outcome, after, edits, hparse, hfix, htidies, hremoved ▸ hthree, hloses⟩

def unsharedEntry : String :=
  "rules:\n- languages: [python]\n  pattern-either:\n  - pattern: return x\n  - pattern: x\n" ++
    "    focus-metavariable: y\n"

/-- Tidying can lose an entry. -/
theorem not_lost_eq_nil :
    ¬∀ (asts : AstSource Id) (maxPasses : Nat) (registry registry' : Registry) (text : String)
      (file : Option String) (d after : Document) (outcome : Outcome) (edits : List Edit),
      Document.parse registry text file = (.ok d, registry') →
        (fixDocument asts maxPasses d).run.run = .ok (outcome, after) →
          Tidies asts d edits after → ∀ e ∈ edits, e.lost = [] := by
  intro hclaim
  let target : Target := ⟨"python", [.key "rules", .index 0, .key "pattern-either"]⟩
  have hrun : ((Document.parse .empty unsharedEntry none).1.toOption.bind fun d =>
      (firstRelated nameAsts d.root target).run.run.toOption.join.bind fun pair =>
        (mergePair nameAsts target { document := d } pair).run.run.toOption.bind fun next =>
          (firstRelated nameAsts next.document.root target).run.run.toOption.map fun found =>
            (targets d.root, found, (Edit.mk target pair { document := d } next).lost.length)) =
      some ([target], none, 1) := by decide +kernel
  obtain ⟨d, registry', hparse, hrun⟩ := exists_parse_of_bind hrun
  obtain ⟨pair, hpair, hrun⟩ := Option.bind_eq_some_iff.1 hrun
  obtain ⟨next, hnext, hrun⟩ := Option.bind_eq_some_iff.1 hrun
  obtain ⟨found, hfound, heq⟩ := Option.map_eq_some_iff.1 hrun
  obtain ⟨htargets, rfl, hlost⟩ : targets d.root = [target] ∧ found = none ∧
      (Edit.mk target pair { document := d } next).lost.length = 1 := by simpa using heq
  have hmade : (Edit.mk target pair { document := d } next).Made nameAsts :=
    ⟨toOption_eq_some.1 (Option.join_eq_some_iff.1 hpair), toOption_eq_some.1 hnext⟩
  have hlist : (fixList nameAsts 1 target 1 { document := d }).run.run = .ok next :=
    fixList_eq_ok.2 (.inr ⟨pair, 0, next, hmade.found, rfl, hmade.merged,
      fixList_eq_ok.2 (.inl ⟨toOption_eq_some.1 hfound, rfl⟩)⟩)
  have hlists : (fixLists nameAsts 1 (targets d.root) { document := d }).run.run = .ok next := by
    rw [htargets]
    exact run_bind_eq_ok.2 ⟨next, hlist, rfl⟩
  have hfix : (fixDocument nameAsts 1 d).run.run =
      .ok (⟨next.removed, next.rewritten, skipped d.root⟩, next.document) :=
    run_bind_eq_ok.2 ⟨next, hlists, rfl⟩
  have htidies : Tidies nameAsts d [Edit.mk target pair { document := d } next] next.document := by
    refine ⟨next, ?_, rfl⟩
    rw [htargets]
    exact .edit hmade (.settled (toOption_eq_some.1 hfound) (.nil next))
  have hnone := hclaim nameAsts 1 _ _ _ _ _ _ _ _ hparse hfix htidies _ List.mem_cons_self
  rw [hnone] at hlost
  cases hlost

end RuleTidy.Tidy
