import RuleTidy.Proofs.Document.Conflict
import RuleTidy.Proofs.Tidy.Reach
import RuleTidy.Proofs.Tidy.Run

/-! Conflicts in a run. The edits of the text that one pair calls for are recorded beside those of
all pairs before, and tidying fails when one of these does not let a new one be recorded. -/

namespace RuleTidy.Tidy

open Document Pattern Source Yaml

variable {asts : AstSource Id} {maxPasses : Nat} {target : Target}

/-- What is asked of a document to make one alternative of a pair. -/
def Pair.changes (pair : Pair) (list : Path) : List Change :=
  match pair.relation with
  | .same => [.removeItem list pair.second]
  | .returnPaired side rewritten =>
    [.replaceScalar (patternPath list (side.pick pair.first pair.second)) rewritten,
      .removeItem list (side.other.pick pair.first pair.second)]
  | .different => []

def Pair.Agrees (root : Node) (list : Path) (pair : Pair) : Prop :=
  pair.relation = .same →
    (root.at? (list ++ [.index pair.first]) == root.at? (list ++ [.index pair.second])) = true

theorem foldlM_perform_of_mergePair {p after : Progress} {pair : Pair}
    (h : (mergePair asts target p pair).run.run = .ok after) :
    (pair.changes target.path).foldlM perform p.document = .ok after.document := by
  unfold mergePair at h
  unfold Pair.changes
  cases hrelation : pair.relation with
  | different => rw [hrelation] at h; cases h
  | same =>
      rw [hrelation] at h
      obtain ⟨_, _, removed, document, -, -, -, hremove, rfl⟩ := dropDuplicate_eq_ok.1 h
      exact bind_eq_ok.2 ⟨document, map_eq_ok.2 ⟨_, hremove, rfl⟩, rfl⟩
  | returnPaired side rewritten =>
      rw [hrelation] at h
      obtain ⟨_, -, h⟩ := run_bind_eq_ok.1 h
      obtain ⟨between, removed, document, hreplace, hremove, rfl⟩ := mergeReturn_eq_ok.1 h
      have hlast : [Change.removeItem target.path
          (side.other.pick pair.first pair.second)].foldlM perform between = .ok document :=
        bind_eq_ok.2 ⟨document, map_eq_ok.2 ⟨_, hremove, rfl⟩, rfl⟩
      exact bind_eq_ok.2 ⟨between, hreplace, hlast⟩

theorem dropDuplicate_eq_refused {p : Progress} {list : Path} {first second : Nat}
    {kept dropped : Node} {e : EditError}
    (hkept : p.document.root.at? (list ++ [.index first]) = some kept)
    (hdropped : p.document.root.at? (list ++ [.index second]) = some dropped) :
    dropDuplicate p list first second = .error (.edit e) ↔
      (kept == dropped) = true ∧ p.document.removeItem list second = .error e := by
  unfold dropDuplicate
  rw [alternativeAt_eq_ok.2 hkept, alternativeAt_eq_ok.2 hdropped]
  cases hsame : kept == dropped with
  | false => simp [bind, Except.bind, bne, hsame, inconsistent]
  | true =>
      cases p.document.removeItem list second <;>
        simp [bind, Except.bind, bne, hsame, Except.mapError, pure, Except.pure]

theorem mergeReturn_eq_refused {p : Progress} {list : Path} {returning other : Nat}
    {rewritten : String} {e : EditError} :
    mergeReturn p list returning other rewritten = .error (.edit e) ↔
      [Change.replaceScalar (patternPath list returning) rewritten, .removeItem list other].foldlM
        perform p.document = .error e := by
  unfold mergeReturn
  simp only [List.foldlM_cons, perform, List.foldlM_nil]
  cases p.document.replaceScalar (patternPath list returning) rewritten with
  | error refusal => simp [bind, Except.bind, Except.mapError]
  | ok between =>
      cases hremove : between.removeItem list other <;>
        simp [bind, Except.bind, Except.mapError, pure, Except.pure, hremove, Functor.map, Except.map]

theorem mergePair_eq_refused {p : Progress} {pair : Pair} {e : EditError}
    (hpair : (firstRelated asts p.document.root target).run.run = .ok (some pair)) :
    (mergePair asts target p pair).run.run = .error (.edit e) ↔
      pair.Agrees p.document.root target.path ∧
        (pair.changes target.path).foldlM perform p.document = .error e := by
  obtain ⟨info, items, kept, dropped, text, text', hlist, hrelates⟩ := firstRelated_eq_some hpair
  have hkept := at?_alternative hlist hrelates.firstAt
  have hdropped := at?_alternative hlist hrelates.secondAt
  unfold mergePair Pair.Agrees Pair.changes
  cases hrelation : pair.relation with
  | different => exact absurd hrelation hrelates.related
  | same =>
      refine (dropDuplicate_eq_refused hkept hdropped).trans ?_
      rw [hkept, hdropped]
      simp only [List.foldlM_cons, List.foldlM_nil, bind_pure, forall_const]
      exact and_congr_right fun _ => map_eq_error.symm
  | returnPaired side rewritten =>
      have hcheck := checkReturning_of_returnPaired hpair hrelation
      refine Iff.trans ?_ (mergeReturn_eq_refused.trans (and_iff_right nofun).symm)
      rw [run_bind_eq_error, hcheck]
      constructor
      · rintro (h | ⟨_, -, h⟩)
        · cases h
        · exact h
      · exact fun h => .inr ⟨(), rfl, h⟩

/-! The run up to the conflict. -/

theorem foldlM_perform_of_run {lists : List Target} {p after : Progress} {edits : List Edit}
    (h : Run asts lists p edits after) :
    (edits.flatMap fun e => e.pair.changes e.target.path).foldlM perform p.document =
      .ok after.document := by
  induction h with
  | nil p => rfl
  | settled _ _ ih => exact ih
  | edit made _ ih =>
      rw [List.flatMap_cons, List.foldlM_append]
      exact bind_eq_ok.2 ⟨_, foldlM_perform_of_mergePair made.merged, ih⟩

theorem Edits.exists_changes {n : Nat} {p after : Progress} (h : Edits asts target n p after) :
    ∃ changes : List Change, changes.foldlM perform p.document = .ok after.document := by
  induction h with
  | refl p => exact ⟨[], rfl⟩
  | @head _ _ _ _ pair _ merged _ ih =>
      obtain ⟨changes, hchanges⟩ := ih
      refine ⟨pair.changes target.path ++ changes, ?_⟩
      rw [List.foldlM_append]
      exact bind_eq_ok.2 ⟨_, foldlM_perform_of_mergePair merged, hchanges⟩

theorem Reaches.exists_changes {d : Document} {n : Nat} {p : Progress}
    (h : Reaches asts maxPasses d target n p) :
    ∃ changes : List Change, changes.foldlM perform d = .ok p.document := by
  obtain ⟨before, rest, q, -, hbefore, hedits⟩ := h
  obtain ⟨edits, hrun⟩ := exists_run_fixLists hbefore
  obtain ⟨changes, hchanges⟩ := hedits.exists_changes
  refine ⟨(edits.flatMap fun e => e.pair.changes e.target.path) ++ changes, ?_⟩
  rw [List.foldlM_append]
  exact bind_eq_ok.2 ⟨_, foldlM_perform_of_run hrun, hchanges⟩

theorem fixList_of_edits {n passes : Nat} {p q : Progress} {pair : Pair} {e : Error}
    (hedits : Edits asts target n p q) (hn : n < passes)
    (hpair : (firstRelated asts q.document.root target).run.run = .ok (some pair))
    (hmerge : (mergePair asts target q pair).run.run = .error e) :
    (fixList asts maxPasses target passes p).run.run = .error e := by
  induction hedits generalizing passes with
  | refl p =>
      cases passes with
      | zero => cases hn
      | succ left =>
          rw [fixList]
          exact run_bind_eq_error.2 (.inr ⟨_, run_lookup_eq_ok.2 hpair,
            run_bind_eq_error.2 (.inl hmerge)⟩)
  | head found merged _ ih =>
      cases passes with
      | zero => cases hn
      | succ left =>
          rw [fixList]
          exact run_bind_eq_error.2 (.inr ⟨_, run_lookup_eq_ok.2 found,
            run_bind_eq_error.2 (.inr ⟨_, merged, ih (Nat.lt_of_succ_lt_succ hn) hpair hmerge⟩)⟩)

theorem fixLists_of_error {before rest : List Target} {p q : Progress} {e : Error}
    (hbefore : (fixLists asts maxPasses before p).run.run = .ok q)
    (h : (fixList asts maxPasses target maxPasses q).run.run = .error e) :
    (fixLists asts maxPasses (before ++ target :: rest) p).run.run = .error e := by
  induction before generalizing p with
  | nil =>
      obtain rfl := run_pure_eq_ok.1 hbefore
      exact run_bind_eq_error.2 (.inl h)
  | cons first before ih =>
      obtain ⟨next, hnext, hbefore⟩ := run_bind_eq_ok.1 hbefore
      exact run_bind_eq_error.2 (.inr ⟨next, hnext, ih hbefore⟩)

theorem fixDocument_eq_refused {d : Document} {e : EditError} :
    (fixDocument asts maxPasses d).run.run = .error (.edit e) ↔
      ∃ target n p pair, Reaches asts maxPasses d target n p ∧ n < maxPasses ∧
        (firstRelated asts p.document.root target).run.run = .ok (some pair) ∧
        pair.Agrees p.document.root target.path ∧
        (pair.changes target.path).foldlM perform p.document = .error e := by
  constructor
  · intro h
    rcases run_bind_eq_error.1 h with h | ⟨_, -, h⟩
    · obtain ⟨before, target, rest, q, htargets, hq, h⟩ := fixLists_eq_error h
      obtain ⟨n, p, hedits, hcause⟩ := fixList_eq_error h
      rcases hcause with ⟨l, heq⟩ | ⟨pair, hpair, ⟨hn, h⟩ | ⟨-, heq⟩⟩
      · cases heq
      · exact ⟨target, n, p, pair, ⟨before, rest, q, htargets, hq, hedits⟩, hn, hpair,
          (mergePair_eq_refused hpair).1 h⟩
      · cases heq
    · cases h
  · rintro ⟨target, n, p, pair, ⟨before, rest, q, htargets, hq, hedits⟩, hn, hpair, hrefused⟩
    have hmerge := (mergePair_eq_refused hpair).2 hrefused
    refine run_bind_eq_error.2 (.inl ?_)
    rw [htargets]
    exact fixLists_of_error hq (fixList_of_edits hedits hn hpair hmerge)

/-- An edit of the text that a change asks for and does not get, on account of an edit that was
recorded for one of the changes before. -/
structure Hindrance (d held : Document) (past : List Change) (change : Change)
    (edit other : TextEdit) : Prop where
  asked : held.editFor change = .ok edit
  recorded : other ∈ held.edits
  overlaps : edit.overlaps other = true
  uncovered : edit.covers other = false
  cause : ∃ before earlier rest between, past = before ++ earlier :: rest ∧
    before.foldlM perform d = .ok between ∧ between.editFor earlier = .ok other

/-- Tidying a document that was just parsed fails with a conflict if and only if it comes to a pair
one of whose changes asks for an edit of the text that overlaps one of its own earlier edits and
does not cover it. -/
theorem fixDocument_eq_conflict {registry registry' : Registry} {text : String}
    {file : Option String} {d : Document} {path : Path}
    (hparse : Document.parse registry text file = (.ok d, registry')) :
    (fixDocument asts maxPasses d).run.run = .error (.edit (.conflict path)) ↔
      ∃ target n p pair past done change rest held edit other,
        Reaches asts maxPasses d target n p ∧ n < maxPasses ∧
        (firstRelated asts p.document.root target).run.run = .ok (some pair) ∧
        pair.Agrees p.document.root target.path ∧
        past.foldlM perform d = .ok p.document ∧
        pair.changes target.path = done ++ change :: rest ∧
        done.foldlM perform p.document = .ok held ∧ change.path = path ∧
        Hindrance d held (past ++ done) change edit other := by
  have hfresh := (parse_eq_ok hparse).2
  rw [fixDocument_eq_refused]
  constructor
  · rintro ⟨target, n, p, pair, hreaches, hn, hpair, hagrees, hrefused⟩
    obtain ⟨done, change, rest, held, hchanges, hdone, h⟩ := foldlM_eq_error.1 hrefused
    obtain ⟨hpath, edit, hasked, other, hrecorded, hoverlaps, huncovered⟩ :=
      perform_eq_conflict.1 h
    obtain ⟨past, hpast⟩ := hreaches.exists_changes
    have hheld : (past ++ done).foldlM perform d = .ok held := by
      rw [List.foldlM_append]
      exact bind_eq_ok.2 ⟨_, hpast, hdone⟩
    have hcause := (editFor_of_mem hheld hrecorded).resolve_left (hfresh ▸ List.not_mem_nil)
    exact ⟨target, n, p, pair, past, done, change, rest, held, edit, other, hreaches, hn, hpair,
      hagrees, hpast, hchanges, hdone, hpath, hasked, hrecorded, hoverlaps, huncovered, hcause⟩
  · rintro ⟨target, n, p, pair, past, done, change, rest, held, edit, other, hreaches, hn, hpair,
      hagrees, -, hchanges, hdone, hpath, h⟩
    refine ⟨target, n, p, pair, hreaches, hn, hpair, hagrees, foldlM_eq_error.2 ?_⟩
    exact ⟨done, change, rest, held, hchanges, hdone, perform_eq_conflict.2
      ⟨hpath, edit, h.asked, other, h.recorded, h.overlaps, h.uncovered⟩⟩

def blockReturn : String :=
  "rules:\n- languages: [python]\n  pattern-either:\n  - pattern: |-\n      return x\n" ++
    "  - pattern: x\n"

theorem exists_conflict_blockReturn :
    ∃ d registry', Document.parse .empty blockReturn none = (.ok d, registry') ∧
      (fixDocument nameAsts 1 d).run.run =
        .error (.edit (.conflict [.key "rules", .index 0, .key "pattern-either"])) := by
  have hrun : ((Document.parse .empty blockReturn none).1.toOption.bind fun d =>
      match (fixDocument nameAsts 1 d).run.run with
      | .error e => some e
      | .ok _ => none) =
        some (.edit (.conflict [.key "rules", .index 0, .key "pattern-either"])) := by
    decide +kernel
  obtain ⟨d, registry', hparse, hrun⟩ := exists_parse_of_bind hrun
  refine ⟨d, registry', hparse, ?_⟩
  split at hrun
  · rename_i e he
    rw [he, Option.some.inj hrun]
  · cases hrun

theorem fixDocument_eq_conflict_blockReturn :
    ∃ d registry' past change held edit other,
      Document.parse .empty blockReturn none = (.ok d, registry') ∧
      change.path = [.key "rules", .index 0, .key "pattern-either"] ∧
      Hindrance d held past change edit other := by
  obtain ⟨d, registry', hparse, hconflict⟩ := exists_conflict_blockReturn
  obtain ⟨_, _, _, _, past, done, change, _, held, edit, other, -, -, -, -, -, -, -, hpath,
    hhindrance⟩ := (fixDocument_eq_conflict hparse).1 hconflict
  exact ⟨d, registry', past ++ done, change, held, edit, other, hparse, hpath, hhindrance⟩

/-- The edits of a run can stand in the way of a later one. -/
theorem not_forall_ne_conflict :
    ¬∀ (asts : AstSource Id) (maxPasses : Nat) (registry registry' : Registry) (text : String)
      (file : Option String) (d : Document) (path : Path),
      Document.parse registry text file = (.ok d, registry') →
        (fixDocument asts maxPasses d).run.run ≠ .error (.edit (.conflict path)) := by
  intro hclaim
  obtain ⟨d, registry', hparse, hconflict⟩ := exists_conflict_blockReturn
  exact hclaim nameAsts 1 .empty registry' blockReturn none d _ hparse hconflict

end RuleTidy.Tidy
