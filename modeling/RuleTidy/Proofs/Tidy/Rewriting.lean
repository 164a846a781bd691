import RuleTidy.Proofs.Tidy.Conflict
import RuleTidy.Proofs.Tidy.Fix
import RuleTidy.Proofs.Tidy.Survivors

/-! Patterns that are written anew. The numbers of a run count the changes it makes. Wherever the
edits move an alternative whose pattern has been written anew, the pattern ends in an expression
there, so that it is not written anew again. -/

namespace RuleTidy.Tidy

open Document Pattern Source Yaml

variable {asts : AstSource Id} {lists : List Target} {edits : List Edit} {p after : Progress}
  {first : Node}

/-! The numbers of a run. -/

def removes : Change → Bool
  | .removeItem .. => true
  | .replaceScalar .. => false

theorem counts_mergePair {target : Target} {pair : Pair}
    (h : (mergePair asts target p pair).run.run = .ok after) :
    after.removed = p.removed + (pair.changes target.path).countP removes ∧
      after.rewritten = p.rewritten + (pair.changes target.path).countP (!removes ·) := by
  obtain ⟨first, second, relation⟩ := pair
  unfold mergePair at h
  cases relation with
  | different => cases h
  | same =>
      obtain ⟨_, _, _, _, -, -, -, -, rfl⟩ := dropDuplicate_eq_ok.1 h
      exact ⟨rfl, rfl⟩
  | returnPaired side rewritten =>
      obtain ⟨_, -, hmerge⟩ := run_bind_eq_ok.1 h
      obtain ⟨_, _, _, -, -, rfl⟩ := mergeReturn_eq_ok.1 hmerge
      exact ⟨rfl, rfl⟩

theorem Run.counts (h : Run asts lists p edits after) :
    after.removed =
        p.removed + (edits.flatMap fun e => e.pair.changes e.target.path).countP removes ∧
      after.rewritten = p.rewritten +
        (edits.flatMap fun e => e.pair.changes e.target.path).countP (!removes ·) := by
  induction h with
  | nil p => exact ⟨rfl, rfl⟩
  | settled _ _ ih => exact ih
  | edit made _ ih =>
      obtain ⟨hremoved, hrewritten⟩ := counts_mergePair made.merged
      rw [List.flatMap_cons, List.countP_append, List.countP_append, ih.1, ih.2, hremoved,
        hrewritten, Nat.add_assoc, Nat.add_assoc]
      exact ⟨rfl, rfl⟩

theorem countP_changes_le (edits : List Edit) :
    (edits.flatMap fun e => e.pair.changes e.target.path).countP (!removes ·) ≤
      (edits.flatMap fun e => e.pair.changes e.target.path).countP removes := by
  induction edits with
  | nil => exact Nat.le_refl _
  | cons e rest ih =>
      have hfirst : (e.pair.changes e.target.path).countP (!removes ·) ≤
          (e.pair.changes e.target.path).countP removes := by
        unfold Pair.changes
        cases e.pair.relation with
        | same => exact Nat.zero_le _
        | different => exact Nat.le_refl _
        | returnPaired side rewritten => exact Nat.le_refl _
      rw [List.flatMap_cons, List.countP_append, List.countP_append]
      exact Nat.add_le_add hfirst ih

/-! Alternatives with a pattern that ends in an expression. -/

def Evaluates (asts : AstSource Id) (language : String) (alternative : Node) : Prop :=
  ∃ text ast e, patternText? alternative = some text ∧
    (asts language text).run.run = .ok ast ∧ ast.last? = some (.expression e)

/-- At a path there is an alternative of a list with such a pattern. -/
def EvaluatesAt (asts : AstSource Id) (first root : Node) (path : Path) : Prop :=
  ∃ list n item, Place first list ∧ path = list.path ++ [.index n] ∧
    root.at? path = some item ∧ Evaluates asts list.language item

theorem Evaluates.congr {language : String} {old new : Node} (h : Evaluates asts language old)
    (hpattern : patternText? new = patternText? old) : Evaluates asts language new := by
  obtain ⟨text, ast, e, htext, hast⟩ := h
  exact ⟨text, ast, e, hpattern.trans htext, hast⟩

theorem Evaluates.revise_eq {language : String} {items : List Node} {pair : Pair}
    {left right item : Node} {text text' : String} {n : Nat} (h : Evaluates asts language item)
    (hrelates : pair.Relates asts language items left right text text')
    (hitem : items[n]? = some item) : pair.revise n item = item := by
  obtain ⟨own, ast, e, hown, hast, hlast⟩ := h
  rcases hrelates.revise_cases hitem with hsame | ⟨own', rest, hown', hstrips, -⟩
  · exact hsame item
  · obtain rfl := Option.some.inj (hown.symm.trans hown')
    exact absurd hstrips (not_strips_of_last? hast hlast)

namespace Edit

def Rewrites (e : Edit) : Prop := ∃ side rewritten, e.pair.relation = .returnPaired side rewritten

def keptPath (e : Edit) : Path := e.target.path ++ [.index e.pair.kept]

namespace Made

variable {e : Edit}

theorem evaluatesAt_kept (h : e.Made asts) (hplace : Place first e.target) (hrewrites : e.Rewrites)
    {path : Path} (hfollow : e.follow e.keptPath = some path) :
    EvaluatesAt asts first e.after.document.root path := by
  obtain ⟨side, rest, hrelation⟩ := hrewrites
  obtain ⟨info, items, _, _, _, _, hlist, hrelates⟩ := firstRelated_eq_some h.found
  obtain ⟨former, hformer⟩ := hrelates.getElem?_kept
  obtain ⟨own, hown, hstrips⟩ := hrelates.strips_kept hrelation hformer
  obtain ⟨ast, value, hast, hlast⟩ := hstrips.evaluates
  have hstays := Pair.kept_ne_dropped hrelates.lt
  have hseen := h.at?_of_stays (at?_alternative hlist hformer) hstays
  rw [keptPath, follow_alternative, if_neg hstays] at hfollow
  obtain rfl := Option.some.inj hfollow
  refine ⟨e.target, _, _, hplace, rfl, hseen, rest, ast, value, ?_, hast, hlast⟩
  have hrevise : e.pair.revise e.pair.kept former = withPattern rest former := by
    simp only [Pair.revise, hrelation, if_pos]
  rw [hrevise, patternText?_withPattern hown]

theorem not_rewrites (h : e.Made asts) (hplace : Place first e.target)
    (hkept : EvaluatesAt asts first e.before.document.root e.keptPath) : ¬e.Rewrites := by
  rintro ⟨side, rest, hrelation⟩
  obtain ⟨list, n, item, hother, hpath, hitem, own, ast, value, hown, hast, hlast⟩ := hkept
  obtain ⟨hsame, -⟩ := List.append_inj' hpath rfl
  obtain rfl := hplace.eq_of_path_eq hother hsame
  obtain ⟨info, items, _, _, _, _, hlist, hrelates⟩ := firstRelated_eq_some h.found
  obtain ⟨own', hown', hstrips⟩ := hrelates.strips_kept hrelation (getElem?_of_at? hlist hitem)
  obtain rfl := Option.some.inj (hown.symm.trans hown')
  exact not_strips_of_last? hast hlast hstrips

theorem evaluatesAt_follow_inside (h : e.Made asts) (hplace : Place first e.target)
    {list : Target} {n : Nat} {item : Node} (hlist : Place first list)
    (hitem : e.before.document.root.at? (list.path ++ [.index n]) = some item)
    (hevaluates : Evaluates asts list.language item) (hinside : e.target.path <+: list.path)
    {path : Path} (hfollow : e.follow (list.path ++ [.index n]) = some path) :
    EvaluatesAt asts first e.after.document.root path := by
  obtain ⟨below, hbelow⟩ := hinside
  rcases eq_or_ne below [] with rfl | hne
  · -- The alternative is one of the edited list.
    obtain ⟨info, items, _, _, _, _, hitems, hrelates⟩ := firstRelated_eq_some h.found
    rw [List.append_nil] at hbelow
    obtain rfl := hplace.eq_of_path_eq hlist hbelow
    rw [follow_alternative] at hfollow
    obtain ⟨hstays, hmoved⟩ := Option.ite_none_left_eq_some.1 hfollow
    obtain rfl := Option.some.inj hmoved
    have hsame := hevaluates.revise_eq hrelates (getElem?_of_at? hitems hitem)
    exact ⟨e.target, _, item, hplace, rfl, hsame ▸ h.at?_of_stays hitem hstays, hevaluates⟩
  · -- It is in a list inside of the edited one.
    obtain ⟨hlanguage, m, tail, rfl, htail⟩ := hplace.inside hlist hne hbelow.symm
    have hpath : list.path ++ [.index n] = e.target.path ++ .index m :: (tail ++ [.index n]) := by
      rw [← hbelow, List.append_assoc, List.cons_append]
    rw [hpath] at hitem hfollow
    rw [follow_alternative] at hfollow
    obtain ⟨hstays, heq⟩ := Option.ite_none_left_eq_some.1 hfollow
    obtain rfl := Option.some.inj heq
    have hmoved := hplace.append (if e.pair.dropped < m then m - 1 else m) htail
    exact ⟨_, n, item, hmoved, by simp, h.at?_inside htail hitem hstays, hlanguage ▸ hevaluates⟩

theorem evaluatesAt_follow (h : e.Made asts) (hplace : Place first e.target) {path path' : Path}
    (hat : EvaluatesAt asts first e.before.document.root path)
    (hfollow : e.follow path = some path') :
    EvaluatesAt asts first e.after.document.root path' := by
  obtain ⟨list, n, item, hlist, rfl, hitem, hevaluates⟩ := hat
  obtain ⟨info, items, -, hafter⟩ := root_mergePair h.merged
  by_cases hinside : e.target.path <+: list.path
  · exact h.evaluatesAt_follow_inside hplace hlist hitem hevaluates hinside hfollow
  · have hapart : ¬e.target.path <+: list.path ++ [.index n] := by
      intro hprefix
      rcases List.prefix_concat_iff.1 hprefix with heq | hprefix
      · obtain ⟨-, m, tail, hrest, htail⟩ := hlist.inside hplace (List.cons_ne_nil _ _) heq
        obtain ⟨-, rfl⟩ := List.cons.inj hrest
        exact htail
      · exact hinside hprefix
    rw [follow_of_apart hapart] at hfollow
    obtain rfl := Option.some.inj hfollow
    by_cases haround : list.path ++ [.index n] <+: e.target.path
    · -- The edited list is in the alternative.
      obtain ⟨below, hbelow⟩ := haround
      have hpath : e.target.path = list.path ++ .index n :: below := by rw [← hbelow]; simp
      obtain ⟨-, m, tail, hrest, htail⟩ := hlist.inside hplace (List.cons_ne_nil _ _) hpath
      obtain ⟨-, rfl⟩ := List.cons.inj hrest
      rw [← hbelow] at hafter
      obtain ⟨child, new, hchild, hnew, hseen⟩ := Node.exists_at?_of_append hafter
      obtain rfl := Option.some.inj (hchild.symm.trans hitem)
      exact ⟨list, n, new, hlist, rfl, hseen, hevaluates.congr (patternText?_update? htail hnew)⟩
    · exact ⟨list, n, item, hlist, rfl,
        (Node.at?_update?_of_apart hafter hapart haround).trans hitem, hevaluates⟩

end Made

end Edit

namespace Run

theorem not_rewrites (h : Run asts lists p edits after) (hplaces : ∀ t ∈ lists, Place first t)
    {path : Path} (hat : EvaluatesAt asts first p.document.root path) {between later : List Edit}
    {e : Edit} (hedits : edits = between ++ e :: later)
    (hfollow : between.foldlM (fun path e => e.follow path) path = some e.keptPath) :
    ¬e.Rewrites := by
  induction h generalizing path between with
  | nil p => simp at hedits
  | settled _ _ ih => exact ih (List.forall_mem_cons.1 hplaces).2 hat hedits hfollow
  | @edit made rest edits after hmade _ ih =>
      have hplace := hplaces _ List.mem_cons_self
      cases between with
      | nil =>
          obtain ⟨rfl, -⟩ := List.cons.inj hedits
          obtain rfl := Option.some.inj hfollow
          exact hmade.not_rewrites hplace hat
      | cons next between =>
          obtain ⟨rfl, hrest⟩ := List.cons.inj hedits
          obtain ⟨path', hnext, hfollow⟩ := Option.bind_eq_some_iff.1 hfollow
          exact ih hplaces (hmade.evaluatesAt_follow hplace hat hnext) hrest hfollow

/-- No pattern is written anew twice, wherever the edits in between move its alternative. -/
theorem rewrites_once (h : Run asts lists p edits after) (hplaces : ∀ t ∈ lists, Place first t)
    {before between later : List Edit} {e e' : Edit}
    (hedits : edits = before ++ e :: (between ++ e' :: later)) (hrewrites : e.Rewrites)
    (hfollow : (e :: between).foldlM (fun path e => e.follow path) e.keptPath = some e'.keptPath) :
    ¬e'.Rewrites := by
  induction h generalizing before with
  | nil p => simp at hedits
  | settled _ _ ih => exact ih (List.forall_mem_cons.1 hplaces).2 hedits
  | @edit made rest edits after hmade next ih =>
      cases before with
      | nil =>
          obtain ⟨rfl, hrest⟩ := List.cons.inj hedits
          obtain ⟨path', hnext, hfollow⟩ := Option.bind_eq_some_iff.1 hfollow
          have hat := hmade.evaluatesAt_kept (hplaces _ List.mem_cons_self) hrewrites hnext
          exact next.not_rewrites hplaces hat hrest hfollow
      | cons other before => exact ih hplaces (List.cons.inj hedits).2

end Run

end RuleTidy.Tidy
