import RuleTidy.Proofs.Tidy.Fix
import RuleTidy.Proofs.Tidy.Pair

/-! What is said of a document and what is done to it. Related pairs are looked for in the document
as it stands, and a list is tidied only when the lists inside it have been. Both see the same
patterns there. -/

namespace RuleTidy.Tidy

open Document Pattern Report Source Yaml

variable {asts : AstSource Id} {maxPasses : Nat}

def patternsAt (root : Node) (list : Path) : Option (List (Nat × String)) :=
  ((root.at? list).bind (·.items?)).map patternsOf

theorem firstRelated_congr {root root' : Node} {target : Target}
    (h : patternsAt root target.path = patternsAt root' target.path) :
    firstRelated asts root target = firstRelated asts root' target := by
  unfold patternsAt at h
  unfold firstRelated
  cases hitems : (root.at? target.path).bind (·.items?) with
  | none =>
      rw [hitems, Option.map_none, eq_comm, Option.map_eq_none_iff] at h
      rw [h]
  | some items =>
      rw [hitems, Option.map_some, eq_comm, Option.map_eq_some_iff] at h
      obtain ⟨items', hitems', heq⟩ := h
      simp only [hitems', heq]

theorem patternsAt_around {root after : Node} {list tail : Path} {f : Node → Node} {n : Nat}
    (hafter : root.update? (list ++ .index n :: tail) f = some after)
    (htail : Rule.IsListPath tail) : patternsAt after list = patternsAt root list := by
  obtain ⟨node, changed, hnode, hchanged, hupdated⟩ := Node.exists_at?_of_append hafter
  obtain ⟨old, new, hold, hnew, rfl⟩ := Node.update?_cons_eq_some.1 hchanged
  obtain ⟨info, items, rfl, hindex⟩ := Node.child?_index_eq_some.1 hold
  rw [patternsAt, patternsAt, hupdated, hnode]
  exact congrArg some (patternsOf_set hindex (patternText?_update? htail hnew))

theorem patternsAt_fixList {first : Node} {target other : Target} {passes : Nat}
    {p after : Progress} (hplace : Place first target) (hother : Place first other)
    (hnot : ¬target.path <+: other.path)
    (h : (fixList asts maxPasses target passes p).run.run = .ok after) :
    patternsAt after.document.root other.path = patternsAt p.document.root other.path := by
  by_cases hlist : ∃ info items, p.document.root.at? target.path = some (.sequence info items)
  · obtain ⟨info, items, hitems⟩ := hlist
    obtain ⟨items', -, hafter⟩ := root_fixList h hitems
    by_cases habove : other.path <+: target.path
    · obtain ⟨above, hpath⟩ := habove
      have hne : above ≠ [] := by
        rintro rfl
        rw [List.append_nil] at hpath
        exact hnot (hpath ▸ List.prefix_rfl)
      obtain ⟨-, n, tail, rfl, htail⟩ := hother.inside hplace hne hpath.symm
      rw [← hpath] at hafter
      exact patternsAt_around hafter htail
    · rw [patternsAt, patternsAt, Node.at?_update?_of_apart hafter hnot habove]
  · simp only [not_exists] at hlist
    rw [fixList_of_not_sequence h hlist]

theorem patternsAt_fixLists {first : Node} {lists : List Target} {other : Target}
    {p after : Progress} (hplaces : ∀ target ∈ lists, Place first target)
    (hother : Place first other) (hnot : ∀ target ∈ lists, ¬target.path <+: other.path)
    (h : (fixLists asts maxPasses lists p).run.run = .ok after) :
    patternsAt after.document.root other.path = patternsAt p.document.root other.path := by
  induction lists generalizing p with
  | nil =>
      obtain rfl := run_pure_eq_ok.1 h
      rfl
  | cons target rest ih =>
      obtain ⟨next, hnext, h⟩ := run_bind_eq_ok.1 h
      obtain ⟨hplace, hplaces⟩ := List.forall_mem_cons.1 hplaces
      obtain ⟨hfirst, hnot⟩ := List.forall_mem_cons.1 hnot
      exact (ih hplaces hnot h).trans (patternsAt_fixList hplace hother hfirst hnext)

/-! Related pairs of a document as it stands. -/

def relatedPairs (asts : AstSource Id) (root : Node) (lists : List Target) :
    List (Target × Pair) :=
  lists.filterMap fun target =>
    match (firstRelated asts root target).run.run with
    | .ok (some pair) => some (target, pair)
    | _ => none

theorem mem_relatedPairs {root : Node} {lists : List Target} {target : Target} {pair : Pair} :
    (target, pair) ∈ relatedPairs asts root lists ↔
      target ∈ lists ∧ (firstRelated asts root target).run.run = .ok (some pair) := by
  unfold relatedPairs
  rw [List.mem_filterMap]
  constructor
  · rintro ⟨target', hmem, h⟩
    split at h
    · next pair' hpair =>
        obtain ⟨rfl, rfl⟩ := Prod.mk.inj (Option.some.inj h)
        exact ⟨hmem, hpair⟩
    · cases h
  · rintro ⟨hmem, hpair⟩
    exact ⟨target, hmem, by rw [hpair]⟩

theorem pairFindings_eq_ok {root : Node} {lists : List Target}
    (h : ∀ target ∈ lists, ∃ pair, (firstRelated asts root target).run.run = .ok pair) :
    (pairFindings asts root lists).run.run =
      .ok ((relatedPairs asts root lists).map fun (target, pair) =>
        finding root target.path pair) := by
  induction lists with
  | nil => rfl
  | cons target rest ih =>
      obtain ⟨⟨pair, hpair⟩, hrest⟩ := List.forall_mem_cons.1 h
      refine run_bind_eq_ok.2 ⟨pair, hpair, run_bind_eq_ok.2 ⟨_, ih hrest, ?_⟩⟩
      rw [run_pure_eq_ok, relatedPairs, relatedPairs, List.filterMap_cons, hpair]
      cases pair <;> rfl

/-! The first edit of a list. -/

/-- A pair of alternatives that is edited before any other pair of its list. -/
def FirstEdit (asts : AstSource Id) (maxPasses : Nat) (d : Document) (target : Target)
    (pair : Pair) : Prop :=
  ∃ before rest p next, targets d.root = before ++ target :: rest ∧
    (∀ other ∈ before, other.path ≠ target.path) ∧
    (fixLists asts maxPasses before { document := d }).run.run = .ok p ∧
    (firstRelated asts p.document.root target).run.run = .ok (some pair) ∧
    (mergePair asts target p pair).run.run = .ok next

theorem firstRelated_fixLists {d : Document} {before rest : List Target} {target : Target}
    {p : Progress} (htargets : targets d.root = before ++ target :: rest)
    (hfirst : ∀ other ∈ before, other.path ≠ target.path)
    (h : (fixLists asts maxPasses before { document := d }).run.run = .ok p) :
    firstRelated asts p.document.root target = firstRelated asts d.root target := by
  have hplaces : ∀ other ∈ before ++ target :: rest, Place d.root other := by
    rw [← htargets]
    exact fun other => place_of_mem_targets
  have hbefore : ∀ other ∈ before, Place d.root other := fun other hmem =>
    hplaces other (List.mem_append_left _ hmem)
  have htarget : Place d.root target :=
    hplaces target (List.mem_append_right _ List.mem_cons_self)
  have horder := pairwise_targets d.root
  rw [htargets, List.pairwise_append] at horder
  refine firstRelated_congr (patternsAt_fixLists hbefore htarget (fun other hmem hprefix => ?_) h)
  exact hfirst other hmem (horder.2.2 other hmem target List.mem_cons_self hprefix)

theorem exists_first_of_mem_targets {root : Node} {target : Target} (h : target ∈ targets root) :
    ∃ before rest, targets root = before ++ target :: rest ∧
      ∀ other ∈ before, other.path ≠ target.path := by
  have hfind : ((targets root).find? fun other => other.path = target.path).isSome = true := by
    rw [List.find?_isSome]
    exact ⟨target, h, by simp⟩
  obtain ⟨found, hfound⟩ := Option.isSome_iff_exists.1 hfind
  obtain ⟨hpath, before, rest, heq, hbefore⟩ := List.find?_eq_some_iff_append.1 hfound
  have hmem : found ∈ targets root := by simp [heq]
  obtain rfl : found = target :=
    (place_of_mem_targets hmem).eq_of_path_eq (place_of_mem_targets h) (by simpa using hpath)
  exact ⟨before, rest, heq, fun other hother => by simpa using hbefore other hother⟩

theorem fixLists_append {before rest : List Target} {p after : Progress}
    (h : (fixLists asts maxPasses (before ++ rest) p).run.run = .ok after) :
    ∃ q, (fixLists asts maxPasses before p).run.run = .ok q ∧
      (fixLists asts maxPasses rest q).run.run = .ok after := by
  induction before generalizing p with
  | nil => exact ⟨p, rfl, h⟩
  | cons target before ih =>
      obtain ⟨next, hnext, h⟩ := run_bind_eq_ok.1 h
      obtain ⟨q, hq, hafter⟩ := ih h
      exact ⟨q, run_bind_eq_ok.2 ⟨next, hnext, hq⟩, hafter⟩

theorem exists_firstRelated {d : Document} {after : Progress} {target : Target}
    (h : (fixLists asts maxPasses (targets d.root) { document := d }).run.run = .ok after)
    (hmem : target ∈ targets d.root) :
    ∃ found, (firstRelated asts d.root target).run.run = .ok found ∧
      ∀ pair, found = some pair → FirstEdit asts maxPasses d target pair := by
  obtain ⟨before, rest, heq, hfirst⟩ := exists_first_of_mem_targets hmem
  rw [heq] at h
  obtain ⟨p, hp, h⟩ := fixLists_append h
  obtain ⟨next, hnext, -⟩ := run_bind_eq_ok.1 h
  have hsame := firstRelated_fixLists heq hfirst hp
  rcases fixList_eq_ok.1 hnext with ⟨hnone, -⟩ | ⟨pair, left, edited, hpair, -, hmerge, -⟩
  · exact ⟨none, by rw [← hsame, hnone], fun _ h => nomatch h⟩
  · refine ⟨some pair, by rw [← hsame, hpair], fun pair' hpair' => ?_⟩
    obtain rfl := Option.some.inj hpair'
    exact ⟨before, rest, p, edited, heq, hfirst, hp, hpair, hmerge⟩

theorem mem_relatedPairs_iff_firstEdit {d : Document} {after : Progress} {target : Target}
    {pair : Pair}
    (h : (fixLists asts maxPasses (targets d.root) { document := d }).run.run = .ok after) :
    (target, pair) ∈ relatedPairs asts d.root (targets d.root) ↔
      FirstEdit asts maxPasses d target pair := by
  rw [mem_relatedPairs]
  constructor
  · rintro ⟨hmem, hpair⟩
    obtain ⟨found, hfound, hedit⟩ := exists_firstRelated h hmem
    rw [hpair] at hfound
    exact hedit pair (Except.ok.inj hfound).symm
  · rintro ⟨before, rest, p, next, heq, hfirst, hp, hpair, -⟩
    refine ⟨by simp [heq], ?_⟩
    rw [← firstRelated_fixLists heq hfirst hp, hpair]

/-! The number of edits. -/

theorem removed_mergePair {target : Target} {p next : Progress} {pair : Pair}
    (h : (mergePair asts target p pair).run.run = .ok next) : next.removed = p.removed + 1 := by
  obtain ⟨first, second, relation⟩ := pair
  unfold mergePair at h
  cases relation with
  | different => cases h
  | same =>
      obtain ⟨_, _, _, _, -, -, -, -, rfl⟩ := dropDuplicate_eq_ok.1 h
      rfl
  | returnPaired side rewritten =>
      obtain ⟨_, -, hmerge⟩ := run_bind_eq_ok.1 h
      obtain ⟨_, _, _, -, -, rfl⟩ := mergeReturn_eq_ok.1 hmerge
      rfl

theorem removed_fixList {target : Target} {passes : Nat} {p after : Progress}
    (h : (fixList asts maxPasses target passes p).run.run = .ok after) :
    p.removed ≤ after.removed := by
  induction passes generalizing p with
  | zero =>
      rcases fixList_eq_ok.1 h with ⟨-, rfl⟩ | ⟨_, _, _, _, heq, _⟩
      · exact Nat.le_refl _
      · cases heq
  | succ left ih =>
      rcases fixList_eq_ok.1 h with ⟨-, rfl⟩ | ⟨pair, _, next, -, heq, hmerge, h⟩
      · exact Nat.le_refl _
      · obtain rfl := Nat.succ.inj heq
        have hnext := removed_mergePair hmerge
        have hrest := ih h
        omega

theorem removed_fixLists {lists : List Target} {p after : Progress}
    (h : (fixLists asts maxPasses lists p).run.run = .ok after) : p.removed ≤ after.removed := by
  induction lists generalizing p with
  | nil =>
      obtain rfl := run_pure_eq_ok.1 h
      exact Nat.le_refl _
  | cons target rest ih =>
      obtain ⟨next, hnext, h⟩ := run_bind_eq_ok.1 h
      exact (removed_fixList hnext).trans (ih h)

theorem FirstEdit.removed_pos {d : Document} {after : Progress} {target : Target} {pair : Pair}
    (hedit : FirstEdit asts maxPasses d target pair)
    (h : (fixLists asts maxPasses (targets d.root) { document := d }).run.run = .ok after) :
    0 < after.removed := by
  obtain ⟨before, rest, p, next, heq, -, hp, hpair, hmerge⟩ := hedit
  rw [heq] at h
  obtain ⟨p', hp', h⟩ := fixLists_append h
  rw [hp] at hp'
  obtain rfl := Except.ok.inj hp'
  obtain ⟨edited, hedited, h⟩ := run_bind_eq_ok.1 h
  have hrest := removed_fixLists h
  rcases fixList_eq_ok.1 hedited with ⟨hnone, -⟩ | ⟨pair', _, next', hpair', -, hmerge', hleft⟩
  · rw [hpair] at hnone
    cases hnone
  · have hnext := removed_mergePair hmerge'
    have hlist := removed_fixList hleft
    omega

/-! Reports. -/

/-- A message that names a list, shows the patterns of a pair of its alternatives, and tells how
they are related. -/
structure Reports (root : Node) (target : Target) (pair : Pair) (diagnostic : Diagnostic) :
    Prop where
  spans : ∃ first second, root.at? (patternPath target.path pair.first) = some first ∧
    root.at? (patternPath target.path pair.second) = some second ∧
    diagnostic.spans = [first.span, second.span]
  relation :
    match pair.relation with
    | .same =>
      diagnostic.shortMessage = s!"alternatives of `{target.path.render}` are equivalent"
    | .returnPaired _ rewritten =>
      diagnostic.shortMessage =
          s!"alternatives of `{target.path.render}` differ only by a `return`" ∧
        diagnostic.help = some
          ("keep a single alternative with the pattern `" ++ Text.display rewritten ++ "`")
    | .different => False

theorem reports_finding {root : Node} {target : Target} {pair : Pair}
    (h : (firstRelated asts root target).run.run = .ok (some pair)) :
    Reports root target pair (finding root target.path pair) := by
  obtain ⟨info, items, first, second, text, text', hlist, hrelates⟩ := firstRelated_eq_some h
  obtain ⟨a, ha, -⟩ := exists_at?_patternPath hlist hrelates.firstAt hrelates.firstText
  obtain ⟨b, hb, -⟩ := exists_at?_patternPath hlist hrelates.secondAt hrelates.secondText
  have hrelated := hrelates.related
  constructor
  · refine ⟨a, b, ha, hb, ?_⟩
    unfold finding
    cases pair.relation <;> simp [ha, hb]
  · unfold finding
    cases hrelation : pair.relation with
    | same => rfl
    | returnPaired side rewritten => exact ⟨rfl, rfl⟩
    | different => exact hrelated hrelation

/-- What is said of a document is what tidying it begins with. After the notices come the related
pairs, one for each list that is edited, and each of them is the pair that is edited first. -/
theorem findings_of_fixDocument {d after : Document} {outcome : Outcome}
    (h : (fixDocument asts maxPasses d).run.run = .ok (outcome, after)) :
    ∃ found : List (Target × Pair),
      (findings asts d).run.run = .ok (outcome.skipped ++ found.map fun (target, pair) =>
        finding d.root target.path pair) ∧
      (found = [] ↔ outcome.changed = false) ∧
      ∀ target pair,
        ((target, pair) ∈ found ↔ FirstEdit asts maxPasses d target pair) ∧
        ((target, pair) ∈ found →
          Reports d.root target pair (finding d.root target.path pair)) := by
  obtain ⟨p, hfix, heq⟩ := run_bind_eq_ok.1 h
  obtain ⟨rfl, -⟩ := Prod.mk.inj (run_pure_eq_ok.1 heq)
  have hmem : ∀ target pair, (target, pair) ∈ relatedPairs asts d.root (targets d.root) ↔
      FirstEdit asts maxPasses d target pair := fun _ _ => mem_relatedPairs_iff_firstEdit hfix
  refine ⟨relatedPairs asts d.root (targets d.root), ?_, ?_, fun target pair =>
    ⟨hmem target pair, fun hpair => reports_finding (mem_relatedPairs.1 hpair).2⟩⟩
  · have hpairs := pairFindings_eq_ok fun target htarget =>
      (exists_firstRelated hfix htarget).imp fun _ hfound => hfound.1
    exact run_bind_eq_ok.2 ⟨_, run_lookup_eq_ok.2 hpairs, rfl⟩
  · constructor
    · intro hnone
      -- without findings no list is edited
      have hunrelated : ∀ target ∈ targets d.root,
          (firstRelated asts d.root target).run.run = .ok none := by
        intro target htarget
        obtain ⟨found, hfound, -⟩ := exists_firstRelated hfix htarget
        cases found with
        | none => exact hfound
        | some pair =>
            have hpair := mem_relatedPairs.2 ⟨htarget, hfound⟩
            rw [hnone] at hpair
            cases hpair
      rw [fixLists_of_unrelated hunrelated] at hfix
      obtain rfl := Except.ok.inj hfix
      rfl
    · intro hunchanged
      rw [List.eq_nil_iff_forall_not_mem]
      rintro ⟨target, pair⟩ hpair
      -- each pair that is found is edited, and an edit counts
      have hpos := ((hmem target pair).1 hpair).removed_pos hfix
      have hzero : p.removed = 0 ∧ p.rewritten = 0 := by
        simpa [Outcome.changed] using hunchanged
      omega

/-- The inner list is tidied before the outer one, and the first pair of the outer one is found
where it was. -/
theorem findings_of_fixDocument_nestedLists :
    ∃ d registry' outcome after, Document.parse .empty nestedLists none = (.ok d, registry') ∧
      (fixDocument nameAsts 2 d).run.run = .ok (outcome, after) ∧ outcome.changed = true ∧
      ∃ found : List (Target × Pair), found ≠ [] ∧
        (findings nameAsts d).run.run = .ok (outcome.skipped ++ found.map fun (target, pair) =>
          finding d.root target.path pair) ∧
        ∀ target pair, (target, pair) ∈ found → FirstEdit nameAsts 2 d target pair := by
  have hrun : ((Document.parse .empty nestedLists none).1.toOption.bind fun d =>
      (fixDocument nameAsts 2 d).run.run.toOption.map fun (outcome, _) => outcome.changed) =
        some true := by decide +kernel
  obtain ⟨d, registry', hparse, hrun⟩ := exists_parse_of_bind hrun
  cases hfix : (fixDocument nameAsts 2 d).run.run with
  | error e => simp [hfix, Except.toOption] at hrun
  | ok result =>
      obtain ⟨outcome, after⟩ := result
      simp only [hfix, Except.toOption, Option.map_some, Option.some.injEq] at hrun
      obtain ⟨found, hfindings, hchanged, hfirst⟩ := findings_of_fixDocument hfix
      refine ⟨d, registry', outcome, after, hparse, hfix, hrun, found, fun hnone => ?_, hfindings,
        fun target pair => (hfirst target pair).1.1⟩
      rw [hchanged.1 hnone] at hrun
      cases hrun

end RuleTidy.Tidy
