import Mathlib.Data.List.Forall2
import RuleTidy.Proofs.Tidy.KeepFirst

/-! One list in the course of a run. Before its turn only lists inside it are edited. Afterwards it
moves with the alternative of an outer list that it stands in, until that one is dropped. -/

namespace RuleTidy.Tidy

open Document Pattern Source Yaml

variable {asts : AstSource Id} {maxPasses : Nat} {language : String} {first : Node}

/-! Before the turn of a list. -/

def EditsInside (asts : AstSource Id) (language : String) (old new : Node) : Prop :=
  ∃ tail info items items', Rule.IsListPath tail ∧
    old.at? tail = some (.sequence info items) ∧
    Relation.ReflTransGen (Trims asts language) items items' ∧
    old.update? tail (fun _ => .sequence info items') = some new

/-- Lists in an alternative are edited one after the other, and nothing else changes. -/
def EditedInside (asts : AstSource Id) (language : String) : Node → Node → Prop :=
  Relation.ReflTransGen (EditsInside asts language)

theorem EditedInside.patternText?_eq {old new : Node} (h : EditedInside asts language old new) :
    patternText? new = patternText? old := by
  induction h with
  | refl => rfl
  | tail _ hlast ih =>
      obtain ⟨tail, info, items, items', htail, -, -, hupdate⟩ := hlast
      rw [patternText?_update? htail hupdate, ih]

theorem filterMap_patternText?_of_editedInside {items items' : List Node}
    (h : List.Forall₂ (EditedInside asts language) items items') :
    items'.filterMap patternText? = items.filterMap patternText? := by
  induction h with
  | nil => rfl
  | cons hitem _ ih => rw [List.filterMap_cons, List.filterMap_cons, hitem.patternText?_eq, ih]

theorem forall₂_set {α : Type} {R : α → α → Prop} (hrefl : ∀ a, R a a) {items : List α} {n : Nat}
    {old new : α} (hold : items[n]? = some old) (h : R old new) :
    List.Forall₂ R items (items.set n new) := by
  induction items generalizing n with
  | nil => cases hold
  | cons item rest ih =>
      cases n with
      | zero =>
          obtain rfl : item = old := Option.some.inj hold
          exact .cons h (List.forall₂_same.2 fun a _ => hrefl a)
      | succ n => exact .cons (hrefl item) (ih hold)

theorem editedInside_fixList {target other : Target} {passes : Nat} {p after : Progress}
    {info : Info} {items : List Node} (hplace : Place first target) (hother : Place first other)
    (hnot : ¬other.path <+: target.path)
    (h : (fixList asts maxPasses other passes p).run.run = .ok after)
    (hlist : p.document.root.at? target.path = some (.sequence info items)) :
    ∃ items', List.Forall₂ (EditedInside asts target.language) items items' ∧
      after.document.root.at? target.path = some (.sequence info items') := by
  have hsame : List.Forall₂ (EditedInside asts target.language) items items :=
    List.forall₂_same.2 fun _ _ => .refl
  by_cases hinner : ∃ info' inner, p.document.root.at? other.path = some (.sequence info' inner)
  · obtain ⟨info', inner, hat⟩ := hinner
    obtain ⟨inner', htrims, hafter⟩ := root_fixList h hat
    by_cases hinside : target.path <+: other.path
    · obtain ⟨below, hpath⟩ := hinside
      have hne : below ≠ [] := by
        rintro rfl
        rw [List.append_nil] at hpath
        exact hnot (hpath ▸ List.prefix_rfl)
      -- the edited list is inside one item, in which the change is seen
      obtain ⟨hlanguage, n, tail, rfl, htail⟩ := hplace.inside hother hne hpath.symm
      rw [← hpath] at hat hafter
      rw [Node.at?_append, hlist, Option.bind_some] at hat
      have hseen := Node.at?_update?_of_append hafter
      rw [hlist, Option.bind_some] at hseen
      obtain ⟨changed, hchanged⟩ : ∃ changed, (Node.sequence info items).update?
          (.index n :: tail) (fun _ => .sequence info' inner') = some changed := by
        rw [← Option.isSome_iff_exists, Node.isSome_update?, hat]
        rfl
      obtain ⟨old, new, hold, hnew, rfl⟩ := Node.update?_cons_eq_some.1 hchanged
      obtain ⟨_, _, heq, hindex⟩ := Node.child?_index_eq_some.1 hold
      obtain ⟨rfl, rfl⟩ := Node.sequence.inj heq
      rw [Node.at?_cons, hold, Option.bind_some] at hat
      rw [← hlanguage] at htrims
      have hedit : EditsInside asts target.language old new :=
        ⟨tail, info', inner, inner', htail, hat, htrims, hnew⟩
      refine ⟨items.set n new, forall₂_set (fun _ => .refl) hindex (.single hedit), ?_⟩
      rw [hseen, hchanged]
      rfl
    · refine ⟨items, hsame, ?_⟩
      rw [Node.at?_update?_of_apart hafter hnot hinside, hlist]
  · simp only [not_exists] at hinner
    obtain rfl := fixList_of_not_sequence h hinner
    exact ⟨items, hsame, hlist⟩

theorem forall₂_trans {α : Type} {R : α → α → Prop} (htrans : ∀ a b c, R a b → R b c → R a c)
    {as bs cs : List α} (hab : List.Forall₂ R as bs) (hbc : List.Forall₂ R bs cs) :
    List.Forall₂ R as cs := by
  induction hab generalizing cs with
  | nil => exact hbc
  | cons hfirst _ ih =>
      cases hbc with
      | cons hsecond hrest => exact .cons (htrans _ _ _ hfirst hsecond) (ih hrest)

theorem editedInside_fixLists {target : Target} {lists : List Target} {p after : Progress}
    {info : Info} {items : List Node} (hplace : Place first target)
    (hplaces : ∀ other ∈ lists, Place first other)
    (hnot : ∀ other ∈ lists, ¬other.path <+: target.path)
    (h : (fixLists asts maxPasses lists p).run.run = .ok after)
    (hlist : p.document.root.at? target.path = some (.sequence info items)) :
    ∃ items', List.Forall₂ (EditedInside asts target.language) items items' ∧
      after.document.root.at? target.path = some (.sequence info items') := by
  induction lists generalizing p items with
  | nil =>
      obtain rfl := run_pure_eq_ok.1 h
      exact ⟨items, List.forall₂_same.2 fun _ _ => .refl, hlist⟩
  | cons other rest ih =>
      obtain ⟨next, hnext, h⟩ := run_bind_eq_ok.1 h
      obtain ⟨hother, hplaces⟩ := List.forall_mem_cons.1 hplaces
      obtain ⟨hfirst, hnot⟩ := List.forall_mem_cons.1 hnot
      obtain ⟨between, hbetween, hat⟩ := editedInside_fixList hplace hother hfirst hnext hlist
      obtain ⟨items', hrest, hafter⟩ := ih hplaces hnot h hat
      exact ⟨items', forall₂_trans (fun _ _ _ => .trans) hbetween hrest, hafter⟩

/-! After the turn of a list. -/

theorem Edit.Made.at?_follow {e : Edit} (h : e.Made asts) (hplace : Place first e.target)
    {path path' : Path} {info : Info} {kept : List Node} (hlist : Place first ⟨language, path⟩)
    (hnot : path <+: e.target.path → path = e.target.path)
    (hat : e.before.document.root.at? path = some (.sequence info kept))
    (hdone : (firstRelatedAmong asts language (patternsOf kept)).run.run = .ok none)
    (hfollow : e.follow path = some path') :
    e.after.document.root.at? path' = some (.sequence info kept) ∧
      Place first ⟨language, path'⟩ ∧ (path' = path ∨ e.target.path <+: path') := by
  by_cases hbelow : e.target.path <+: path
  · obtain ⟨below, rfl⟩ := hbelow
    have hne : below ≠ [] := by
      rintro rfl
      rw [List.append_nil] at hat hlist
      have hsame : e.target = ⟨language, e.target.path⟩ := hplace.eq_of_path_eq hlist rfl
      have hfound := h.found
      rw [firstRelated_sequence hat, hsame, hdone] at hfound
      cases hfound
    obtain ⟨rfl, n, tail, rfl, htail⟩ := hplace.inside hlist hne rfl
    rw [follow_alternative] at hfollow
    obtain ⟨hstays, hfollow⟩ : n ≠ e.pair.dropped ∧
        e.target.path ++ .index (if e.pair.dropped < n then n - 1 else n) :: tail = path' := by
      simpa using hfollow
    refine ⟨?_, hfollow ▸ hplace.append _ htail, .inr (hfollow ▸ List.prefix_append _ _)⟩
    rw [← List.append_nil tail] at hat hfollow
    exact hfollow ▸ h.at?_inside htail hat hstays
  · obtain rfl : path = path' := by
      rw [follow_of_apart hbelow] at hfollow
      exact Option.some.inj hfollow
    obtain ⟨_, _, -, hafter⟩ := root_mergePair h.merged
    have habove : ¬path <+: e.target.path := fun hprefix =>
      hbelow (hnot hprefix ▸ List.prefix_rfl)
    exact ⟨Node.at?_update?_of_apart hafter hbelow habove ▸ hat, hlist, .inl rfl⟩

theorem Run.at?_follow {lists : List Target} {p after : Progress} {edits : List Edit}
    (h : Run asts lists p edits after) (hplaces : ∀ other ∈ lists, Place first other)
    (horder : lists.Pairwise fun a b => a.path <+: b.path → a.path = b.path)
    {path path' : Path} {info : Info} {kept : List Node} (hlist : Place first ⟨language, path⟩)
    (hnot : ∀ other ∈ lists, path <+: other.path → path = other.path)
    (hat : p.document.root.at? path = some (.sequence info kept))
    (hdone : (firstRelatedAmong asts language (patternsOf kept)).run.run = .ok none)
    (hfollow : edits.foldlM (fun path e => e.follow path) path = some path') :
    after.document.root.at? path' = some (.sequence info kept) := by
  induction h generalizing path with
  | nil p =>
      obtain rfl := Option.some.inj hfollow
      exact hat
  | settled _ _ ih =>
      obtain ⟨-, hplaces⟩ := List.forall_mem_cons.1 hplaces
      obtain ⟨-, hnot⟩ := List.forall_mem_cons.1 hnot
      exact ih hplaces (List.pairwise_cons.1 horder).2 hlist hnot hat hfollow
  | @edit e rest edits after made _ ih =>
      obtain ⟨next, hnext, hfollow⟩ := Option.bind_eq_some_iff.1 hfollow
      obtain ⟨hafter, hlist, hmoved⟩ := made.at?_follow (hplaces _ List.mem_cons_self) hlist
        (hnot _ List.mem_cons_self) hat hdone hnext
      refine ih hplaces horder hlist (fun other hother hprefix => ?_) hafter hfollow
      rcases hmoved with rfl | hinside
      · exact hnot other hother hprefix
      · have hsame : e.target.path = other.path := by
          rcases List.mem_cons.1 hother with rfl | hother
          · rfl
          · exact (List.pairwise_cons.1 horder).1 other hother (hinside.trans hprefix)
        exact hprefix.eq_of_length_le (hsame ▸ hinside.length_le)

/-- A list that stands in no other one stays where it is. -/
theorem foldlM_follow_of_outermost {path : Path} {edits : List Edit}
    (h : ∀ e ∈ edits, e.target.path <+: path → e.target.path = path) :
    edits.foldlM (fun path e => e.follow path) path = some path := by
  induction edits with
  | nil => rfl
  | cons e rest ih =>
      obtain ⟨hfirst, hrest⟩ := List.forall_mem_cons.1 h
      have hfollow : e.follow path = some path := by
        by_cases hprefix : e.target.path <+: path
        · rw [← hfirst hprefix, Edit.follow_self]
        · exact Edit.follow_of_apart hprefix
      rw [List.foldlM_cons, hfollow]
      exact ih hrest

/-! The whole course. -/

/-- A list of which no two alternatives are a return pair is left with the first alternative of each
tree and all that have no pattern, in their order and, but for the lists inside them, with their
values. It has this form when its turn is over, and keeps it where it is from then on. -/
theorem keepFirst_of_fixDocument {d after : Document} {outcome : Outcome} {target : Target}
    {info : Info} {items : List Node}
    (h : (fixDocument asts maxPasses d).run.run = .ok (outcome, after))
    (hmem : target ∈ targets d.root)
    (hlist : d.root.at? target.path = some (.sequence info items))
    (hpairs : WithoutReturnPair asts target.language items) :
    ∃ before rest turn later p q kept, targets d.root = before ++ target :: rest ∧
      Run asts (before ++ [target]) { document := d } turn p ∧
      Run asts rest p later q ∧ q.document = after ∧
      List.Forall₂ (EditedInside asts target.language)
        (keepFirst (sameTree asts target.language) [] items) kept ∧
      p.document.root.at? target.path = some (.sequence info kept) ∧
      (∀ path, later.foldlM (fun path e => e.follow path) target.path = some path →
        after.root.at? path = some (.sequence info kept)) ∧
      ((∀ other ∈ targets d.root, other.path <+: target.path → other.path = target.path) →
        after.root.at? target.path = some (.sequence info kept)) := by
  obtain ⟨q, hfix, heq⟩ := run_bind_eq_ok.1 h
  obtain ⟨-, rfl⟩ := Prod.mk.inj (run_pure_eq_ok.1 heq)
  obtain ⟨before, rest, htargets, hfirst⟩ := exists_first_of_mem_targets hmem
  have hplaces : ∀ other ∈ before ++ target :: rest, Place d.root other := by
    rw [← htargets]
    exact fun other => place_of_mem_targets
  have horder := pairwise_targets d.root
  rw [htargets] at hfix horder
  obtain ⟨-, horder, hcross⟩ := List.pairwise_append.1 horder
  obtain ⟨hafter, horder⟩ := List.pairwise_cons.1 horder
  obtain ⟨between, hbefore, hfix⟩ := fixLists_append hfix
  obtain ⟨p, hown, hrest⟩ := run_bind_eq_ok.1 hfix
  have hplace := hplaces target (List.mem_append_right _ List.mem_cons_self)
  have hnot : ∀ other ∈ before, ¬other.path <+: target.path := fun other hother hprefix =>
    hfirst other hother (hcross other hother target List.mem_cons_self hprefix)
  -- Up to its turn, only lists inside it have been edited.
  obtain ⟨inner, hinner, hat⟩ := editedInside_fixLists hplace
    (fun other hother => hplaces other (List.mem_append_left _ hother)) hnot hbefore hlist
  obtain ⟨kept, htrims, hupdate⟩ := root_fixList hown hat
  have hkept : p.document.root.at? target.path = some (.sequence info kept) := by
    rw [Node.at?_update? hupdate, hat]
    rfl
  have hdone := firstRelated_fixList hown
  rw [firstRelated_sequence hkept] at hdone
  have hpairs' : WithoutReturnPair asts target.language inner := by
    unfold WithoutReturnPair
    rwa [filterMap_patternText?_of_editedInside hinner]
  have hsame := keepFirst_of_trims htrims hpairs' hdone
  have hforms : List.Forall₂ (EditedInside asts target.language)
      (keepFirst (sameTree asts target.language) [] items) kept := by
    rw [← hsame]
    exact forall₂_keepFirst (fun ha hb => sameTree_congr ha.patternText?_eq hb.patternText?_eq)
      .nil hinner
  obtain ⟨turn, hturn⟩ := exists_run_fixLists hbefore
  obtain ⟨own, hownRun⟩ := exists_run_fixList hown
  obtain ⟨later, hlater⟩ := exists_run_fixLists hrest
  have hmoved : ∀ path, later.foldlM (fun path e => e.follow path) target.path = some path →
      q.document.root.at? path = some (.sequence info kept) := fun path hpath =>
    hlater.at?_follow
      (fun other hother => hplaces other (List.mem_append_right _ (List.mem_cons_of_mem _ hother)))
      horder hplace hafter hkept hdone hpath
  refine ⟨before, rest, turn ++ own, later, p, q, kept, htargets, hturn.append hownRun, hlater, rfl,
    hforms, hkept, hmoved, fun houtermost => ?_⟩
  apply hmoved
  apply foldlM_follow_of_outermost
  intro e he
  apply houtermost
  rw [htargets]
  exact List.mem_append_right _ (List.mem_cons_of_mem _ (hlater.target_mem e he))

/-- The inner list has one alternative when its turn is over, before the outer list is edited. -/
theorem keepFirst_of_fixDocument_nestedLists :
    ∃ d registry' outcome after info items,
      Document.parse .empty nestedLists none = (.ok d, registry') ∧
      (fixDocument nameAsts 2 d).run.run = .ok (outcome, after) ∧
      let list : Path := [.key "rules", .index 0, .key "pattern-either", .index 2,
        .key "pattern-either"]
      d.root.at? list = some (.sequence info items) ∧ items.length = 2 ∧
        ∃ turn later p q kept, Run nameAsts [⟨"python", list⟩] { document := d } turn p ∧
          Run nameAsts [⟨"python", list.take 3⟩] p later q ∧ q.document = after ∧
          p.document.root.at? list = some (.sequence info kept) ∧ kept.length = 1 := by
  let list : Path :=
    [.key "rules", .index 0, .key "pattern-either", .index 2, .key "pattern-either"]
  have hrun : ((Document.parse .empty nestedLists none).1.toOption.bind fun d =>
      (fixDocument nameAsts 2 d).run.run.toOption.bind fun _ =>
        (d.root.at? list).bind fun node => node.items?.map fun items =>
          (targets d.root, items.length, items.filterMap patternText?,
            (keepFirst (sameTree nameAsts "python") [] items).length)) =
      some ([⟨"python", list⟩, ⟨"python", list.take 3⟩], 2, ["y", "y"], 1) := by decide +kernel
  obtain ⟨d, registry', hparse, hrun⟩ := exists_parse_of_bind hrun
  obtain ⟨⟨outcome, after⟩, hfix, hrun⟩ := Option.bind_eq_some_iff.1 hrun
  obtain ⟨node, hnode, hrun⟩ := Option.bind_eq_some_iff.1 hrun
  obtain ⟨items, hitems, heq⟩ := Option.map_eq_some_iff.1 hrun
  simp only [Prod.mk.injEq] at heq
  obtain ⟨htargets, htwo, htexts, hone⟩ := heq
  cases node with
  | scalar info value => cases hitems
  | mapping info entries => cases hitems
  | sequence info items' =>
      obtain rfl := Option.some.inj hitems
      have hpairs : WithoutReturnPair nameAsts "python" items' := by
        have hsame : (classify nameAsts "python" "y" "y").run.run = .ok .same := by decide +kernel
        simp [WithoutReturnPair, htexts, hsame]
      have hmem : (⟨"python", list⟩ : Target) ∈ targets d.root := by
        rw [htargets]
        exact List.mem_cons_self
      obtain ⟨before, rest, turn, later, p, q, kept, hsplit, hturn, hlater, hafter, hforms, hkept,
        -, -⟩ := keepFirst_of_fixDocument (toOption_eq_some.1 hfix) hmem hnode hpairs
      rw [htargets] at hsplit
      obtain ⟨rfl, rfl⟩ : before = [] ∧ rest = [⟨"python", list.take 3⟩] := by
        rcases before with _ | ⟨first, _ | ⟨second, before⟩⟩
        · exact ⟨rfl, (List.cons.inj hsplit).2.symm⟩
        · exact absurd (List.cons.inj (List.cons.inj hsplit).2).1 (by decide)
        · exact absurd (List.cons.inj (List.cons.inj hsplit).2).2 (by simp)
      exact ⟨d, registry', outcome, after, info, items', hparse, toOption_eq_some.1 hfix, hnode, htwo,
        turn, later, p, q, kept, hturn, hlater, hafter, hkept, by rw [← hforms.length_eq, hone]⟩

end RuleTidy.Tidy
