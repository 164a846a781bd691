import RuleTidy.Proofs.Tidy.Rewriting
import RuleTidy.Proofs.Yaml.Node.Children

/-! What is left of a document while its lists are tidied. Outside of these lists nothing changes.
Of a list that has been edited there are survivors, and the lists in them are tidied in the same
way. Lists are told by their paths in the document as it was. -/

namespace RuleTidy.Tidy

open Document Pattern Source Yaml

variable {asts : AstSource Id} {language : String} {lists : List Target}

def listsBelow (segment : Option Segment) (lists : List Target) : List Target :=
  lists.filterMap fun target =>
    match target.path with
    | [] => none
    | first :: rest => if some first = segment then some ⟨target.language, rest⟩ else none

theorem mem_listsBelow {segment : Option Segment} {target : Target} :
    target ∈ listsBelow segment lists ↔
      ∃ first, segment = some first ∧ ⟨target.language, first :: target.path⟩ ∈ lists := by
  obtain ⟨language, path⟩ := target
  rw [listsBelow, List.mem_filterMap]
  constructor
  · rintro ⟨⟨language', path'⟩, hmem, h⟩
    cases path' with
    | nil => cases h
    | cons first rest =>
        obtain ⟨rfl, heq⟩ := Option.ite_none_right_eq_some.1 h
        obtain ⟨rfl, rfl⟩ := Target.mk.inj (Option.some.inj heq)
        exact ⟨first, rfl, hmem⟩
  · rintro ⟨first, rfl, hmem⟩
    exact ⟨_, hmem, if_pos rfl⟩

theorem listsBelow_subset {segment : Option Segment} {more : List Target} (h : lists ⊆ more) :
    listsBelow segment lists ⊆ listsBelow segment more := by
  intro target hmem
  obtain ⟨first, rfl, hfirst⟩ := mem_listsBelow.1 hmem
  exact mem_listsBelow.2 ⟨first, rfl, h hfirst⟩

/-- What is left of a node when some of the lists in it have been tidied. -/
inductive Trimmed (asts : AstSource Id) : List Target → Node → Node → Prop
  | inner {lists : List Target} {old : Node} {children : List Node}
      (length : children.length = old.children.length)
      (inside : ∀ n a b, old.children[n]? = some a → children[n]? = some b →
        Trimmed asts (listsBelow (old.segmentAt? n) lists) a b) :
      Trimmed asts lists old (old.withChildren children)
  | list {lists : List Target} {language : String} {info : Info} {items : List Node}
      {survivors : List Survivor} (mem : ⟨language, []⟩ ∈ lists)
      (thins : Thins asts language items survivors)
      (inside : ∀ s ∈ survivors,
        Trimmed asts (listsBelow (some (.index s.index)) lists) s.own s.now) :
      Trimmed asts lists (.sequence info items) (.sequence info (survivors.map (·.now)))

namespace Trimmed

variable {old new : Node} {segment : Segment}

theorem refl (asts : AstSource Id) (lists : List Target) (node : Node) :
    Trimmed asts lists node node := by
  induction node using Node.children_induction generalizing lists with
  | h node ih =>
      have h : Trimmed asts lists node (node.withChildren node.children) := by
        refine .inner rfl fun n a b ha hb => ?_
        obtain rfl := Option.some.inj (ha.symm.trans hb)
        exact ih a (List.mem_of_getElem? ha) _
      rwa [Node.withChildren_children] at h

theorem mono {more : List Target} (h : Trimmed asts lists old new) (hsub : lists ⊆ more) :
    Trimmed asts more old new := by
  induction h generalizing more with
  | inner length _ ih =>
      exact .inner length fun n a b ha hb => ih n a b ha hb (listsBelow_subset hsub)
  | list mem thins _ ih =>
      exact .list (hsub mem) thins fun s hs => ih s hs (listsBelow_subset hsub)

theorem eq_of_nil (h : Trimmed asts [] old new) : new = old := by
  generalize hlists : ([] : List Target) = lists at h
  induction h with
  | list mem _ _ _ =>
      subst hlists
      cases mem
  | @inner lists old children length inside ih =>
      subst hlists
      have hsame : children = old.children := by
        apply List.ext_getElem length
        intro n hn hn'
        exact ih n _ _ (List.getElem?_eq_getElem hn') (List.getElem?_eq_getElem hn) rfl
      rw [hsame, Node.withChildren_children]

theorem exists_children (h : Trimmed asts lists old new) (hroot : ∀ t ∈ lists, t.path ≠ []) :
    ∃ children, children.length = old.children.length ∧ new = old.withChildren children ∧
      ∀ n a b, old.children[n]? = some a → children[n]? = some b →
        Trimmed asts (listsBelow (old.segmentAt? n) lists) a b := by
  cases h with
  | list mem _ _ => exact absurd rfl (hroot _ mem)
  | inner length inside => exact ⟨_, length, rfl, inside⟩

theorem exists_child (h : Trimmed asts lists old new) (hroot : ∀ t ∈ lists, t.path ≠ [])
    {b : Node} (hb : new.child? segment = some b) :
    ∃ a, old.child? segment = some a ∧ Trimmed asts (listsBelow (some segment) lists) a b := by
  obtain ⟨children, length, rfl, inside⟩ := h.exists_children hroot
  obtain ⟨n, hsegment, hchild, -⟩ := Node.exists_position hb
  rw [Node.segmentAt?_withChildren length] at hsegment
  rw [Node.children_withChildren length] at hchild
  have hlt : n < old.children.length := length ▸ (List.getElem?_eq_some_iff.1 hchild).1
  have ha : old.children[n]? = some old.children[n] := List.getElem?_eq_getElem hlt
  exact ⟨_, (Node.child?_of_segmentAt? hsegment).trans ha, hsegment ▸ inside n _ _ ha hchild⟩

theorem child?_eq (h : Trimmed asts lists old new) (hroot : ∀ t ∈ lists, t.path ≠ [])
    (hnone : listsBelow (some segment) lists = []) : new.child? segment = old.child? segment := by
  cases hb : new.child? segment with
  | some b =>
      obtain ⟨a, ha, hab⟩ := h.exists_child hroot hb
      rw [hnone] at hab
      rw [ha, hab.eq_of_nil]
  | none =>
      cases ha : old.child? segment with
      | none => rfl
      | some a =>
          obtain ⟨children, length, rfl, -⟩ := h.exists_children hroot
          obtain ⟨n, hsegment, hchild, -⟩ := Node.exists_position ha
          have hsegment' : (old.withChildren children).segmentAt? n = some segment := by
            rwa [Node.segmentAt?_withChildren length]
          rw [Node.child?_of_segmentAt? hsegment', Node.children_withChildren length,
            List.getElem?_eq_none_iff, length] at hb
          exact absurd (List.getElem?_eq_some_iff.1 hchild).1 (Nat.not_lt.2 hb)

theorem setChild (h : Trimmed asts lists old new) (hroot : ∀ t ∈ lists, t.path ≠ [])
    {child a b : Node} (hchild : new.child? segment = some child)
    (hab : Trimmed asts (listsBelow (some segment) lists) a b) :
    Trimmed asts lists (old.setChild segment a) (new.setChild segment b) := by
  obtain ⟨before, hbefore, -⟩ := h.exists_child hroot hchild
  obtain ⟨children, length, rfl, inside⟩ := h.exists_children hroot
  obtain ⟨n, hsegment, hn, hold⟩ := Node.exists_position hbefore
  obtain ⟨n', hsegment', -, hnew⟩ := Node.exists_position hchild
  rw [Node.segmentAt?_withChildren length] at hsegment'
  obtain rfl := Node.segmentAt?_injective hsegment hsegment'
  have hset : (old.children.set n a).length = old.children.length := List.length_set
  have hsets : (children.set n b).length =
      (old.withChildren (old.children.set n a)).children.length := by
    rw [Node.children_withChildren hset, List.length_set, List.length_set, length]
  rw [hnew, hold, Node.children_withChildren length, Node.withChildren_withChildren length,
    ← Node.withChildren_withChildren hset (children.set n b)]
  refine .inner hsets fun m x y hx hy => ?_
  rw [Node.children_withChildren hset] at hx
  rw [Node.segmentAt?_withChildren hset]
  by_cases hm : n = m
  · subst hm
    have hlt : n < old.children.length := (List.getElem?_eq_some_iff.1 hn).1
    rw [List.getElem?_set_self hlt] at hx
    rw [List.getElem?_set_self (length ▸ hlt)] at hy
    obtain rfl := Option.some.inj hx
    obtain rfl := Option.some.inj hy
    rwa [hsegment]
  · rw [List.getElem?_set_ne hm] at hx hy
    exact inside m x y hx hy

theorem get?_pattern_eq (h : Trimmed asts lists old new)
    (hlists : ∀ t ∈ lists, Rule.IsListPath t.path) :
    new.get? "pattern" = old.get? "pattern" := by
  have hroot : ∀ t ∈ lists, t.path ≠ [] := fun t ht => (hlists t ht).ne_nil
  -- The key of a pattern is not one of an operator with a list.
  have hnone : listsBelow (some (.key "pattern")) lists = [] := by
    rw [List.eq_nil_iff_forall_not_mem]
    intro t ht
    obtain ⟨first, heq, hmem⟩ := mem_listsBelow.1 ht
    obtain rfl := Option.some.inj heq
    have hkey := (hlists _ hmem).key_mem
    revert hkey
    decide
  exact h.child?_eq hroot hnone

theorem withPattern (h : Trimmed asts lists old new)
    (hlists : ∀ t ∈ lists, Rule.IsListPath t.path) (text : String) :
    Trimmed asts lists (withPattern text old) (withPattern text new) := by
  have hroot : ∀ t ∈ lists, t.path ≠ [] := fun t ht => (hlists t ht).ne_nil
  have hsame := h.get?_pattern_eq hlists
  unfold Tidy.withPattern
  rw [hsame]
  cases hpattern : old.get? "pattern" with
  | none => exact h
  | some pattern => exact h.setChild hroot (hsame.trans hpattern) (.refl _ _ _)

/-! An edited list. -/

theorem exists_survivors {info : Info} {items : List Node}
    (h : Trimmed asts lists old (.sequence info items))
    (hlanguage : ∀ t ∈ lists, t.path = [] → t.language = language) :
    ∃ before survivors, old = .sequence info before ∧ Thins asts language before survivors ∧
      survivors.map (·.now) = items ∧
      ∀ s ∈ survivors, Trimmed asts (listsBelow (some (.index s.index)) lists) s.own s.now := by
  generalize hnew : Node.sequence info items = new at h
  cases h with
  | list mem thins inside =>
      obtain rfl := hlanguage _ mem rfl
      obtain ⟨rfl, rfl⟩ := Node.sequence.inj hnew
      exact ⟨_, _, rfl, thins, rfl, inside⟩
  | inner length inside =>
      cases old with
      | scalar info' value => cases hnew
      | mapping info' entries => cases hnew
      | sequence info' before =>
          obtain ⟨rfl, rfl⟩ := Node.sequence.inj hnew
          refine ⟨before, allOf before items, rfl, thins_allOf length, map_now_allOf length, ?_⟩
          intro s hs
          obtain ⟨hown, hnow⟩ := mem_allOf.1 hs
          exact inside s.index s.own s.now hown hnow

theorem editHere {info : Info} {items : List Node} {pair : Pair} {first second : Node}
    {text text' : String} (h : Trimmed asts lists old (.sequence info items))
    (hlanguage : ∀ t ∈ lists, t.path = [] → t.language = language)
    (hinside : ∀ t ∈ lists, t.path ≠ [] →
      ∃ n tail, t.path = .index n :: tail ∧ Rule.IsListPath tail)
    (hrelates : pair.Relates asts language items first second text text') :
    Trimmed asts (⟨language, []⟩ :: lists) old (.sequence info (trimmed items pair)) := by
  obtain ⟨before, survivors, rfl, hthins, rfl, hnow⟩ := h.exists_survivors hlanguage
  have hlists : ∀ s : Survivor, ∀ t ∈ listsBelow (some (.index s.index)) lists,
      Rule.IsListPath t.path := by
    intro s t ht
    obtain ⟨first, heq, hmem⟩ := mem_listsBelow.1 ht
    obtain rfl := Option.some.inj heq
    obtain ⟨n, tail, hpath, htail⟩ := hinside _ hmem (List.cons_ne_nil _ _)
    obtain ⟨-, rfl⟩ := List.cons.inj hpath
    exact htail
  have hpattern : ∀ s ∈ survivors, patternText? s.now = patternText? s.own := fun s hs =>
    congrArg (·.bind (·.text?)) ((hnow s hs).get?_pattern_eq (hlists s))
  -- Survivors of the list as it is now are survivors of the list as it was.
  rw [← map_now_thinned hrelates.related]
  refine .list List.mem_cons_self (hthins.thinned hrelates hpattern) fun s hs => ?_
  obtain ⟨n, former, -, hformer, rfl⟩ := mem_thinned.1 hs
  have hmem := List.mem_of_getElem? hformer
  have hitem : (survivors.map (·.now))[n]? = some former.now := by
    rw [List.getElem?_map, hformer, Option.map_some]
  have htrimmed : Trimmed asts (listsBelow (some (.index former.index)) lists)
      (pair.revise n former.own) (pair.revise n former.now) := by
    rcases hrelates.revise_cases hitem with hsame | ⟨_, rest, -, -, hrest⟩
    · rw [hsame, hsame]
      exact hnow former hmem
    · rw [hrest, hrest]
      exact (hnow former hmem).withPattern (hlists former) rest
  exact htrimmed.mono (listsBelow_subset (List.subset_cons_self _ _))

/-- An edit of a list anywhere in a node leaves it trimmed, if the lists that were edited before are
not around it. -/
theorem edit {path : Path} {info : Info} {items : List Node} {pair : Pair}
    {first second after : Node} {text text' : String} (h : Trimmed asts lists old new)
    (horder : ∀ t ∈ lists, t.path <+: path → t = ⟨language, path⟩)
    (hinside : ∀ t ∈ lists, ∀ rest, t.path = path ++ rest → rest ≠ [] →
      ∃ n tail, rest = .index n :: tail ∧ Rule.IsListPath tail)
    (hlist : new.at? path = some (.sequence info items))
    (hrelates : pair.Relates asts language items first second text text')
    (hafter : new.update? path (fun _ => .sequence info (trimmed items pair)) = some after) :
    Trimmed asts (⟨language, path⟩ :: lists) old after := by
  induction path generalizing lists old new after with
  | nil =>
      obtain rfl := Option.some.inj hlist
      obtain rfl := Option.some.inj hafter
      refine h.editHere (fun t ht hnil => ?_) (fun t ht => hinside t ht t.path rfl) hrelates
      exact congrArg Target.language (horder t ht (hnil ▸ List.prefix_rfl))
  | cons segment path ih =>
      obtain ⟨child, child', hchild, hchild', rfl⟩ := Node.update?_cons_eq_some.1 hafter
      rw [Node.at?_cons, hchild, Option.bind_some] at hlist
      have hroot : ∀ t ∈ lists, t.path ≠ [] := by
        intro t ht hnil
        have heq := congrArg Target.path (horder t ht (hnil ▸ List.nil_prefix))
        rw [hnil] at heq
        cases heq
      obtain ⟨before, hbefore, hbelow⟩ := h.exists_child hroot hchild
      have hedited :
          Trimmed asts (⟨language, path⟩ :: listsBelow (some segment) lists) before child' := by
        refine ih hbelow (fun t ht hprefix => ?_) (fun t ht rest hpath hne => ?_) hlist hchild'
        · obtain ⟨_, heq, hmem⟩ := mem_listsBelow.1 ht
          obtain rfl := Option.some.inj heq
          have hsame := horder _ hmem (List.cons_prefix_cons.2 ⟨rfl, hprefix⟩)
          obtain ⟨rfl, hpath⟩ := Target.mk.inj hsame
          exact congrArg (Target.mk t.language) (List.cons.inj hpath).2
        · obtain ⟨_, heq, hmem⟩ := mem_listsBelow.1 ht
          obtain rfl := Option.some.inj heq
          exact hinside _ hmem rest (congrArg (segment :: ·) hpath) hne
      -- The child is put back on both sides, where it changes nothing in the old node.
      have hmore := h.mono (List.subset_cons_self ⟨language, segment :: path⟩ lists)
      have hset := hmore.setChild (List.forall_mem_cons.2 ⟨List.cons_ne_nil _ _, hroot⟩) hchild
        (hedited.mono fun t ht => ?_)
      · rwa [Node.setChild_child? hbefore] at hset
      · rcases List.mem_cons.1 ht with rfl | ht
        · exact mem_listsBelow.2 ⟨segment, rfl, List.mem_cons_self⟩
        · exact listsBelow_subset (List.subset_cons_self _ _) ht

/-! The run. -/

theorem run {all edited : List Target} {root : Node} {p after : Progress} {edits : List Edit}
    (hrun : Run asts lists p edits after) (h : Trimmed asts edited root p.document.root)
    (hplaces : ∀ t ∈ all, Place root t) (hedited : edited ⊆ all) (hlists : lists ⊆ all)
    (hbefore : ∀ t ∈ edited, ∀ other ∈ lists, t.path <+: other.path → t.path = other.path)
    (horder : lists.Pairwise fun a b => a.path <+: b.path → a.path = b.path) :
    Trimmed asts all root after.document.root ∧
      ∀ e ∈ edits, Trimmed asts all root e.after.document.root := by
  -- on the edits: those that are done are not around those to come
  induction hrun generalizing edited with
  | nil p => exact ⟨h.mono hedited, nofun⟩
  | settled _ _ ih =>
      exact ih h hedited (List.subset_of_cons_subset hlists)
        (fun t ht other hother => hbefore t ht other (List.mem_cons_of_mem _ hother))
        (List.pairwise_cons.1 horder).2
  | @edit e rest edits after made _ ih =>
      have hplace := hplaces e.target (hlists List.mem_cons_self)
      obtain ⟨info, items, _, _, _, _, hlist, hrelates⟩ := firstRelated_eq_some made.found
      obtain ⟨info', items', hlist', hafter⟩ := root_mergePair made.merged
      obtain ⟨rfl, rfl⟩ := Node.sequence.inj (Option.some.inj (hlist.symm.trans hlist'))
      have hedit : Trimmed asts (e.target :: edited) root e.after.document.root := by
        refine h.edit (fun t ht hprefix => ?_) (fun t ht rest hpath hne => ?_) hlist hrelates hafter
        · exact (hplaces t (hedited ht)).eq_of_path_eq hplace
            (hbefore t ht e.target List.mem_cons_self hprefix)
        · exact (hplace.inside (hplaces t (hedited ht)) hne hpath).2
      have hmore : e.target :: edited ⊆ all :=
        List.cons_subset.2 ⟨hlists List.mem_cons_self, hedited⟩
      have hfirst : ∀ other ∈ e.target :: rest,
          e.target.path <+: other.path → e.target.path = other.path :=
        List.forall_mem_cons.2 ⟨fun _ => rfl, (List.pairwise_cons.1 horder).1⟩
      obtain ⟨hlast, hedits⟩ :=
        ih hedit hmore hlists (List.forall_mem_cons.2 ⟨hfirst, hbefore⟩) horder
      exact ⟨hlast, List.forall_mem_cons.2 ⟨hedit.mono hmore, hedits⟩⟩

end Trimmed

variable {maxPasses : Nat}

/-- Tidying a document changes nothing outside of its targets, which are lists that are not in
brackets, of rules without problems. A target is left with survivors, and so it is after each edit
on the way. No alternative has its pattern written anew twice, and the outcome tells how many
changes of each kind were made. -/
theorem trimmed_of_fixDocument {d after : Document} {outcome : Outcome}
    (h : (fixDocument asts maxPasses d).run.run = .ok (outcome, after)) :
    (∀ target ∈ targets d.root, Place d.root target ∧
      ∀ list, d.root.at? target.path = some list → list.layout ≠ .flow) ∧
    Trimmed asts (targets d.root) d.root after.root ∧
    ∃ edits, Tidies asts d edits after ∧
      (∀ e ∈ edits, Trimmed asts (targets d.root) d.root e.after.document.root) ∧
      (∀ before e between e' later, edits = before ++ e :: (between ++ e' :: later) → e.Rewrites →
        (e :: between).foldlM (fun path e => e.follow path) e.keptPath = some e'.keptPath →
          ¬e'.Rewrites) ∧
      let changes := edits.flatMap fun e => e.pair.changes e.target.path
      changes.foldlM perform d = .ok after ∧ outcome.removed = changes.countP removes ∧
        outcome.rewritten = changes.countP (!removes ·) ∧ outcome.rewritten ≤ outcome.removed := by
  obtain ⟨p, hfix, heq⟩ := run_bind_eq_ok.1 h
  obtain ⟨rfl, rfl⟩ := Prod.mk.inj (run_pure_eq_ok.1 heq)
  obtain ⟨edits, hrun⟩ := exists_run_fixLists hfix
  have hplaces : ∀ t ∈ targets d.root, Place d.root t := fun _ => place_of_mem_targets
  obtain ⟨hlast, hedits⟩ := Trimmed.run hrun (.refl asts [] d.root) hplaces (List.nil_subset _)
    (List.Subset.refl _) nofun (pairwise_targets d.root)
  obtain ⟨hremoved, hrewritten⟩ := hrun.counts
  rw [Nat.zero_add] at hremoved hrewritten
  refine ⟨fun target htarget => ⟨hplaces target htarget, ?_⟩, hlast, edits, ⟨p, hrun, rfl⟩, hedits,
    fun before e between e' later hsplit => hrun.rewrites_once hplaces hsplit,
    foldlM_perform_of_run hrun, hremoved, hrewritten, ?_⟩
  · obtain ⟨_, -, -, -, -, hflow⟩ := mem_targets.1 htarget
    exact hflow
  · rw [hremoved, hrewritten]
    exact countP_changes_le edits

/-- Two lists are tidied, one inside the other. Three alternatives go, and one pattern is written
anew. -/
theorem trimmed_of_fixDocument_nestedLists :
    ∃ d registry' outcome after edits,
      Document.parse .empty nestedLists none = (.ok d, registry') ∧
      (fixDocument nameAsts 2 d).run.run = .ok (outcome, after) ∧ (targets d.root).length = 2 ∧
      Trimmed nameAsts (targets d.root) d.root after.root ∧ Tidies nameAsts d edits after ∧
      let changes := edits.flatMap fun e => e.pair.changes e.target.path
      changes.foldlM perform d = .ok after ∧ changes.countP removes = 3 ∧
        changes.countP (!removes ·) = 1 := by
  have hrun : ((Document.parse .empty nestedLists none).1.toOption.bind fun d =>
      (fixDocument nameAsts 2 d).run.run.toOption.map fun (outcome, _) =>
        ((targets d.root).length, outcome.removed, outcome.rewritten)) =
      some (2, 3, 1) := by decide +kernel
  obtain ⟨d, registry', hparse, hrun⟩ := exists_parse_of_bind hrun
  obtain ⟨⟨outcome, after⟩, hfix, heq⟩ := Option.map_eq_some_iff.1 hrun
  obtain ⟨htwo, hthree, hone⟩ : (targets d.root).length = 2 ∧ outcome.removed = 3 ∧
      outcome.rewritten = 1 := by simpa using heq
  rw [toOption_eq_some] at hfix
  obtain ⟨-, htrimmed, edits, htidies, -, -, hperform, hremoved, hrewritten, -⟩ :=
    trimmed_of_fixDocument hfix
  exact ⟨d, registry', outcome, after, edits, hparse, hfix, htwo, htrimmed, htidies, hperform,
    hremoved ▸ hthree, hrewritten ▸ hone⟩

end RuleTidy.Tidy
