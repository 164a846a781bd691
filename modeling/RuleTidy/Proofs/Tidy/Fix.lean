import RuleTidy.Proofs.Document.Run
import RuleTidy.Proofs.Tidy.Steps
import RuleTidy.Proofs.Tidy.Target

/-! What a tidied document is left with. The lists are edited one after the other, each list after
those inside it, and no list that has been edited ever gets a related pair again. -/

namespace RuleTidy.Tidy

open Document Pattern Source Yaml

variable {asts : AstSource Id} {first root : Node}

/-! Places of one file. -/

theorem Place.inside {a b : Target} (ha : Place first a) (hb : Place first b) {rest : Path}
    (hrest : rest ≠ []) (h : b.path = a.path ++ rest) :
    a.language = b.language ∧ ∃ n tail, rest = .index n :: tail ∧ Rule.IsListPath tail := by
  obtain ⟨index, below, hactive, hbelow, hpath⟩ := ha
  obtain ⟨index', below', hactive', hbelow', hpath'⟩ := hb
  rw [hpath, hpath'] at h
  obtain ⟨rfl, rfl⟩ : index' = index ∧ below' = below ++ rest := by simpa using h
  exact ⟨hactive.language_eq hactive', hbelow.inside hrest hbelow'⟩

theorem Place.append {target : Target} (h : Place first target) (n : Nat) {tail : Path}
    (htail : Rule.IsListPath tail) :
    Place first ⟨target.language, target.path ++ .index n :: tail⟩ := by
  obtain ⟨index, below, hactive, hbelow, hpath⟩ := h
  refine ⟨index, below ++ .index n :: tail, hactive, hbelow.append n htail, ?_⟩
  rw [hpath]
  rfl

theorem SameBelow.at?_eq {old new : Node} (h : SameBelow old new) {path : Path}
    (hpath : Rule.IsListPath path) : new.at? path = old.at? path := by
  cases path with
  | nil => exact hpath.elim
  | cons segment rest =>
      have hsegment : segment ≠ .key "pattern" := by
        rintro rfl
        have hmem := hpath.key_mem
        revert hmem
        decide
      rw [Node.at?_cons, Node.at?_cons, h segment hsegment]

theorem patternText?_update? {old new : Node} {path : Path} {f : Node → Node}
    (hpath : Rule.IsListPath path) (h : old.update? path f = some new) :
    patternText? new = patternText? old := by
  cases path with
  | nil => exact hpath.elim
  | cons segment rest =>
      have hsegment : Segment.key "pattern" ≠ segment := by
        rintro rfl
        have hmem := hpath.key_mem
        revert hmem
        decide
      obtain ⟨child, child', -, -, rfl⟩ := Node.update?_cons_eq_some.1 h
      have hchild := Node.child?_setChild_of_ne hsegment old child'
      exact congrArg (·.bind (·.text?)) hchild

theorem exists_at?_inside {root after found : Node} {list tail : Path} {info : Info}
    {items items' : List Node} {language : String} {n : Nat}
    (hlist : root.at? list = some (.sequence info items))
    (htrims : Relation.ReflTransGen (Trims asts language) items items')
    (hafter : root.update? list (fun _ => .sequence info items') = some after)
    (htail : Rule.IsListPath tail) (hfound : after.at? (list ++ .index n :: tail) = some found) :
    ∃ j, root.at? (list ++ .index j :: tail) = some found := by
  rw [Node.at?_append, Node.at?_update? hafter, hlist, Option.map_some, Option.bind_some,
    Node.at?_cons, Option.bind_eq_some_iff] at hfound
  obtain ⟨new, hnew, hfound⟩ := hfound
  obtain ⟨_, _, heq, hindex⟩ := Node.child?_index_eq_some.1 hnew
  obtain ⟨rfl, rfl⟩ := Node.sequence.inj heq
  obtain ⟨j, old, hold, hbelow⟩ := exists_sameBelow_of_trims htrims hindex
  refine ⟨j, ?_⟩
  rw [Node.at?_append, hlist, Option.bind_some, Node.at?_cons,
    Node.child?_index_eq_some.2 ⟨info, items, rfl, hold⟩, Option.bind_some, ← hbelow.at?_eq htail,
    hfound]

theorem exists_at?_around {root after : Node} {list tail : Path} {f : Node → Node} {info : Info}
    {items : List Node} {n : Nat} (hafter : root.update? (list ++ .index n :: tail) f = some after)
    (htail : Rule.IsListPath tail) (hlist : after.at? list = some (.sequence info items)) :
    ∃ before, root.at? list = some (.sequence info before) ∧
      patternsOf items = patternsOf before := by
  rw [Node.at?_update?_of_append hafter, Option.bind_eq_some_iff] at hlist
  obtain ⟨node, hnode, hchange⟩ := hlist
  obtain ⟨old, new, hold, hnew, hset⟩ := Node.update?_cons_eq_some.1 hchange
  obtain ⟨info', before, rfl, hindex⟩ := Node.child?_index_eq_some.1 hold
  obtain ⟨rfl, rfl⟩ := Node.sequence.inj hset
  exact ⟨before, hnode, patternsOf_set hindex (patternText?_update? htail hnew)⟩

/-! The run. -/

/-- What is known while the lists in `rest` are still to be edited. Outside of all lists nothing has
changed since the start, and a list that is not to be edited has no related pair. -/
structure Tidied (asts : AstSource Id) (first root : Node) (rest : List Target) : Prop where
  frame : ∀ path,
    (∀ target, Place first target → ¬target.path <+: path ∧ ¬path <+: target.path) →
      root.at? path = first.at? path
  settled : ∀ target info items, Place first target → target ∉ rest →
    root.at? target.path = some (.sequence info items) → info.layout ≠ .flow →
      (firstRelatedAmong asts target.language (patternsOf items)).run.run = .ok none

theorem tidied_targets (asts : AstSource Id) (root : Node) :
    Tidied asts root root (targets root) where
  frame _ _ := rfl
  settled _ _ _ hplace hnot hlist hflow :=
    absurd (mem_targets_of_place hplace hlist hflow) hnot

variable {target : Target} {rest : List Target}

theorem Tidied.skip (h : Tidied asts first root (target :: rest))
    (hlist : ∀ info items, root.at? target.path ≠ some (.sequence info items)) :
    Tidied asts first root rest where
  frame := h.frame
  settled other info items hplace hnot hother hflow := by
    refine h.settled other info items hplace ?_ hother hflow
    rintro hmem
    rcases List.mem_cons.1 hmem with rfl | hmem
    · exact hlist info items hother
    · exact hnot hmem

/-- Editing one list keeps what is known of the others, whether they are inside it, around it or
apart from it. -/
theorem Tidied.edit {after : Node} {info : Info} {items items' : List Node}
    (h : Tidied asts first root (target :: rest)) (hplace : Place first target)
    (horder : ∀ other ∈ rest, target.path <+: other.path → target.path = other.path)
    (hlist : root.at? target.path = some (.sequence info items))
    (htrims : Relation.ReflTransGen (Trims asts target.language) items items')
    (hafter : root.update? target.path (fun _ => .sequence info items') = some after)
    (hdone : (firstRelatedAmong asts target.language (patternsOf items')).run.run = .ok none) :
    Tidied asts first after rest where
  frame path hpath := by
    obtain ⟨hbelow, habove⟩ := hpath target hplace
    rw [Node.at?_update?_of_apart hafter hbelow habove]
    exact h.frame path hpath
  settled other info' others hother hnot hat hflow := by
    have hseen : after.at? target.path = some (.sequence info items') := by
      rw [Node.at?_update? hafter, hlist]
      rfl
    -- a list is the edited one, inside it, around it or apart from it
    by_cases hsame : other.path = target.path
    · obtain rfl := hother.eq_of_path_eq hplace hsame
      rw [hseen] at hat
      obtain ⟨rfl, rfl⟩ := Node.sequence.inj (Option.some.inj hat)
      exact hdone
    have hnot' : other ∉ target :: rest := by
      intro hmem
      rcases List.mem_cons.1 hmem with rfl | hmem
      · exact hsame rfl
      · exact hnot hmem
    by_cases hbelow : target.path <+: other.path
    · obtain ⟨below, hpath⟩ := hbelow
      have hne : below ≠ [] := by
        rintro rfl
        exact hsame (by rw [← hpath, List.append_nil])
      obtain ⟨hlanguage, n, tail, rfl, htail⟩ := hplace.inside hother hne hpath.symm
      rw [← hpath] at hat
      obtain ⟨j, hbefore⟩ := exists_at?_inside hlist htrims hafter htail hat
      have hlonger : target.path ≠ target.path ++ .index j :: tail := by simp
      -- it stood in the same item before, and was not to be edited then either
      have hmoved : ⟨target.language, target.path ++ .index j :: tail⟩ ∉ target :: rest := by
        intro hmem
        rcases List.mem_cons.1 hmem with heq | hmem
        · exact hlonger (congrArg Target.path heq).symm
        · exact hlonger (horder _ hmem (List.prefix_append _ _))
      rw [← hlanguage]
      exact h.settled ⟨target.language, target.path ++ .index j :: tail⟩ info' others
        (hplace.append j htail) hmoved hbefore hflow
    by_cases habove : other.path <+: target.path
    · obtain ⟨above, hpath⟩ := habove
      have hne : above ≠ [] := by
        rintro rfl
        exact hsame (by rw [← hpath, List.append_nil])
      obtain ⟨-, n, tail, rfl, htail⟩ := hother.inside hplace hne hpath.symm
      rw [← hpath] at hafter
      -- around the edited list the patterns are the old ones
      obtain ⟨before, hbefore, hpatterns⟩ := exists_at?_around hafter htail hat
      rw [hpatterns]
      exact h.settled other info' before hother hnot' hbefore hflow
    · rw [Node.at?_update?_of_apart hafter hbelow habove] at hat
      exact h.settled other info' others hother hnot' hat hflow

theorem Tidied.fixList {maxPasses passes : Nat} {p after : Progress}
    (h : Tidied asts first p.document.root (target :: rest)) (hplace : Place first target)
    (horder : ∀ other ∈ rest, target.path <+: other.path → target.path = other.path)
    (hfix : (fixList asts maxPasses target passes p).run.run = .ok after) :
    Tidied asts first after.document.root rest := by
  by_cases hlist : ∃ info items, p.document.root.at? target.path = some (.sequence info items)
  · obtain ⟨info, items, hitems⟩ := hlist
    obtain ⟨items', htrims, hafter⟩ := root_fixList hfix hitems
    have hseen : after.document.root.at? target.path = some (.sequence info items') := by
      rw [Node.at?_update? hafter, hitems]
      rfl
    have hdone := firstRelated_fixList hfix
    rw [firstRelated_sequence hseen] at hdone
    exact h.edit hplace horder hitems htrims hafter hdone
  · simp only [not_exists] at hlist
    obtain rfl := fixList_of_not_sequence hfix hlist
    exact h.skip hlist

theorem Tidied.fixLists {maxPasses : Nat} {lists : List Target} {p after : Progress}
    (h : Tidied asts first p.document.root lists) (hplaces : ∀ target ∈ lists, Place first target)
    (horder : lists.Pairwise fun a b => a.path <+: b.path → a.path = b.path)
    (hfix : (fixLists asts maxPasses lists p).run.run = .ok after) :
    Tidied asts first after.document.root [] := by
  induction lists generalizing p with
  | nil =>
      obtain rfl := run_pure_eq_ok.1 hfix
      exact h
  | cons target rest ih =>
      obtain ⟨next, hnext, hfix⟩ := run_bind_eq_ok.1 hfix
      obtain ⟨htarget, hrest⟩ := List.pairwise_cons.1 horder
      have hedit := h.fixList (hplaces target List.mem_cons_self) htarget hnext
      exact ih hedit (fun other hmem => hplaces other (List.mem_cons_of_mem _ hmem)) hrest hfix

theorem tidied_fixDocument {maxPasses : Nat} {d after : Document} {outcome : Outcome}
    (h : (fixDocument asts maxPasses d).run.run = .ok (outcome, after)) :
    Tidied asts d.root after.root [] := by
  obtain ⟨p, hfix, heq⟩ := run_bind_eq_ok.1 h
  obtain ⟨-, rfl⟩ := Prod.mk.inj (run_pure_eq_ok.1 heq)
  exact (tidied_targets asts d.root).fixLists (fun _ => place_of_mem_targets)
    (pairwise_targets d.root) hfix

/-! The lists that are found afterwards. -/

theorem language?_eq (rule : Rule) (h : root.at? rule.path = some rule.node) :
    rule.language? =
      ((((root.at? (rule.path ++ [.key "languages"])).bind (·.items?)).getD []).filterMap
        (·.text?)).head? := by
  rw [Node.at?_append, h, Option.bind_some]
  unfold Rule.language? Rule.languages
  cases hlanguages : rule.node.get? "languages" <;> simp [Node.child?, hlanguages]

theorem Tidied.at?_languages (h : Tidied asts first root rest) (index : Nat) :
    root.at? [.key "rules", .index index, .key "languages"] =
      first.at? [.key "rules", .index index, .key "languages"] := by
  refine h.frame _ ?_
  rintro target ⟨index', below, -, hbelow, hpath⟩
  rw [hpath]
  cases below with
  | nil => exact hbelow.elim
  | cons segment below =>
      have hsegment : segment ≠ .key "languages" := by
        rintro rfl
        have hmem := hbelow.key_mem
        revert hmem
        decide
      simp [List.cons_prefix_cons, hsegment, hsegment.symm]

theorem Tidied.at?_rule (h : Tidied asts first root rest) {index : Nat}
    (hinactive : ∀ language, ¬Active first index language) :
    root.at? [.key "rules", .index index] = first.at? [.key "rules", .index index] := by
  refine h.frame _ ?_
  rintro target ⟨index', below, hactive, -, hpath⟩
  have hne : index' ≠ index := by
    rintro rfl
    exact hinactive _ hactive
  rw [hpath]
  simp [List.cons_prefix_cons, hne, hne.symm]

theorem Tidied.active (h : Tidied asts first root rest) {index : Nat} {language : String}
    (hactive : Active root index language) : Active first index language := by
  obtain ⟨node, hnode, hproblems, hlanguage⟩ := hactive
  by_cases hbefore : ∃ language', Active first index language'
  · obtain ⟨language', node', hnode', hproblems', hlanguage'⟩ := hbefore
    have hsame : language = language' := by
      have hnow := language?_eq ⟨index, node⟩ hnode
      have hthen := language?_eq ⟨index, node'⟩ hnode'
      simp only [Rule.path, List.cons_append, List.nil_append] at hnow hthen
      rw [h.at?_languages, ← hthen, hlanguage, hlanguage'] at hnow
      exact Option.some.inj hnow
    exact ⟨node', hnode', hproblems', hsame ▸ hlanguage'⟩
  · simp only [not_exists] at hbefore
    exact ⟨node, h.at?_rule hbefore ▸ hnode, hproblems, hlanguage⟩

theorem Tidied.pairwise_different (h : Tidied asts first root []) (hmem : target ∈ targets root)
    {items : List Node} (hlist : (root.at? target.path).bind (·.items?) = some items) :
    (patternsOf items).Pairwise fun a b =>
      (classify asts target.language a.2 b.2).run.run = .ok .different := by
  obtain ⟨node, hnode, hitems⟩ := Option.bind_eq_some_iff.1 hlist
  obtain ⟨index, below, hactive, hbelow, hpath⟩ := place_of_mem_targets hmem
  obtain ⟨-, -, -, -, -, hflow⟩ := mem_targets.1 hmem
  have hplace : Place first target := ⟨index, below, h.active hactive, hbelow, hpath⟩
  rw [← firstRelatedAmong_eq_none]
  cases node with
  | scalar info value => cases hitems
  | mapping info entries => cases hitems
  | sequence info items' =>
      obtain rfl := Option.some.inj hitems
      exact h.settled target info _ hplace (List.not_mem_nil) hnode (hflow _ hnode)

theorem firstRelated_eq_none {root : Node} (h : ∀ items,
    (root.at? target.path).bind (·.items?) = some items →
      (patternsOf items).Pairwise fun a b =>
        (classify asts target.language a.2 b.2).run.run = .ok .different) :
    (firstRelated asts root target).run.run = .ok none := by
  unfold firstRelated
  cases hlist : (root.at? target.path).bind (·.items?) with
  | none => rfl
  | some items => exact firstRelatedAmong_eq_none.2 (h items hlist)

theorem fixLists_of_unrelated {maxPasses : Nat} {lists : List Target} {p : Progress}
    (h : ∀ target ∈ lists, (firstRelated asts p.document.root target).run.run = .ok none) :
    (fixLists asts maxPasses lists p).run.run = .ok p := by
  induction lists with
  | nil => rfl
  | cons target rest ih =>
      obtain ⟨htarget, hrest⟩ := List.forall_mem_cons.1 h
      exact run_bind_eq_ok.2 ⟨p, fixList_eq_ok.2 (.inl ⟨htarget, rfl⟩), ih hrest⟩

/-- Tidying is done after one time. Done again it changes nothing, and the patterns of every list
that is not left alone are different from each other. -/
theorem fixDocument_fixDocument {maxPasses : Nat} {d after : Document} {outcome : Outcome}
    (h : (fixDocument asts maxPasses d).run.run = .ok (outcome, after)) :
    (fixDocument asts maxPasses after).run.run = .ok (⟨0, 0, skipped after.root⟩, after) ∧
      ∀ target ∈ targets after.root, ∀ items,
        (after.root.at? target.path).bind (·.items?) = some items →
          (patternsOf items).Pairwise fun a b =>
            (classify asts target.language a.2 b.2).run.run = .ok .different := by
  have htidied := tidied_fixDocument h
  have hdifferent : ∀ target ∈ targets after.root, ∀ items,
      (after.root.at? target.path).bind (·.items?) = some items →
        (patternsOf items).Pairwise fun a b =>
          (classify asts target.language a.2 b.2).run.run = .ok .different :=
    fun target hmem items hlist => htidied.pairwise_different hmem hlist
  have hlists : (fixLists asts maxPasses (targets after.root) { document := after }).run.run =
      .ok { document := after } :=
    fixLists_of_unrelated fun target hmem => firstRelated_eq_none (hdifferent target hmem)
  exact ⟨run_bind_eq_ok.2 ⟨_, hlists, rfl⟩, hdifferent⟩

def nameAsts : AstSource Id := fun _ text =>
  let name : Json := .string text
  let returned : Json := .array [.null, .object [("some", .string "x")]]
  pure ⟨.object [("S", .object [
    if text = "return x" then ("Return", returned) else ("ExprStmt", .array [name])])]⟩

def nestedLists : String :=
  "rules:\n- languages: [python]\n  pattern-either:\n  - pattern: return x\n  - pattern: x\n" ++
    "  - pattern-either:\n    - pattern: y\n    - pattern: y\n  - pattern: x\n"

theorem fixDocument_fixDocument_nestedLists :
    ∃ d registry' outcome after, Document.parse .empty nestedLists none = (.ok d, registry') ∧
      (fixDocument nameAsts 2 d).run.run = .ok (outcome, after) ∧
      outcome.removed = 3 ∧ outcome.rewritten = 1 ∧
      after.render = "rules:\n- languages: [python]\n  pattern-either:\n  - pattern: x\n" ++
        "  - pattern-either:\n    - pattern: y\n" ∧
      (fixDocument nameAsts 2 after).run.run = .ok (⟨0, 0, skipped after.root⟩, after) := by
  obtain ⟨d, registry', hparse⟩ := exists_parse_eq_ok .empty nestedLists none (by decide +kernel)
  have hrun : ((Document.parse .empty nestedLists none).1.toOption.bind fun d =>
      (fixDocument nameAsts 2 d).run.run.toOption.map fun (outcome, after) =>
        (outcome.removed, outcome.rewritten, after.render)) =
      some (3, 1, "rules:\n- languages: [python]\n  pattern-either:\n  - pattern: x\n" ++
        "  - pattern-either:\n    - pattern: y\n") := by decide +kernel
  cases hfix : (fixDocument nameAsts 2 d).run.run with
  | error e => simp [hparse, hfix, Except.toOption] at hrun
  | ok result =>
      obtain ⟨outcome, after⟩ := result
      simp only [hparse, hfix, Except.toOption, Option.bind_some, Option.map_some,
        Option.some.injEq, Prod.mk.injEq] at hrun
      exact ⟨d, registry', outcome, after, hparse, hfix, hrun.1, hrun.2.1, hrun.2.2,
        (fixDocument_fixDocument hfix).1⟩

end RuleTidy.Tidy
