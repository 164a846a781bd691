import RuleTidy.Proofs.Rule.Alternatives
import RuleTidy.Proofs.Rule.Worklist
import RuleTidy.Proofs.Yaml.Path.Text

/-! The lists of alternatives of a rule are those that its operators lead to, once for each way. Their
order does not depend on the order in which they are found, for two of them with one length and one
text are the same path. -/

namespace RuleTidy.Rule

open Yaml

namespace Operand

def isAlternatives (operand : Operand) : Bool :=
  operand.key.text? = some "pattern-either" && operand.value.items?.isSome

def listPath (operand : Operand) : Path := operand.path ++ [.key "pattern-either"]

end Operand

/-- The ways to lists of alternatives. -/
def chains (node : Node) : List Operand := (operands node).filter (·.isAlternatives)

theorem mem_chains {chain : Operand} {node : Node} :
    chain ∈ chains node ↔ chain.LiesIn node ∧ chain.key.text? = some "pattern-either" ∧
      chain.value.items?.isSome = true := by
  simp [chains, Operand.isAlternatives, mem_operands]

theorem nodup_chains (node : Node) : ((chains node).map (·.places)).Nodup :=
  (nodup_operands node).sublist (List.filter_sublist.map _)

/-! The recursion finds one path for each chain. -/

def listsAmong (path : Path) (entries : List (Node × Node)) : List Path :=
  (entries.filter fun entry =>
    entry.1.text? = some "pattern-either" && entry.2.items?.isSome).map fun _ =>
      path ++ [.key "pattern-either"]

def Visit.lists (visit : Visit) : List Path :=
  listsAmong visit.path (visit.node.entries?.getD [])

theorem filter_listOperator? (key value : Node) :
    (listOperator? key value).filter (· = "pattern-either") =
      if key.text? = some "pattern-either" && value.items?.isSome then some "pattern-either"
      else none := by
  have hmem : "pattern-either" ∈ listOperators := by decide
  unfold listOperator?
  cases key.text? with
  | none => rfl
  | some name =>
      by_cases hname : name = "pattern-either"
      · subst hname
        cases value.items? <;> simp [hmem]
      · cases hlist : decide (name ∈ listOperators) && value.items?.isSome <;>
          simp_all [Option.filter_some]

theorem listsAmong_cons (path : Path) (key value : Node) (rest : List (Node × Node)) :
    listsAmong path ((key, value) :: rest) =
      (((listOperator? key value).filter (· = "pattern-either")).map fun name =>
        path ++ [.key name]).toList ++ listsAmong path rest := by
  rw [listsAmong, filter_listOperator?, List.filter_cons]
  split <;> rfl

theorem map_listPath (visit : Visit) :
    (visit.operands.filter (·.isAlternatives)).map (·.listPath) = visit.lists := by
  rw [Visit.lists]
  conv => rhs; rw [← List.zipIdx_map_fst 0 (visit.node.entries?.getD [])]
  rw [Visit.operands, listsAmong, List.filter_map, List.filter_map, List.map_map, List.map_map]
  rfl

theorem map_listPath_chains (node : Node) :
    (chains node).map (·.listPath) = (visits node).flatMap (·.lists) := by
  rw [chains, operands, List.filter_flatMap, List.map_flatMap]
  exact List.flatMap_congr fun visit _ => map_listPath visit

theorem flatMap_lists_inside (below : List Visit) (place : Nat) (segment : Segment) :
    (below.map (·.inside place segment)).flatMap (·.lists) =
      (below.flatMap (·.lists)).map (segment :: ·) := by
  rw [List.flatMap_map, List.map_flatMap]
  refine List.flatMap_congr fun visit _ => ?_
  rw [Visit.lists, Visit.lists, listsAmong, listsAmong, List.map_map]
  rfl

theorem listsOfEntry_eq (key value : Node) :
    key.text?.elim [] (listsOfEntry · value) =
      (((listOperator? key value).filter (· = "pattern-either")).map fun name =>
          [.key name]).toList ++
        (listOperator? key value).elim [] fun name =>
          (alternativesBelow value).map (.key name :: ·) := by
  unfold listsOfEntry
  cases hkey : key.text? with
  | none => simp [listOperator?, hkey]
  | some name =>
      cases hlist : decide (name ∈ listOperators) && value.items?.isSome with
      | false =>
          have hnone : listOperator? key value = none := by
            rw [listOperator?, hkey]
            exact Option.filter_some_neg (by simp [hlist])
          rw [hnone, Option.elim_some, hlist]
          rfl
      | true =>
          have hname : listOperator? key value = some name := by
            rw [listOperator?, hkey]
            exact Option.filter_some_pos hlist
          rw [hname, Option.elim_some, Option.elim_some, hlist, if_pos rfl]
          by_cases heither : name = "pattern-either" <;> simp [Option.filter_some, heither]

mutual

theorem alternativesBelow_perm : ∀ node, (alternativesBelow node).Perm
    ((visits node).flatMap (·.lists))
  | .scalar info value => by
      rw [alternativesBelow, visits]
      exact .refl _
  | .sequence info items => by
      rw [alternativesBelow, visits, List.flatMap_cons]
      exact alternativesOfItems_perm 0 items
  | .mapping info entries => by
      rw [alternativesBelow, visits, List.flatMap_cons]
      exact alternativesOfEntries_perm 0 entries

theorem alternativesOfItems_perm :
    ∀ (start : Nat) (items : List Node), (alternativesOfItems start items).Perm
      ((visitsOfItems start items).flatMap (·.lists))
  | _, [] => by
      rw [alternativesOfItems, visitsOfItems]
      exact .refl _
  | start, item :: rest => by
      rw [alternativesOfItems, visitsOfItems, List.flatMap_append, flatMap_lists_inside]
      exact (((alternativesBelow_perm item).map _).append
        (alternativesOfItems_perm (start + 1) rest)).trans List.perm_append_comm

theorem alternativesOfEntries_perm :
    ∀ (start : Nat) (entries : List (Node × Node)), (alternativesOfEntries entries).Perm
      (listsAmong [] entries ++ (visitsOfEntries start entries).flatMap (·.lists))
  | _, [] => by
      rw [alternativesOfEntries, visitsOfEntries]
      exact .refl _
  | start, (key, value) :: rest => by
      have hrest := alternativesOfEntries_perm (start + 1) rest
      rw [alternativesOfEntries_cons, listsOfEntry_eq, listsAmong_cons, visitsOfEntries,
        List.flatMap_append, List.append_assoc, List.append_assoc]
      refine List.Perm.append_left _ ?_
      cases listOperator? key value with
      | none => simpa using hrest
      | some name =>
          rw [flatMap_lists_inside, ← List.append_assoc]
          exact (((alternativesBelow_perm value).map _).append hrest).trans List.perm_append_comm

end

/-! A list that was found has the depth of its path, so the order of the paths that were found is the
order of the paths. -/

theorem lists_follow (stop : Stop) (visit : Visit) :
    (stop.follow visit).lists =
      visit.lists.map fun path => (stop.depth + visit.path.length, stop.path ++ path) := by
  have hall : ∀ entries : List (Node × Node),
      (entries.filterMap fun entry =>
        ((listOperator? entry.1 entry.2).filter (· = "pattern-either")).map fun name =>
          (stop.depth + visit.path.length, stop.path ++ visit.path ++ [.key name])) =
        (listsAmong visit.path entries).map fun path =>
          (stop.depth + visit.path.length, stop.path ++ path) := by
    intro entries
    induction entries with
    | nil => rfl
    | cons entry rest ih =>
        obtain ⟨key, value⟩ := entry
        rw [listsAmong_cons, List.map_append, ← ih, List.filterMap_cons]
        cases (listOperator? key value).filter (· = "pattern-either") <;> simp
  exact hall _

theorem found_eq (rule : Rule) :
    rule.found = (visits rule.node).flatMap fun visit =>
      visit.lists.map fun path => (visit.path.length, rule.path ++ path) := by
  rw [found, visited_start, List.flatMap_map]
  refine List.flatMap_congr fun visit _ => ?_
  rw [lists_follow, start, Nat.zero_add]

theorem map_path_chains (rule : Rule) :
    ((chains rule.node).map fun chain => rule.path ++ chain.listPath) =
      ((visits rule.node).flatMap (·.lists)).map (rule.path ++ ·) := by
  rw [← map_listPath_chains, List.map_map]
  rfl

theorem map_snd_found (rule : Rule) :
    rule.found.map (·.2) = (chains rule.node).map fun chain => rule.path ++ chain.listPath := by
  rw [map_path_chains, found_eq, List.map_flatMap, List.map_flatMap]
  refine List.flatMap_congr fun visit _ => ?_
  rw [List.map_map]
  rfl

theorem length_of_mem_found {rule : Rule} {depth : Nat} {path : Path}
    (h : (depth, path) ∈ rule.found) : path.length = rule.path.length + depth + 1 := by
  rw [found_eq] at h
  obtain ⟨visit, -, hmem⟩ := List.mem_flatMap.1 h
  obtain ⟨inner, hinner, heq⟩ := List.mem_map.1 hmem
  obtain ⟨_, -, rfl⟩ := List.mem_map.1 hinner
  cases heq
  simp only [List.length_append, List.length_singleton]
  omega

theorem alternatives_perm (rule : Rule) :
    rule.alternatives.Perm ((chains rule.node).map fun chain => rule.path ++ chain.listPath) := by
  rw [map_path_chains]
  exact (innermostFirst_perm _).trans ((alternativesBelow_perm rule.node).map _)

theorem deepestFirst_trans (a b c : Nat × Path) (hab : deepestFirst a b = true)
    (hbc : deepestFirst b c = true) : deepestFirst a c = true := by
  simp only [deepestFirst, Bool.or_eq_true, Bool.and_eq_true, decide_eq_true_eq] at hab hbc ⊢
  rcases hab with hab | ⟨hab, htext⟩
  · rcases hbc with hbc | ⟨hbc, -⟩
    · exact .inl (by omega)
    · exact .inl (by omega)
  · rcases hbc with hbc | ⟨hbc, htext'⟩
    · exact .inl (by omega)
    · exact .inr ⟨by omega, htext.trans htext'⟩

theorem deepestFirst_total (a b : Nat × Path) : (deepestFirst a b || deepestFirst b a) = true := by
  simp only [deepestFirst, Bool.or_eq_true, Bool.and_eq_true, decide_eq_true_eq]
  rcases Nat.lt_trichotomy a.1 b.1 with hlt | heq | hlt
  · exact .inr (.inl hlt)
  · rcases le_total a.2.render b.2.render with hle | hle
    · exact .inl (.inr ⟨heq, hle⟩)
    · exact .inr (.inr ⟨heq.symm, hle⟩)
  · exact .inl (.inl hlt)

/-- What was found comes out in the order of the paths, in whichever order it was found. -/
theorem pairwise_inOrder {rule : Rule} {found : List (Nat × Path)} (h : found.Perm rule.found) :
    (inOrder found).Pairwise fun p q => precedes q p = false := by
  rw [inOrder, List.pairwise_map]
  refine List.Pairwise.imp_of_mem (fun {a b} ha hb hab => ?_)
    (List.pairwise_mergeSort deepestFirst_trans deepestFirst_total found)
  have hmem : ∀ entry ∈ found.mergeSort deepestFirst, entry ∈ rule.found := fun entry hentry =>
    h.mem_iff.1 ((List.mergeSort_perm found deepestFirst).mem_iff.1 hentry)
  have hlength := length_of_mem_found (hmem a ha)
  have hlength' := length_of_mem_found (hmem b hb)
  simp only [deepestFirst, Bool.or_eq_true, Bool.and_eq_true, decide_eq_true_eq] at hab
  rw [precedes_eq_false]
  rcases hab with hdeeper | ⟨hdepth, htext⟩
  · exact ⟨by omega, fun heq => by omega⟩
  · exact ⟨by omega, fun _ => htext⟩

/-! Two lists of one rule with one text have one path, so there is only one order. -/

theorem plain_of_isListPath {path : Path} (h : IsListPath path) : path.Plain := by
  have hplain : ∀ name ∈ listOperators, ∀ c ∈ name.toList, Path.isPlain c = true := by
    simp [listOperators, Path.isPlain]
  induction path with
  | nil => exact h.elim
  | cons segment path ih =>
      intro name hname
      cases segment with
      | index n =>
          rcases List.mem_cons.1 hname with heq | htail
          · cases heq
          · exact ih h name htail
      | key other =>
          rcases List.mem_cons.1 hname with heq | htail
          · cases heq
            exact hplain name h.key_mem
          · cases path with
            | nil => cases htail
            | cons next path =>
                cases next with
                | key other => exact h.elim
                | index n => exact ih h.2 name htail

theorem eq_of_render_eq_of_mem {rule : Rule} {p q : Path} (hp : p ∈ rule.alternatives)
    (hq : q ∈ rule.alternatives) (h : p.render = q.render) : p = q := by
  have hplain : ∀ rest ∈ alternativesBelow rule.node, Path.Plain (.index rule.index :: rest) := by
    intro rest hrest name hname
    rcases List.mem_cons.1 hname with heq | htail
    · cases heq
    · exact plain_of_isListPath (isListPath_of_mem hrest) name htail
  obtain ⟨rest, hrest, rfl⟩ := mem_alternatives.1 hp
  obtain ⟨rest', hrest', rfl⟩ := mem_alternatives.1 hq
  exact congrArg (.key "rules" :: ·)
    (Path.eq_of_render_eq (hplain rest hrest) (hplain rest' hrest') h)

theorem eq_alternatives {rule : Rule} {paths : List Path} (hperm : paths.Perm rule.alternatives)
    (horder : paths.Pairwise fun p q => precedes q p = false) : paths = rule.alternatives := by
  refine hperm.eq_of_pairwise (fun p q hp hq hpq hqp => ?_) horder (pairwise_innermostFirst _)
  rw [precedes_eq_false] at hpq hqp
  have hlength : p.length = q.length := le_antisymm hqp.1 hpq.1
  exact eq_of_render_eq_of_mem (hperm.mem_iff.1 hp) hq
    (le_antisymm (hpq.2 hlength.symm) (hqp.2 hlength))

theorem inOrder_eq_alternatives {rule : Rule} {found : List (Nat × Path)}
    (h : found.Perm rule.found) : inOrder found = rule.alternatives := by
  refine eq_alternatives ?_ (pairwise_inOrder h)
  have hfound : (inOrder found).Perm (rule.found.map (·.2)) :=
    ((List.mergeSort_perm found deepestFirst).trans h).map _
  rw [map_snd_found] at hfound
  exact hfound.trans (alternatives_perm rule).symm

/-- The lists of alternatives of a rule are those that chains lead to, one path for each chain.
Longer paths come first, so that a list comes before those that contain it, and paths of one length
are in the order of their texts. The stack gives the same paths, and would do so if it found them in
another order. -/
theorem alternatives_of_chains (rule : Rule) :
    ((chains rule.node).map (·.places)).Nodup ∧
      (∀ chain, chain ∈ chains rule.node ↔ chain.LiesIn rule.node ∧
        chain.key.text? = some "pattern-either" ∧ chain.value.items?.isSome = true) ∧
      rule.alternatives.Perm ((chains rule.node).map fun chain => rule.path ++ chain.listPath) ∧
      (rule.alternatives.Pairwise fun p q =>
        q.length ≤ p.length ∧ (p.length = q.length → p.render ≤ q.render)) ∧
      (rule.alternatives.Pairwise fun p q => p <+: q → p = q) ∧
      rule.lists = rule.alternatives ∧
      ∀ found : List (Nat × Path), found.Perm rule.found → inOrder found = rule.alternatives := by
  refine ⟨nodup_chains rule.node, fun chain => mem_chains, alternatives_perm rule, ?_,
    pairwise_alternatives rule, inOrder_eq_alternatives (.refl _),
    fun found => inOrder_eq_alternatives⟩
  refine (pairwise_innermostFirst _).imp fun {p q} h => ?_
  obtain ⟨hlength, htext⟩ := precedes_eq_false.1 h
  exact ⟨hlength, fun heq => htext heq.symm⟩

end RuleTidy.Rule
