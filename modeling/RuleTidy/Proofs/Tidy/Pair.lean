import RuleTidy.Proofs.Tidy.Steps

/-! Related pairs. A pair that is found names two alternatives of the list, and what relates their
patterns. -/

namespace RuleTidy.Tidy

open Document Pattern Yaml

variable {asts : AstSource Id} {language : String}

theorem mem_patternsOf {items : List Node} {index : Nat} {text : String} :
    (index, text) ∈ patternsOf items ↔
      ∃ item, items[index]? = some item ∧ patternText? item = some text := by
  simp only [patternsOf, List.mem_filterMap, Prod.exists, List.mem_zipIdx_iff_getElem?,
    Option.map_eq_some_iff, Prod.mk.injEq]
  constructor
  · rintro ⟨item, _, hitem, _, htext, rfl, rfl⟩
    exact ⟨item, hitem, htext⟩
  · rintro ⟨item, hitem, htext⟩
    exact ⟨item, index, hitem, text, htext, rfl, rfl⟩

theorem pairwise_patternsOf (items : List Node) :
    (patternsOf items).Pairwise fun a b => a.1 < b.1 := by
  have hindices : (items.zipIdx.map Prod.snd).Pairwise (· < ·) := by
    rw [List.zipIdx_map_snd]
    exact List.pairwise_lt_range'
  rw [patternsOf, List.pairwise_filterMap]
  refine (List.pairwise_map.1 hindices).imp fun {x y} hlt a ha b hb => ?_
  obtain ⟨_, -, rfl⟩ := Option.map_eq_some_iff.1 ha
  obtain ⟨_, -, rfl⟩ := Option.map_eq_some_iff.1 hb
  exact hlt

theorem firstRelatedTo_eq_some {first : Nat × String} {patterns : List (Nat × String)}
    {pair : Pair} (h : (firstRelatedTo asts language first patterns).run.run = .ok (some pair)) :
    ∃ second, (pair.second, second) ∈ patterns ∧ pair.first = first.1 ∧
      (classify asts language first.2 second).run.run = .ok pair.relation ∧
      pair.relation ≠ .different := by
  induction patterns with
  | nil => cases h
  | cons second rest ih =>
      obtain ⟨relation, hclassify, h⟩ := run_bind_eq_ok.1 h
      cases relation with
      | different =>
          obtain ⟨text, hmem, hpair⟩ := ih h
          exact ⟨text, List.mem_cons_of_mem _ hmem, hpair⟩
      | same =>
          obtain rfl := Option.some.inj (run_pure_eq_ok.1 h)
          exact ⟨second.2, List.mem_cons_self, rfl, hclassify, by simp⟩
      | returnPaired side rewritten =>
          obtain rfl := Option.some.inj (run_pure_eq_ok.1 h)
          exact ⟨second.2, List.mem_cons_self, rfl, hclassify, by simp⟩

theorem firstRelatedAmong_eq_some {patterns : List (Nat × String)} {pair : Pair}
    (h : (firstRelatedAmong asts language patterns).run.run = .ok (some pair)) :
    ∃ first second, [(pair.first, first), (pair.second, second)].Sublist patterns ∧
      (classify asts language first second).run.run = .ok pair.relation ∧
      pair.relation ≠ .different := by
  induction patterns with
  | nil => cases h
  | cons first rest ih =>
      obtain ⟨found, hfound, h⟩ := run_bind_eq_ok.1 h
      cases found with
      | none =>
          obtain ⟨text, text', hsublist, hpair⟩ := ih h
          exact ⟨text, text', hsublist.cons first, hpair⟩
      | some found =>
          obtain rfl := Option.some.inj (run_pure_eq_ok.1 h)
          obtain ⟨text, hmem, hfirst, hpair⟩ := firstRelatedTo_eq_some hfound
          refine ⟨first.2, text, ?_, hpair⟩
          rw [hfirst]
          exact (List.singleton_sublist.2 hmem).cons_cons first

/-- Two alternatives of a list with patterns that are related. -/
structure Pair.Relates (asts : AstSource Id) (language : String) (items : List Node) (pair : Pair)
    (first second : Node) (text text' : String) : Prop where
  lt : pair.first < pair.second
  firstAt : items[pair.first]? = some first
  secondAt : items[pair.second]? = some second
  firstText : patternText? first = some text
  secondText : patternText? second = some text'
  classified : (classify asts language text text').run.run = .ok pair.relation
  related : pair.relation ≠ .different

theorem Pair.relates_of_firstRelatedAmong {items : List Node} {pair : Pair}
    (h : (firstRelatedAmong asts language (patternsOf items)).run.run = .ok (some pair)) :
    ∃ first second text text', pair.Relates asts language items first second text text' := by
  obtain ⟨text, text', hsublist, hclassified, hrelated⟩ := firstRelatedAmong_eq_some h
  obtain ⟨first, hfirst, hfirstText⟩ := mem_patternsOf.1 (hsublist.mem List.mem_cons_self)
  obtain ⟨second, hsecond, hsecondText⟩ :=
    mem_patternsOf.1 (hsublist.mem (List.mem_cons_of_mem _ List.mem_cons_self))
  have hlt := List.rel_of_pairwise_cons ((pairwise_patternsOf items).sublist hsublist)
    List.mem_cons_self
  exact ⟨first, second, text, text', hlt, hfirst, hsecond, hfirstText, hsecondText, hclassified,
    hrelated⟩

theorem firstRelated_eq_some {root : Node} {target : Target} {pair : Pair}
    (h : (firstRelated asts root target).run.run = .ok (some pair)) :
    ∃ info items first second text text', root.at? target.path = some (.sequence info items) ∧
      pair.Relates asts target.language items first second text text' := by
  cases hitems : (root.at? target.path).bind (·.items?) with
  | none =>
      simp only [firstRelated, hitems] at h
      cases h
  | some items =>
      obtain ⟨node, hnode, hsome⟩ := Option.bind_eq_some_iff.1 hitems
      simp only [firstRelated, hitems] at h
      obtain ⟨first, second, text, text', hpair⟩ := Pair.relates_of_firstRelatedAmong h
      cases node with
      | scalar info value => cases hsome
      | mapping info entries => cases hsome
      | sequence info items' =>
          obtain rfl := Option.some.inj hsome
          exact ⟨info, _, first, second, text, text', hnode, hpair⟩

/-! Where a pair stands. -/

variable {root : Node} {list : Path} {info : Info} {items : List Node} {item : Node} {index : Nat}

theorem at?_alternative (hlist : root.at? list = some (.sequence info items))
    (hitem : items[index]? = some item) : root.at? (list ++ [.index index]) = some item := by
  rw [Node.at?_append, hlist, Option.bind_some, Node.at?_cons,
    Node.child?_index_eq_some.2 ⟨info, items, rfl, hitem⟩]
  rfl

theorem getElem?_of_at? (hlist : root.at? list = some (.sequence info items))
    (hitem : root.at? (list ++ [.index index]) = some item) : items[index]? = some item := by
  rw [Node.at?_append, hlist, Option.bind_some, Node.at?_cons, Option.bind_eq_some_iff] at hitem
  obtain ⟨child, hchild, heq⟩ := hitem
  obtain ⟨_, _, hsequence, hindex⟩ := Node.child?_index_eq_some.1 hchild
  obtain ⟨rfl, rfl⟩ := Node.sequence.inj hsequence
  rwa [← Option.some.inj heq]

theorem exists_at?_patternPath (hlist : root.at? list = some (.sequence info items))
    (hitem : items[index]? = some item) {text : String} (htext : patternText? item = some text) :
    ∃ node, root.at? (patternPath list index) = some node ∧ node.text? = some text := by
  obtain ⟨node, hnode, hnodeText⟩ := Option.bind_eq_some_iff.1 htext
  refine ⟨node, ?_, hnodeText⟩
  have happend : patternPath list index = (list ++ [.index index]) ++ [.key "pattern"] := by
    simp [patternPath]
  have hchild : item.child? (.key "pattern") = some node := hnode
  rw [happend, Node.at?_append, at?_alternative hlist hitem, Option.bind_some, Node.at?_cons,
    hchild]
  rfl

end RuleTidy.Tidy
