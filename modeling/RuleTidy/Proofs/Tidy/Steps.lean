import RuleTidy.Proofs.Document.Steps
import RuleTidy.Tidy.Fix
import Mathlib.Logic.Relation

/-! What the edits of one list amount to. One edit takes an alternative away and may write the
pattern of another one anew, and a list is done when no pair of its patterns is related. The trees
come from a function here, so every step has one outcome. -/

namespace RuleTidy.Tidy

open Document Pattern Source Yaml

variable {asts : AstSource Id} {language : String}

theorem run_lookup_eq_ok {α : Type} {x : ExceptT LookupError Id α} {a : α} :
    (lookup x).run.run = .ok a ↔ x.run.run = .ok a := mapError_eq_ok

/-! Pairs. -/

theorem firstRelatedTo_eq_none {first : Nat × String} {patterns : List (Nat × String)} :
    (firstRelatedTo asts language first patterns).run.run = .ok none ↔
      ∀ second ∈ patterns,
        (classify asts language first.2 second.2).run.run = .ok .different := by
  induction patterns with
  | nil => simp [firstRelatedTo]
  | cons second rest ih =>
      rw [firstRelatedTo, run_bind_eq_ok, List.forall_mem_cons, ← ih]
      constructor
      · rintro ⟨relation, hclassify, h⟩
        cases relation with
        | different => exact ⟨hclassify, h⟩
        | same => simp at h
        | returnPaired side rewritten => simp at h
      · rintro ⟨hclassify, h⟩
        exact ⟨_, hclassify, h⟩

theorem firstRelatedAmong_eq_none {patterns : List (Nat × String)} :
    (firstRelatedAmong asts language patterns).run.run = .ok none ↔
      patterns.Pairwise fun a b =>
        (classify asts language a.2 b.2).run.run = .ok .different := by
  induction patterns with
  | nil => simp [firstRelatedAmong]
  | cons first rest ih =>
      rw [firstRelatedAmong, run_bind_eq_ok, List.pairwise_cons, ← firstRelatedTo_eq_none, ← ih]
      constructor
      · rintro ⟨pair, hfirst, h⟩
        cases pair with
        | none => exact ⟨hfirst, h⟩
        | some pair => simp at h
      · rintro ⟨hfirst, h⟩
        exact ⟨none, hfirst, h⟩

/-! One edit of a list. -/

theorem alternativeAt_eq_ok {root node : Node} {list : Path} {index : Nat} :
    alternativeAt root list index = .ok node ↔ root.at? (list ++ [.index index]) = some node := by
  unfold alternativeAt
  cases root.at? (list ++ [.index index]) <;> simp [inconsistent]

theorem dropDuplicate_eq_ok {p after : Progress} {list : Path} {first second : Nat} :
    dropDuplicate p list first second = .ok after ↔
      ∃ kept dropped removed document,
        p.document.root.at? (list ++ [.index first]) = some kept ∧
        p.document.root.at? (list ++ [.index second]) = some dropped ∧ kept == dropped ∧
        p.document.removeItem list second = .ok (removed, document) ∧
        after = { p with document, removed := p.removed + 1 } := by
  unfold dropDuplicate
  simp only [bind_eq_ok, alternativeAt_eq_ok]
  constructor
  · rintro ⟨kept, hkept, dropped, hdropped, h⟩
    cases hsame : kept == dropped with
    | false => simp [bne, hsame, inconsistent, bind, Except.bind] at h
    | true =>
        simp only [bne, hsame, Bool.not_true, Bool.false_eq_true, if_false, bind_eq_ok,
          mapError_eq_ok, pure_eq_ok] at h
        obtain ⟨⟨removed, document⟩, hremove, rfl⟩ := h
        exact ⟨kept, dropped, removed, document, hkept, hdropped, hsame, hremove, rfl⟩
  · rintro ⟨kept, dropped, removed, document, hkept, hdropped, hsame, hremove, rfl⟩
    refine ⟨kept, hkept, dropped, hdropped, ?_⟩
    simp only [bne, hsame, Bool.not_true, Bool.false_eq_true, if_false, bind_eq_ok, mapError_eq_ok,
      pure_eq_ok]
    exact ⟨_, hremove, rfl⟩

theorem mergeReturn_eq_ok {p after : Progress} {list : Path} {returning other : Nat}
    {rewritten : String} :
    mergeReturn p list returning other rewritten = .ok after ↔
      ∃ between removed document,
        p.document.replaceScalar (patternPath list returning) rewritten = .ok between ∧
        between.removeItem list other = .ok (removed, document) ∧
        after = ⟨document, p.removed + 1, p.rewritten + 1⟩ := by
  unfold mergeReturn
  simp only [bind_eq_ok, mapError_eq_ok, pure_eq_ok]
  constructor
  · rintro ⟨between, hreplace, ⟨removed, document⟩, hremove, rfl⟩
    exact ⟨between, removed, document, hreplace, hremove, rfl⟩
  · rintro ⟨between, removed, document, hreplace, hremove, rfl⟩
    exact ⟨between, hreplace, _, hremove, rfl⟩

def withPattern (text : String) (alternative : Node) : Node :=
  match alternative.get? "pattern" with
  | some old => alternative.setChild (.key "pattern") (.scalar old.info (.string text))
  | none => alternative

def trimmed (items : List Node) (pair : Pair) : List Node :=
  match pair.relation with
  | .same => items.eraseIdx pair.second
  | .returnPaired side rewritten =>
    (items.modify (side.pick pair.first pair.second) (withPattern rewritten)).eraseIdx
      (side.other.pick pair.first pair.second)
  | .different => items

theorem modify_eq_set {items : List Node} {item : Node} {index : Nat} (f : Node → Node)
    (h : items[index]? = some item) : items.modify index f = items.set index (f item) := by
  apply List.ext_getElem?
  intro n
  by_cases hn : index = n
  · subst hn
    rw [List.getElem?_modify_eq, h, List.getElem?_set_self (List.getElem?_eq_some_iff.1 h).1]
    rfl
  · rw [List.getElem?_modify_ne _ _ hn, List.getElem?_set_ne hn]

theorem update?_patternPath {root after old : Node} {list : Path} {index : Nat} {text : String}
    (hold : root.at? (patternPath list index) = some old)
    (h : root.update? (patternPath list index) (fun _ => .scalar old.info (.string text)) =
      some after) :
    ∃ info items, root.at? list = some (.sequence info items) ∧
      root.update? list (fun _ => .sequence info (items.modify index (withPattern text))) =
        some after := by
  unfold patternPath at hold h
  rw [Node.at?_append, Option.bind_eq_some_iff] at hold
  obtain ⟨node, hnode, hold⟩ := hold
  rw [Node.at?_cons, Option.bind_eq_some_iff] at hold
  obtain ⟨item, hitem, hold⟩ := hold
  obtain ⟨info, items, rfl, hindex⟩ := Node.child?_index_eq_some.1 hitem
  have hkey : item.child? (.key "pattern") = some old := by
    simpa [Node.at?_cons, Option.bind_eq_some_iff] using hold
  have hitem' : item.update? [.key "pattern"] (fun _ => .scalar old.info (.string text)) =
      some (withPattern text item) := by
    have hget : item.get? "pattern" = some old := hkey
    simp [Node.update?_cons, hkey, withPattern, hget]
  have hlist : (Node.sequence info items).update? [.index index, .key "pattern"]
      (fun _ => .scalar old.info (.string text)) =
        some (.sequence info (items.modify index (withPattern text))) := by
    rw [Node.update?_cons, hitem, Option.bind_some, hitem', modify_eq_set _ hindex]
    rfl
  rw [Node.update?_append hnode, hlist] at h
  exact ⟨info, items, hnode, h⟩

theorem root_mergeReturn {p after : Progress} {list : Path} {returning other : Nat}
    {rewritten : String} (h : mergeReturn p list returning other rewritten = .ok after) :
    ∃ info items, p.document.root.at? list = some (.sequence info items) ∧
      p.document.root.update? list (fun _ =>
        .sequence info ((items.modify returning (withPattern rewritten)).eraseIdx other)) =
          some after.document.root := by
  obtain ⟨between, removed, document, hreplace, hremove, rfl⟩ := mergeReturn_eq_ok.1 h
  obtain ⟨scalarInfo, old, hold, hbetween⟩ := root_replaceScalar hreplace
  obtain ⟨info, items, hitems, hlist⟩ := update?_patternPath hold hbetween
  obtain ⟨info', items', hitems', -, hroot⟩ := root_removeItem hremove
  have hseen := Node.at?_update? hlist
  rw [hitems', hitems] at hseen
  obtain ⟨rfl, rfl⟩ := Node.sequence.inj (Option.some.inj hseen)
  rw [Node.update?_update? hlist] at hroot
  exact ⟨_, items, hitems, hroot⟩

theorem root_mergePair {target : Target} {p after : Progress} {pair : Pair}
    (h : (mergePair asts target p pair).run.run = .ok after) :
    ∃ info items, p.document.root.at? target.path = some (.sequence info items) ∧
      p.document.root.update? target.path (fun _ => .sequence info (trimmed items pair)) =
        some after.document.root := by
  obtain ⟨first, second, relation⟩ := pair
  unfold mergePair at h
  cases relation with
  | same =>
      obtain ⟨kept, dropped, removed, document, -, -, -, hremove, rfl⟩ := dropDuplicate_eq_ok.1 h
      obtain ⟨info, items, hitems, -, hroot⟩ := root_removeItem hremove
      exact ⟨info, items, hitems, hroot⟩
  | returnPaired side rewritten =>
      obtain ⟨-, -, hmerge⟩ := run_bind_eq_ok.1 h
      exact root_mergeReturn hmerge
  | different => cases h

/-! All edits of a list. -/

theorem fixList_eq_ok {maxPasses passes : Nat} {target : Target} {p after : Progress} :
    (fixList asts maxPasses target passes p).run.run = .ok after ↔
      ((firstRelated asts p.document.root target).run.run = .ok none ∧ p = after) ∨
      ∃ pair left next, (firstRelated asts p.document.root target).run.run = .ok (some pair) ∧
        passes = left + 1 ∧ (mergePair asts target p pair).run.run = .ok next ∧
        (fixList asts maxPasses target left next).run.run = .ok after := by
  rw [fixList, run_bind_eq_ok]
  simp only [run_lookup_eq_ok]
  constructor
  · rintro ⟨pair, hpair, h⟩
    cases pair with
    | none => exact .inl ⟨hpair, run_pure_eq_ok.1 h⟩
    | some pair =>
        cases passes with
        | zero => cases h
        | succ left =>
            obtain ⟨next, hnext, h⟩ := run_bind_eq_ok.1 h
            exact .inr ⟨pair, left, next, hpair, rfl, hnext, h⟩
  · rintro (⟨hpair, rfl⟩ | ⟨pair, left, next, hpair, rfl, hnext, h⟩)
    · exact ⟨none, hpair, rfl⟩
    · exact ⟨some pair, hpair, run_bind_eq_ok.2 ⟨next, hnext, h⟩⟩

def Trims (asts : AstSource Id) (language : String) (items after : List Node) : Prop :=
  ∃ pair, (firstRelatedAmong asts language (patternsOf items)).run.run = .ok (some pair) ∧
    trimmed items pair = after

theorem firstRelated_sequence {root : Node} {target : Target} {info : Info} {items : List Node}
    (h : root.at? target.path = some (.sequence info items)) :
    firstRelated asts root target =
      firstRelatedAmong asts target.language (patternsOf items) := by
  unfold firstRelated
  rw [h]
  rfl

theorem firstRelated_fixList {maxPasses passes : Nat} {target : Target} {p after : Progress}
    (h : (fixList asts maxPasses target passes p).run.run = .ok after) :
    (firstRelated asts after.document.root target).run.run = .ok none := by
  induction passes generalizing p with
  | zero =>
      rcases fixList_eq_ok.1 h with ⟨hnone, rfl⟩ | ⟨_, _, _, _, heq, _⟩
      · exact hnone
      · cases heq
  | succ left ih =>
      rcases fixList_eq_ok.1 h with ⟨hnone, rfl⟩ | ⟨_, _, next, _, heq, -, h⟩
      · exact hnone
      · obtain rfl := Nat.succ.inj heq
        exact ih h

theorem fixList_of_not_sequence {maxPasses passes : Nat} {target : Target} {p after : Progress}
    (h : (fixList asts maxPasses target passes p).run.run = .ok after)
    (hlist : ∀ info items, p.document.root.at? target.path ≠ some (.sequence info items)) :
    p = after := by
  rcases fixList_eq_ok.1 h with ⟨-, rfl⟩ | ⟨_, _, _, _, _, hmerge, _⟩
  · rfl
  · obtain ⟨info, items, hitems, -⟩ := root_mergePair hmerge
    exact absurd hitems (hlist info items)

/-- The edits of a list trim its alternatives one after the other, and nothing else changes. -/
theorem root_fixList {maxPasses passes : Nat} {target : Target} {p after : Progress} {info : Info}
    {items : List Node} (h : (fixList asts maxPasses target passes p).run.run = .ok after)
    (hlist : p.document.root.at? target.path = some (.sequence info items)) :
    ∃ items', Relation.ReflTransGen (Trims asts target.language) items items' ∧
      p.document.root.update? target.path (fun _ => .sequence info items') =
        some after.document.root := by
  induction passes generalizing p items with
  | zero =>
      rcases fixList_eq_ok.1 h with ⟨-, rfl⟩ | ⟨_, _, _, _, heq, _⟩
      · exact ⟨items, .refl, Node.update?_at? hlist⟩
      · cases heq
  | succ left ih =>
      rcases fixList_eq_ok.1 h with ⟨-, rfl⟩ | ⟨pair, _, next, hpair, heq, hmerge, h⟩
      · exact ⟨items, .refl, Node.update?_at? hlist⟩
      · obtain rfl := Nat.succ.inj heq
        obtain ⟨info', items', hitems', hroot⟩ := root_mergePair hmerge
        rw [hlist] at hitems'
        obtain ⟨rfl, rfl⟩ := Node.sequence.inj (Option.some.inj hitems')
        have hnext := Node.at?_update? hroot
        rw [hlist] at hnext
        obtain ⟨items', hchain, hafter⟩ := ih h hnext
        rw [Node.update?_update? hroot] at hafter
        rw [firstRelated_sequence hlist] at hpair
        exact ⟨items', .head ⟨pair, hpair, rfl⟩ hchain, hafter⟩

/-! What the edits of a list keep of its alternatives. -/

/-- All but the pattern is where it was. -/
def SameBelow (old new : Node) : Prop :=
  ∀ segment, segment ≠ .key "pattern" → new.child? segment = old.child? segment

theorem SameBelow.trans {a b c : Node} (hab : SameBelow a b) (hbc : SameBelow b c) :
    SameBelow a c :=
  fun segment hsegment => (hbc segment hsegment).trans (hab segment hsegment)

theorem sameBelow_withPattern (text : String) (alternative : Node) :
    SameBelow alternative (withPattern text alternative) := by
  intro segment hsegment
  unfold withPattern
  cases alternative.get? "pattern" with
  | none => rfl
  | some old => exact Node.child?_setChild_of_ne hsegment _ _

theorem exists_of_getElem?_eraseIdx {items : List Node} {index i : Nat} {item : Node}
    (h : (items.eraseIdx index)[i]? = some item) : ∃ j : Nat, items[j]? = some item := by
  rw [List.getElem?_eraseIdx] at h
  split at h
  · exact ⟨i, h⟩
  · exact ⟨i + 1, h⟩

theorem exists_sameBelow_trimmed {items : List Node} {pair : Pair} {i : Nat} {new : Node}
    (h : (trimmed items pair)[i]? = some new) :
    ∃ (j : Nat) (old : Node), items[j]? = some old ∧ SameBelow old new := by
  unfold trimmed at h
  cases hrelation : pair.relation with
  | different =>
      rw [hrelation] at h
      exact ⟨i, new, h, fun _ _ => rfl⟩
  | same =>
      rw [hrelation] at h
      obtain ⟨j, hj⟩ := exists_of_getElem?_eraseIdx h
      exact ⟨j, new, hj, fun _ _ => rfl⟩
  | returnPaired side rewritten =>
      rw [hrelation] at h
      obtain ⟨j, hj⟩ := exists_of_getElem?_eraseIdx h
      rw [List.getElem?_modify, Option.map_eq_map, Option.map_eq_some_iff] at hj
      obtain ⟨old, hold, rfl⟩ := hj
      refine ⟨j, old, hold, ?_⟩
      split
      · exact sameBelow_withPattern rewritten old
      · exact fun _ _ => rfl

theorem exists_sameBelow_of_trims {items after : List Node}
    (h : Relation.ReflTransGen (Trims asts language) items after) {i : Nat} {new : Node}
    (hnew : after[i]? = some new) :
    ∃ (j : Nat) (old : Node), items[j]? = some old ∧ SameBelow old new := by
  induction h generalizing i new with
  | refl => exact ⟨i, new, hnew, fun _ _ => rfl⟩
  | tail _ htrims ih =>
      obtain ⟨pair, -, rfl⟩ := htrims
      obtain ⟨j, between, hbetween, hlast⟩ := exists_sameBelow_trimmed hnew
      obtain ⟨k, old, hold, hfirst⟩ := ih hbetween
      exact ⟨k, old, hold, hfirst.trans hlast⟩

theorem patternsOf_eq_map (items : List Node) :
    patternsOf items =
      (items.map patternText?).zipIdx.filterMap fun (text?, index) => text?.map (index, ·) := by
  rw [patternsOf, List.zipIdx_map, List.filterMap_map]
  rfl

theorem patternsOf_set {items : List Node} {old new : Node} {index : Nat}
    (hold : items[index]? = some old) (hnew : patternText? new = patternText? old) :
    patternsOf (items.set index new) = patternsOf items := by
  have htext : (items.map patternText?)[index]? = some (patternText? new) := by
    rw [List.getElem?_map, hold, hnew]
    rfl
  obtain ⟨hlt, heq⟩ := List.getElem?_eq_some_iff.1 htext
  rw [patternsOf_eq_map, patternsOf_eq_map, List.map_set, ← heq, List.set_getElem_self]

end RuleTidy.Tidy
