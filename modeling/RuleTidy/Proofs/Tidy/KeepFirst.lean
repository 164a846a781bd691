import RuleTidy.Proofs.Json.Value
import RuleTidy.Proofs.Pattern.Relation
import RuleTidy.Proofs.Tidy.Run

/-! Lists without return pairs. Such a list is left with the first alternative of each tree, in the
order in which they were, although its scan starts again after each removal. -/

namespace RuleTidy.Tidy

open Document Pattern Source Yaml

section KeepFirst

variable {α : Type} {same : α → α → Bool}

/-- The items that are not the same as any before them, those in `earlier` included. -/
def keepFirst (same : α → α → Bool) : List α → List α → List α
  | _, [] => []
  | earlier, item :: rest =>
    if earlier.any (same · item) then keepFirst same (item :: earlier) rest
    else item :: keepFirst same (item :: earlier) rest

theorem keepFirst_congr {items earlier earlier' : List α}
    (h : ∀ item ∈ items, earlier.any (same · item) = earlier'.any (same · item)) :
    keepFirst same earlier items = keepFirst same earlier' items := by
  induction items generalizing earlier earlier' with
  | nil => rfl
  | cons item rest ih =>
      obtain ⟨hitem, hrest⟩ := List.forall_mem_cons.1 h
      have hstep : keepFirst same (item :: earlier) rest = keepFirst same (item :: earlier') rest :=
        ih fun other hother => by rw [List.any_cons, List.any_cons, hrest other hother]
      rw [keepFirst, keepFirst, hitem, hstep]

theorem keepFirst_eraseIdx_of_mem
    (htrans : ∀ a b c, same a b = true → same b c = true → same a c = true)
    {items earlier : List α} {first second : α} {n : Nat} (hfirst : first ∈ earlier)
    (hsecond : items[n]? = some second) (h : same first second = true) :
    keepFirst same earlier (items.eraseIdx n) = keepFirst same earlier items := by
  induction items generalizing earlier n with
  | nil => cases hsecond
  | cons item rest ih =>
      cases n with
      | zero =>
          obtain rfl : item = second := Option.some.inj hsecond
          have hseen : earlier.any (same · item) = true := List.any_eq_true.2 ⟨first, hfirst, h⟩
          rw [List.eraseIdx_cons_zero, keepFirst, if_pos hseen]
          apply keepFirst_congr
          intro other _
          rw [List.any_cons]
          cases hother : same item other with
          | false => rfl
          | true => exact List.any_eq_true.2 ⟨first, hfirst, htrans _ _ _ h hother⟩
      | succ n =>
          rw [List.eraseIdx_cons_succ, keepFirst, keepFirst,
            ih (List.mem_cons_of_mem _ hfirst) hsecond]

theorem keepFirst_eraseIdx
    (htrans : ∀ a b c, same a b = true → same b c = true → same a c = true)
    {items earlier : List α} {first second : α} {m n : Nat} (hlt : m < n)
    (hfirst : items[m]? = some first) (hsecond : items[n]? = some second)
    (h : same first second = true) :
    keepFirst same earlier (items.eraseIdx n) = keepFirst same earlier items := by
  induction items generalizing earlier m n with
  | nil => cases hfirst
  | cons item rest ih =>
      cases n with
      | zero => cases hlt
      | succ n =>
          have hrest : keepFirst same (item :: earlier) (rest.eraseIdx n) =
              keepFirst same (item :: earlier) rest := by
            cases m with
            | zero =>
                obtain rfl : first = item := (Option.some.inj hfirst).symm
                exact keepFirst_eraseIdx_of_mem htrans List.mem_cons_self hsecond h
            | succ m => exact ih (Nat.lt_of_succ_lt_succ hlt) hfirst hsecond
          rw [List.eraseIdx_cons_succ, keepFirst, keepFirst, hrest]

theorem keepFirst_of_pairwise {items earlier : List α}
    (h : items.Pairwise fun a b => same a b = false)
    (hearlier : ∀ item ∈ items, earlier.any (same · item) = false) :
    keepFirst same earlier items = items := by
  induction items generalizing earlier with
  | nil => rfl
  | cons item rest ih =>
      obtain ⟨hitem, hrest⟩ := List.pairwise_cons.1 h
      obtain ⟨hfirst, hearlier⟩ := List.forall_mem_cons.1 hearlier
      have hseen : ∀ other ∈ rest, (item :: earlier).any (same · other) = false := by
        intro other hother
        rw [List.any_cons, hitem other hother, hearlier other hother, Bool.or_self]
      rw [keepFirst, hfirst, ih hrest hseen]
      rfl

theorem forall₂_keepFirst {R : α → α → Prop}
    (hsame : ∀ {a a' b b'}, R a a' → R b b' → same a' b' = same a b)
    {items items' earlier earlier' : List α} (hearlier : List.Forall₂ R earlier earlier')
    (h : List.Forall₂ R items items') :
    List.Forall₂ R (keepFirst same earlier items) (keepFirst same earlier' items') := by
  induction h generalizing earlier earlier' with
  | nil => exact .nil
  | @cons item item' rest rest' hitem _ ih =>
      have hseen : earlier'.any (same · item') = earlier.any (same · item) := by
        clear ih
        induction hearlier with
        | nil => rfl
        | cons hfirst _ ih => rw [List.any_cons, List.any_cons, hsame hfirst hitem, ih]
      have hrest := ih (.cons hitem hearlier)
      rw [keepFirst, keepFirst, hseen]
      split
      · exact hrest
      · exact .cons hitem hrest

end KeepFirst

variable {asts : AstSource Id} {maxPasses : Nat} {language : String}

/-! Alternatives by their trees. -/

def tree? (asts : AstSource Id) (language : String) (alternative : Node) : Option Ast :=
  (patternText? alternative).bind fun text => (asts language text).run.run.toOption

def sameTree (asts : AstSource Id) (language : String) (a b : Node) : Bool :=
  match tree? asts language a, tree? asts language b with
  | some tree, some tree' => tree == tree'
  | _, _ => false

theorem tree?_eq_some {alternative : Node} {text : String} {ast : Ast}
    (htext : patternText? alternative = some text) (hast : (asts language text).run.run = .ok ast) :
    tree? asts language alternative = some ast := by
  rw [tree?, htext, Option.bind_some, hast]
  rfl

theorem sameTree_trans (a b c : Node) (hab : sameTree asts language a b = true)
    (hbc : sameTree asts language b c = true) : sameTree asts language a c = true := by
  unfold sameTree at *
  cases ha : tree? asts language a with
  | none => simp [ha] at hab
  | some x =>
      cases hb : tree? asts language b with
      | none => simp [hb] at hbc
      | some y =>
          cases hc : tree? asts language c with
          | none => simp [hc] at hbc
          | some z =>
              simp only [ha, hb, hc] at hab hbc ⊢
              exact Json.beq_trans hab hbc

theorem sameTree_congr {a a' b b' : Node} (ha : patternText? a' = patternText? a)
    (hb : patternText? b' = patternText? b) :
    sameTree asts language a' b' = sameTree asts language a b := by
  unfold sameTree tree?
  rw [ha, hb]

/-- No two alternatives of a list are a return pair. -/
def WithoutReturnPair (asts : AstSource Id) (language : String) (items : List Node) : Prop :=
  (items.filterMap patternText?).Pairwise fun first second =>
    ∀ side rewritten,
      (classify asts language first second).run.run ≠ .ok (.returnPaired side rewritten)

theorem map_snd_patternsOf (items : List Node) :
    (patternsOf items).map Prod.snd = items.filterMap patternText? := by
  have hitems : items.filterMap patternText? =
      (items.zipIdx.map Prod.fst).filterMap patternText? := by rw [List.zipIdx_map_fst]
  rw [hitems, patternsOf, List.map_filterMap, List.filterMap_map]
  congr 1
  funext entry
  cases h : patternText? entry.1 <;> simp [h]

theorem WithoutReturnPair.sublist {items rest : List Node}
    (h : WithoutReturnPair asts language items) (hrest : rest.Sublist items) :
    WithoutReturnPair asts language rest :=
  List.Pairwise.sublist (hrest.filterMap patternText?) h

theorem Trims.exists_eraseIdx {items after : List Node} (h : Trims asts language items after)
    (hpairs : WithoutReturnPair asts language items) :
    ∃ (m n : Nat) (first second : Node), m < n ∧ items[m]? = some first ∧
      items[n]? = some second ∧ sameTree asts language first second = true ∧
      after = items.eraseIdx n := by
  obtain ⟨pair, hpair, rfl⟩ := h
  obtain ⟨first, second, text, text', hrelates⟩ := Pair.relates_of_firstRelatedAmong hpair
  have hclassified := hrelates.classified
  have hnot : ∀ side rewritten, pair.relation ≠ .returnPaired side rewritten := by
    obtain ⟨left, right, hsublist, hclassify, -⟩ := firstRelatedAmong_eq_some hpair
    have htexts := hsublist.map Prod.snd
    rw [map_snd_patternsOf] at htexts
    intro side rewritten hrelation
    rw [hrelation] at hclassify
    have htwo := List.Pairwise.sublist htexts hpairs
    exact List.rel_of_pairwise_cons htwo List.mem_cons_self side rewritten hclassify
  refine ⟨pair.first, pair.second, first, second, hrelates.lt, hrelates.firstAt,
    hrelates.secondAt, ?_, ?_⟩
  · cases hrelation : pair.relation with
    | different => exact absurd hrelation hrelates.related
    | returnPaired side rewritten => exact absurd hrelation (hnot side rewritten)
    | same =>
        rw [hrelation] at hclassified
        obtain ⟨a, b, ha, hb, hsame⟩ := classify_eq_same hclassified
        rw [sameTree, tree?_eq_some hrelates.firstText ha, tree?_eq_some hrelates.secondText hb]
        exact hsame
  · unfold trimmed
    cases hrelation : pair.relation with
    | different => exact absurd hrelation hrelates.related
    | returnPaired side rewritten => exact absurd hrelation (hnot side rewritten)
    | same => rfl

theorem pairwise_sameTree {items : List Node}
    (h : (firstRelatedAmong asts language (patternsOf items)).run.run = .ok none) :
    items.Pairwise fun a b => sameTree asts language a b = false := by
  rw [firstRelatedAmong_eq_none, ← List.pairwise_map (f := Prod.snd)
    (R := fun a b => (classify asts language a b).run.run = .ok .different), map_snd_patternsOf,
    List.pairwise_filterMap] at h
  refine h.imp fun {a b} hab => ?_
  unfold sameTree
  split
  · next tree tree' htree htree' =>
      obtain ⟨text, htext, hast⟩ := Option.bind_eq_some_iff.1 htree
      obtain ⟨text', htext', hast'⟩ := Option.bind_eq_some_iff.1 htree'
      obtain ⟨x, y, hx, hy, hdiffer⟩ := classify_eq_different (hab text htext text' htext')
      rw [toOption_eq_some, hx] at hast
      rw [toOption_eq_some, hy] at hast'
      rwa [← Except.ok.inj hast, ← Except.ok.inj hast']
  · rfl

theorem keepFirst_of_trims {items after : List Node}
    (h : Relation.ReflTransGen (Trims asts language) items after)
    (hpairs : WithoutReturnPair asts language items)
    (hdone : (firstRelatedAmong asts language (patternsOf after)).run.run = .ok none) :
    keepFirst (sameTree asts language) [] items = after := by
  induction h using Relation.ReflTransGen.head_induction_on with
  | refl => exact keepFirst_of_pairwise (pairwise_sameTree hdone) fun _ _ => rfl
  | head htrims _ ih =>
      obtain ⟨m, n, first, second, hlt, hfirst, hsecond, hsame, rfl⟩ :=
        htrims.exists_eraseIdx hpairs
      rw [← ih (hpairs.sublist (List.eraseIdx_sublist ..)),
        keepFirst_eraseIdx sameTree_trans hlt hfirst hsecond hsame]

end RuleTidy.Tidy
