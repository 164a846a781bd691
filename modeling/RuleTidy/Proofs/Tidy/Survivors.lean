import Mathlib.Data.List.InsertIdx
import RuleTidy.Proofs.Pattern.Relation
import RuleTidy.Proofs.Tidy.Run

/-! What is left of one list. Some alternatives survive, in their order, and a survivor is as it was
or has lost the keyword of its pattern. It loses no other one then, since what remains of the
pattern does not end in a return statement. -/

namespace RuleTidy.Tidy

open Pattern Source Yaml

variable {asts : AstSource Id} {language : String}

/-- An alternative that is left: the index at which it stood, the alternative with nothing but its
pattern revised, and the alternative as it is now. -/
structure Survivor where
  index : Nat
  own : Node
  now : Node

inductive Revised (asts : AstSource Id) (language : String) (old : Node) : Node → Prop
  | same : Revised asts language old old
  | stripped {text rest : String} (pattern : patternText? old = some text)
      (strips : Strips asts language text rest) : Revised asts language old (withPattern rest old)

/-- Survivors of a list stand in their order, all alternatives without a pattern are among them, and
there are some if there was an alternative. -/
structure Thins (asts : AstSource Id) (language : String) (items : List Node)
    (survivors : List Survivor) : Prop where
  order : (survivors.map (·.index)).Pairwise (· < ·)
  revised : ∀ s ∈ survivors, ∃ old, items[s.index]? = some old ∧ Revised asts language old s.own
  patternless : ∀ (i : Nat) (old : Node), items[i]? = some old → patternText? old = none →
    ∃ s ∈ survivors, s.index = i
  nonempty : items ≠ [] → survivors ≠ []

/-! A list that has not been edited. -/

def allOf (items nows : List Node) : List Survivor :=
  (items.zip nows).mapIdx fun n (own, now) => ⟨n, own, now⟩

variable {items nows : List Node}

theorem getElem?_allOf {n : Nat} {s : Survivor} :
    (allOf items nows)[n]? = some s ↔
      n = s.index ∧ items[n]? = some s.own ∧ nows[n]? = some s.now := by
  obtain ⟨index, own, now⟩ := s
  simp only [allOf, List.getElem?_mapIdx, Option.map_eq_some_iff, Prod.exists,
    List.getElem?_zip_eq_some, Survivor.mk.injEq]
  constructor
  · rintro ⟨_, _, ⟨hown, hnow⟩, rfl, rfl, rfl⟩
    exact ⟨rfl, hown, hnow⟩
  · rintro ⟨rfl, hown, hnow⟩
    exact ⟨own, now, ⟨hown, hnow⟩, rfl, rfl, rfl⟩

theorem mem_allOf {s : Survivor} :
    s ∈ allOf items nows ↔ items[s.index]? = some s.own ∧ nows[s.index]? = some s.now := by
  rw [List.mem_iff_getElem?]
  constructor
  · rintro ⟨n, hs⟩
    obtain ⟨rfl, hown, hnow⟩ := getElem?_allOf.1 hs
    exact ⟨hown, hnow⟩
  · exact fun h => ⟨s.index, getElem?_allOf.2 ⟨rfl, h⟩⟩

theorem map_now_allOf (h : nows.length = items.length) :
    (allOf items nows).map (·.now) = nows := by
  rw [allOf, List.mapIdx_eq_zipIdx_map, List.map_map]
  have hsnd : (items.zip nows).map Prod.snd = nows := List.map_snd_zip (Nat.le_of_eq h)
  rw [← List.zipIdx_map_fst 0 (items.zip nows), List.map_map] at hsnd
  exact hsnd

theorem map_index_allOf (items nows : List Node) :
    (allOf items nows).map (·.index) = List.range' 0 (items.zip nows).length := by
  rw [allOf, List.mapIdx_eq_zipIdx_map, List.map_map, ← List.zipIdx_map_snd]
  rfl

theorem thins_allOf (h : nows.length = items.length) :
    Thins asts language items (allOf items nows) where
  order := by
    rw [map_index_allOf]
    exact List.pairwise_lt_range'
  revised s hs := ⟨s.own, (mem_allOf.1 hs).1, .same⟩
  patternless i old hold _ := by
    have hlt : i < nows.length := h ▸ (List.getElem?_eq_some_iff.1 hold).1
    exact ⟨⟨i, old, nows[i]⟩, mem_allOf.2 ⟨hold, List.getElem?_eq_getElem hlt⟩, rfl⟩
  nonempty hne hnone := by
    have hnows := map_now_allOf h
    rw [hnone] at hnows
    rw [← hnows] at h
    exact hne (List.eq_nil_of_length_eq_zero h.symm)

/-! One edit. -/

theorem patternText?_withPattern {alternative : Node} {old : String}
    (h : patternText? alternative = some old) (text : String) :
    patternText? (withPattern text alternative) = some text := by
  obtain ⟨pattern, hpattern, -⟩ := Option.bind_eq_some_iff.1 h
  have hchild : alternative.child? (.key "pattern") = some pattern := hpattern
  unfold withPattern
  rw [hpattern]
  exact congrArg (·.bind (·.text?)) (Node.child?_setChild_self _ hchild)

namespace Pair.Relates

variable {pair : Pair} {first second : Node} {text text' : String}

theorem strips_kept (h : pair.Relates asts language items first second text text') {side : Side}
    {rest : String} (hrelation : pair.relation = .returnPaired side rest) {item : Node}
    (hitem : items[pair.kept]? = some item) :
    ∃ own, patternText? item = some own ∧ Strips asts language own rest := by
  have hclassified := h.classified
  rw [hrelation] at hclassified
  have hstrips := strips_of_classify hclassified
  rw [Pair.kept, hrelation] at hitem
  cases side with
  | first =>
      obtain rfl := Option.some.inj (h.firstAt.symm.trans hitem)
      exact ⟨text, h.firstText, hstrips⟩
  | second =>
      obtain rfl := Option.some.inj (h.secondAt.symm.trans hitem)
      exact ⟨text', h.secondText, hstrips⟩

theorem revise_cases (h : pair.Relates asts language items first second text text') {n : Nat}
    {item : Node} (hitem : items[n]? = some item) :
    (∀ alternative, pair.revise n alternative = alternative) ∨
      ∃ own rest, patternText? item = some own ∧ Strips asts language own rest ∧
        ∀ alternative, pair.revise n alternative = withPattern rest alternative := by
  cases hrelation : pair.relation with
  | different => exact absurd hrelation h.related
  | same => exact .inl fun alternative => by simp only [Pair.revise, hrelation]
  | returnPaired side rest =>
      by_cases hn : n = pair.kept
      · obtain ⟨own, hown, hstrips⟩ := h.strips_kept hrelation (hn ▸ hitem)
        refine .inr ⟨own, rest, hown, hstrips, fun alternative => ?_⟩
        simp only [Pair.revise, hrelation, if_pos hn]
      · exact .inl fun alternative => by simp only [Pair.revise, hrelation, if_neg hn]

theorem getElem?_kept (h : pair.Relates asts language items first second text text') :
    ∃ item, items[pair.kept]? = some item := by
  unfold Pair.kept
  cases pair.relation with
  | different => exact ⟨first, h.firstAt⟩
  | same => exact ⟨first, h.firstAt⟩
  | returnPaired side rest =>
      cases side with
      | first => exact ⟨first, h.firstAt⟩
      | second => exact ⟨second, h.secondAt⟩

theorem getElem?_dropped (h : pair.Relates asts language items first second text text') :
    ∃ item own, items[pair.dropped]? = some item ∧ patternText? item = some own := by
  unfold Pair.dropped
  cases pair.relation with
  | different => exact ⟨second, text', h.secondAt, h.secondText⟩
  | same => exact ⟨second, text', h.secondAt, h.secondText⟩
  | returnPaired side rest =>
      cases side with
      | first => exact ⟨second, text', h.secondAt, h.secondText⟩
      | second => exact ⟨first, text, h.firstAt, h.firstText⟩

end Pair.Relates

def Survivor.revise (pair : Pair) (n : Nat) (s : Survivor) : Survivor :=
  ⟨s.index, pair.revise n s.own, pair.revise n s.now⟩

def thinned (survivors : List Survivor) (pair : Pair) : List Survivor :=
  (survivors.mapIdx (Survivor.revise pair)).eraseIdx pair.dropped

variable {survivors : List Survivor} {pair : Pair}

theorem mem_thinned {s : Survivor} :
    s ∈ thinned survivors pair ↔
      ∃ n old, n ≠ pair.dropped ∧ survivors[n]? = some old ∧ old.revise pair n = s := by
  simp only [thinned, List.mem_eraseIdx_iff_getElem?, List.getElem?_mapIdx, Option.map_eq_some_iff,
    exists_and_left]

theorem map_index_thinned (survivors : List Survivor) (pair : Pair) :
    (thinned survivors pair).map (·.index) = (survivors.map (·.index)).eraseIdx pair.dropped := by
  rw [thinned, ← List.eraseIdx_map]
  congr 1
  apply List.ext_getElem?
  intro n
  simp only [List.getElem?_map, List.getElem?_mapIdx, Option.map_map]
  rfl

theorem map_now_thinned (h : pair.relation ≠ .different) :
    (thinned survivors pair).map (·.now) = trimmed (survivors.map (·.now)) pair := by
  rw [Pair.trimmed_eq _ h, thinned, ← List.eraseIdx_map]
  congr 1
  apply List.ext_getElem?
  intro n
  simp only [List.getElem?_map, List.getElem?_mapIdx, Option.map_map]
  rfl

theorem Revised.strip {old own : Node} (h : Revised asts language old own) {text rest : String}
    (hpattern : patternText? own = some text) (hstrips : Strips asts language text rest) :
    Revised asts language old (withPattern rest own) := by
  cases h with
  | same => exact .stripped hpattern hstrips
  | stripped pattern strips =>
      -- What is left of the first pattern ends in an expression.
      rw [patternText?_withPattern pattern] at hpattern
      obtain rfl := Option.some.inj hpattern
      obtain ⟨_, _, hast, hlast⟩ := strips.evaluates
      exact absurd hstrips (not_strips_of_last? hast hlast)

theorem Revised.patternText?_eq_none {old own : Node} (h : Revised asts language old own)
    (hnone : patternText? old = none) : patternText? own = none := by
  cases h with
  | same => exact hnone
  | stripped pattern strips => exact absurd (pattern.symm.trans hnone) (by simp)

theorem Thins.thinned {first second : Node} {text text' : String}
    (h : Thins asts language items survivors)
    (hrelates : pair.Relates asts language (survivors.map (·.now)) first second text text')
    (hpattern : ∀ s ∈ survivors, patternText? s.now = patternText? s.own) :
    Thins asts language items (thinned survivors pair) where
  order := by
    rw [map_index_thinned]
    exact h.order.sublist (List.eraseIdx_sublist _ _)
  revised s hs := by
    obtain ⟨n, before, -, hbefore, rfl⟩ := mem_thinned.1 hs
    have hmem := List.mem_of_getElem? hbefore
    obtain ⟨old, hold, hrevised⟩ := h.revised before hmem
    have hnow : (survivors.map (·.now))[n]? = some before.now := by
      rw [List.getElem?_map, hbefore, Option.map_some]
    refine ⟨old, hold, ?_⟩
    rcases hrelates.revise_cases hnow with hsame | ⟨own, rest, hown, hstrips, hrest⟩
    · rwa [Survivor.revise, hsame]
    · rw [Survivor.revise, hrest]
      exact hrevised.strip ((hpattern before hmem).symm.trans hown) hstrips
  patternless i old hold hnone := by
    obtain ⟨s, hs, rfl⟩ := h.patternless i old hold hnone
    obtain ⟨n, hn⟩ := List.mem_iff_getElem?.1 hs
    refine ⟨s.revise pair n, mem_thinned.2 ⟨n, s, ?_, hn, rfl⟩, rfl⟩
    rintro rfl
    obtain ⟨item, own, hitem, hown⟩ := hrelates.getElem?_dropped
    rw [List.getElem?_map, hn, Option.map_some] at hitem
    obtain rfl := Option.some.inj hitem
    obtain ⟨old', hold', hrevised⟩ := h.revised s hs
    obtain rfl := Option.some.inj (hold'.symm.trans hold)
    rw [hpattern s hs, hrevised.patternText?_eq_none hnone] at hown
    cases hown
  nonempty _ := by
    obtain ⟨item, hitem⟩ := hrelates.getElem?_kept
    rw [List.getElem?_map, Option.map_eq_some_iff] at hitem
    obtain ⟨s, hs, -⟩ := hitem
    exact List.ne_nil_of_mem (mem_thinned.2 ⟨_, s, Pair.kept_ne_dropped hrelates.lt, hs, rfl⟩)

end RuleTidy.Tidy
