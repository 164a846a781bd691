import RuleTidy.Proofs.Pattern.Relation
import RuleTidy.Proofs.Tidy.Pair

/-! How far the edits of a document get. Tidying goes from list to list and in each of them from
edit to edit, and where it stops, it has come there by edits alone. -/

namespace RuleTidy.Tidy

open Document Pattern Source Yaml

variable {asts : AstSource Id} {target : Target} {maxPasses : Nat}

inductive Edits (asts : AstSource Id) (target : Target) : Nat → Progress → Progress → Prop
  | refl (p : Progress) : Edits asts target 0 p p
  | head {n : Nat} {p next after : Progress} {pair : Pair}
      (found : (firstRelated asts p.document.root target).run.run = .ok (some pair))
      (merged : (mergePair asts target p pair).run.run = .ok next)
      (rest : Edits asts target n next after) : Edits asts target (n + 1) p after

/-- A state of a document in which some lists have been tidied, and a number of edits of the next
one have been made. -/
def Reaches (asts : AstSource Id) (maxPasses : Nat) (d : Document) (target : Target) (n : Nat)
    (p : Progress) : Prop :=
  ∃ before rest q, targets d.root = before ++ target :: rest ∧
    (fixLists asts maxPasses before { document := d }).run.run = .ok q ∧
    Edits asts target n q p

theorem run_lookup_eq_error {α : Type} {x : ExceptT LookupError Id α} {e : Error} :
    (lookup x).run.run = .error e ↔ ∃ l, x.run.run = .error l ∧ .lookup l = e :=
  mapError_eq_error

theorem fixList_eq_error {passes : Nat} {p : Progress} {e : Error}
    (h : (fixList asts maxPasses target passes p).run.run = .error e) :
    ∃ n q, Edits asts target n p q ∧
      ((∃ l, e = .lookup l) ∨
        ∃ pair, (firstRelated asts q.document.root target).run.run = .ok (some pair) ∧
          (n < passes ∧ (mergePair asts target q pair).run.run = .error e ∨
            n = passes ∧ e = .inconsistent (.stillRelated target.path maxPasses)
              ((q.document.root.at? target.path).map (·.span)))) := by
  induction passes generalizing p with
  | zero =>
      rw [fixList] at h
      rcases run_bind_eq_error.1 h with h | ⟨found, hfound, h⟩
      · obtain ⟨l, -, rfl⟩ := run_lookup_eq_error.1 h
        exact ⟨0, p, .refl p, .inl ⟨l, rfl⟩⟩
      · cases found with
        | none => cases h
        | some pair =>
            exact ⟨0, p, .refl p,
              .inr ⟨pair, run_lookup_eq_ok.1 hfound, .inr ⟨rfl, (Except.error.inj h).symm⟩⟩⟩
  | succ left ih =>
      rw [fixList] at h
      rcases run_bind_eq_error.1 h with h | ⟨found, hfound, h⟩
      · obtain ⟨l, -, rfl⟩ := run_lookup_eq_error.1 h
        exact ⟨0, p, .refl p, .inl ⟨l, rfl⟩⟩
      · cases found with
        | none => cases h
        | some pair =>
            rcases run_bind_eq_error.1 h with h | ⟨next, hnext, h⟩
            · exact ⟨0, p, .refl p,
                .inr ⟨pair, run_lookup_eq_ok.1 hfound, .inl ⟨Nat.succ_pos left, h⟩⟩⟩
            · obtain ⟨n, q, hedits, hcause⟩ := ih h
              refine ⟨n + 1, q, .head (run_lookup_eq_ok.1 hfound) hnext hedits, ?_⟩
              simpa only [Nat.add_lt_add_iff_right, Nat.add_right_cancel_iff] using hcause

theorem fixLists_eq_error {lists : List Target} {p : Progress} {e : Error}
    (h : (fixLists asts maxPasses lists p).run.run = .error e) :
    ∃ before target rest q, lists = before ++ target :: rest ∧
      (fixLists asts maxPasses before p).run.run = .ok q ∧
      (fixList asts maxPasses target maxPasses q).run.run = .error e := by
  induction lists generalizing p with
  | nil => cases h
  | cons target rest ih =>
      rw [fixLists] at h
      rcases run_bind_eq_error.1 h with h | ⟨next, hnext, h⟩
      · exact ⟨[], target, rest, p, rfl, rfl, h⟩
      · obtain ⟨before, stopped, after, q, rfl, hq, he⟩ := ih h
        exact ⟨target :: before, stopped, after, q, rfl, run_bind_eq_ok.2 ⟨next, hnext, hq⟩, he⟩

/-! What can stop one edit. -/

theorem mergeReturn_eq_error {p : Progress} {list : Path} {returning other : Nat}
    {rewritten : String} {e : Error}
    (h : mergeReturn p list returning other rewritten = .error e) :
    ∃ refusal, e = .edit refusal := by
  rcases bind_eq_error.1 h with h | ⟨between, -, h⟩
  · obtain ⟨refusal, -, rfl⟩ := mapError_eq_error.1 h
    exact ⟨refusal, rfl⟩
  · rcases bind_eq_error.1 h with h | ⟨result, -, h⟩
    · obtain ⟨refusal, -, rfl⟩ := mapError_eq_error.1 h
      exact ⟨refusal, rfl⟩
    · cases h

theorem dropDuplicate_eq_error {p : Progress} {list : Path} {first second : Nat}
    {kept dropped : Node} {e : Error}
    (hkept : p.document.root.at? (list ++ [.index first]) = some kept)
    (hdropped : p.document.root.at? (list ++ [.index second]) = some dropped)
    (h : dropDuplicate p list first second = .error e) :
    (kept != dropped ∧ e = .inconsistent (.valuesDiffer list first second) dropped.span) ∨
      ∃ refusal, e = .edit refusal := by
  unfold dropDuplicate at h
  rw [alternativeAt_eq_ok.2 hkept, alternativeAt_eq_ok.2 hdropped] at h
  cases hdiffer : kept != dropped with
  | true =>
      simp only [hdiffer, bind, Except.bind, if_true] at h
      exact .inl ⟨rfl, (Except.error.inj h).symm⟩
  | false =>
      simp only [hdiffer, bind, Except.bind, Bool.false_eq_true, if_false] at h
      rcases bind_eq_error.1 h with h | ⟨result, -, h⟩
      · obtain ⟨refusal, -, rfl⟩ := mapError_eq_error.1 h
        exact .inr ⟨refusal, rfl⟩
      · cases h

theorem checkReturning_eq_ok {root node : Node} {language : String} {pattern : Path}
    {text : String} {ast : Ast} {e : Expression} (hnode : root.at? pattern = some node)
    (htext : node.text? = some text) (hreturn : hasReturn text = true)
    (hast : (asts language text).run.run = .ok ast)
    (hlast : ast.last?.bind (·.returned?) = some e) :
    (checkReturning asts root language pattern).run.run = .ok () := by
  have hreturning : returningText root pattern = .ok text := by
    simp [returningText, hnode, htext, hreturn]
  refine run_bind_eq_ok.2 ⟨text, hreturning, run_bind_eq_ok.2 ⟨ast, run_lookup_eq_ok.2 hast, ?_⟩⟩
  simp [hlast]

theorem checkReturning_of_returnPaired {root : Node} {pair : Pair} {side : Side}
    {rewritten : String} (hpair : (firstRelated asts root target).run.run = .ok (some pair))
    (hrelation : pair.relation = .returnPaired side rewritten) :
    (checkReturning asts root target.language
      (patternPath target.path (side.pick pair.first pair.second))).run.run = .ok () := by
  obtain ⟨info, items, first, second, text, text', hlist, hrelates⟩ := firstRelated_eq_some hpair
  have hclassified := hrelates.classified
  rw [hrelation] at hclassified
  obtain ⟨hreturn, ast, e, hast, hlast⟩ := classify_eq_returnPaired hclassified
  obtain ⟨node, hnode, htext⟩ : ∃ node,
      root.at? (patternPath target.path (side.pick pair.first pair.second)) = some node ∧
        node.text? = some (side.pick text text') := by
    cases side with
    | first => exact exists_at?_patternPath hlist hrelates.firstAt hrelates.firstText
    | second => exact exists_at?_patternPath hlist hrelates.secondAt hrelates.secondText
  exact checkReturning_eq_ok hnode htext hreturn hast hlast

def Clash (asts : AstSource Id) (target : Target) (root : Node) (first second : Nat)
    (kept dropped : Node) : Prop :=
  root.at? (target.path ++ [.index first]) = some kept ∧
    root.at? (target.path ++ [.index second]) = some dropped ∧ kept != dropped ∧
    ∃ text text' ast ast', patternText? kept = some text ∧ patternText? dropped = some text' ∧
      (asts target.language text).run.run = .ok ast ∧
      (asts target.language text').run.run = .ok ast' ∧ ast == ast'

/-- The edit of the pair that was found is stopped if the document refuses it, or by a contradiction
if the pair clashes. What the pair was found by answers all other checks. -/
theorem mergePair_eq_error {p : Progress} {pair : Pair} {e : Error}
    (hpair : (firstRelated asts p.document.root target).run.run = .ok (some pair))
    (h : (mergePair asts target p pair).run.run = .error e) :
    (∃ refusal, e = .edit refusal) ∨
      ∃ kept dropped, Clash asts target p.document.root pair.first pair.second kept dropped ∧
        e = .inconsistent (.valuesDiffer target.path pair.first pair.second) (some dropped.span) := by
  obtain ⟨info, items, kept, dropped, text, text', hlist, hrelates⟩ := firstRelated_eq_some hpair
  have hkept := at?_alternative hlist hrelates.firstAt
  have hdropped := at?_alternative hlist hrelates.secondAt
  have hclassified := hrelates.classified
  unfold mergePair at h
  cases hrelation : pair.relation with
  | different => exact absurd hrelation hrelates.related
  | same =>
      rw [hrelation] at h hclassified
      obtain ⟨ast, ast', hast, hast', hsame⟩ := classify_eq_same hclassified
      rcases dropDuplicate_eq_error hkept hdropped h with ⟨hdiffer, heq⟩ | hrefused
      · exact .inr ⟨kept, dropped, ⟨hkept, hdropped, hdiffer, text, text', ast, ast',
          hrelates.firstText, hrelates.secondText, hast, hast', hsame⟩, heq⟩
      · exact .inl hrefused
  | returnPaired side rewritten =>
      rw [hrelation] at h
      have hcheck := checkReturning_of_returnPaired hpair hrelation
      rcases run_bind_eq_error.1 h with h | ⟨_, -, h⟩
      · rw [hcheck] at h
        cases h
      · exact .inl (mergeReturn_eq_error h)

theorem fixDocument_eq_error {d : Document} {e : Error}
    (h : (fixDocument asts maxPasses d).run.run = .error e) :
    (∃ l, e = .lookup l) ∨ (∃ refusal, e = .edit refusal) ∨
      ∃ target n p pair, Reaches asts maxPasses d target n p ∧
        (firstRelated asts p.document.root target).run.run = .ok (some pair) ∧
        ((∃ kept dropped, Clash asts target p.document.root pair.first pair.second kept dropped ∧
            e = .inconsistent (.valuesDiffer target.path pair.first pair.second)
              (some dropped.span)) ∨
          n = maxPasses ∧ e = .inconsistent (.stillRelated target.path maxPasses)
            ((p.document.root.at? target.path).map (·.span))) := by
  rcases run_bind_eq_error.1 h with h | ⟨_, -, h⟩
  · obtain ⟨before, target, rest, q, htargets, hq, h⟩ := fixLists_eq_error h
    obtain ⟨n, p, hedits, hcause⟩ := fixList_eq_error h
    have hreaches : Reaches asts maxPasses d target n p := ⟨before, rest, q, htargets, hq, hedits⟩
    rcases hcause with hlookup | ⟨pair, hpair, ⟨-, h⟩ | hleft⟩
    · exact .inl hlookup
    · rcases mergePair_eq_error hpair h with hrefused | hclash
      · exact .inr (.inl hrefused)
      · exact .inr (.inr ⟨target, n, p, pair, hreaches, hpair, .inl hclash⟩)
    · exact .inr (.inr ⟨target, n, p, pair, hreaches, hpair, .inr hleft⟩)
  · cases h

theorem fixDocument_eq_inconsistent {d : Document} {cause : Inconsistency} {span : Option Span}
    (h : (fixDocument asts maxPasses d).run.run = .error (.inconsistent cause span)) :
    ∃ target n p pair, Reaches asts maxPasses d target n p ∧
      (firstRelated asts p.document.root target).run.run = .ok (some pair) ∧
      ((∃ kept dropped, Clash asts target p.document.root pair.first pair.second kept dropped ∧
          cause = .valuesDiffer target.path pair.first pair.second ∧
          span = some dropped.span) ∨
        n = maxPasses ∧ cause = .stillRelated target.path maxPasses ∧
          span = (p.document.root.at? target.path).map (·.span)) := by
  rcases fixDocument_eq_error h with ⟨l, heq⟩ | ⟨refusal, heq⟩ |
    ⟨target, n, p, pair, hreaches, hpair, ⟨kept, dropped, hclash, heq⟩ | ⟨hn, heq⟩⟩
  · cases heq
  · cases heq
  · exact ⟨target, n, p, pair, hreaches, hpair,
      .inl ⟨kept, dropped, hclash, Error.inconsistent.inj heq⟩⟩
  · exact ⟨target, n, p, pair, hreaches, hpair, .inr ⟨hn, Error.inconsistent.inj heq⟩⟩

end RuleTidy.Tidy
